import InstallPolicy.Proofs.Document.Limits
import InstallPolicy.Proofs.Document.Reader
import InstallPolicy.Proofs.Formula.WellFormed

/-!
Reading what was written.

From the bytes of any tree whose numbers fit their fields, reading makes what `Formula.check`
makes of the tree: it looks at each text before its atom is built, at the depth of a compound
before its children, and at the number of children last.
-/

namespace InstallPolicy

open Document

/-! ### Checking a tree -/

/-- The atom that is read where `a` is written. -/
def Atom.check : Atom → Except DecodeError Atom
  | ⟨key, operator, .text s, hashed⟩ =>
    if (Bytes.ofText s).length ≤ maxTextBytes then
      (build key operator (.text s) hashed).mapError .formula
    else .error (.stringTooLong (Bytes.ofText s).length)
  | ⟨key, operator, literal, _⟩ => (build key operator literal false).mapError .formula

namespace Formula

/-- The formula that is read where one is written, if `levels` compounds may stand one within the
other. -/
def check : (levels : ℕ) → Formula → Except DecodeError Formula
  | _, atom a => atom <$> a.check
  | 0, compound _ _ => .error (.depthLimitExceeded maxDepth)
  | levels + 1, compound c children => do
    let children ← children.mapM (check levels)
    (connect c children).mapError .formula

/-- Every number of bytes and of children fits the four bytes of its field. -/
inductive FitsFields : Formula → Prop where
  | atom {a : Atom} : (∀ s, a.literal = .text s → (Bytes.ofText s).length < UInt32.size) →
    FitsFields (atom a)
  | compound {c : Connector} {children : List Formula} : children.length < UInt32.size →
    (∀ f ∈ children, FitsFields f) → FitsFields (compound c children)

end Formula

def Rule.check (r : Rule) : Except DecodeError Rule :=
  (Rule.mk · r.effect) <$> r.formula.check maxDepth

namespace Document

lemma atomBytes_ne_nil (a : Atom) : atomBytes a ≠ [] := by
  unfold atomBytes
  split <;> simp

lemma nodeBytes_ne_nil (f : Formula) : nodeBytes f ≠ [] := by
  cases f with
  | atom a => exact atomBytes_ne_nil a
  | compound c children => simp [nodeBytes]

/-! ### Nodes -/

open Reader Input

variable {count : Reader ℕ} {compound child : Reader Formula} {above : ℕ}

/-- What stands before a literal is read alike whatever the literal is. -/
lemma reads_tagged {tag : UInt8} {key : Key} {operator : Operator} {literal : Bytes}
    {x : Except DecodeError Atom} (htag : tag ≠ compoundTag)
    (h : Reads (readAtom tag) ([keyByte key] ++ ([operatorByte operator] ++ literal)) x) :
    Reads (readTagged above compound) (tag :: keyByte key :: operatorByte operator :: literal)
      (Formula.atom <$> x) := by
  rw [readTagged_eq]
  refine (Reads.byte tag).bind_ok ?_
  rw [if_neg htag]
  exact h.map Formula.atom

lemma reads_atom {a : Atom} (h : ∀ s, a.literal = .text s → (Bytes.ofText s).length < UInt32.size) :
    Reads (readTagged above compound) (atomBytes a) (Formula.atom <$> a.check) := by
  obtain ⟨key, operator, literal, hashed⟩ := a
  have hkey := Reads.word Key.coded key
  have hoperator := Reads.word Operator.coded operator
  cases literal with
  | text s =>
    refine reads_tagged (by decide) (hkey.bind_ok (hoperator.bind_ok ?_))
    rw [if_pos rfl, Atom.check]
    by_cases hs : (Bytes.ofText s).length ≤ maxTextBytes
    · rw [if_pos hs]
      exact (Reads.text (by decide) hs).bind_ok ((Reads.flag hashed).bind_ok (Reads.checked _))
    · rw [if_neg hs]
      exact (Reads.text_of_gt (Nat.lt_of_not_le hs) (h s rfl)).bind_error
  | integer n =>
    refine reads_tagged (by decide) (hkey.bind_ok (hoperator.bind_ok ?_))
    rw [if_neg (by decide), if_pos rfl]
    exact (Reads.integer n).bind_last
      (y := fun n => (Atom.build key operator (.integer n) false).mapError .formula)
      fun n _ => Reads.checked _
  | boolean b =>
    refine reads_tagged (by decide) (hkey.bind_ok (hoperator.bind_ok ?_))
    rw [if_neg (by decide), if_neg (by decide), if_pos rfl]
    exact (Reads.flag b).bind_ok (Reads.checked _)

/-- The count belongs to the children, since a reader of it may look at how many bytes are left. -/
lemma readCompound_eq (count : Reader ℕ) (child : Reader Formula) :
    readCompound count child = (do
      let connector ← word Connector.ofCode
      let children ← count >>= many child
      checked (Formula.connect connector children)) := by
  simp only [readCompound, bind_assoc]

lemma reads_compound (hcount : Counts count) {c : Connector} {fs : List Formula}
    {x : Formula → Except DecodeError Formula} (hlength : fs.length < UInt32.size)
    (h : ∀ f ∈ fs, Reads child (nodeBytes f) (x f)) :
    Reads (readTagged above (readCompound count child)) (nodeBytes (.compound c fs)) (do
      let children ← fs.mapM x
      (Formula.connect c children).mapError .formula) := by
  have hchildren := Reads.counted hcount hlength (fun f _ => nodeBytes_ne_nil f) h
  rw [nodeBytes, nodesBytes_eq, readTagged_eq]
  refine (Reads.byte compoundTag).bind_ok ?_
  rw [if_pos rfl, readCompound_eq]
  refine (Reads.word Connector.coded c).bind_ok ?_
  exact hchildren.bind_last fun children _ => Reads.checked _

/-- **Reading the bytes of a tree is checking the tree.** -/
theorem reads_node (hcount : Counts count) (above levels : ℕ) {f : Formula} (h : f.FitsFields) :
    Reads (readNode count above levels) (nodeBytes f) (f.check levels) := by
  -- The reader recurs on the levels that are left, and the tree is bounded by its bytes only.
  induction levels generalizing above f with
  | zero =>
    cases h with
    | atom h => exact reads_atom h
    | compound _ _ =>
      rw [readNode, readTagged_eq]
      refine (Reads.byte compoundTag).bind_ok ?_
      rw [if_pos rfl]
      exact Reads.throw _ _
  | succ levels ih =>
    cases h with
    | atom h => exact reads_atom h
    | compound hlength h => exact reads_compound hcount hlength fun f hf => ih _ (h f hf)

lemma reads_version : Reads readVersion [version] (.ok ()) := fun _ => rfl

lemma reads_magic : Reads readMagic magic (.ok ()) := fun _ => rfl

/-! ### Documents -/

lemma reads_formulaDocument (hcount : Counts count) {f : Formula} (h : f.FitsFields) :
    Reads (readFormulaDocument count) (formulaDocument f) (f.check maxDepth) :=
  reads_version.bind_ok (reads_node hcount 0 maxDepth h)

lemma reads_rule (hcount : Counts count) {r : Rule} (h : r.formula.FitsFields) :
    Reads (readRule count) (ruleBytes r) r.check :=
  (Reads.word Effect.coded r.effect).bind_ok
    ((reads_node hcount 0 maxDepth h).map (Rule.mk · r.effect))

lemma reads_ruleDocument (hcount : Counts count) {r : Rule} (h : r.formula.FitsFields) :
    Reads (readRuleDocument count) (ruleDocument r) r.check :=
  reads_version.bind_ok (reads_rule hcount h)

lemma ruleBytes_ne_nil (r : Rule) : ruleBytes r ≠ [] := List.cons_ne_nil _ _

lemma reads_ruleListDocument (hcount : Counts count) {rs : List Rule}
    (hlength : rs.length < UInt32.size) (h : ∀ r ∈ rs, r.formula.FitsFields) :
    Reads (readRuleListDocument count) (ruleListDocument rs) (rs.mapM Rule.check) := by
  have hrules := Reads.counted hcount hlength (fun r _ => ruleBytes_ne_nil r)
    fun r hr => reads_rule hcount (h r hr)
  rw [ruleListDocument, List.append_assoc]
  exact reads_magic.bind_ok (reads_version.bind_ok hrules)

/-! ### What passes the check -/

lemma mapM_eq_ok {α ε : Type} {x : α → Except ε α} {as : List α} (h : ∀ a ∈ as, x a = .ok a) :
    as.mapM x = .ok as := by
  induction as with
  | nil => rfl
  | cons a as ih =>
    obtain ⟨ha, has⟩ := List.forall_mem_cons.1 h
    rw [List.mapM_cons, ha, ih has]
    rfl

lemma check_atom {a : Atom} (hw : a.WellFormed) (hf : a.fault? = none) : a.check = .ok a := by
  obtain ⟨key, operator, literal, hashed⟩ := a
  have hbuild := Atom.build_eq_ok_iff.2 ⟨rfl, hw⟩
  cases literal with
  | text s =>
    have hs : (Bytes.ofText s).length ≤ maxTextBytes := by simpa [Atom.fault?] using hf
    rw [Atom.check, if_pos hs, hbuild]
    rfl
  | integer n =>
    obtain rfl : hashed = false := hw.hashed_eq_false (by simp [Literal.kind])
    rw [Atom.check, hbuild]
    · rfl
    · simp
  | boolean b =>
    obtain rfl : hashed = false := hw.hashed_eq_false (by simp [Literal.kind])
    rw [Atom.check, hbuild]
    · rfl
    · simp

lemma check_node {levels above : ℕ} (h : above + levels = maxDepth) {f : Formula}
    (hw : f.WellFormed) (hv : f.violation? above = none) : f.check levels = .ok f := by
  induction f generalizing levels above with
  | atom a =>
    obtain ⟨hw⟩ := hw
    rw [Formula.violation?_atom] at hv
    cases levels <;> rw [Formula.check, check_atom hw hv] <;> rfl
  | compound c fs ih =>
    obtain _ | ⟨hadmits, hw⟩ := hw
    obtain ⟨habove, -, hv⟩ := Formula.violation?_compound_eq_none_iff.1 hv
    -- No fault above means that there is a level left for the children.
    obtain ⟨levels, rfl⟩ : ∃ n, levels = n + 1 := ⟨levels - 1, by omega⟩
    have hchildren : fs.mapM (Formula.check levels) = .ok fs :=
      mapM_eq_ok fun f hf =>
        ih f hf (show above + 1 + levels = maxDepth by omega) (hw f hf) (hv f hf)
    rw [Formula.check, hchildren]
    change (Formula.connect c fs).mapError _ = _
    rw [Formula.connect_eq_ok_iff.2 ⟨rfl, hadmits⟩]
    rfl

lemma fitsFields_of_violation? {above : ℕ} {f : Formula} (hv : f.violation? above = none) :
    f.FitsFields := by
  induction f generalizing above with
  | atom a =>
    rw [Formula.violation?_atom] at hv
    refine .atom fun s hs => ?_
    have : (Bytes.ofText s).length ≤ maxTextBytes := by simpa [Atom.fault?, hs] using hv
    exact Nat.lt_of_le_of_lt this (by decide)
  | compound c fs ih =>
    obtain ⟨-, hlength, hv⟩ := Formula.violation?_compound_eq_none_iff.1 hv
    exact .compound hlength fun f hf => ih f hf (hv f hf)

lemma check_rule {r : Rule} (hw : r.formula.WellFormed) (hv : r.formula.violation? 0 = none) :
    r.check = .ok r := by
  rw [Rule.check, check_node (Nat.zero_add maxDepth) hw hv]
  rfl

/-! ### Round trip -/

lemma decodeFormula_of_encodeFormula {f : Formula} {b : Bytes} (hw : f.WellFormed)
    (h : encodeFormula f = .ok b) : decodeFormula b = .ok f := by
  obtain ⟨hv, rfl⟩ := encodeFormula_eq_ok_iff.1 h
  have hreads := reads_formulaDocument counts_count (fitsFields_of_violation? hv)
  rw [decodeFormula, hreads.run, check_node (Nat.zero_add maxDepth) hw hv]

lemma decodeRule_of_encodeRule {r : Rule} {b : Bytes} (hw : r.formula.WellFormed)
    (h : encodeRule r = .ok b) : decodeRule b = .ok r := by
  obtain ⟨hv, rfl⟩ := encodeRule_eq_ok_iff.1 h
  have hreads := reads_ruleDocument counts_count (fitsFields_of_violation? hv)
  rw [decodeRule, hreads.run, check_rule hw hv]

lemma decodeRules_of_encodeRules {rs : List Rule} {b : Bytes} (hw : ∀ r ∈ rs, r.formula.WellFormed)
    (h : encodeRules rs = .ok b) : decodeRules b = .ok rs := by
  obtain ⟨⟨hlength, hv⟩, rfl⟩ := encodeRules_eq_ok_iff.1 h
  have hreads := reads_ruleListDocument counts_count hlength
    fun r hr => fitsFields_of_violation? (hv r hr)
  rw [decodeRules, hreads.run, mapM_eq_ok fun r hr => check_rule (hw r hr) (hv r hr)]

/-- **Whatever is written is read back as it was**: formulas, rules and lists of rules whose
formulas are well formed. -/
theorem decode_encode :
    (∀ f b, f.WellFormed → encodeFormula f = .ok b → decodeFormula b = .ok f) ∧
    (∀ r b, r.formula.WellFormed → encodeRule r = .ok b → decodeRule b = .ok r) ∧
    (∀ rs b, (∀ r ∈ rs, r.formula.WellFormed) → encodeRules rs = .ok b → decodeRules b = .ok rs) :=
  ⟨fun _ _ => decodeFormula_of_encodeFormula, fun _ _ => decodeRule_of_encodeRule,
    fun _ _ => decodeRules_of_encodeRules⟩

/-- A negation over a disjunction over a conjunction, with a text beyond ASCII, a hashed text and a
negative integer, and a second rule behind it. -/
theorem decode_encode_nested :
    let formula : Formula := .compound .not [.compound .or [
      .compound .and [.atom ⟨.installerName, .equal, .text "商店", false⟩,
        .atom ⟨.installerCertificate, .equal, .text "CERT", true⟩],
      .atom ⟨.versionCode, .greaterOrEqual, .integer (-3), false⟩]]
    let rules : List Rule :=
      [⟨formula, .deny⟩, ⟨.atom ⟨.preInstalled, .equal, .boolean true, false⟩, .allow⟩]
    (∃ b, encodeFormula formula = .ok b ∧ decodeFormula b = .ok formula) ∧
    (∃ b, encodeRule ⟨formula, .deny⟩ = .ok b ∧ decodeRule b = .ok ⟨formula, .deny⟩) ∧
    ∃ b, encodeRules rules = .ok b ∧ decodeRules b = .ok rules :=
  ⟨⟨_, rfl, decode_encode.1 _ _ (by decide) rfl⟩, ⟨_, rfl, decode_encode.2.1 _ _ (by decide) rfl⟩,
    ⟨_, rfl, decode_encode.2.2 _ _ (by decide) rfl⟩⟩

end Document

end InstallPolicy
