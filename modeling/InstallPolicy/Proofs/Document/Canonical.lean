import InstallPolicy.Proofs.Document.RoundTrip

/-!
What is read was written.

A reader of nodes can only have taken the bytes of the format for the formula that it returns, and
that formula is well formed and has no node at fault. So every document that is accepted is the one
that is written for its value.
-/

namespace InstallPolicy.Document

open Reader Input

variable {count : Reader ℕ} {compound child : Reader Formula} {input rest : Bytes}

/-! ### Nodes -/

lemma readAtom_eq_ok {tag : UInt8} {a : Atom}
    (h : (readAtom tag : Reader Atom) input = .ok (a, rest)) :
    (a.WellFormed ∧ a.fault? = none) ∧ tag :: input = atomBytes a ++ rest := by
  simp only [readAtom, bind_eq_ok_iff, word_eq_ok_iff Key.coded,
    word_eq_ok_iff Operator.coded] at h
  obtain ⟨key, _, rfl, operator, _, rfl, h⟩ := h
  split at h
  · rename_i htag
    simp only [bind_eq_ok_iff, text_eq_ok_iff (show maxTextBytes < UInt32.size by decide),
      flag_eq_ok_iff, checked_eq_ok_iff, Atom.build_eq_ok_iff] at h
    obtain ⟨s, _, ⟨hs, rfl⟩, hashed, _, rfl, ⟨rfl, hw⟩, rfl⟩ := h
    exact ⟨⟨hw, by simp [Atom.fault?, hs]⟩, by simp [atomBytes, htag, keyByte, operatorByte]⟩
  split at h
  · rename_i htag
    simp only [bind_eq_ok_iff, integer_eq_ok_iff, checked_eq_ok_iff, Atom.build_eq_ok_iff] at h
    obtain ⟨n, _, rfl, ⟨rfl, hw⟩, rfl⟩ := h
    exact ⟨⟨hw, rfl⟩, by simp [atomBytes, htag, keyByte, operatorByte]⟩
  split at h
  · rename_i htag
    simp only [bind_eq_ok_iff, flag_eq_ok_iff, checked_eq_ok_iff, Atom.build_eq_ok_iff] at h
    obtain ⟨b, _, rfl, ⟨rfl, hw⟩, rfl⟩ := h
    exact ⟨⟨hw, rfl⟩, by simp [atomBytes, htag, keyByte, operatorByte]⟩
  · simp at h

lemma readCompound_eq_ok {P : Formula → Prop} (hcount : Counts count)
    (hchild : Takes child P nodeBytes) {f : Formula}
    (h : readCompound count child input = .ok (f, rest)) :
    ∃ c fs, f = .compound c fs ∧ c.Admits fs.length ∧ fs.length < UInt32.size ∧ (∀ g ∈ fs, P g) ∧
      compoundTag :: input = nodeBytes f ++ rest := by
  rw [readCompound_eq] at h
  obtain ⟨c, mid, hc, hrest⟩ := bind_eq_ok_iff.1 h
  obtain ⟨fs, mid', hfs, hchecked⟩ := bind_eq_ok_iff.1 hrest
  obtain ⟨hconnect, rfl⟩ := checked_eq_ok_iff.1 hchecked
  obtain ⟨rfl, hadmits⟩ := Formula.connect_eq_ok_iff.1 hconnect
  obtain rfl := (word_eq_ok_iff Connector.coded).1 hc
  obtain ⟨⟨hlength, hP⟩, rfl⟩ := hchild.counted hcount hfs
  exact ⟨c, fs, rfl, hadmits, hlength, hP, by simp [nodeBytes, connectorByte]⟩

lemma takes_tagged {above : ℕ} {P : Formula → Prop}
    (hatom : ∀ a : Atom, a.WellFormed → a.fault? = none → P (.atom a))
    (hcompound : ∀ {input rest f}, compound input = .ok (f, rest) →
      P f ∧ compoundTag :: input = nodeBytes f ++ rest) :
    Takes (readTagged above compound) P nodeBytes := by
  intro input rest f h
  rw [readTagged_eq] at h
  obtain ⟨tag, mid, htag, hbody⟩ := bind_eq_ok_iff.1 h
  obtain rfl := byte_eq_ok_iff.1 htag
  split at hbody
  · rename_i htag
    exact htag ▸ hcompound hbody
  · obtain ⟨a, _, ha, hf⟩ := bind_eq_ok_iff.1 hbody
    obtain ⟨rfl, rfl⟩ := pure_eq_ok_iff.1 hf
    obtain ⟨⟨hw, hf⟩, hinput⟩ := readAtom_eq_ok ha
    exact ⟨hatom a hw hf, hinput⟩

/-- A reader of nodes has taken the bytes of the formula that it returns, which is well formed and
has no fault. -/
lemma takes_node (hcount : Counts count) {levels above : ℕ} (h : above + levels = maxDepth) :
    Takes (readNode count above levels) (fun f => f.WellFormed ∧ f.violation? above = none)
      nodeBytes := by
  induction levels generalizing above with
  | zero =>
    refine takes_tagged (fun a hw hf => ⟨.atom hw, by rwa [Formula.violation?_atom]⟩) ?_
    intro input rest f hf
    simp at hf
  | succ levels ih =>
    refine takes_tagged (fun a hw hf => ⟨.atom hw, by rwa [Formula.violation?_atom]⟩) ?_
    intro input rest f hf
    -- A child stands below one compound more and has one level less.
    have hchild := ih (show above + 1 + levels = maxDepth by omega)
    obtain ⟨c, fs, rfl, hadmits, hlength, hfs, hinput⟩ := readCompound_eq_ok hcount hchild hf
    refine ⟨⟨.compound hadmits fun f hf => (hfs f hf).1, ?_⟩, hinput⟩
    exact Formula.violation?_compound_eq_none_iff.2
      ⟨by omega, hlength, fun f hf => (hfs f hf).2⟩

/-! ### Documents -/

lemma readVersion_eq_ok {u : Unit} (h : (readVersion : Reader Unit) input = .ok (u, rest)) :
    input = version :: rest := by
  obtain ⟨b, mid, hb, hversion⟩ := bind_eq_ok_iff.1 h
  obtain rfl := byte_eq_ok_iff.1 hb
  split at hversion
  · simp at hversion
  · rename_i hb
    obtain ⟨-, rfl⟩ := pure_eq_ok_iff.1 hversion
    rw [Decidable.not_not.1 hb]

lemma readMagic_eq_ok {u : Unit} (h : (readMagic : Reader Unit) input = .ok (u, rest)) :
    input = magic ++ rest := by
  obtain ⟨bytes, mid, hbytes, hmagic⟩ := bind_eq_ok_iff.1 h
  obtain ⟨-, rfl⟩ := take_eq_ok_iff.1 hbytes
  split at hmagic
  · simp at hmagic
  · rename_i hbytes
    obtain ⟨-, rfl⟩ := pure_eq_ok_iff.1 hmagic
    rw [Decidable.not_not.1 hbytes]

variable {α : Type} {P : α → Prop} {written : α → Bytes}

lemma takes_version {r : Reader α} (h : Takes r P written) :
    Takes (do readVersion; r) P (version :: written ·) := by
  intro input rest a ha
  obtain ⟨_, mid, hversion, ha'⟩ := bind_eq_ok_iff.1 ha
  obtain rfl := readVersion_eq_ok hversion
  obtain ⟨hP, rfl⟩ := h ha'
  exact ⟨hP, rfl⟩

lemma takes_formulaDocument (hcount : Counts count) :
    Takes (readFormulaDocument count) (fun f => f.WellFormed ∧ f.violation? 0 = none)
      formulaDocument :=
  takes_version (takes_node hcount (Nat.zero_add maxDepth))

lemma takes_rule (hcount : Counts count) :
    Takes (readRule count) (fun r => r.formula.WellFormed ∧ r.formula.violation? 0 = none)
      ruleBytes := by
  intro input rest r h
  obtain ⟨effect, mid, heffect, hbody⟩ := bind_eq_ok_iff.1 h
  obtain ⟨f, mid', hf, hr⟩ := bind_eq_ok_iff.1 hbody
  obtain ⟨rfl, rfl⟩ := pure_eq_ok_iff.1 hr
  obtain rfl := (word_eq_ok_iff Effect.coded).1 heffect
  obtain ⟨hP, rfl⟩ := takes_node hcount (Nat.zero_add maxDepth) hf
  exact ⟨hP, rfl⟩

lemma takes_ruleDocument (hcount : Counts count) :
    Takes (readRuleDocument count)
      (fun r => r.formula.WellFormed ∧ r.formula.violation? 0 = none) ruleDocument :=
  takes_version (takes_rule hcount)

lemma takes_ruleListDocument (hcount : Counts count) :
    Takes (readRuleListDocument count)
      (fun rs => rs.length < UInt32.size ∧
        ∀ r ∈ rs, r.formula.WellFormed ∧ r.formula.violation? 0 = none) ruleListDocument := by
  intro input rest rs h
  obtain ⟨_, mid, hmagic, hrs⟩ := bind_eq_ok_iff.1 h
  obtain rfl := readMagic_eq_ok hmagic
  obtain ⟨hP, rfl⟩ := takes_version ((takes_rule hcount).counted hcount) hrs
  exact ⟨hP, by simp [ruleListDocument]⟩

/-! ### Accepted documents -/

lemma encodeFormula_of_decodeFormula {b : Bytes} {f : Formula} (h : decodeFormula b = .ok f) :
    (f.WellFormed ∧ f.violation? 0 = none) ∧ encodeFormula f = .ok b := by
  obtain ⟨hP, rfl⟩ := (takes_formulaDocument counts_count).run h
  exact ⟨hP, encodeFormula_eq_ok_iff.2 ⟨hP.2, rfl⟩⟩

lemma encodeRule_of_decodeRule {b : Bytes} {r : Rule} (h : decodeRule b = .ok r) :
    (r.formula.WellFormed ∧ r.formula.violation? 0 = none) ∧ encodeRule r = .ok b := by
  obtain ⟨hP, rfl⟩ := (takes_ruleDocument counts_count).run h
  exact ⟨hP, encodeRule_eq_ok_iff.2 ⟨hP.2, rfl⟩⟩

lemma encodeRules_of_decodeRules {b : Bytes} {rs : List Rule} (h : decodeRules b = .ok rs) :
    (∀ r ∈ rs, r.formula.WellFormed ∧ r.formula.violation? 0 = none) ∧ encodeRules rs = .ok b := by
  obtain ⟨⟨hlength, hP⟩, rfl⟩ := (takes_ruleListDocument counts_count).run h
  exact ⟨hP, encodeRules_eq_ok_iff.2 ⟨⟨hlength, fun r hr => (hP r hr).2⟩, rfl⟩⟩

/-- Reading accepts exactly what writing produces for values that are well formed, and these are
within the limits: each of them has one document. -/
structure Canonical (encode : α → Except EncodeError Bytes)
    (decode : Bytes → Except DecodeError α) (WellFormed WithinLimits : α → Prop) : Prop where
  accepted : ∀ b v, decode b = .ok v → WellFormed v ∧ WithinLimits v ∧ encode v = .ok b
  injective : ∀ b b' v, decode b = .ok v → decode b' = .ok v → b = b'
  image : ∀ b, (∃ v, decode b = .ok v) ↔ ∃ v, WellFormed v ∧ encode v = .ok b

lemma Canonical.of_inverse {encode : α → Except EncodeError Bytes}
    {decode : Bytes → Except DecodeError α} {WellFormed WithinLimits : α → Prop}
    (accepted : ∀ {b v}, decode b = .ok v → WellFormed v ∧ WithinLimits v ∧ encode v = .ok b)
    (complete : ∀ {b v}, WellFormed v → encode v = .ok b → decode b = .ok v) :
    Canonical encode decode WellFormed WithinLimits where
  accepted _ _ := accepted
  injective _ _ _ h h' := Except.ok.inj ((accepted h).2.2.symm.trans (accepted h').2.2)
  image b := by
    constructor
    · rintro ⟨v, hv⟩
      exact ⟨v, (accepted hv).1, (accepted hv).2.2⟩
    · rintro ⟨v, hw, hv⟩
      exact ⟨v, complete hw hv⟩

/-- **What is accepted was written**: formula, rule and rule list documents are canonical. -/
theorem documents_canonical :
    Canonical encodeFormula decodeFormula Formula.WellFormed Formula.WithinLimits ∧
    Canonical encodeRule decodeRule (·.formula.WellFormed) (·.formula.WithinLimits) ∧
    Canonical encodeRules decodeRules (fun rs => ∀ r ∈ rs, r.formula.WellFormed)
      (fun rs => ∀ r ∈ rs, r.formula.WithinLimits) := by
  refine ⟨.of_inverse (fun h => ?_) decodeFormula_of_encodeFormula,
    .of_inverse (fun h => ?_) decodeRule_of_encodeRule,
    .of_inverse (fun h => ?_) decodeRules_of_encodeRules⟩
  · obtain ⟨⟨hw, hv⟩, he⟩ := encodeFormula_of_decodeFormula h
    exact ⟨hw, .of_violation? hv, he⟩
  · obtain ⟨⟨hw, hv⟩, he⟩ := encodeRule_of_decodeRule h
    exact ⟨hw, .of_violation? hv, he⟩
  · obtain ⟨hP, he⟩ := encodeRules_of_decodeRules h
    exact ⟨fun r hr => (hP r hr).1, fun r hr => .of_violation? (hP r hr).2, he⟩

/-- A conjunction with a text beyond ASCII below a disjunction, alone and in the first of two rules:
the documents are accepted, so they are the ones written. -/
theorem documents_canonical_nested :
    let formula : Formula := .compound .or [
      .compound .and [.installerCertificateIs "é", .negate .preInstalled], .preInstalled]
    let rules : List Rule := [⟨formula, .deny⟩, ⟨.preInstalled, .allow⟩]
    let node : Bytes := [3, 1, 2, 0, 0, 0, 3, 0, 2, 0, 0, 0, 0, 3, 0, 2, 0, 0, 0, 195, 169, 0,
      3, 2, 1, 0, 0, 0, 2, 5, 0, 1, 2, 5, 0, 1]
    let list : Bytes := [65, 73, 82, 76, 1, 2, 0, 0, 0, 0] ++ node ++ [1, 2, 5, 0, 1]
    decodeFormula (1 :: node) = .ok formula ∧ encodeFormula formula = .ok (1 :: node) ∧
    decodeRules list = .ok rules ∧ encodeRules rules = .ok list := by
  intro formula rules node list
  have hformula : decodeFormula (1 :: node) = .ok formula := rfl
  have hrules : decodeRules list = .ok rules := rfl
  obtain ⟨hcanonical, -, hcanonicalRules⟩ := documents_canonical
  exact ⟨hformula, (hcanonical.accepted _ _ hformula).2.2, hrules,
    (hcanonicalRules.accepted _ _ hrules).2.2⟩

end InstallPolicy.Document
