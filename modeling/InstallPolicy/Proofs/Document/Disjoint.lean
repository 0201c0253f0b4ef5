import Mathlib.Tactic.Set
import InstallPolicy.Proofs.Document.Canonical

/-!
No document is of two kinds.

A list of rules starts with another byte than formulas and rules do. These both start with the
version, and after it the effect of a rule can pass for the tag of a formula; but then every field
that follows is read one byte away from where it was written, and the lengths do not work out.
-/

namespace InstallPolicy

open Document

lemma Key.kind_eq_integer_iff {key : Key} : key.kind = .integer ↔ key = .versionCode := by
  cases key <;> simp [Key.kind]

lemma Key.kind_eq_boolean_iff {key : Key} : key.kind = .boolean ↔ key = .preInstalled := by
  cases key <;> simp [Key.kind]

lemma Connector.Admits.pos {c : Connector} {n : ℕ} (h : c.Admits n) : 0 < n := by
  cases c with
  | not => exact Nat.lt_of_lt_of_eq Nat.zero_lt_one (Eq.symm h)
  | and => exact Nat.lt_of_succ_le (Nat.le_of_succ_le h)
  | or => exact Nat.lt_of_succ_le (Nat.le_of_succ_le h)

/-- There are three forms of well formed atoms, one for each kind of literal. -/
lemma Atom.WellFormed.forms {a : Atom} (hw : a.WellFormed) :
    (∃ key s hashed, a = ⟨key, .equal, .text s, hashed⟩) ∨
    (∃ operator n, a = ⟨.versionCode, operator, .integer n, false⟩) ∨
    ∃ b, a = ⟨.preInstalled, .equal, .boolean b, false⟩ := by
  have hplain := hw.hashed_eq_false
  obtain ⟨key, operator, literal, hashed⟩ := a
  obtain ⟨hkind, hsupports, -⟩ := hw
  cases literal with
  | text s =>
    have hkind : key.kind = .text := hkind.symm
    obtain rfl : operator = .equal := by simpa [Key.supports, hkind] using hsupports
    exact .inl ⟨key, s, hashed, rfl⟩
  | integer n =>
    obtain rfl : hashed = false := hplain (by simp [Literal.kind])
    obtain rfl := Key.kind_eq_integer_iff.1 hkind.symm
    exact .inr (.inl ⟨operator, n, rfl⟩)
  | boolean b =>
    obtain rfl : hashed = false := hplain (by simp [Literal.kind])
    obtain rfl := Key.kind_eq_boolean_iff.1 hkind.symm
    obtain rfl : operator = .equal := by simpa [Key.supports, Key.kind] using hsupports
    exact .inr (.inr ⟨b, rfl⟩)

namespace Document

open Reader

/-! ### The least length of nodes -/

lemma four_le_length_nodeBytes (f : Formula) : 4 ≤ (nodeBytes f).length := by
  cases f with
  | atom a =>
    rw [nodeBytes, atomBytes]
    cases a.literal with
    | text s =>
      simp only [textBytes, countBytes, List.length_cons, List.length_append,
        Bytes.length_littleEndian, List.length_nil]
      omega
    | integer n => simp [integerBytes]
    | boolean b => simp
  | compound c fs =>
    simp only [nodeBytes, countBytes, List.length_cons, List.length_append,
      Bytes.length_littleEndian]
    omega

/-! ### Fields read one byte away -/

variable {key : Key} {s t : String} {b b' : UInt8} {f : Formula} {r : Rule}

lemma countBytes_injective {n m : ℕ} (hn : n < UInt32.size) (hm : m < UInt32.size)
    (h : countBytes n = countBytes m) : n = m := by
  have hvalue := congrArg Bytes.value h
  rwa [countBytes, countBytes, Bytes.value_littleEndian_of_lt hn,
    Bytes.value_littleEndian_of_lt hm] at hvalue

/-- A text that has the length of another one moved by a byte would have to be one byte shorter
than that one and two hundred and fifty-six times as short. -/
lemma cons_textBytes_ne (hs : (Bytes.ofText s).length ≤ maxTextBytes) :
    operatorByte .equal :: (textBytes t ++ [b']) ≠ textBytes s ++ [b] := by
  intro h
  set n := (Bytes.ofText s).length with hn
  set m := (Bytes.ofText t).length with hm
  have hlength : n = m + 1 := by
    have := congrArg List.length h
    simp only [textBytes, countBytes, List.length_cons, List.length_append,
      Bytes.length_littleEndian, List.length_nil] at this
    omega
  -- The first byte of the longer length is the operator, and the others are the shorter length.
  have hsplit : operatorByte .equal ::
        (Bytes.littleEndian 3 m ++ (UInt8.ofNat (m / 256 / 256 / 256) :: (Bytes.ofText t ++ [b']))) =
      UInt8.ofNat n :: (Bytes.littleEndian 3 (n / 256) ++ (Bytes.ofText s ++ [b])) := by
    simpa [textBytes, countBytes, Bytes.littleEndian] using h
  obtain ⟨hhead, htail⟩ := List.cons.inj hsplit
  obtain ⟨hthree, -⟩ := List.append_inj htail (by simp)
  have hzero : n % 256 = 0 := by
    have := congrArg UInt8.toNat hhead
    simpa [operatorByte, Operator.code, eq_comm] using this
  have hvalue := congrArg Bytes.value hthree
  rw [Bytes.value_littleEndian, Bytes.value_littleEndian] at hvalue
  have hbound : n ≤ 65536 := hs
  omega

/-- What follows the tag of a text atom is no node: the key would be its tag. -/
lemma nodeBytes_ne_of_text (hf : f.WellFormed) (hv : f.violation? 0 = none)
    (hs : (Bytes.ofText s).length ≤ maxTextBytes) :
    nodeBytes f ≠ keyByte key :: operatorByte .equal :: (textBytes s ++ [b]) := by
  intro h
  cases hf with
  | atom hw =>
    rcases hw.forms with ⟨key', t, hashed, rfl⟩ | ⟨operator, n, rfl⟩ | ⟨b', rfl⟩
    · obtain ⟨-, hrest⟩ := List.cons.inj h
      obtain ⟨-, hrest⟩ := List.cons.inj hrest
      exact cons_textBytes_ne hs hrest
    · obtain ⟨-, hrest⟩ := List.cons.inj h
      have hkey : keyByte .versionCode = operatorByte .equal := (List.cons.inj hrest).1
      exact absurd hkey (by decide)
    · obtain ⟨-, hrest⟩ := List.cons.inj h
      have hkey : keyByte .preInstalled = operatorByte .equal := (List.cons.inj hrest).1
      exact absurd hkey (by decide)
  | @compound c fs hadmits hw =>
    obtain ⟨-, hcount, -⟩ := Formula.violation?_compound_eq_none_iff.1 hv
    rw [nodeBytes, nodesBytes_eq, textBytes] at h
    obtain ⟨-, hrest⟩ := List.cons.inj h
    obtain ⟨-, hrest⟩ := List.cons.inj hrest
    rw [List.append_assoc] at hrest
    obtain ⟨hlength, hnodes⟩ := List.append_inj hrest (by simp [countBytes])
    have hsize : maxTextBytes < UInt32.size := by decide
    have hequal := countBytes_injective hcount (Nat.lt_of_le_of_lt hs hsize) hlength
    have hfour := mul_length_le_flatMap fun f (_ : f ∈ fs) => four_le_length_nodeBytes f
    rw [hnodes, List.length_append, List.length_singleton, ← hequal] at hfour
    have hpos := hadmits.pos
    omega

/-- A code of a key beyond those of the texts is no tag. -/
lemma nodeBytes_ne_of_versionCode (f : Formula) (bytes : Bytes) :
    nodeBytes f ≠ keyByte .versionCode :: bytes := by
  intro h
  cases f with
  | atom a =>
    rw [nodeBytes, atomBytes] at h
    cases hliteral : a.literal <;> rw [hliteral] at h <;>
      exact absurd (List.cons.inj h).1 (by decide)
  | compound c fs => exact absurd (List.cons.inj h).1 (by decide)

lemma tag_ne_effectByte (effect : Effect) :
    booleanTag ≠ effectByte effect ∧ compoundTag ≠ effectByte effect := by
  cases effect <;> decide

/-- A node is no rule: the effect would be its tag. -/
lemma nodeBytes_ne_ruleBytes (hf : f.WellFormed) (hv : f.violation? 0 = none)
    (hr : r.formula.WellFormed) (hrv : r.formula.violation? 0 = none) :
    nodeBytes f ≠ ruleBytes r := by
  intro h
  have htag := tag_ne_effectByte r.effect
  cases hf with
  | atom hw =>
    rcases hw.forms with ⟨key, s, hashed, rfl⟩ | ⟨operator, n, rfl⟩ | ⟨b, rfl⟩
    · have hs : (Bytes.ofText s).length ≤ maxTextBytes := by simpa [Atom.fault?] using hv
      exact nodeBytes_ne_of_text hr hrv hs (List.cons.inj h).2.symm
    · exact nodeBytes_ne_of_versionCode _ _ (List.cons.inj h).2.symm
    · exact htag.1 (List.cons.inj h).1
  | compound hadmits hw => exact htag.2 (List.cons.inj h).1

/-! ### Documents -/

lemma not_formula_and_rule {bytes : Bytes} :
    ¬ (decodeFormula bytes = .ok f ∧ decodeRule bytes = .ok r) := by
  rintro ⟨hformula, hrule⟩
  obtain ⟨⟨hf, hv⟩, rfl⟩ := (takes_formulaDocument counts_count).run hformula
  obtain ⟨⟨hr, hrv⟩, hbytes⟩ := (takes_ruleDocument counts_count).run hrule
  exact nodeBytes_ne_ruleBytes hf hv hr hrv (List.cons.inj hbytes).2

lemma not_formula_and_rules {bytes : Bytes} {rs : List Rule} :
    ¬ (decodeFormula bytes = .ok f ∧ decodeRules bytes = .ok rs) := by
  rintro ⟨hformula, hrules⟩
  obtain ⟨-, rfl⟩ := (takes_formulaDocument counts_count).run hformula
  obtain ⟨-, hbytes⟩ := (takes_ruleListDocument counts_count).run hrules
  exact absurd (List.cons.inj hbytes).1 (by decide)

lemma not_rule_and_rules {bytes : Bytes} {rs : List Rule} :
    ¬ (decodeRule bytes = .ok r ∧ decodeRules bytes = .ok rs) := by
  rintro ⟨hrule, hrules⟩
  obtain ⟨-, rfl⟩ := (takes_ruleDocument counts_count).run hrule
  obtain ⟨-, hbytes⟩ := (takes_ruleListDocument counts_count).run hrules
  exact absurd (List.cons.inj hbytes).1 (by decide)

lemma eq_error_of_ne_ok {α : Type} {x : Except DecodeError α} (h : ∀ a, x ≠ .ok a) :
    ∃ e, x = .error e := by
  cases x with
  | error e => exact ⟨e, rfl⟩
  | ok a => exact absurd rfl (h a)

/-- **No bytes are two documents**: of a formula, a rule and a list of rules at most one is read from
them, and what is written for a rule is refused as a formula and the other way round. -/
theorem documents_disjoint (bytes : Bytes) :
    (∀ f r, ¬ (decodeFormula bytes = .ok f ∧ decodeRule bytes = .ok r)) ∧
    (∀ f rs, ¬ (decodeFormula bytes = .ok f ∧ decodeRules bytes = .ok rs)) ∧
    (∀ r rs, ¬ (decodeRule bytes = .ok r ∧ decodeRules bytes = .ok rs)) ∧
    (∀ r, r.formula.WellFormed → encodeRule r = .ok bytes → ∃ e, decodeFormula bytes = .error e) ∧
    ∀ f, f.WellFormed → encodeFormula f = .ok bytes → ∃ e, decodeRule bytes = .error e := by
  refine ⟨fun _ _ => not_formula_and_rule, fun _ _ => not_formula_and_rules,
    fun _ _ => not_rule_and_rules, fun r hw hr => eq_error_of_ne_ok fun f hf => ?_,
    fun f hw hf => eq_error_of_ne_ok fun r hr => ?_⟩
  · exact not_formula_and_rule ⟨hf, decodeRule_of_encodeRule hw hr⟩
  · exact not_formula_and_rule ⟨decodeFormula_of_encodeFormula hw hf, hr⟩

/-- A rule over a conjunction of two atoms, which starts like a certificate of two bytes, and a
certificate that starts like a rule over a conjunction of four atoms. -/
theorem documents_disjoint_nearly :
    let rule : Rule := ⟨.compound .and [.preInstalled, .preInstalled], .deny⟩
    let formula : Formula := .installerCertificateIs "\x02\x05\x00\x01"
    (∃ e, decodeFormula [1, 0, 3, 0, 2, 0, 0, 0, 2, 5, 0, 1, 2, 5, 0, 1] = .error e) ∧
    (∃ e, decodeRule [1, 0, 3, 0, 4, 0, 0, 0, 2, 5, 0, 1, 0] = .error e) ∧
    encodeRule rule = .ok [1, 0, 3, 0, 2, 0, 0, 0, 2, 5, 0, 1, 2, 5, 0, 1] ∧
    encodeFormula formula = .ok [1, 0, 3, 0, 4, 0, 0, 0, 2, 5, 0, 1, 0] := by
  intro rule formula
  have hrule : encodeRule rule = .ok [1, 0, 3, 0, 2, 0, 0, 0, 2, 5, 0, 1, 2, 5, 0, 1] := rfl
  have hformula : encodeFormula formula = .ok [1, 0, 3, 0, 4, 0, 0, 0, 2, 5, 0, 1, 0] := rfl
  obtain ⟨-, -, -, hrefused, -⟩ := documents_disjoint _
  obtain ⟨-, -, -, -, hrefused'⟩ := documents_disjoint _
  exact ⟨hrefused rule (by decide) hrule, hrefused' formula (by decide) hformula, hrule, hformula⟩

end Document

end InstallPolicy
