import Mathlib.Logic.Function.Iterate
import InstallPolicy.Proofs.Document.RoundTrip

/-!
Writing and reading draw the limits at the same places.

The bytes of the format exist for every tree whose numbers fit their fields. If no node of the tree
is at fault, they are what is written, and they are read back. Otherwise the first node at fault in
document order decides on both sides, and the reasons that are given are the same.
-/

namespace InstallPolicy

open Document

/-- The reasons not to write and not to read that share their name and their number. -/
inductive EncodeError.Mirrors : EncodeError → DecodeError → Prop where
  | stringTooLong (bytes : ℕ) : Mirrors (.stringTooLong bytes) (.stringTooLong bytes)
  | depthLimitExceeded (limit : ℕ) : Mirrors (.depthLimitExceeded limit) (.depthLimitExceeded limit)

namespace Document

open Reader

variable {α : Type}

/-! ### Nodes -/

/-- Where there is room for a compound, its first fault is that of its children. -/
lemma violation?_compound_of_room {above : ℕ} {c : Connector} {fs : List Formula}
    (habove : above < maxDepth) (hlength : fs.length < UInt32.size) :
    (Formula.compound c fs).violation? above = fs.findSome? (·.violation? (above + 1)) := by
  rw [Formula.violation?_compound, Formula.fault?, if_neg (Nat.not_le_of_lt habove),
    if_pos hlength, Option.none_or]

lemma mapM_eq_error {ε : Type} {x : α → Except ε α} {before after : List α} {a : α} {e : ε}
    (hbefore : ∀ b ∈ before, x b = .ok b) (ha : x a = .error e) :
    (before ++ a :: after).mapM x = .error e := by
  induction before with
  | nil =>
    rw [List.nil_append, List.mapM_cons, ha]
    rfl
  | cons b before ih =>
    obtain ⟨hb, hbefore⟩ := List.forall_mem_cons.1 hbefore
    rw [List.cons_append, List.mapM_cons, hb, ih hbefore]
    rfl

lemma check_atom_of_fault? {a : Atom} {V : EncodeError} (hv : a.fault? = some V) :
    ∃ e, V.Mirrors e ∧ a.check = .error e := by
  obtain ⟨key, operator, literal, hashed⟩ := a
  cases literal with
  | text s =>
    by_cases hs : (Bytes.ofText s).length ≤ maxTextBytes
    · simp [Atom.fault?, hs] at hv
    · obtain rfl : EncodeError.stringTooLong (Bytes.ofText s).length = V := by
        simpa [Atom.fault?, hs] using hv
      refine ⟨_, .stringTooLong _, ?_⟩
      rw [Atom.check, if_neg hs]
  | integer n => simp [Atom.fault?] at hv
  | boolean b => simp [Atom.fault?] at hv

/-- The check meets the nodes in the order in which faults are counted, and says of the first node
at fault what writing says of it. -/
lemma check_of_violation? {levels above : ℕ} (h : above + levels = maxDepth) {f : Formula}
    (hw : f.WellFormed) (hfits : f.FitsFields) {V : EncodeError}
    (hv : f.violation? above = some V) : ∃ e, V.Mirrors e ∧ f.check levels = .error e := by
  induction f generalizing levels above with
  | atom a =>
    rw [Formula.violation?_atom] at hv
    obtain ⟨e, hmirrors, he⟩ := check_atom_of_fault? hv
    refine ⟨e, hmirrors, ?_⟩
    cases levels <;> rw [Formula.check, he] <;> rfl
  | compound c fs ih =>
    obtain _ | ⟨-, hw⟩ := hw
    obtain _ | ⟨hlength, hfits⟩ := hfits
    cases levels with
    | zero =>
      have habove : maxDepth ≤ above := by omega
      rw [Formula.violation?_compound, Formula.fault?, if_pos habove, Option.some_or] at hv
      obtain rfl := Option.some.inj hv
      exact ⟨_, .depthLimitExceeded maxDepth, rfl⟩
    | succ levels =>
      have hchild : above + 1 + levels = maxDepth := by omega
      rw [violation?_compound_of_room (by omega) hlength] at hv
      -- The children before the first one with a fault pass, so the check comes to that one.
      obtain ⟨before, f, after, rfl, hf, hbefore⟩ := List.findSome?_eq_some_iff.1 hv
      have hmem : f ∈ before ++ f :: after := by simp
      obtain ⟨e, hmirrors, he⟩ := ih f hmem hchild (hw f hmem) (hfits f hmem) hf
      have hpass : ∀ g ∈ before, g.check levels = .ok g := fun g hg =>
        check_node hchild (hw g (List.mem_append_left _ hg)) (hbefore g hg)
      have hchildren : (before ++ f :: after).mapM (Formula.check levels) = .error e :=
        mapM_eq_error hpass he
      refine ⟨e, hmirrors, ?_⟩
      rw [Formula.check, hchildren]
      rfl

lemma check_rule_of_violation? {r : Rule} (hw : r.formula.WellFormed)
    (hfits : r.formula.FitsFields) {V : EncodeError} (hv : r.formula.violation? 0 = some V) :
    ∃ e, V.Mirrors e ∧ r.check = .error e := by
  obtain ⟨e, hmirrors, he⟩ := check_of_violation? (Nat.zero_add maxDepth) hw hfits hv
  refine ⟨e, hmirrors, ?_⟩
  rw [Rule.check, he]
  rfl

/-! ### Documents -/

/-- What writing makes of a value with the first fault `first?`, and what reading makes of the
bytes `raw` that the format has for it. -/
structure SameLimits (encode : α → Except EncodeError Bytes)
    (decode : Bytes → Except DecodeError α) (v : α) (raw : Bytes) (first? : Option EncodeError) :
    Prop where
  within : first? = none → encode v = .ok raw ∧ decode raw = .ok v
  beyond : ∀ V, first? = some V → encode v = .error V ∧ ∃ e, V.Mirrors e ∧ decode raw = .error e

lemma sameLimits_formula {f : Formula} (hw : f.WellFormed) (hfits : f.FitsFields) :
    SameLimits encodeFormula decodeFormula f (formulaDocument f) (f.violation? 0) where
  within hv := by
    have hencode : encodeFormula f = .ok (formulaDocument f) := encodeFormula_eq_ok_iff.2 ⟨hv, rfl⟩
    exact ⟨hencode, decodeFormula_of_encodeFormula hw hencode⟩
  beyond V hv := by
    have hread : decodeFormula (formulaDocument f) = f.check maxDepth :=
      (reads_formulaDocument counts_count hfits).run
    obtain ⟨e, hmirrors, he⟩ := check_of_violation? (Nat.zero_add maxDepth) hw hfits hv
    refine ⟨?_, e, hmirrors, hread.trans he⟩
    rw [encodeFormula_eq, hv]
    rfl

lemma sameLimits_rule {r : Rule} (hw : r.formula.WellFormed) (hfits : r.formula.FitsFields) :
    SameLimits encodeRule decodeRule r (ruleDocument r) (r.formula.violation? 0) where
  within hv := by
    have hencode : encodeRule r = .ok (ruleDocument r) := encodeRule_eq_ok_iff.2 ⟨hv, rfl⟩
    exact ⟨hencode, decodeRule_of_encodeRule hw hencode⟩
  beyond V hv := by
    have hread : decodeRule (ruleDocument r) = r.check :=
      (reads_ruleDocument counts_count hfits).run
    obtain ⟨e, hmirrors, he⟩ := check_rule_of_violation? hw hfits hv
    refine ⟨?_, e, hmirrors, hread.trans he⟩
    rw [encodeRule_eq, hv]
    rfl

lemma sameLimits_rules {rs : List Rule} (hlength : rs.length < UInt32.size)
    (hw : ∀ r ∈ rs, r.formula.WellFormed) (hfits : ∀ r ∈ rs, r.formula.FitsFields) :
    SameLimits encodeRules decodeRules rs (ruleListDocument rs)
      (rs.findSome? (·.formula.violation? 0)) where
  within hv := by
    have hnone := List.findSome?_eq_none_iff.1 hv
    have hencode : encodeRules rs = .ok (ruleListDocument rs) :=
      encodeRules_eq_ok_iff.2 ⟨⟨hlength, hnone⟩, rfl⟩
    exact ⟨hencode, decodeRules_of_encodeRules hw hencode⟩
  beyond V hv := by
    have hread : decodeRules (ruleListDocument rs) = rs.mapM Rule.check :=
      (reads_ruleListDocument counts_count hlength hfits).run
    have hencode : encodeRules rs = .error V := by
      rw [encodeRules_eq hlength, hv]
      rfl
    obtain ⟨before, r, after, rfl, hr, hbefore⟩ := List.findSome?_eq_some_iff.1 hv
    have hmem : r ∈ before ++ r :: after := by simp
    obtain ⟨e, hmirrors, he⟩ := check_rule_of_violation? (hw r hmem) (hfits r hmem) hr
    have hpass : ∀ r' ∈ before, r'.check = .ok r' := fun r' hr' =>
      check_rule (hw r' (List.mem_append_left _ hr')) (hbefore r' hr')
    exact ⟨hencode, e, hmirrors, hread.trans (mapM_eq_error hpass he)⟩

/-- **The limits are exact and the same on both sides**: for formulas, rules and lists of rules
whose formulas are well formed and whose numbers fit their fields. -/
theorem limits_symmetric :
    (∀ f : Formula, f.WellFormed → f.FitsFields →
      SameLimits encodeFormula decodeFormula f (formulaDocument f) (f.violation? 0)) ∧
    (∀ r : Rule, r.formula.WellFormed → r.formula.FitsFields →
      SameLimits encodeRule decodeRule r (ruleDocument r) (r.formula.violation? 0)) ∧
    ∀ rs : List Rule, rs.length < UInt32.size → (∀ r ∈ rs, r.formula.WellFormed) →
      (∀ r ∈ rs, r.formula.FitsFields) →
      SameLimits encodeRules decodeRules rs (ruleListDocument rs)
        (rs.findSome? (·.formula.violation? 0)) :=
  ⟨fun _ => sameLimits_formula, fun _ => sameLimits_rule, fun _ => sameLimits_rules⟩

/-! ### One limit against the other -/

lemma length_ofText_replicate (n : ℕ) :
    (Bytes.ofText (String.ofList (List.replicate n 'a'))).length = n := by
  have ha : 'a'.utf8Size = 1 := rfl
  simp [Bytes.ofText, List.utf8Encode, ha]

lemma fitsFields_negate {f : Formula} (h : f.FitsFields) : f.negate.FitsFields :=
  .compound (show 1 < UInt32.size by decide) (List.forall_mem_singleton.2 h)

lemma violation?_compound_of_head {above : ℕ} {c : Connector} {f : Formula} {fs : List Formula}
    {V : EncodeError} (habove : above < maxDepth) (hlength : (f :: fs).length < UInt32.size)
    (hv : f.violation? (above + 1) = some V) :
    (Formula.compound c (f :: fs)).violation? above = some V := by
  rw [violation?_compound_of_room habove hlength, List.findSome?_cons, hv]

/-- The negation below as many compounds as there may be is the first node at fault. -/
lemma violation?_iterate_negate {above n : ℕ} {f : Formula} (h : above ≤ maxDepth)
    (hn : maxDepth < above + n) :
    (Formula.negate^[n] f).violation? above = some (.depthLimitExceeded maxDepth) := by
  induction n generalizing above with
  | zero => omega
  | succ n ih =>
    rw [Function.iterate_succ_apply', Formula.negate]
    by_cases habove : maxDepth ≤ above
    · rw [Formula.violation?_compound, Formula.fault?, if_pos habove, Option.some_or]
    · exact violation?_compound_of_head (Nat.lt_of_not_le habove) (show 1 < UInt32.size by decide)
        (ih (by omega) (by omega))

/-- A text that is too long beside negations that are too many: the one that comes first is named,
in a formula and in the second rule of a list. -/
theorem limits_symmetric_first :
    let long : Formula :=
      .atom ⟨.appCertificate, .equal, .text (String.ofList (List.replicate 65537 'a')), false⟩
    let deep : Formula := Formula.negate^[257] .preInstalled
    let formula : Formula := .compound .or [long, deep]
    let rules : List Rule := [⟨.preInstalled, .allow⟩, ⟨.compound .and [deep, long], .deny⟩]
    (encodeFormula formula = .error (.stringTooLong 65537) ∧
      decodeFormula (formulaDocument formula) = .error (.stringTooLong 65537)) ∧
    encodeRules rules = .error (.depthLimitExceeded 256) ∧
      decodeRules (ruleListDocument rules) = .error (.depthLimitExceeded 256) := by
  have hs : (Bytes.ofText (String.ofList (List.replicate 65537 'a'))).length = 65537 :=
    length_ofText_replicate _
  generalize String.ofList (List.replicate 65537 'a') = s at hs ⊢
  intro long deep formula rules
  have hlong : long.WellFormed ∧ long.FitsFields := by
    refine ⟨.atom ⟨rfl, rfl, nofun⟩, .atom fun t ht => ?_⟩
    obtain rfl : s = t := Literal.text.inj ht
    rw [hs]
    decide
  have hinner : Formula.preInstalled.WellFormed ∧ Formula.preInstalled.FitsFields :=
    ⟨by decide, .atom fun t ht => by simp at ht⟩
  have hdeep : deep.WellFormed ∧ deep.FitsFields :=
    Function.Iterate.rec (motive := fun f : Formula => f.WellFormed ∧ f.FitsFields) hinner
      (fun _ h => ⟨Formula.wellFormed_negate h.1, fitsFields_negate h.2⟩) 257
  have hlongFirst : long.violation? 1 = some (.stringTooLong 65537) := by
    rw [Formula.violation?_atom, Atom.fault?]
    simp [hs, maxTextBytes]
  have hdeepFirst : deep.violation? 1 = some (.depthLimitExceeded 256) :=
    violation?_iterate_negate (by decide) (by decide)
  constructor
  · have hw : formula.WellFormed := .compound (show 2 ≤ 2 by decide) (by simp [hlong, hdeep])
    have hfits : formula.FitsFields :=
      .compound (show 2 < UInt32.size by decide) (by simp [hlong, hdeep])
    have hfirst : formula.violation? 0 = some (.stringTooLong 65537) :=
      violation?_compound_of_head (by decide) (show 2 < UInt32.size by decide) hlongFirst
    obtain ⟨hencode, _, hmirrors, hdecode⟩ := (limits_symmetric.1 formula hw hfits).beyond _ hfirst
    cases hmirrors
    exact ⟨hencode, hdecode⟩
  · have hsecond : (Formula.compound .and [deep, long]).violation? 0 =
        some (.depthLimitExceeded 256) :=
      violation?_compound_of_head (by decide) (show 2 < UInt32.size by decide) hdeepFirst
    have hw : (Formula.compound .and [deep, long]).WellFormed :=
      .compound (show 2 ≤ 2 by decide) (by simp [hlong, hdeep])
    have hfits : (Formula.compound .and [deep, long]).FitsFields :=
      .compound (show 2 < UInt32.size by decide) (by simp [hlong, hdeep])
    have hfirst : rules.findSome? (·.formula.violation? 0) = some (.depthLimitExceeded 256) := by
      simp [rules, hsecond, Formula.preInstalled, Atom.fault?]
    obtain ⟨hencode, _, hmirrors, hdecode⟩ :=
      (limits_symmetric.2.2 rules (show 2 < UInt32.size by decide) (by simp [rules, hinner, hw])
        (by simp [rules, hinner, hfits])).beyond _ hfirst
    cases hmirrors
    exact ⟨hencode, hdecode⟩

end Document

end InstallPolicy
