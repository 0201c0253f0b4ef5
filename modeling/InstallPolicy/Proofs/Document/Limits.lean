import InstallPolicy.Document.Encode
import InstallPolicy.Proofs.Formula.Tree

/-!
When writing refuses a formula, and what it writes otherwise.

Each node can be at fault by itself: an atom by the length of its text, a compound by the number
of compounds above it or by the number of its children. Writing gives the bytes of the format if
no node is at fault, and the fault of the first such node in document order if there is one.
-/

namespace InstallPolicy

open Document

/-! ### Faults -/

def Atom.fault? (a : Atom) : Option EncodeError :=
  match a.literal with
  | .text s =>
    if (Bytes.ofText s).length ≤ maxTextBytes then none
    else some (.stringTooLong (Bytes.ofText s).length)
  | _ => none

namespace Formula

/-- What is wrong with the size or the place of a node below `above` compounds, apart from what
is wrong with its children. -/
def fault? (above : ℕ) : Formula → Option EncodeError
  | atom a => a.fault?
  | compound _ children =>
    if maxDepth ≤ above then some (.depthLimitExceeded maxDepth)
    else if children.length < UInt32.size then none
    else some (.tooManyElements children.length)

/-- The fault of the first node at fault in a formula below `above` compounds. -/
def violation? (above : ℕ) (f : Formula) : Option EncodeError :=
  (f.nodes above).findSome? fun node => node.2.fault? node.1

@[simp] lemma violation?_atom (above : ℕ) (a : Atom) :
    violation? above (atom a) = a.fault? := by
  simp [violation?, nodes, fault?]

lemma findSome?_nodes (above : ℕ) (fs : List Formula) :
    (fs.flatMap (nodes above)).findSome? (fun node => node.2.fault? node.1) =
      fs.findSome? (violation? above) := by
  induction fs with
  | nil => rfl
  | cons f fs ih =>
    rw [List.flatMap_cons, List.findSome?_append, ih, List.findSome?_cons]
    change (violation? above f).or _ = _
    cases violation? above f <;> rfl

lemma violation?_compound (above : ℕ) (c : Connector) (fs : List Formula) :
    violation? above (compound c fs) =
      ((compound c fs).fault? above).or (fs.findSome? (violation? (above + 1))) := by
  rw [violation?, nodes, nodesOf_eq, List.findSome?_cons, ← findSome?_nodes]
  cases fault? above (compound c fs) <;> rfl

lemma violation?_compound_eq_none_iff {above : ℕ} {c : Connector} {fs : List Formula} :
    violation? above (compound c fs) = none ↔
      above < maxDepth ∧ fs.length < UInt32.size ∧ ∀ f ∈ fs, violation? (above + 1) f = none := by
  rw [violation?_compound, Option.or_eq_none_iff, List.findSome?_eq_none_iff, ← and_assoc]
  refine and_congr_left fun _ => ?_
  rw [fault?]
  split
  · simp
    omega
  split
  · simp
    omega
  · simp
    omega

/-- A formula is no deeper and its texts are no longer than documents allow. -/
structure WithinLimits (f : Formula) : Prop where
  depth : f.depth ≤ maxDepth
  texts : ∀ a ∈ f.leaves, ∀ s, a.literal = .text s → (Bytes.ofText s).length ≤ maxTextBytes

lemma depth_le_of_violation? {levels above : ℕ} (h : above + levels = maxDepth) {f : Formula}
    (hv : f.violation? above = none) : f.depth ≤ levels := by
  induction f generalizing levels above with
  | atom a => exact Nat.zero_le levels
  | compound c fs ih =>
    obtain ⟨habove, -, hfs⟩ := violation?_compound_eq_none_iff.1 hv
    obtain ⟨levels, rfl⟩ : ∃ n, levels = n + 1 := ⟨levels - 1, by omega⟩
    have hdepth : depthOf fs ≤ levels := depthOf_le_iff.2 fun f hf =>
      ih f hf (show above + 1 + levels = maxDepth by omega) (hfs f hf)
    exact Nat.succ_le_succ hdepth

lemma fault?_of_mem_leaves {above : ℕ} {f : Formula} (hv : f.violation? above = none) {a : Atom}
    (ha : a ∈ f.leaves) : a.fault? = none := by
  induction f generalizing above with
  | atom b =>
    obtain rfl := List.mem_singleton.1 ha
    exact (violation?_atom above a).symm.trans hv
  | compound c fs ih =>
    obtain ⟨-, -, hfs⟩ := violation?_compound_eq_none_iff.1 hv
    obtain ⟨f, hf, ha⟩ := mem_leaves_compound.1 ha
    exact ih f hf (hfs f hf) ha

lemma WithinLimits.of_violation? {f : Formula} (hv : f.violation? 0 = none) :
    f.WithinLimits where
  depth := depth_le_of_violation? (Nat.zero_add maxDepth) hv
  texts a ha s hs := by simpa [Atom.fault?, hs] using fault?_of_mem_leaves hv ha

end Formula

/-! ### Writing -/

namespace Document

variable {α : Type}

lemma elim_ok_error_eq_ok_iff {o : Option EncodeError} {x b : Bytes} :
    o.elim (.ok x) Except.error = .ok b ↔ o = none ∧ b = x := by
  cases o <;> simp [eq_comm]

/-- Where each element is written or refused for its own fault, so is a list of them, which is
refused for the fault of the first element at fault. -/
lemma writeEach_eq {write : α → Except EncodeError Bytes}
    (writeEach : List α → Except EncodeError Bytes) (nil : writeEach [] = .ok [])
    (cons : ∀ x xs, writeEach (x :: xs) = do return (← write x) ++ (← writeEach xs))
    {fault? : α → Option EncodeError} {written : α → Bytes} {xs : List α}
    (h : ∀ x ∈ xs, write x = (fault? x).elim (.ok (written x)) .error) :
    writeEach xs = (xs.findSome? fault?).elim (.ok (xs.flatMap written)) .error := by
  induction xs with
  | nil => exact nil
  | cons x xs ih =>
    obtain ⟨hx, hxs⟩ := List.forall_mem_cons.1 h
    rw [cons, hx, ih hxs, List.findSome?_cons]
    cases fault? x with
    | some e => rfl
    | none => cases xs.findSome? fault? <;> rfl

lemma writeText_eq (s : String) :
    writeText s =
      if (Bytes.ofText s).length ≤ maxTextBytes then .ok (textBytes s)
      else .error (.stringTooLong (Bytes.ofText s).length) := by
  by_cases hs : (Bytes.ofText s).length ≤ maxTextBytes
  · have hcount : (Bytes.ofText s).length < UInt32.size := Nat.lt_of_le_of_lt hs (by decide)
    rw [writeText, if_pos hs, if_pos hs, writeCount, if_pos hcount]
    rfl
  · rw [writeText, if_neg hs, if_neg hs]

lemma writeAtom_eq (a : Atom) : writeAtom a = a.fault?.elim (.ok (atomBytes a)) .error := by
  unfold writeAtom Atom.fault? atomBytes
  cases a.literal with
  | text s =>
    simp only [writeText_eq]
    split <;> rfl
  | integer n => rfl
  | boolean b => rfl

/-- A node is written as the format says, or refused for its first fault in document order. -/
lemma writeNode_eq {levels above : ℕ} (h : above + levels = maxDepth) (f : Formula) :
    writeNode levels f = (f.violation? above).elim (.ok (nodeBytes f)) .error := by
  -- The writer counts levels down where the faults count compounds up; their sum stays.
  induction f generalizing levels above with
  | atom a =>
    rw [Formula.violation?_atom]
    cases levels <;> exact writeAtom_eq a
  | compound c fs ih =>
    cases levels with
    | zero =>
      have habove : maxDepth ≤ above := by omega
      rw [writeNode, Formula.violation?_compound, Formula.fault?, if_pos habove]
      rfl
    | succ levels =>
      have habove : ¬ maxDepth ≤ above := by omega
      have hnodes := writeEach_eq (writeNodes levels) (by rfl) (fun _ _ => by rfl)
        fun f hf => ih f hf (show above + 1 + levels = maxDepth by omega)
      rw [writeNode, hnodes, Formula.violation?_compound, Formula.fault?, if_neg habove, writeCount]
      by_cases hlength : fs.length < UInt32.size
      · rw [if_pos hlength, if_pos hlength, Option.none_or]
        cases fs.findSome? (·.violation? (above + 1)) with
        | some e => rfl
        | none => simp [nodeBytes, pure, Except.pure, bind, Except.bind]
      · rw [if_neg hlength, if_neg hlength]
        rfl

/-! ### Documents -/

lemma encodeFormula_eq (f : Formula) :
    encodeFormula f = (f.violation? 0).elim (.ok (formulaDocument f)) .error := by
  rw [encodeFormula, writeNode_eq (Nat.zero_add maxDepth)]
  cases f.violation? 0 <;> rfl

lemma writeRule_eq (r : Rule) :
    writeRule r = (r.formula.violation? 0).elim (.ok (ruleBytes r)) .error := by
  rw [writeRule, writeNode_eq (Nat.zero_add maxDepth)]
  cases r.formula.violation? 0 <;> rfl

lemma encodeRule_eq (r : Rule) :
    encodeRule r = (r.formula.violation? 0).elim (.ok (ruleDocument r)) .error := by
  rw [encodeRule, writeRule_eq]
  cases r.formula.violation? 0 <;> rfl

lemma encodeRules_eq {rs : List Rule} (h : rs.length < UInt32.size) :
    encodeRules rs =
      (rs.findSome? (·.formula.violation? 0)).elim (.ok (ruleListDocument rs)) .error := by
  have hrules := writeEach_eq writeRules (by rfl) (fun _ _ => by rfl)
    fun r (_ : r ∈ rs) => writeRule_eq r
  rw [encodeRules, hrules, writeCount, if_pos h]
  cases rs.findSome? (·.formula.violation? 0) <;> rfl

lemma encodeFormula_eq_ok_iff {f : Formula} {b : Bytes} :
    encodeFormula f = .ok b ↔ f.violation? 0 = none ∧ b = formulaDocument f := by
  rw [encodeFormula_eq, elim_ok_error_eq_ok_iff]

lemma encodeRule_eq_ok_iff {r : Rule} {b : Bytes} :
    encodeRule r = .ok b ↔ r.formula.violation? 0 = none ∧ b = ruleDocument r := by
  rw [encodeRule_eq, elim_ok_error_eq_ok_iff]

lemma encodeRules_eq_ok_iff {rs : List Rule} {b : Bytes} :
    encodeRules rs = .ok b ↔
      (rs.length < UInt32.size ∧ ∀ r ∈ rs, r.formula.violation? 0 = none) ∧
        b = ruleListDocument rs := by
  by_cases h : rs.length < UInt32.size
  · rw [encodeRules_eq h, elim_ok_error_eq_ok_iff, List.findSome?_eq_none_iff]
    simp only [h, true_and]
  · rw [encodeRules, writeCount, if_neg h]
    exact ⟨nofun, fun h' => absurd h'.1.1 h⟩

end Document

end InstallPolicy
