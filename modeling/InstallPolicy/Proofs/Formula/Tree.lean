import Mathlib.Data.Nat.Notation
import Mathlib.Tactic.Lemma
import InstallPolicy.Formula.Basic

/-!
The tree of a formula: its atoms from left to right, how deep its compounds stand within each
other, its nodes in the order in which a document lists them, and the same tree with other atoms.
-/

namespace InstallPolicy.Formula

/-! ### Leaves -/

mutual

/-- The atoms of a formula, from left to right. -/
def leaves : Formula → List Atom
  | atom a => [a]
  | compound _ children => leavesOf children

def leavesOf : List Formula → List Atom
  | [] => []
  | f :: fs => leaves f ++ leavesOf fs

end

@[simp] lemma leavesOf_eq (fs : List Formula) : leavesOf fs = fs.flatMap leaves := by
  induction fs with
  | nil => rfl
  | cons f fs ih => simp [leavesOf, ih]

lemma mem_leaves_compound {connector : Connector} {children : List Formula} {a : Atom} :
    a ∈ (compound connector children).leaves ↔ ∃ f ∈ children, a ∈ f.leaves := by
  rw [leaves, leavesOf_eq, List.mem_flatMap]

/-- An atom stands at a leaf of a formula, under a number of compounds. -/
inductive HasLeaf (a : Atom) : Formula → ℕ → Prop where
  | atom : HasLeaf a (.atom a) 0
  | compound {connector : Connector} {children : List Formula} {f : Formula} {n : ℕ} :
    f ∈ children → HasLeaf a f n → HasLeaf a (.compound connector children) (n + 1)

lemma mem_leaves_iff {a : Atom} {f : Formula} : a ∈ f.leaves ↔ ∃ n, f.HasLeaf a n := by
  constructor
  · intro h
    induction f with
    | atom b =>
      obtain rfl := List.mem_singleton.1 h
      exact ⟨0, .atom⟩
    | compound connector children ih =>
      obtain ⟨f, hf, ha⟩ := mem_leaves_compound.1 h
      obtain ⟨n, hn⟩ := ih f hf ha
      exact ⟨n + 1, .compound hf hn⟩
  · rintro ⟨n, h⟩
    induction h with
    | atom => exact List.mem_cons_self
    | compound hf _ ih => exact mem_leaves_compound.2 ⟨_, hf, ih⟩

/-! ### Depth -/

mutual

/-- The most compounds that stand one within the other. -/
def depth : Formula → ℕ
  | atom _ => 0
  | compound _ children => depthOf children + 1

def depthOf : List Formula → ℕ
  | [] => 0
  | f :: fs => max (depth f) (depthOf fs)

end

lemma depthOf_le_iff {fs : List Formula} {n : ℕ} : depthOf fs ≤ n ↔ ∀ f ∈ fs, depth f ≤ n := by
  induction fs with
  | nil => simp [depthOf]
  | cons f fs ih => rw [depthOf, Nat.max_le, ih, List.forall_mem_cons]

/-! ### Nodes -/

mutual

/-- The nodes of a formula from the root on, children in order, each with the number of compounds
above it. -/
def nodes : (above : ℕ) → Formula → List (ℕ × Formula)
  | above, atom a => [(above, atom a)]
  | above, compound connector children =>
    (above, compound connector children) :: nodesOf (above + 1) children

def nodesOf : (above : ℕ) → List Formula → List (ℕ × Formula)
  | _, [] => []
  | above, f :: fs => nodes above f ++ nodesOf above fs

end

@[simp] lemma nodesOf_eq (above : ℕ) (fs : List Formula) :
    nodesOf above fs = fs.flatMap (nodes above) := by
  induction fs with
  | nil => rfl
  | cons f fs ih => simp [nodesOf, ih]

/-! ### Other atoms -/

mutual

def mapAtoms (p : Atom → Atom) : Formula → Formula
  | atom a => atom (p a)
  | compound connector children => compound connector (mapAtomsOf p children)

def mapAtomsOf (p : Atom → Atom) : List Formula → List Formula
  | [] => []
  | f :: fs => mapAtoms p f :: mapAtomsOf p fs

end

@[simp] lemma mapAtomsOf_eq (p : Atom → Atom) (fs : List Formula) :
    mapAtomsOf p fs = fs.map (mapAtoms p) := by
  induction fs with
  | nil => rfl
  | cons f fs ih => simp [mapAtomsOf, ih]

end InstallPolicy.Formula
