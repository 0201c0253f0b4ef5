import Mathlib.Tactic.Lemma
import InstallPolicy.Formula.Basic

/-!
Being well formed, node by node, and its decision.
-/

namespace InstallPolicy

lemma Atom.wellFormed_iff {a : Atom} :
    a.WellFormed ↔ a.literal.kind = a.key.kind ∧ a.key.supports a.operator = true ∧
      (a.hashed = true → a.key.kind = .text) :=
  ⟨fun h => ⟨h.kind, h.supports, h.hashed⟩, fun h => ⟨h.1, h.2.1, h.2.2⟩⟩

/-- Only texts stand hashed. -/
lemma Atom.WellFormed.hashed_eq_false {a : Atom} (hw : a.WellFormed)
    (h : a.literal.kind ≠ .text) : a.hashed = false :=
  Bool.eq_false_iff.2 fun hashed => h (hw.kind.trans (hw.hashed hashed))

instance : DecidablePred Atom.WellFormed := fun _ => decidable_of_iff _ Atom.wellFormed_iff.symm

namespace Formula

lemma wellFormed_atom_iff {a : Atom} : (atom a).WellFormed ↔ a.WellFormed :=
  ⟨fun | .atom h => h, .atom⟩

lemma wellFormed_compound_iff {c : Connector} {fs : List Formula} :
    (compound c fs).WellFormed ↔ c.Admits fs.length ∧ ∀ f ∈ fs, f.WellFormed :=
  ⟨fun | .compound hadmits h => ⟨hadmits, h⟩, fun h => .compound h.1 h.2⟩

lemma wellFormed_negate {f : Formula} (h : f.WellFormed) : f.negate.WellFormed :=
  .compound rfl (List.forall_mem_singleton.2 h)

mutual

def decideWellFormed : (f : Formula) → Decidable f.WellFormed
  | atom a => decidable_of_iff a.WellFormed wellFormed_atom_iff.symm
  | compound c fs =>
    haveI := decideAllWellFormed fs
    decidable_of_iff (c.Admits fs.length ∧ ∀ f ∈ fs, f.WellFormed) wellFormed_compound_iff.symm

def decideAllWellFormed : (fs : List Formula) → Decidable (∀ f ∈ fs, f.WellFormed)
  | [] => .isTrue nofun
  | f :: fs =>
    haveI := decideWellFormed f
    haveI := decideAllWellFormed fs
    decidable_of_iff (f.WellFormed ∧ ∀ g ∈ fs, g.WellFormed) List.forall_mem_cons.symm

end

instance : DecidablePred WellFormed := decideWellFormed

end Formula

end InstallPolicy
