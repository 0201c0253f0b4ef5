import InstallPolicy.Proofs.Document.Building
import InstallPolicy.Proofs.Formula.Matching

/-!
Duality of formulas.

In the dual of a formula conjunctions and disjunctions change places at all depths, negations stay,
and every leaf is negated. The dual is well formed if the formula is, and it holds of exactly those
subjects of which the formula does not.
-/

namespace InstallPolicy

/-- Conjunctions and disjunctions change places, negations stay. -/
def Connector.dual : Connector → Connector
  | and => or
  | or => and
  | not => not

@[simp] lemma Connector.dual_admits {c : Connector} {n : ℕ} : c.dual.Admits n ↔ c.Admits n := by
  cases c <;> rfl

namespace Formula

variable {f : Formula} {fs : List Formula} {s : Subject}

mutual

/-- The formula with all its connectors turned into their duals and all its leaves negated. -/
def dual : Formula → Formula
  | atom a => negate (atom a)
  | compound connector children => compound connector.dual (dualEach children)

def dualEach : List Formula → List Formula
  | [] => []
  | f :: fs => dual f :: dualEach fs

end

@[simp] lemma dualEach_eq (fs : List Formula) : dualEach fs = fs.map dual := by
  induction fs with
  | nil => rfl
  | cons f fs ih => simp [dualEach, ih]

/-! ### The dual can be built -/

lemma build_of_wellFormed (h : f.WellFormed) : f.build = .ok f := by
  induction f with
  | atom a =>
    rw [build, Atom.build_eq_ok_iff.2 ⟨rfl, wellFormed_atom_iff.1 h⟩]
    rfl
  | compound connector children ih =>
    obtain ⟨hadmits, hw⟩ := wellFormed_compound_iff.1 h
    have hchildren : children.mapM build = .ok children :=
      Document.mapM_eq_ok fun g hg => ih g hg (hw g hg)
    rw [build, buildAll_eq, hchildren]
    exact connect_eq_ok_iff.2 ⟨rfl, hadmits⟩

lemma wellFormed_dual (h : f.WellFormed) : f.dual.WellFormed := by
  induction f with
  | atom a => exact wellFormed_negate h
  | compound connector children ih =>
    obtain ⟨hadmits, hw⟩ := wellFormed_compound_iff.1 h
    rw [dual, dualEach_eq]
    refine .compound ?_ fun g hg => ?_
    · rwa [List.length_map, Connector.dual_admits]
    · obtain ⟨child, hchild, rfl⟩ := List.mem_map.1 hg
      exact ih child hchild (hw child hchild)

/-! ### The dual holds where the formula does not -/

section Children

variable {p : Formula → Formula}

lemma any_map_of_opposite (h : ∀ f ∈ fs, (p f).holds s = !f.holds s) :
    (fs.map p).any (holds s) = !fs.all (holds s) := by
  calc (fs.map p).any (holds s) = fs.any fun f => !f.holds s := by
        rw [List.any_map]
        exact any_eq_of_mem h
    _ = !fs.all (holds s) := List.not_all_eq_any_not.symm

lemma all_map_of_opposite (h : ∀ f ∈ fs, (p f).holds s = !f.holds s) :
    (fs.map p).all (holds s) = !fs.any (holds s) := by
  calc (fs.map p).all (holds s) = fs.all fun f => !f.holds s := by
        rw [List.all_map]
        exact all_eq_of_mem h
    _ = !fs.any (holds s) := List.not_any_eq_all_not.symm

/-- **De Morgan's laws**: with each child in the place of one that holds where it does not, the
dual connector makes a compound that holds where the first one does not. -/
lemma holds_compound_dual {connector : Connector} (hadmits : connector.Admits fs.length)
    (h : ∀ f ∈ fs, (p f).holds s = !f.holds s) :
    (compound connector.dual (fs.map p)).holds s = !(compound connector fs).holds s := by
  cases connector with
  | and => rw [Connector.dual, holds, holds, anyHold_eq, allHold_eq, any_map_of_opposite h]
  | or => rw [Connector.dual, holds, holds, allHold_eq, anyHold_eq, all_map_of_opposite h]
  | not =>
    -- It takes the one child to make a negation its own dual.
    obtain ⟨f, rfl⟩ := List.length_eq_one_iff.1 hadmits
    have hf : (p f).holds s = !f.holds s := h f List.mem_cons_self
    calc (negate (p f)).holds s = !(p f).holds s := holds_negate s (p f)
      _ = !(negate f).holds s := by rw [hf, holds_negate]

end Children

lemma holds_dual (h : f.WellFormed) (s : Subject) : f.dual.holds s = !f.holds s := by
  induction f with
  | atom a => exact holds_negate s (atom a)
  | compound connector children ih =>
    obtain ⟨hadmits, hw⟩ := wellFormed_compound_iff.1 h
    rw [dual, dualEach_eq]
    exact holds_compound_dual hadmits fun g hg => ih g hg (hw g hg)

/-- A compound that can be built, negated, and the dual compound of the negations. -/
lemma exists_connect_dual {connector : Connector} (h : connector.Admits fs.length) :
    ∃ f g, connect connector fs = .ok f ∧ connect connector.dual (fs.map negate) = .ok g ∧
      ∀ s, f.negate.holds s = g.holds s := by
  have hmap : connector.dual.Admits (fs.map negate).length := by
    rwa [List.length_map, Connector.dual_admits]
  refine ⟨_, _, connect_eq_ok_iff.2 ⟨rfl, h⟩, connect_eq_ok_iff.2 ⟨rfl, hmap⟩, fun s => ?_⟩
  rw [holds_negate, holds_compound_dual h fun f _ => holds_negate s f]

/-- **Duality.** The dual of a well formed formula can be built of its parts, and it holds of
exactly the subjects of which the formula does not hold. At one connector: to deny all of two or
more formulas is to assert any of their negations, to deny any of them is to assert all of their
negations, and a formula negated twice says what it said. -/
theorem dual_opposite (h : f.WellFormed) :
    f.dual.build = .ok f.dual ∧ (∀ s, f.dual.holds s = !f.holds s) ∧
    (∀ fs : List Formula, 2 ≤ fs.length →
      (∃ conjunction disjunction, all fs = .ok conjunction ∧
        any (fs.map negate) = .ok disjunction ∧
        ∀ s, conjunction.negate.holds s = disjunction.holds s) ∧
      ∃ disjunction conjunction, any fs = .ok disjunction ∧
        all (fs.map negate) = .ok conjunction ∧
        ∀ s, disjunction.negate.holds s = conjunction.holds s) ∧
    ∀ (g : Formula) (s : Subject), g.negate.negate.holds s = g.holds s := by
  refine ⟨build_of_wellFormed (wellFormed_dual h), holds_dual h, fun fs hlength => ?_,
    fun g s => ?_⟩
  · have hand : Connector.and.Admits fs.length := hlength
    have hor : Connector.or.Admits fs.length := hlength
    exact ⟨exists_connect_dual hand, exists_connect_dual hor⟩
  · rw [holds_negate, holds_negate, Bool.not_not]

/-- A conjunction of a negation and of a disjunction over three leaves. -/
theorem dual_opposite_nested :
    let f : Formula := .compound .and [.negate .preInstalled,
      .compound .or [.packageIs "com.app", .installerIs "com.store", .versionAbove 3]]
    let s : Subject := { packageName := "com.app" }
    f.WellFormed ∧ f.dual.build = .ok f.dual ∧
    f.dual = .compound .or [.negate (.negate .preInstalled),
      .compound .and [.negate (.packageIs "com.app"), .negate (.installerIs "com.store"),
        .negate (.versionAbove 3)]] ∧
    f.dual.holds s = !f.holds s ∧ f.holds s = true ∧
    ∃ conjunction disjunction, all [f, f.dual] = .ok conjunction ∧
      any [f.negate, f.dual.negate] = .ok disjunction ∧
      ∀ s, conjunction.negate.holds s = disjunction.holds s := by
  intro f s
  have hw : f.WellFormed := by decide
  obtain ⟨hbuild, hholds, hconnector, -⟩ := dual_opposite hw
  exact ⟨hw, hbuild, rfl, hholds s, by decide, (hconnector [f, f.dual] (Nat.le_refl 2)).1⟩

end Formula

end InstallPolicy
