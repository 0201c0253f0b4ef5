import InstallPolicy.Formula.Matching
import InstallPolicy.Proofs.Formula.Tree

/-!
What a formula looks at.

Whether a formula holds of a subject depends on the values of the keys at its leaves, and on
nothing else that is known of the subject.
-/

namespace InstallPolicy

variable {s s' : Subject}

lemma Atom.holds_congr {a : Atom} (h : s'.value a.key = s.value a.key) :
    a.holds s' = a.holds s := by
  unfold Atom.holds
  rw [h]

namespace Formula

section Children

variable {α : Type} {as : List α} {p q : α → Bool}

lemma any_eq_of_mem (h : ∀ a ∈ as, p a = q a) : as.any p = as.any q := by
  have hmap := congrArg (List.any · id) (List.map_congr_left h)
  simpa only [List.any_map, Function.id_comp] using hmap

lemma all_eq_of_mem (h : ∀ a ∈ as, p a = q a) : as.all p = as.all q := by
  have hmap := congrArg (List.all · id) (List.map_congr_left h)
  simpa only [List.all_map, Function.id_comp] using hmap

end Children

lemma anyAtom_eq (p : Atom → Bool) (f : Formula) : f.anyAtom p = f.leaves.any p := by
  induction f with
  | atom a => simp [anyAtom, leaves]
  | compound connector children ih =>
    rw [anyAtom, anyAtomOf_eq, leaves, leavesOf_eq, List.any_flatMap]
    exact any_eq_of_mem ih

/-- A formula says the same of two subjects that agree on the keys at its leaves. -/
lemma holds_congr {f : Formula} (h : ∀ a ∈ f.leaves, s'.value a.key = s.value a.key) :
    f.holds s' = f.holds s := by
  induction f with
  | atom a => exact Atom.holds_congr (h a List.mem_cons_self)
  | compound connector children ih =>
    have hchildren : ∀ f ∈ children, f.holds s' = f.holds s := by
      intro f hf
      exact ih f hf fun a ha => h a (mem_leaves_compound.2 ⟨f, hf, ha⟩)
    cases connector with
    | and => rw [holds, holds, allHold_eq, allHold_eq, all_eq_of_mem hchildren]
    | or => rw [holds, holds, anyHold_eq, anyHold_eq, any_eq_of_mem hchildren]
    | not => rw [holds, holds, anyHold_eq, anyHold_eq, any_eq_of_mem hchildren]

/-- If no leaf has a property of atoms, it is enough that the subjects agree on all other keys. -/
lemma holds_of_anyAtom_eq_false {p : Atom → Bool} {f : Formula} (hf : f.anyAtom p = false)
    (h : ∀ a, p a = false → s'.value a.key = s.value a.key) : f.holds s' = f.holds s := by
  rw [anyAtom_eq, List.any_eq_false] at hf
  exact holds_congr fun a ha => h a (by simpa using hf a ha)

lemma holds_of_namesInstaller_eq_false {f : Formula} (hf : f.namesInstaller = false)
    (name certificate : String) :
    f.holds { s with installerName := name, installerCertificate := certificate } = f.holds s := by
  refine holds_of_anyAtom_eq_false hf fun a ha => ?_
  cases hkey : a.key <;> simp_all [Subject.value]

lemma holds_of_namesAppCertificate_eq_false {f : Formula} (hf : f.namesAppCertificate = false)
    (certificate : String) : f.holds { s with appCertificate := certificate } = f.holds s := by
  refine holds_of_anyAtom_eq_false hf fun a ha => ?_
  cases hkey : a.key <;> simp_all [Subject.value]

lemma anyAtom_eq_true_iff {p : Atom → Bool} {f : Formula} :
    f.anyAtom p = true ↔ ∃ a n, f.HasLeaf a n ∧ p a = true := by
  simp only [anyAtom_eq, List.any_eq_true, mem_leaves_iff]
  exact exists_congr fun a => exists_and_right.symm

/-- **A formula looks at the keys of its leaves only.** It says the same of two subjects that agree
on the keys of the leaves at all depths. It is said to look at the certificate of the subject, or at
the installer, if and only if some leaf has such a key, and whether it holds does not depend on what
it is not said to look at. -/
theorem holds_depends_on_leaves (f : Formula) :
    (∀ s s' : Subject, (∀ a n, f.HasLeaf a n → s'.value a.key = s.value a.key) →
      f.holds s' = f.holds s) ∧
    (f.namesAppCertificate = true ↔ ∃ a n, f.HasLeaf a n ∧ a.key = .appCertificate) ∧
    (f.namesInstaller = true ↔
      ∃ a n, f.HasLeaf a n ∧ (a.key = .installerName ∨ a.key = .installerCertificate)) ∧
    (f.namesAppCertificate = false → ∀ (s : Subject) (certificate : String),
      f.holds { s with appCertificate := certificate } = f.holds s) ∧
    (f.namesInstaller = false → ∀ (s : Subject) (name certificate : String),
      f.holds { s with installerName := name, installerCertificate := certificate } =
        f.holds s) := by
  refine ⟨fun s s' hagree => ?_, ?_, ?_, ?_, ?_⟩
  · refine holds_congr fun a ha => ?_
    obtain ⟨n, hn⟩ := mem_leaves_iff.1 ha
    exact hagree a n hn
  · simp only [namesAppCertificate, anyAtom_eq_true_iff, beq_iff_eq]
  · simp only [namesInstaller, anyAtom_eq_true_iff, Bool.or_eq_true, beq_iff_eq]
  · exact fun hf s certificate => holds_of_namesAppCertificate_eq_false hf certificate
  · exact fun hf s name certificate => holds_of_namesInstaller_eq_false hf name certificate

/-- A formula over the package and, deeper down, over the version and the certificate. -/
theorem holds_depends_on_leaves_nested :
    let f : Formula := .negate (.compound .or [.packageIs "com.bad",
      .compound .and [.versionIs 3, .appCertificateIs "CERT"]])
    let s : Subject := { packageName := "com.app", versionCode := 3, appCertificate := "CERT" }
    let s' : Subject := { s with installerName := "com.store", preInstalled := true }
    (∀ a n, f.HasLeaf a n → s'.value a.key = s.value a.key) ∧ f.holds s' = f.holds s ∧
    (∃ a n, f.HasLeaf a n ∧ a.key = .appCertificate) ∧
    f.namesInstaller = false ∧
    f.holds { s with installerName := "a", installerCertificate := "b" } = f.holds s := by
  intro f s s'
  obtain ⟨hsame, hcertificate, -, -, hinstaller⟩ := holds_depends_on_leaves f
  have hagree : ∀ a ∈ f.leaves, s'.value a.key = s.value a.key := by decide
  have hagree' : ∀ a n, f.HasLeaf a n → s'.value a.key = s.value a.key :=
    fun a n h => hagree a (mem_leaves_iff.2 ⟨n, h⟩)
  have hnot : f.namesInstaller = false := by decide
  exact ⟨hagree', hsame s s' hagree', hcertificate.1 (by decide), hnot, hinstaller hnot s "a" "b"⟩

end Formula

end InstallPolicy
