import Mathlib.Tactic.Lemma
import InstallPolicy.AllowedInstallers

/-!
What the rule of the allowed installers says.

Whether it is made for one installer or for several, the rule holds of exactly the subjects whose
installer is not in the table with the certificate that it has.
-/

namespace InstallPolicy.AllowedInstallers

variable {m : AllowedInstallers} {s : Subject}

/-- The table has the installer of a subject together with its certificate. -/
def Lists (m : AllowedInstallers) (s : Subject) : Prop :=
  m.certificate? s.installerName = some s.installerCertificate

instance (m : AllowedInstallers) (s : Subject) : Decidable (m.Lists s) :=
  inferInstanceAs (Decidable (_ = _))

/-! ### Entries -/

/-- Where names ascend, none stands twice, so looking a name up finds its only entry. -/
lemma lookup_eq_some_iff {entries : List (String × String)} {name certificate : String}
    (h : entries.Pairwise (·.1 < ·.1)) :
    entries.lookup name = some certificate ↔ (name, certificate) ∈ entries := by
  induction entries with
  | nil => simp
  | cons entry rest ih =>
    obtain ⟨hentry, hrest⟩ := List.pairwise_cons.1 h
    rw [lookup_cons, List.mem_cons]
    by_cases hname : name = entry.1
    · subst hname
      have hnot : (entry.1, certificate) ∉ rest := fun hmem =>
        absurd (hentry _ hmem) (String.lt_irrefl _)
      rw [if_pos rfl]
      simp [hnot, Prod.ext_iff, eq_comm]
    · have hne : (name, certificate) ≠ entry := fun he => hname (he ▸ rfl)
      rw [if_neg hname, ih hrest]
      simp [hne]

@[simp] lemma holds_entryFormula (name certificate : String) :
    (entryFormula name certificate).holds s =
      (s.installerName == name && s.installerCertificate == certificate) := by
  simp [entryFormula, Formula.holds, Atom.holds, Subject.value]

lemma any_entries_iff :
    (m.entries.any fun e => s.installerName == e.1 && s.installerCertificate == e.2) = true ↔
      m.Lists s := by
  rw [Lists, certificate?, lookup_eq_some_iff m.ascending, List.any_eq_true]
  constructor
  · rintro ⟨e, he, h⟩
    obtain ⟨hname, hcertificate⟩ : s.installerName = e.1 ∧ s.installerCertificate = e.2 := by
      simpa using h
    rwa [hname, hcertificate]
  · intro h
    exact ⟨_, h, by simp⟩

/-! ### The rule -/

lemma formula?_eq_none_iff : m.formula? = none ↔ m.entries = [] := by
  unfold formula?
  cases m.entries with
  | nil => simp
  | cons e es => cases es <;> simp

/-- One entry stands by itself, and several stand under a connector. -/
lemma formula?_eq_some {f : Formula} (h : m.formula? = some f) :
    (∃ e, m.entries = [e] ∧ f = entryFormula e.1 e.2) ∨
      2 ≤ m.entries.length ∧ f = .compound .or (m.entries.map fun e => entryFormula e.1 e.2) := by
  unfold formula? at h
  cases hentries : m.entries with
  | nil => simp [hentries] at h
  | cons e es =>
    cases es with
    | nil => simp_all
    | cons e' es => simp_all

lemma holds_formula? {f : Formula} (h : m.formula? = some f) :
    f.holds s = true ↔ m.Lists s := by
  rw [← any_entries_iff]
  rcases formula?_eq_some h with ⟨e, he, rfl⟩ | ⟨-, rfl⟩
  · simp [he]
  · simp [Formula.holds]

lemma anyAtom_formula? {f : Formula} (h : m.formula? = some f) (p : Atom → Bool) :
    f.anyAtom p = m.entries.any fun e => (entryFormula e.1 e.2).anyAtom p := by
  rcases formula?_eq_some h with ⟨e, he, rfl⟩ | ⟨-, rfl⟩
  · simp [he]
  · simp [Formula.anyAtom, Function.comp_def]

lemma rule?_eq_some {r : Rule} (h : m.rule? = some r) :
    ∃ f, m.formula? = some f ∧ r = ⟨f.negate, .deny⟩ := by
  obtain ⟨f, hf, rfl⟩ := Option.map_eq_some_iff.1 h
  exact ⟨f, hf, rfl⟩

lemma rule?_eq_none_iff : m.rule? = none ↔ m.entries = [] := by
  rw [rule?, Option.map_eq_none_iff, formula?_eq_none_iff]

/-- **The rule denies those that the table does not list.** -/
theorem holds_rule? {r : Rule} (h : m.rule? = some r) : r.holds s = true ↔ ¬ m.Lists s := by
  obtain ⟨f, hf, rfl⟩ := rule?_eq_some h
  rw [← holds_formula? hf]
  simp [Rule.holds]

lemma anyAtom_rule? {r : Rule} (h : m.rule? = some r) (p : Atom → Bool) :
    r.formula.anyAtom p = m.entries.any fun e => (entryFormula e.1 e.2).anyAtom p := by
  obtain ⟨f, hf, rfl⟩ := rule?_eq_some h
  rw [← anyAtom_formula? hf]
  simp [Formula.negate, Formula.anyAtom]

/-- Names and certificates stand in the rule as they are, however long they are. -/
lemma hashed_rule? {r : Rule} (h : m.rule? = some r) : r.formula.anyAtom (·.hashed) = false := by
  rw [anyAtom_rule? h]
  simp [entryFormula, Formula.anyAtom]

lemma namesInstaller_rule? {r : Rule} (h : m.rule? = some r) :
    r.formula.namesInstaller = true := by
  have hne : m.entries ≠ [] := fun he => by simp [rule?_eq_none_iff.2 he] at h
  obtain ⟨e, es, he⟩ := List.exists_cons_of_ne_nil hne
  rw [Formula.namesInstaller, anyAtom_rule? h, he]
  simp [entryFormula, Formula.anyAtom]

end InstallPolicy.AllowedInstallers
