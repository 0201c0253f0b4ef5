import InstallPolicy.Engine
import InstallPolicy.Proofs.AllowedInstallers
import InstallPolicy.Proofs.Verdict

/-!
What an engine decides.

The rule of the allowed installers stands behind the rules of the source, and it decides if and
only if the table is not empty and does not list the subject's installer.
-/

namespace InstallPolicy

open Verdict

variable {m : AllowedInstallers} {s : Subject}

/-! ### The rule of the allowed installers among others -/

lemma deciding_deny_rule? (m : AllowedInstallers) (s : Subject) :
    deciding .deny m.rule?.toList s = if m.Lists s then [] else m.rule?.toList := by
  cases h : m.rule? with
  | none => simp [deciding]
  | some r =>
    obtain ⟨f, -, rfl⟩ := AllowedInstallers.rule?_eq_some h
    have hholds := AllowedInstallers.holds_rule? h (s := s)
    by_cases hlists : m.Lists s
    · simp [deciding, hholds, hlists]
    · simp [deciding, hholds, hlists]

lemma deciding_allow_rule? (m : AllowedInstallers) (s : Subject) :
    deciding .allow m.rule?.toList s = [] := by
  cases h : m.rule? with
  | none => rfl
  | some r =>
    obtain ⟨f, -, rfl⟩ := AllowedInstallers.rule?_eq_some h
    rfl

/-- The rules that deny an install: those of the source, and behind them the rule of the allowed
installers if it holds. -/
lemma deciding_deny_append (loaded : List Rule) (m : AllowedInstallers) (s : Subject) :
    deciding .deny (loaded ++ m.rule?.toList) s =
      deciding .deny loaded s ++ if m.Lists s then [] else m.rule?.toList := by
  rw [deciding_append, deciding_deny_rule?]

lemma deciding_allow_append (loaded : List Rule) (m : AllowedInstallers) (s : Subject) :
    deciding .allow (loaded ++ m.rule?.toList) s = deciding .allow loaded s := by
  rw [deciding_append, deciding_allow_rule?, List.append_nil]

lemma deciding_deny_append_ne_nil_iff {loaded : List Rule} :
    deciding .deny (loaded ++ m.rule?.toList) s ≠ [] ↔
      (∃ r ∈ loaded, r.effect = .deny ∧ r.holds s = true) ∨ m.entries ≠ [] ∧ ¬ m.Lists s := by
  have hrule : (if m.Lists s then [] else m.rule?.toList) ≠ [] ↔ m.entries ≠ [] ∧ ¬ m.Lists s := by
    split <;> simp [*, AllowedInstallers.rule?_eq_none_iff]
  rw [deciding_deny_append, ← deciding_ne_nil_iff, ← hrule]
  simp only [ne_eq, List.append_eq_nil_iff, Decidable.not_and_iff_or_not]

/-! ### Engines -/

/-- The rules that a source loads, none if it failed. -/
lemma rulesOrNone_eq (reading : Reading) :
    reading.rulesOrNone = match reading.rules with
      | .ok rules => rules
      | .error _ => [] := by
  unfold Reading.rulesOrNone
  cases reading.rules <;> rfl

lemma verdict_evaluate_eq (engine : Engine) (s : Subject) (m : AllowedInstallers) :
    (engine.evaluate s m).1.verdict =
      ofRules ((engine.source s).rulesOrNone ++ m.rule?.toList) s :=
  rfl

/-- **The verdict of an engine**, whatever its source answers: a failed source counts as one
without rules, and the allowed installers are compared by their whole names. -/
theorem verdict_evaluate (engine : Engine) (s : Subject) (m : AllowedInstallers) :
    let loaded := match (engine.source s).rules with
      | .ok rules => rules
      | .error _ => []
    let v := (engine.evaluate s m).1.verdict
    (v.effect = .deny ↔
      (∃ r ∈ loaded, r.effect = .deny ∧ r.holds s = true) ∨ m.entries ≠ [] ∧ ¬ m.Lists s) ∧
    (v.effect = .deny →
      v.rules = deciding .deny loaded s ++ if m.Lists s then [] else m.rule?.toList) ∧
    (m.entries ≠ [] → ¬ m.Lists s → m.rule?.isSome = true ∧ v.namesInstaller = true) ∧
    (v.effect = .allow → v.rules = deciding .allow loaded s) ∧
    v.rule? = v.rules.head? ∧
    ∀ r, m.rule? = some r → r.formula.anyAtom (·.hashed) = false := by
  intro loaded v
  -- From here on the source no longer matters, only the rules that it loaded.
  have hv : v = ofRules (loaded ++ m.rule?.toList) s := by
    have hloaded : (engine.source s).rulesOrNone = loaded := rulesOrNone_eq _
    rw [← hloaded]
    exact verdict_evaluate_eq engine s m
  have hown : v.rules = deciding v.effect (loaded ++ m.rule?.toList) s := by
    rw [hv]
    exact rules_ofRules ..
  have hdeny : v.effect = .deny ↔
      (∃ r ∈ loaded, r.effect = .deny ∧ r.holds s = true) ∨ m.entries ≠ [] ∧ ¬ m.Lists s := by
    rw [hv, effect_ofRules_eq_deny_iff, deciding_deny_append_ne_nil_iff]
  have hrules : v.effect = .deny →
      v.rules = deciding .deny loaded s ++ if m.Lists s then [] else m.rule?.toList := by
    intro heffect
    rw [hown, heffect, deciding_deny_append]
  refine ⟨hdeny, hrules, fun hne hlists => ?_, fun heffect => ?_, rfl,
    fun r hr => AllowedInstallers.hashed_rule? hr⟩
  · obtain ⟨r, hr⟩ := Option.ne_none_iff_exists'.1 (mt AllowedInstallers.rule?_eq_none_iff.1 hne)
    have hmem : r ∈ v.rules := by
      rw [hrules (hdeny.2 (.inr ⟨hne, hlists⟩)), if_neg hlists, hr]
      simp
    exact ⟨by rw [hr]; rfl,
      List.any_eq_true.2 ⟨r, hmem, AllowedInstallers.namesInstaller_rule? hr⟩⟩
  · rw [hown, heffect, deciding_allow_append]

/-- A listed installer with a certificate of its own and with that of another one. -/
theorem verdict_evaluate_certificates :
    let preInstalled : Formula := .atom ⟨.preInstalled, .equal, .boolean true, false⟩
    let engine : Engine :=
      { source := .fixed [⟨preInstalled, .allow⟩, ⟨preInstalled.negate, .deny⟩] }
    let allowed := AllowedInstallers.ofList [("com.store", "CERT"), ("com.other", "OTHER")]
    let listed : Subject :=
      { installerName := "com.store", installerCertificate := "CERT", preInstalled := true }
    let unlisted : Subject := { installerName := "com.store", installerCertificate := "OTHER" }
    (engine.evaluate listed allowed).1.verdict.rules = [⟨preInstalled, .allow⟩] ∧
    (engine.evaluate unlisted allowed).1.verdict.rules =
      ⟨preInstalled.negate, .deny⟩ :: allowed.rule?.toList ∧
    (engine.evaluate unlisted allowed).1.verdict.namesInstaller = true := by
  intro preInstalled engine allowed listed unlisted
  obtain ⟨-, -, -, hallow, -⟩ := verdict_evaluate engine listed allowed
  obtain ⟨hdeny, hrules, hinstaller, -⟩ := verdict_evaluate engine unlisted allowed
  have hne : allowed.entries ≠ [] := by decide
  have hlists : ¬ allowed.Lists unlisted := by decide
  exact ⟨hallow (by decide), hrules (hdeny.2 (.inr ⟨hne, hlists⟩)), (hinstaller hne hlists).2⟩

end InstallPolicy
