import InstallPolicy.Proofs.Engine
import InstallPolicy.Proofs.Formula.Matching

/-!
What a denial is owed to.

A denial by rules that do not look at the installer stands whatever the installer is, and likewise
for the certificate of the subject: as long as the rules that decided are among those that judge,
no other rule and no allowed installer lifts it.
-/

namespace InstallPolicy.Verdict

variable {rules : List Rule} {s s' : Subject}

/-- The denial stands for a subject: whichever rules judge it, in a list or through an engine, if
those that decided the verdict are among them, then the subject is denied, and they decide it. -/
structure Stands (v : Verdict) (s : Subject) : Prop where
  rules : ∀ others, v.rules ⊆ others →
    (ofRules others s).effect = .deny ∧ v.rules ⊆ (ofRules others s).rules
  engine : ∀ (engine : Engine) (allowed : AllowedInstallers),
    v.rules ⊆ (engine.source s).rulesOrNone →
    (engine.evaluate s allowed).1.verdict.effect = .deny ∧
      v.rules ⊆ (engine.evaluate s allowed).1.verdict.rules

/-- A rule decides a denial if and only if it is in the list, denies and holds. -/
lemma mem_rules_of_deny (hdeny : (ofRules rules s).effect = .deny) {r : Rule} :
    r ∈ (ofRules rules s).rules ↔ r ∈ rules ∧ r.effect = .deny ∧ r.holds s = true := by
  rw [rules_ofRules, hdeny, mem_deciding]

lemma rules_ne_nil_of_deny (hdeny : (ofRules rules s).effect = .deny) :
    (ofRules rules s).rules ≠ [] := by
  rw [rules_ofRules, hdeny]
  exact effect_ofRules_eq_deny_iff.1 hdeny

/-- A denial stands for every subject of which the rules that decided it hold as well. -/
lemma stands_of_holds (hdeny : (ofRules rules s).effect = .deny)
    (hholds : ∀ r ∈ (ofRules rules s).rules, r.holds s' = r.holds s) :
    (ofRules rules s).Stands s' := by
  have hrules : ∀ others, (ofRules rules s).rules ⊆ others →
      (ofRules others s').effect = .deny ∧ (ofRules rules s).rules ⊆ (ofRules others s').rules := by
    intro others hsubset
    have hdecides : ∀ r ∈ (ofRules rules s).rules,
        r ∈ others ∧ r.effect = .deny ∧ r.holds s' = true := by
      intro r hr
      obtain ⟨-, heffect, hrs⟩ := (mem_rules_of_deny hdeny).1 hr
      exact ⟨hsubset hr, heffect, (hholds r hr).trans hrs⟩
    obtain ⟨r, hr⟩ := List.exists_mem_of_ne_nil _ (rules_ne_nil_of_deny hdeny)
    have hdeny' : (ofRules others s').effect = .deny :=
      effect_ofRules_eq_deny_iff.2 (deciding_ne_nil_iff.2 ⟨r, hdecides r hr⟩)
    exact ⟨hdeny', fun r hr => (mem_rules_of_deny hdeny').2 (hdecides r hr)⟩
  refine ⟨hrules, fun engine allowed hsubset => ?_⟩
  rw [verdict_evaluate_eq]
  exact hrules _ fun r hr => List.mem_append_left _ (hsubset hr)

/-- **A denial that is not put down to the installer stands for every installer**, and one that is
not put down to the certificate of the subject stands for every certificate. -/
theorem denial_stands (hdeny : (ofRules rules s).effect = .deny) :
    ((ofRules rules s).namesInstaller = false → ∀ name certificate,
      (ofRules rules s).Stands
        { s with installerName := name, installerCertificate := certificate }) ∧
    ((ofRules rules s).namesAppCertificate = false → ∀ certificate,
      (ofRules rules s).Stands { s with appCertificate := certificate }) := by
  constructor
  · intro hinstaller name certificate
    refine stands_of_holds hdeny fun r hr => ?_
    have hnames := List.any_eq_false.1 hinstaller r hr
    exact Formula.holds_of_namesInstaller_eq_false (by simpa using hnames) name certificate
  · intro hcertificate certificate
    refine stands_of_holds hdeny fun r hr => ?_
    have hnames := List.any_eq_false.1 hcertificate r hr
    exact Formula.holds_of_namesAppCertificate_eq_false (by simpa using hnames) certificate

/-- A denial for the package stands for the one installer that is allowed, though a rule allows
this installer. -/
theorem denial_stands_package :
    let deny : Rule := ⟨.compound .and [.negate .preInstalled, .packageIs "com.bad"], .deny⟩
    let allow : Rule := ⟨.installerIs "com.store", .allow⟩
    let s : Subject := { packageName := "com.bad" }
    let fromStore : Subject :=
      { s with installerName := "com.store", installerCertificate := "CERT" }
    let engine : Engine := { source := .fixed [allow, deny] }
    let v := (engine.evaluate fromStore (.ofList [("com.store", "CERT")])).1.verdict
    (ofRules [deny, allow] s).effect = .deny ∧ (ofRules [deny, allow] s).namesInstaller = false ∧
    v.effect = .deny ∧ deny ∈ v.rules := by
  intro deny allow s fromStore engine v
  have hdeny : (ofRules [deny, allow] s).effect = .deny := by decide
  have hinstaller : (ofRules [deny, allow] s).namesInstaller = false := by decide
  have hrules : (ofRules [deny, allow] s).rules = [deny] := by decide
  have hstands := (denial_stands hdeny).1 hinstaller "com.store" "CERT"
  obtain ⟨heffect, hmem⟩ := hstands.engine engine (.ofList [("com.store", "CERT")])
    (by rw [hrules]; simp [engine, RuleSource.fixed, Reading.rulesOrNone, Except.toOption])
  rw [hrules] at hmem
  exact ⟨hdeny, hinstaller, heffect, hmem List.mem_cons_self⟩

end InstallPolicy.Verdict
