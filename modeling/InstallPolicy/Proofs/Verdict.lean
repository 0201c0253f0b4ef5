import Mathlib.Tactic.Lemma
import InstallPolicy.Verdict

/-!
The verdict of a list of rules: the rules of one effect that hold, of those that deny if there is
any, and of those that allow otherwise.
-/

namespace InstallPolicy.Verdict

variable {rules : List Rule} {s : Subject}

/-- The rules with an effect that hold of a subject, in list order. -/
def deciding (effect : Effect) (rules : List Rule) (s : Subject) : List Rule :=
  rules.filter fun r => r.effect == effect && r.holds s

lemma mem_deciding {effect : Effect} {r : Rule} :
    r ∈ deciding effect rules s ↔ r ∈ rules ∧ r.effect = effect ∧ r.holds s = true := by
  simp [deciding]

lemma deciding_ne_nil_iff {effect : Effect} :
    deciding effect rules s ≠ [] ↔ ∃ r ∈ rules, r.effect = effect ∧ r.holds s = true := by
  constructor
  · intro hne
    obtain ⟨r, hr⟩ := List.exists_mem_of_ne_nil _ hne
    exact ⟨r, mem_deciding.1 hr⟩
  · rintro ⟨r, hr⟩
    exact List.ne_nil_of_mem (mem_deciding.2 hr)

lemma deciding_append (effect : Effect) (rs rs' : List Rule) (s : Subject) :
    deciding effect (rs ++ rs') s = deciding effect rs s ++ deciding effect rs' s :=
  List.filter_append ..

/-- If no rule denies, the rules that hold are those that allow. -/
lemma filter_holds_of_deciding_deny (h : deciding .deny rules s = []) :
    rules.filter (·.holds s) = deciding .allow rules s := by
  refine List.filter_congr fun r hr => ?_
  cases heffect : r.effect with
  | allow => rfl
  | deny =>
    have hnot : r ∉ deciding .deny rules s := by simp [h]
    rw [mem_deciding] at hnot
    have : r.holds s = false := by simpa [hr, heffect] using hnot
    rw [this]
    rfl

/-- **Precedence**: a rule that denies and holds decides against all that allow. -/
theorem ofRules_eq (rules : List Rule) (s : Subject) :
    ofRules rules s =
      if deciding .deny rules s = [] then ⟨.allow, deciding .allow rules s⟩
      else ⟨.deny, deciding .deny rules s⟩ := by
  have hdeny : (rules.filter (·.holds s)).filter (·.effect == .deny) = deciding .deny rules s :=
    List.filter_filter
  unfold ofRules
  simp only [hdeny]
  split
  · rename_i hnone
    rw [if_pos hnone, filter_holds_of_deciding_deny hnone]
  · rename_i hsome
    rw [if_neg hsome]

lemma effect_ofRules_eq_deny_iff :
    (ofRules rules s).effect = .deny ↔ deciding .deny rules s ≠ [] := by
  rw [ofRules_eq]
  split <;> simp [*]

/-- The rules of a verdict are those of its own effect that hold. -/
lemma rules_ofRules (rules : List Rule) (s : Subject) :
    (ofRules rules s).rules = deciding (ofRules rules s).effect rules s := by
  rw [ofRules_eq]
  split <;> rfl

end InstallPolicy.Verdict
