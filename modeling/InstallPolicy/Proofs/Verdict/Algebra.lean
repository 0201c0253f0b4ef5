import InstallPolicy.Proofs.Verdict

/-!
How a verdict changes with the list of rules.

The verdict of two lists, one behind the other, follows from the verdicts of each. Neither the order
of the rules nor rules that allow, wherever they are put in, change what becomes of the install, and
the rules that decided are enough to come to the same verdict again.
-/

namespace InstallPolicy.Verdict

variable {rules xs ys zs : List Rule} {s : Subject}

/-! ### The effect alone -/

lemma effect_ofRules_eq_allow_iff :
    (ofRules rules s).effect = .allow ↔ deciding .deny rules s = [] := by
  rw [ofRules_eq]
  split <;> simp [*]

lemma effect_ofRules_congr (h : deciding .deny zs s = [] ↔ deciding .deny xs s = []) :
    (ofRules zs s).effect = (ofRules xs s).effect := by
  cases heffect : (ofRules xs s).effect with
  | allow => exact effect_ofRules_eq_allow_iff.2 (h.2 (effect_ofRules_eq_allow_iff.1 heffect))
  | deny => exact effect_ofRules_eq_deny_iff.2 (mt h.1 (effect_ofRules_eq_deny_iff.1 heffect))

/-! ### One list behind the other -/

lemma effect_ofRules_append :
    (ofRules (xs ++ ys) s).effect = .deny ↔
      (ofRules xs s).effect = .deny ∨ (ofRules ys s).effect = .deny := by
  simp only [effect_ofRules_eq_deny_iff, deciding_append, ne_eq, List.append_eq_nil_iff,
    Decidable.not_and_iff_or_not]

/-- If the two lists agree on the effect, the rules of both decide. -/
lemma rules_ofRules_append_of_eq (h : (ofRules xs s).effect = (ofRules ys s).effect) :
    (ofRules (xs ++ ys) s).rules = (ofRules xs s).rules ++ (ofRules ys s).rules := by
  have heffect : (ofRules (xs ++ ys) s).effect = (ofRules xs s).effect := by
    refine effect_ofRules_congr ?_
    rw [deciding_append, List.append_eq_nil_iff, ← effect_ofRules_eq_allow_iff,
      ← effect_ofRules_eq_allow_iff, ← h, and_self]
  rw [rules_ofRules, rules_ofRules, rules_ofRules ys, heffect, ← h, deciding_append]

lemma rules_ofRules_append_of_deny_allow (hxs : (ofRules xs s).effect = .deny)
    (hys : (ofRules ys s).effect = .allow) :
    (ofRules (xs ++ ys) s).rules = (ofRules xs s).rules := by
  have heffect : (ofRules (xs ++ ys) s).effect = .deny := effect_ofRules_append.2 (.inl hxs)
  have hnone : deciding .deny ys s = [] := effect_ofRules_eq_allow_iff.1 hys
  rw [rules_ofRules, rules_ofRules xs, heffect, hxs, deciding_append, hnone, List.append_nil]

lemma rules_ofRules_append_of_allow_deny (hxs : (ofRules xs s).effect = .allow)
    (hys : (ofRules ys s).effect = .deny) :
    (ofRules (xs ++ ys) s).rules = (ofRules ys s).rules := by
  have heffect : (ofRules (xs ++ ys) s).effect = .deny := effect_ofRules_append.2 (.inr hys)
  have hnone : deciding .deny xs s = [] := effect_ofRules_eq_allow_iff.1 hxs
  rw [rules_ofRules, rules_ofRules ys, heffect, hys, deciding_append, hnone, List.nil_append]

/-! ### Another order -/

lemma deciding_perm (effect : Effect) (h : zs.Perm xs) :
    (deciding effect zs s).Perm (deciding effect xs s) :=
  h.filter _

lemma effect_ofRules_of_perm (h : zs.Perm xs) :
    (ofRules zs s).effect = (ofRules xs s).effect := by
  have hdeny := deciding_perm (s := s) .deny h
  exact effect_ofRules_congr ⟨fun hz => (hz ▸ hdeny).nil_eq.symm, fun hx => (hx ▸ hdeny).eq_nil⟩

lemma rules_ofRules_of_perm (h : zs.Perm xs) :
    (ofRules zs s).rules.Perm (ofRules xs s).rules := by
  rw [rules_ofRules, rules_ofRules xs, effect_ofRules_of_perm h]
  exact deciding_perm _ h

/-! ### Rules that allow, put in -/

/-- A list of rules, and what becomes of it when rules that allow are put in one after the other,
each wherever one likes. -/
inductive AllowsInserted (xs : List Rule) : List Rule → Prop where
  | refl : AllowsInserted xs xs
  | insert (front back : List Rule) {r : Rule} : r.effect = .allow →
    AllowsInserted xs (front ++ back) → AllowsInserted xs (front ++ r :: back)

lemma deciding_deny_insert {front back : List Rule} {r : Rule} (h : r.effect = .allow) :
    deciding .deny (front ++ r :: back) s = deciding .deny (front ++ back) s := by
  have hback : deciding .deny (r :: back) s = deciding .deny back s := by
    simp [deciding, h]
  rw [deciding_append, deciding_append, hback]

lemma deciding_deny_of_allowsInserted (h : AllowsInserted xs zs) :
    deciding .deny zs s = deciding .deny xs s := by
  induction h with
  | refl => rfl
  | insert front back hallow _ ih => rw [deciding_deny_insert hallow, ih]

/-! ### The rules that decided -/

lemma deciding_deciding (effect : Effect) :
    deciding effect (deciding effect rules s) s = deciding effect rules s := by
  simp [deciding]

lemma deciding_deny_deciding_allow : deciding .deny (deciding .allow rules s) s = [] := by
  refine List.filter_eq_nil_iff.2 fun r hr => ?_
  obtain ⟨-, heffect, -⟩ := mem_deciding.1 hr
  simp [heffect]

lemma ofRules_rules_ofRules : ofRules (ofRules rules s).rules s = ofRules rules s := by
  rw [rules_ofRules]
  cases heffect : (ofRules rules s).effect with
  | allow =>
    -- Among rules that allow there is none to deny, so they are judged by the same branch again.
    have hnone := effect_ofRules_eq_allow_iff.1 heffect
    rw [ofRules_eq, if_pos deciding_deny_deciding_allow, deciding_deciding, ofRules_eq,
      if_pos hnone]
  | deny =>
    have hsome := effect_ofRules_eq_deny_iff.1 heffect
    rw [ofRules_eq, deciding_deciding, if_neg hsome, ofRules_eq, if_neg hsome]

/-! ### All together -/

/-- **The algebra of verdicts.** Two lists, one behind the other, deny what either denies, and the
rules that decide are those of the list that denies, or those of both if neither or both deny. In
another order the same rules decide. Rules that allow lift no denial and bring none about, wherever
they are put in, and the rules that decided come to the same verdict by themselves. -/
theorem ofRules_algebra (xs ys : List Rule) (s : Subject) :
    ((ofRules (xs ++ ys) s).effect = .deny ↔
      (ofRules xs s).effect = .deny ∨ (ofRules ys s).effect = .deny) ∧
    ((ofRules xs s).effect = .deny → (ofRules ys s).effect = .allow →
      (ofRules (xs ++ ys) s).rules = (ofRules xs s).rules) ∧
    ((ofRules xs s).effect = .allow → (ofRules ys s).effect = .deny →
      (ofRules (xs ++ ys) s).rules = (ofRules ys s).rules) ∧
    ((ofRules xs s).effect = (ofRules ys s).effect →
      (ofRules (xs ++ ys) s).rules = (ofRules xs s).rules ++ (ofRules ys s).rules) ∧
    (∀ zs, zs.Perm xs → (ofRules zs s).effect = (ofRules xs s).effect ∧
      (ofRules zs s).rules.Perm (ofRules xs s).rules) ∧
    (∀ zs, AllowsInserted xs zs → (ofRules zs s).effect = (ofRules xs s).effect ∧
      ((ofRules xs s).effect = .deny → (ofRules zs s).rules = (ofRules xs s).rules)) ∧
    ofRules (ofRules xs s).rules s = ofRules xs s := by
  refine ⟨effect_ofRules_append, rules_ofRules_append_of_deny_allow,
    rules_ofRules_append_of_allow_deny, rules_ofRules_append_of_eq,
    fun zs hperm => ⟨effect_ofRules_of_perm hperm, rules_ofRules_of_perm hperm⟩,
    fun zs hinserted => ?_, ofRules_rules_ofRules⟩
  have hdeciding := deciding_deny_of_allowsInserted (s := s) hinserted
  have heffect : (ofRules zs s).effect = (ofRules xs s).effect :=
    effect_ofRules_congr (by rw [hdeciding])
  refine ⟨heffect, fun hdeny => ?_⟩
  rw [rules_ofRules, rules_ofRules xs, heffect, hdeny, hdeciding]

/-- A rule that denies and one that allows, both of which hold: behind, before and around each
other. -/
theorem ofRules_algebra_mixed :
    let deny : Rule := ⟨.negate .preInstalled, .deny⟩
    let allow : Rule := ⟨.versionIs 0, .allow⟩
    let s : Subject := {}
    (ofRules [deny] s).effect = .deny ∧ (ofRules [allow] s).effect = .allow ∧
    (ofRules ([deny] ++ [allow]) s).rules = [deny] ∧
    (ofRules ([allow] ++ [deny]) s).rules = [deny] ∧
    (ofRules ([deny] ++ [deny]) s).rules = [deny, deny] ∧
    [allow, deny].Perm [deny, allow] ∧
    (ofRules [allow, deny] s).effect = (ofRules [deny, allow] s).effect ∧
    AllowsInserted [deny] [allow, deny, allow] ∧
    (ofRules [allow, deny, allow] s).rules = [deny] := by
  intro deny allow s
  have hdeny : (ofRules [deny] s).effect = .deny := by decide
  have hallow : (ofRules [allow] s).effect = .allow := by decide
  have hrules : (ofRules [deny] s).rules = [deny] := by decide
  have hperm : [allow, deny].Perm [deny, allow] := .swap ..
  have hinserted : AllowsInserted [deny] [allow, deny, allow] :=
    .insert [allow, deny] [] rfl (.insert [] [deny] rfl .refl)
  obtain ⟨-, hbehind, -, -, -, haround, -⟩ := ofRules_algebra [deny] [allow] s
  obtain ⟨-, -, hbefore, -⟩ := ofRules_algebra [allow] [deny] s
  obtain ⟨-, -, -, hboth, -⟩ := ofRules_algebra [deny] [deny] s
  obtain ⟨-, -, -, -, hreordered, -⟩ := ofRules_algebra [deny, allow] [] s
  rw [hrules] at hbehind hbefore hboth haround
  exact ⟨hdeny, hallow, hbehind hdeny hallow, hbefore hallow hdeny, hboth rfl, hperm,
    (hreordered _ hperm).1, hinserted, (haround _ hinserted).2 hdeny⟩

end InstallPolicy.Verdict
