import InstallPolicy.Proofs.Document.Symmetry
import InstallPolicy.Proofs.Engine
import InstallPolicy.Proofs.Validity

/-!
The rule of the allowed installers as a document.

The rule is made without a check of its parts, but a document of it is accepted like any other. It
has one unless some name or certificate is too long, and behind the rules of a source the rule that
is read back does what the table did.
-/

namespace InstallPolicy

open Document Verdict

def textFault? (t : String) : Option EncodeError :=
  if (Bytes.ofText t).length ≤ maxTextBytes then none
  else some (.stringTooLong (Bytes.ofText t).length)

/-- Of several texts the first one that is too long is at fault. -/
lemma findSome?_textFault? (ts : List String) :
    ts.findSome? textFault? =
      (ts.find? fun t => maxTextBytes < (Bytes.ofText t).length).map fun t =>
        .stringTooLong (Bytes.ofText t).length := by
  induction ts with
  | nil => rfl
  | cons t ts ih =>
    by_cases ht : (Bytes.ofText t).length ≤ maxTextBytes
    · rw [List.findSome?_cons, textFault?, if_pos ht, List.find?_cons_of_neg (by simpa using ht)]
      exact ih
    · rw [List.findSome?_cons, textFault?, if_neg ht, List.find?_cons_of_pos (by simpa using ht)]
      rfl

namespace AllowedInstallers

variable {m m' : AllowedInstallers} {r r' : Rule} {s : Subject}

/-- The names and certificates in ascending order of the names, each name before its certificate. -/
def texts (m : AllowedInstallers) : List String := m.entries.flatMap fun e => [e.1, e.2]

lemma find?_texts_eq_none_iff :
    (m.texts.find? fun t => maxTextBytes < (Bytes.ofText t).length) = none ↔
      ∀ t ∈ m.texts, (Bytes.ofText t).length ≤ maxTextBytes := by
  simp [List.find?_eq_none]

/-! ### Faults of the rule -/

lemma violation?_entryFormula {above : ℕ} (habove : above < maxDepth) (e : String × String) :
    (entryFormula e.1 e.2).violation? above = [e.1, e.2].findSome? textFault? := by
  have htwo : [e.1, e.2].length < UInt32.size := show 2 < UInt32.size by decide
  rw [entryFormula, violation?_compound_of_room habove htwo]
  simp only [List.findSome?_cons, Formula.violation?_atom]
  rfl

lemma findSome?_entries {above : ℕ} (habove : above < maxDepth) (entries : List (String × String)) :
    (entries.map fun e => entryFormula e.1 e.2).findSome? (·.violation? above) =
      (entries.flatMap fun e => [e.1, e.2]).findSome? textFault? := by
  induction entries with
  | nil => rfl
  | cons e entries ih =>
    rw [List.map_cons, List.findSome?_cons, List.flatMap_cons, List.findSome?_append, ih,
      violation?_entryFormula habove]
    cases [e.1, e.2].findSome? textFault? <;> rfl

/-- The nodes of the rule are not too deep and not too many, so a fault is that of a text. -/
lemma violation?_rule? (h : m.rule? = some r) (hlength : m.entries.length < UInt32.size) :
    r.formula.violation? 0 = m.texts.findSome? textFault? := by
  obtain ⟨f, hf, rfl⟩ := rule?_eq_some h
  have hnegate : f.negate.violation? 0 = f.violation? 1 := by
    have hone : [f].length < UInt32.size := show 1 < UInt32.size by decide
    rw [Formula.negate, violation?_compound_of_room (by decide) hone, List.findSome?_singleton]
  rw [hnegate, texts]
  rcases formula?_eq_some hf with ⟨e, he, rfl⟩ | ⟨-, rfl⟩
  · rw [he, violation?_entryFormula (by decide), List.flatMap_singleton]
  · rw [violation?_compound_of_room (by decide) (by rwa [List.length_map]),
      findSome?_entries (by decide)]

lemma encodeRule_rule? (h : m.rule? = some r) (hlength : m.entries.length < UInt32.size) :
    encodeRule r =
      (m.texts.find? fun t => maxTextBytes < (Bytes.ofText t).length).elim (.ok (ruleDocument r))
        fun t => .error (.stringTooLong (Bytes.ofText t).length) := by
  rw [encodeRule_eq, violation?_rule? h hlength, findSome?_textFault?]
  cases m.texts.find? fun t => maxTextBytes < (Bytes.ofText t).length <;> rfl

/-! ### Judging by the rule -/

lemma lists_iff : m.Lists s ↔ (s.installerName, s.installerCertificate) ∈ m.entries :=
  lookup_eq_some_iff m.ascending

lemma effect_ofRules_rule? (h : m.rule? = some r) :
    (ofRules [r] s).effect = .deny ↔ ¬ m.Lists s := by
  obtain ⟨f, -, rfl⟩ := rule?_eq_some h
  rw [effect_ofRules_eq_deny_iff, deciding_ne_nil_iff, ← holds_rule? h]
  simp

/-- The rule among those of a source does what the table does beside them. -/
lemma verdict_evaluate_of_rule? (h : m.rule? = some r) {engine engine' : Engine}
    (hrules : (engine'.source s).rulesOrNone = (engine.source s).rulesOrNone ++ [r]) :
    (engine'.evaluate s (.ofList [])).1.verdict = (engine.evaluate s m).1.verdict := by
  have hnone : (ofList []).rule? = none := rfl
  rw [verdict_evaluate_eq, verdict_evaluate_eq, hrules, h, hnone, Option.toList_none,
    Option.toList_some, List.append_nil]

/-- **The rule can be kept in the place of the table.** If no name and no certificate is too long,
it has a document, and the rule that is read back does behind the rules of any source what the table
does: it gives the same verdicts, by the same rules. Otherwise the first text that is too long is
the reason why it has none. A table with fewer entries denies all the more. -/
theorem rule?_stands_for_table :
    (∀ m : AllowedInstallers, m.entries ≠ [] → m.entries.length < 2 ^ 32 →
      ∃ r, m.rule? = some r ∧
        ((∀ t ∈ m.texts, (Bytes.ofText t).length ≤ 65536) →
          ∃ b r', encodeRule r = .ok b ∧ decodeRule b = .ok r' ∧
            ∀ (engine engine' : Engine) (s : Subject),
              (engine'.source s).rulesOrNone = (engine.source s).rulesOrNone ++ [r'] →
              (engine'.evaluate s (.ofList [])).1.verdict = (engine.evaluate s m).1.verdict) ∧
        ((¬ ∀ t ∈ m.texts, (Bytes.ofText t).length ≤ 65536) →
          ∃ t, m.texts.find? (fun t => 65536 < (Bytes.ofText t).length) = some t ∧
            encodeRule r = .error (.stringTooLong (Bytes.ofText t).length))) ∧
    ∀ m m' : AllowedInstallers, m.entries ≠ [] → m'.entries ≠ [] → m'.entries ⊆ m.entries →
      ∃ r r', m.rule? = some r ∧ m'.rule? = some r' ∧
        ∀ s, (ofRules [r] s).effect = .deny → (ofRules [r'] s).effect = .deny := by
  have hexists : ∀ m : AllowedInstallers, m.entries ≠ [] → ∃ r, m.rule? = some r := fun m hne =>
    Option.ne_none_iff_exists'.1 (mt rule?_eq_none_iff.1 hne)
  constructor
  · intro m hne hlength
    obtain ⟨r, hr⟩ := hexists m hne
    have hencode := encodeRule_rule? hr hlength
    refine ⟨r, hr, fun hfit => ?_, fun hover => ?_⟩
    · rw [find?_texts_eq_none_iff.2 hfit] at hencode
      exact ⟨_, r, hencode, decodeRule_of_encodeRule (Formula.wellFormed_rule? hr) hencode,
        fun engine engine' s => verdict_evaluate_of_rule? hr⟩
    · obtain ⟨t, ht⟩ := Option.ne_none_iff_exists'.1 (mt find?_texts_eq_none_iff.1 hover)
      rw [ht] at hencode
      exact ⟨t, ht, hencode⟩
  · intro m m' hne hne' hsubset
    obtain ⟨r, hr⟩ := hexists m hne
    obtain ⟨r', hr'⟩ := hexists m' hne'
    refine ⟨r, r', hr, hr', fun s hdeny => ?_⟩
    rw [effect_ofRules_rule? hr, lists_iff] at hdeny
    rw [effect_ofRules_rule? hr', lists_iff]
    exact fun hlists => hdeny (hsubset hlists)

/-- A table of two installers beside a rule that allows, the same table without one of them, and a
table in which the second certificate is too long. -/
theorem rule?_stands_for_table_two :
    let m : AllowedInstallers := .ofList [("com.store", "CERT"), ("com.other", "OTHER")]
    let fewer : AllowedInstallers := .ofList [("com.store", "CERT")]
    let loaded : List Rule := [⟨.preInstalled, .allow⟩]
    let s : Subject := { installerName := "com.other", installerCertificate := "CERT" }
    let long := String.ofList (List.replicate 65537 'a')
    (∃ r b r', m.rule? = some r ∧ encodeRule r = .ok b ∧ decodeRule b = .ok r' ∧
      (Engine.evaluate { source := .fixed (loaded ++ [r']) } s (.ofList [])).1.verdict =
        (Engine.evaluate { source := .fixed loaded } s m).1.verdict) ∧
    (∃ r r', m.rule? = some r ∧ fewer.rule? = some r' ∧ (ofRules [r] s).effect = .deny ∧
      (ofRules [r'] s).effect = .deny) ∧
    ∃ r, rule? ⟨[("com.other", "OTHER"), ("com.store", long)],
        List.pairwise_pair.2 (show "com.other" < "com.store" by decide)⟩ = some r ∧
      encodeRule r = .error (.stringTooLong 65537) := by
  have hlong : (Bytes.ofText (String.ofList (List.replicate 65537 'a'))).length = 65537 :=
    length_ofText_replicate _
  generalize String.ofList (List.replicate 65537 'a') = long at hlong ⊢
  intro m fewer loaded s _
  obtain ⟨hdocument, hfewer⟩ := rule?_stands_for_table
  refine ⟨?_, ?_, ?_⟩
  · obtain ⟨r, hr, hfit, -⟩ := hdocument m (by decide) (by decide)
    obtain ⟨b, r', hencode, hdecode, hverdict⟩ := hfit (by decide)
    exact ⟨r, b, r', hr, hencode, hdecode, hverdict _ _ s rfl⟩
  · obtain ⟨r, r', hr, hr', hdeny⟩ := hfewer m fewer (by decide) (by decide) (by decide)
    have hr_deny : (ofRules [r] s).effect = .deny := (effect_ofRules_rule? hr).2 (by decide)
    exact ⟨r, r', hr, hr', hr_deny, hdeny s hr_deny⟩
  · obtain ⟨r, hr, -, hover⟩ := hdocument ⟨[("com.other", "OTHER"), ("com.store", long)],
      List.pairwise_pair.2 (show "com.other" < "com.store" by decide)⟩ (List.cons_ne_nil _ _)
      (show 2 < 2 ^ 32 by decide)
    have hnot : ¬ (Bytes.ofText long).length ≤ 65536 := by rw [hlong]; decide
    obtain ⟨t, ht, hencode⟩ := hover fun hall => hnot (hall long (by simp [texts]))
    have hshort : ∀ u ∈ ["com.other", "OTHER", "com.store"], ¬ 65536 < (Bytes.ofText u).length := by
      decide
    obtain rfl : long = t := by simpa [texts, List.find?_cons, hshort, hlong] using ht
    exact ⟨r, hr, by rw [hencode, hlong]⟩

end AllowedInstallers

end InstallPolicy
