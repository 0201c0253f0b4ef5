import InstallPolicy.Proofs.Document.Canonical
import InstallPolicy.Proofs.Engine
import InstallPolicy.Proofs.Store.File

/-!
Which rule files are trusted.

A file is trusted only if it is what storing some rules leaves behind, to the byte, and then these
are the rules it holds. For every other content there is one cause why it is refused, and an
engine over the store tells this cause as an error before it goes on without rules.
-/

namespace InstallPolicy

open Document

variable {content : Bytes} {rules : List Rule} {cause : StoreError}

/-! ### Contents -/

/-- The content is what is left behind when these rules are stored. -/
structure Genuine (content : Bytes) (rules : List Rule) : Prop where
  wellFormed : ∀ r ∈ rules, r.formula.WellFormed
  stored : ∃ document, encodeRules rules = .ok document ∧
    content = document ++ Sha3.digest document

/-- The content is refused for this cause: it has too few bytes, or the checksum of other bytes than
those before it, or these bytes are no document. -/
inductive Refused : (content : Bytes) → (cause : StoreError) → Prop where
  | short {content : Bytes} : content.length < 32 →
    Refused content (.corrupted (.short content.length))
  | mismatch {document checksum : Bytes} : checksum.length = 32 → Sha3.digest document ≠ checksum →
    Refused (document ++ checksum) (.corrupted .checksumMismatch)
  | undecodable {document : Bytes} {cause : DecodeError} : decodeRules document = .error cause →
    Refused (document ++ Sha3.digest document) (.decode cause)

/-- Too few bytes for a checksum, or a document and a checksum of the right size. -/
lemma content_cases (content : Bytes) : content.length < checksumBytes ∨
    ∃ document checksum, checksum.length = checksumBytes ∧ content = document ++ checksum := by
  rcases Nat.lt_or_ge content.length checksumBytes with hshort | hlong
  · exact .inl hshort
  · refine .inr ⟨content.take (content.length - checksumBytes),
      content.drop (content.length - checksumBytes), ?_, (List.take_append_drop _ _).symm⟩
    rw [List.length_drop]
    omega

lemma rulesOfContent_of_short (h : content.length < checksumBytes) :
    rulesOfContent content = .error (.corrupted (.short content.length)) := by
  unfold rulesOfContent
  exact if_pos h

lemma rulesOfContent_of_genuine (h : Genuine content rules) :
    rulesOfContent content = .ok rules := by
  obtain ⟨hwell, document, hencode, rfl⟩ := h
  exact rulesOfContent_of_encodeRules hwell hencode

lemma rulesOfContent_of_refused (h : Refused content cause) :
    rulesOfContent content = .error cause := by
  cases h with
  | short hshort => exact rulesOfContent_of_short hshort
  | mismatch hlength hdigest => rw [rulesOfContent_append hlength, if_neg hdigest]
  | undecodable hdecode =>
    rw [← withChecksum, rulesOfContent_withChecksum, hdecode]
    rfl

/-- Nothing else can be said of a content than that it is genuine or why it is refused. -/
lemma genuine_or_refused (content : Bytes) :
    (∃ rules, Genuine content rules) ∨ ∃ cause, Refused content cause := by
  rcases content_cases content with hshort | ⟨document, checksum, hlength, rfl⟩
  · exact .inr ⟨_, .short hshort⟩
  · by_cases hdigest : Sha3.digest document = checksum
    · subst hdigest
      cases hdecode : decodeRules document with
      | error cause => exact .inr ⟨_, .undecodable hdecode⟩
      | ok rules =>
        obtain ⟨hrules, hencode⟩ := encodeRules_of_decodeRules hdecode
        exact .inl ⟨rules, fun r hr => (hrules r hr).1, document, hencode, rfl⟩
    · exact .inr ⟨_, .mismatch hlength hdigest⟩

lemma rulesOfContent_eq_ok_iff : rulesOfContent content = .ok rules ↔ Genuine content rules := by
  refine ⟨fun h => ?_, rulesOfContent_of_genuine⟩
  rcases genuine_or_refused content with ⟨others, hgenuine⟩ | ⟨cause, hrefused⟩
  · have hsame := (rulesOfContent_of_genuine hgenuine).symm.trans h
    obtain rfl := Except.ok.inj hsame
    exact hgenuine
  · rw [rulesOfContent_of_refused hrefused] at h
    contradiction

lemma rulesOfContent_eq_error_iff :
    rulesOfContent content = .error cause ↔ Refused content cause := by
  refine ⟨fun h => ?_, rulesOfContent_of_refused⟩
  rcases genuine_or_refused content with ⟨rules, hgenuine⟩ | ⟨other, hrefused⟩
  · rw [rulesOfContent_of_genuine hgenuine] at h
    contradiction
  · have hsame := (rulesOfContent_of_refused hrefused).symm.trans h
    obtain rfl := Except.error.inj hsame
    exact hrefused

/-! ### Readings and engines -/

def Assessment.errors (a : Assessment) : List Event := a.events.filter (·.level == .error)

namespace FileStore

variable {store : FileStore} {d : Directory}

lemma rules_read (hfile : d.read store.path = .ok content) :
    (store.read d).rules = rulesOfContent content := by
  simp only [read, hfile]
  split <;> simp [*]

lemma level_of_mem_events_read {e : Event} (he : e ∈ (store.read d).events) : e.level = .warn := by
  unfold read at he
  split at he
  · contradiction
  · contradiction
  · split at he
    · obtain rfl := List.mem_singleton.1 he
      rfl
    · contradiction

lemma errors_evaluate (store : FileStore) (d : Directory) (reads : ℕ) (s : Subject)
    (allowed : AllowedInstallers) :
    (Engine.evaluate ⟨store.source d, reads⟩ s allowed).1.errors = (store.read d).failure s := by
  have hown : (store.read d).events.filter (·.level == .error) = [] := by
    refine List.filter_eq_nil_iff.2 fun e he => ?_
    simp [level_of_mem_events_read he]
  change ((store.read d).events ++ (store.read d).failure s ++ [Event.evaluated ..]).filter _ = _
  rw [List.filter_append, List.filter_append, hown, List.nil_append]
  unfold Reading.failure
  split <;> rfl

/-- A source whose answer comes to some rules is as good as these rules. -/
lemma verdict_evaluate_of_rulesOrNone {source : RuleSource} {s : Subject}
    (h : (source s).rulesOrNone = rules) (reads : ℕ) (allowed : AllowedInstallers) :
    (Engine.evaluate ⟨source, reads⟩ s allowed).1.verdict =
      (Engine.evaluate ⟨.fixed rules, reads⟩ s allowed).1.verdict := by
  subst h
  rfl

/-- An engine over a store that reads some rules tells no error and judges by them. -/
lemma evaluate_of_rules_eq_ok (h : (store.read d).rules = .ok rules) (reads : ℕ) (s : Subject)
    (allowed : AllowedInstallers) :
    (Engine.evaluate ⟨store.source d, reads⟩ s allowed).1.errors = [] ∧
      (Engine.evaluate ⟨store.source d, reads⟩ s allowed).1.verdict =
        (Engine.evaluate ⟨.fixed rules, reads⟩ s allowed).1.verdict := by
  refine ⟨?_, verdict_evaluate_of_rulesOrNone ?_ reads allowed⟩
  · rw [errors_evaluate, Reading.failure, h]
  · rw [source, rulesOrNone_eq, h]

/-- An engine over a store that cannot be read tells the cause and judges as if there were no
rules. -/
lemma evaluate_of_rules_eq_error (h : (store.read d).rules = .error cause) (reads : ℕ) (s : Subject)
    (allowed : AllowedInstallers) :
    (Engine.evaluate ⟨store.source d, reads⟩ s allowed).1.errors =
        [.loadingFailed s.packageName cause] ∧
      (Engine.evaluate ⟨store.source d, reads⟩ s allowed).1.verdict =
        (Engine.evaluate ⟨.fixed [], reads⟩ s allowed).1.verdict := by
  refine ⟨?_, verdict_evaluate_of_rulesOrNone ?_ reads allowed⟩
  · rw [errors_evaluate, Reading.failure, h]
  · rw [source, rulesOrNone_eq, h]

/-- **A file is trusted only if it is what storing its rules leaves behind**, and a file that is
not trusted is never passed over in silence. Of any file, the store reads the rules for which it
is genuine, or says why it is refused; and an engine over the store judges by these rules and tells
no error, or tells the one error that the rules could not be loaded, with the cause, and judges
as if there were none. -/
theorem genuine_or_told (hfile : d.read store.path = .ok content) :
    (∀ rules, (store.read d).rules = .ok rules ↔ Genuine content rules) ∧
    (∀ cause, (store.read d).rules = .error cause ↔ Refused content cause) ∧
    ∀ reads s allowed, let a := (Engine.evaluate ⟨store.source d, reads⟩ s allowed).1
      (∀ e ∈ a.errors, e.message = "Error loading rules.") ∧
      (a.errors = [] ↔ ∃ rules, Genuine content rules) ∧
      (∀ rules, Genuine content rules →
        a.verdict = (Engine.evaluate ⟨.fixed rules, reads⟩ s allowed).1.verdict) ∧
      ∀ cause, Refused content cause → a.errors = [.loadingFailed s.packageName cause] ∧
        a.verdict = (Engine.evaluate ⟨.fixed [], reads⟩ s allowed).1.verdict := by
  have hrules := rules_read hfile
  refine ⟨fun rules => ?_, fun cause => ?_, fun reads s allowed => ?_⟩
  · rw [hrules, rulesOfContent_eq_ok_iff]
  · rw [hrules, rulesOfContent_eq_error_iff]
  intro a
  have htrusted : ∀ rules, Genuine content rules → a.errors = [] ∧
      a.verdict = (Engine.evaluate ⟨.fixed rules, reads⟩ s allowed).1.verdict := by
    intro rules hgenuine
    have hread := hrules.trans (rulesOfContent_of_genuine hgenuine)
    exact evaluate_of_rules_eq_ok hread reads s allowed
  have htold : ∀ cause, Refused content cause → a.errors = [.loadingFailed s.packageName cause] ∧
      a.verdict = (Engine.evaluate ⟨.fixed [], reads⟩ s allowed).1.verdict := by
    intro cause hrefused
    have hread := hrules.trans (rulesOfContent_of_refused hrefused)
    exact evaluate_of_rules_eq_error hread reads s allowed
  refine ⟨fun e he => ?_, ⟨fun hnone => ?_, ?_⟩, fun rules hgenuine => (htrusted rules hgenuine).2,
    htold⟩
  · rcases genuine_or_refused content with ⟨rules, hgenuine⟩ | ⟨cause, hrefused⟩
    · simp [(htrusted rules hgenuine).1] at he
    · rw [(htold cause hrefused).1, List.mem_singleton] at he
      rw [he]
      rfl
  · refine (genuine_or_refused content).resolve_right ?_
    rintro ⟨cause, hrefused⟩
    simp [(htold cause hrefused).1] at hnone
  · rintro ⟨rules, hgenuine⟩
    exact (htrusted rules hgenuine).1

/-- A file as it is stored, and a file with the right checksum over bytes that are no document. -/
theorem genuine_or_told_badMagic :
    let store : FileStore := ⟨⟨"rules.bin"⟩⟩
    let holding : Bytes → Directory := fun document =>
      ({} : Directory).set store.path.location (.file (withChecksum document))
    let rules : List Rule := [⟨.preInstalled, .deny⟩]
    let nope : Bytes := [78, 79, 80, 69, 1, 0, 0, 0, 0]
    (store.read (holding (ruleListDocument rules))).rules = .ok rules ∧
    ∀ s allowed, let a := (Engine.evaluate ⟨store.source (holding nope), 0⟩ s allowed).1
      a.errors = [.loadingFailed s.packageName (.decode .badMagic)] ∧
      a.verdict = (Engine.evaluate ⟨.fixed [], 0⟩ s allowed).1.verdict := by
  intro store holding rules nope
  have hfile : ∀ document, (holding document).read store.path = .ok (withChecksum document) := by
    intro document
    refine Directory.read_of_write (Directory.write_eq_ok_iff.2 ⟨?_, ?_, rfl⟩)
    · decide +kernel
    · decide +kernel
  have hrules : Genuine (withChecksum (ruleListDocument rules)) rules :=
    ⟨List.forall_mem_singleton.2 (by decide), _, rfl, rfl⟩
  have hnope : Refused (withChecksum nope) (.decode .badMagic) := .undecodable rfl
  refine ⟨((genuine_or_told (hfile _)).1 rules).2 hrules, fun s allowed => ?_⟩
  exact ((genuine_or_told (hfile nope)).2.2 0 s allowed).2.2.2 _ hnope

end FileStore

end InstallPolicy
