import InstallPolicy.Proofs.Document.Parametric
import InstallPolicy.Proofs.Document.Reader

/-!
What a decoder says of an input when bytes are added to it or taken from its end.

Readers are local: they look at no byte that they do not take, apart from the number of bytes
left, and that they look at only in order to say that it is too small. So more bytes after an
input can only be trailing ones, unless the input was cut short.
-/

namespace InstallPolicy

open Document Input

variable {α β : Type}

/-- Bytes are missing, and more were needed than there were. -/
def DecodeError.IsCut (e : DecodeError) : Prop :=
  ∃ needed remaining, e = .truncated needed remaining ∧ remaining < needed

namespace Reader

/-- Bytes after an input are left if the reader succeeds, and do not matter if it fails, unless it
fails for the lack of bytes. -/
structure Local (r : Reader α) : Prop where
  ok : ∀ {input rest a}, r input = .ok (a, rest) → ∀ s, r (input ++ s) = .ok (a, rest ++ s)
  error : ∀ {input e}, r input = .error e →
    e.IsCut ∨ e.isFinal = true ∧ ∀ s, r (input ++ s) = .error e

/-! ### Fields -/

lemma Local.pure (a : α) : Local (pure a) where
  ok h s := by
    obtain ⟨rfl, rfl⟩ := pure_eq_ok_iff.1 h
    rfl
  error := nofun

lemma Local.throw {e : DecodeError} (he : e.isFinal = true) : Local (throw e : Reader α) where
  ok := nofun
  error h := by
    obtain rfl := Except.error.inj h
    exact .inr ⟨he, fun _ => rfl⟩

lemma Local.bind {r : Reader α} {k : α → Reader β} (hr : Local r) (hk : ∀ a, Local (k a)) :
    Local (r >>= k) where
  ok h s := by
    obtain ⟨a, mid, ha, hb⟩ := bind_eq_ok_iff.1 h
    rw [bind_of_ok (hr.ok ha s)]
    exact (hk a).ok hb s
  error h := by
    rcases bind_eq_error_iff.1 h with he | ⟨a, mid, ha, he⟩
    · exact (hr.error he).imp_right fun h => ⟨h.1, fun s => bind_of_error (h.2 s)⟩
    · refine ((hk a).error he).imp_right fun h => ⟨h.1, fun s => ?_⟩
      rw [bind_of_ok (hr.ok ha s)]
      exact h.2 s

lemma Local.byte : Local byte where
  ok h s := by
    obtain rfl := byte_eq_ok_iff.1 h
    rfl
  error {input e} h := by
    cases input with
    | nil => exact .inl ⟨1, 0, (Except.error.inj h).symm, by omega⟩
    | cons b rest => simp [Reader.byte] at h

lemma Local.take (n : ℕ) : Local (take n) where
  ok h s := by
    obtain ⟨hn, rfl⟩ := take_eq_ok_iff.1 h
    exact take_eq_ok_iff.2 ⟨hn, List.append_assoc ..⟩
  error {input e} h := by
    obtain ⟨hlt, rfl⟩ := take_eq_error_iff.1 h
    exact .inl ⟨n, input.length, rfl, hlt⟩

/-- That bytes are left is no less true when more follow. -/
lemma Local.require (n : ℕ) : Local (require n) where
  ok h s := by
    obtain ⟨hn, rfl⟩ := require_eq_ok_iff.1 h
    refine require_eq_ok_iff.2 ⟨?_, rfl⟩
    rw [List.length_append]
    omega
  error {input e} h := by
    obtain ⟨hlt, rfl⟩ := require_eq_error_iff.1 h
    exact .inl ⟨n, input.length, rfl, hlt⟩

lemma Local.number (width : ℕ) : Local (number width) :=
  (Local.take width).bind fun _ => .pure _

lemma Local.parametric : Parametric (m := Reader) (n := Reader) fun _ r _ => Local r where
  pure := .pure
  throw := .throw
  bind := .bind
  byte := .byte
  take := .take
  number := .number
  require := .require
  enter _ := .pure ()

/-! ### Whole inputs -/

lemma run_eq_error {r : Reader α} {b : Bytes} {e : DecodeError} (h : r.run b = .error e) :
    r b = .error e ∨
      ∃ a rest, r b = .ok (a, rest) ∧ rest ≠ [] ∧ e = .trailingBytes rest.length := by
  cases hr : r b with
  | error e' =>
    obtain rfl := Except.error.inj ((run_of_error hr).symm.trans h)
    exact .inl rfl
  | ok p =>
    obtain ⟨a, rest⟩ := p
    rw [run_of_ok hr] at h
    split at h
    · simp at h
    · exact .inr ⟨a, rest, rfl, ‹_›, (Except.error.inj h).symm⟩

lemma Local.run_append {r : Reader α} (h : Local r) {b rest : Bytes} {a : α}
    (hr : r b = .ok (a, rest)) {s : Bytes} (hs : rest ++ s ≠ []) :
    r.run (b ++ s) = .error (.trailingBytes (rest.length + s.length)) := by
  rw [run_of_ok (h.ok hr s), if_neg hs, List.length_append]

/-- All that a local reader can say against an input, and what becomes of it in longer ones. -/
lemma Local.of_run_eq_error {r : Reader α} (h : Local r) {b : Bytes} {e : DecodeError}
    (hb : r.run b = .error e) :
    e.IsCut ∨ (e.isFinal = true ∧ ∀ s, r.run (b ++ s) = .error e) ∨
      ∃ n, e = .trailingBytes n ∧
        ∀ s : Bytes, r.run (b ++ s) = .error (.trailingBytes (n + s.length)) := by
  rcases run_eq_error hb with hr | ⟨a, rest, hr, hrest, rfl⟩
  · rcases h.error hr with hcut | ⟨hfinal, hs⟩
    · exact .inl hcut
    · exact .inr (.inl ⟨hfinal, fun s => run_of_error (hs s)⟩)
  · exact .inr (.inr ⟨rest.length, rfl, fun s => h.run_append hr (by simp [hrest])⟩)

end Reader

namespace Document

open Reader

/-! ### Decoders -/

/-- What a decoder says of an input settles what it says of longer ones, unless the input ends too
early, and of the shorter ones if the input is accepted. -/
structure Steady (decode : Bytes → Except DecodeError α) : Prop where
  accepted : ∀ b a s, s ≠ [] → decode b = .ok a → decode (b ++ s) = .error (.trailingBytes s.length)
  trailing : ∀ b n s, decode b = .error (.trailingBytes n) →
    decode (b ++ s) = .error (.trailingBytes (n + s.length))
  refused : ∀ b e s, (∀ needed remaining, e ≠ .truncated needed remaining) →
    (∀ n, e ≠ .trailingBytes n) → decode b = .error e → decode (b ++ s) = .error e
  cut : ∀ b a s, s ≠ [] → decode (b ++ s) = .ok a →
    ∃ needed remaining, decode b = .error (.truncated needed remaining)
  truncated : ∀ b needed remaining, decode b = .error (.truncated needed remaining) →
    remaining < needed

lemma steady_run {r : Reader α} (h : Local r) : Steady r.run where
  accepted b a s hs hb := by
    have := h.run_append (run_eq_ok_iff.1 hb) (s := s) hs
    rwa [List.length_nil, Nat.zero_add] at this
  trailing b n s hb := by
    rcases h.of_run_eq_error hb with ⟨_, _, hcut, -⟩ | ⟨hfinal, -⟩ | ⟨m, hm, hs⟩
    · simp at hcut
    · simp [DecodeError.isFinal] at hfinal
    · obtain rfl := DecodeError.trailingBytes.inj hm
      exact hs s
  refused b e s hcut htrailing hb := by
    rcases h.of_run_eq_error hb with ⟨needed, remaining, rfl, -⟩ | ⟨-, hs⟩ | ⟨n, rfl, -⟩
    · exact absurd rfl (hcut needed remaining)
    · exact hs s
    · exact absurd rfl (htrailing n)
  cut b a s hs hb := by
    -- Anything but a lack of bytes would be said of the longer input as well.
    cases hcut : r.run b with
    | ok a' =>
      have := h.run_append (run_eq_ok_iff.1 hcut) hs
      simp [hb] at this
    | error e =>
      rcases h.of_run_eq_error hcut with ⟨needed, remaining, rfl, -⟩ | ⟨-, hs⟩ | ⟨n, -, hs⟩
      · exact ⟨needed, remaining, rfl⟩
      · simp [hs s] at hb
      · simp [hs s] at hb
  truncated b needed remaining hb := by
    rcases h.of_run_eq_error hb with ⟨n, m, hcut, hlt⟩ | ⟨hfinal, -⟩ | ⟨n, hn, -⟩
    · obtain ⟨rfl, rfl⟩ := DecodeError.truncated.inj hcut
      exact hlt
    · simp [DecodeError.isFinal] at hfinal
    · simp at hn

/-- **All decoders are steady**: of formulas, of rules and of lists of rules. -/
theorem decoders_steady : Steady decodeFormula ∧ Steady decodeRule ∧ Steady decodeRules := by
  have h := Local.parametric
  exact ⟨steady_run (h.readFormulaDocument (y := count) h.count),
    steady_run (h.readRuleDocument (y := count) h.count),
    steady_run (h.readRuleListDocument (y := count) h.count)⟩

/-- A disjunction of a conjunction and an atom with two bytes behind it, the list of a rule with it
cut within the conjunction, and a truth value that is none within the conjunction. -/
theorem decoders_steady_nested :
    let conjunction : Bytes := [3, 0, 2, 0, 0, 0, 2, 5, 0, 1, 2, 5, 0]
    let node : Bytes := [3, 1, 2, 0, 0, 0] ++ conjunction ++ [0, 2, 5, 0, 1]
    let list : Bytes := [65, 73, 82, 76, 1, 1, 0, 0, 0, 0, 3, 1, 2, 0, 0, 0] ++ conjunction
    let spoiled : Bytes := [1, 3, 1, 2, 0, 0, 0] ++ conjunction ++ [9]
    (∃ f, decodeFormula (1 :: node) = .ok f) ∧
    decodeFormula ((1 :: node) ++ [7, 7]) = .error (.trailingBytes 2) ∧
    (∃ needed remaining, decodeRules list = .error (.truncated needed remaining)) ∧
    decodeFormula (spoiled ++ [2, 5, 0, 1]) = .error (.invalidBoolean 9) := by
  intro conjunction node list spoiled
  obtain ⟨hformula, -, hrules⟩ := decoders_steady
  obtain ⟨f, hf⟩ : ∃ f, decodeFormula (1 :: node) = .ok f := ⟨_, rfl⟩
  have hspoiled : decodeFormula spoiled = .error (.invalidBoolean 9) := rfl
  obtain ⟨rs, hrs⟩ : ∃ rs, decodeRules (list ++ [0, 2, 5, 0, 1]) = .ok rs := ⟨_, rfl⟩
  refine ⟨⟨f, hf⟩, ?_, ?_, ?_⟩
  · exact hformula.accepted (1 :: node) f [7, 7] (by decide) hf
  · exact hrules.cut list rs [0, 2, 5, 0, 1] (by decide) hrs
  · exact hformula.refused spoiled _ [2, 5, 0, 1] nofun nofun hspoiled

end Document

end InstallPolicy
