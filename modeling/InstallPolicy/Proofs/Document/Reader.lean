import InstallPolicy.Document.Decode
import InstallPolicy.Proofs.Bytes

/-!
What readers take and what they make of it.

A field is read from exactly the bytes that it is written as. `Reads` says what a reader makes of
given bytes whatever follows them, and `Takes` says that the bytes a reader took are those written
for what it returned. Both pass from elements to counted sequences of them, whether or not the
reader of the count looks at the number of bytes that are left.
-/

namespace InstallPolicy

open Document Input

variable {α β γ : Type}

/-! ### Words and their codes -/

/-- Every word of a vocabulary has a code of one byte, and is the only one found under it. -/
structure Coded (ofCode : Int → Except FormulaError α) (code : α → ℕ) : Prop where
  found : ∀ {c : Int} {a : α}, ofCode c = .ok a ↔ c = code a
  byte : ∀ a : α, code a < 256

lemma elim_error_eq_ok_iff {ε : Type} {e : ε} {o : Option α} {a : α} :
    o.elim (Except.error e) .ok = .ok a ↔ o = some a := by
  cases o <;> simp

lemma Key.coded : Coded Key.ofCode Key.code where
  found := elim_error_eq_ok_iff.trans Key.ofCode?_eq_some_iff
  byte k := by cases k <;> decide

lemma Operator.coded : Coded Operator.ofCode Operator.code where
  found := elim_error_eq_ok_iff.trans Operator.ofCode?_eq_some_iff
  byte o := by cases o <;> decide

lemma Connector.coded : Coded Connector.ofCode Connector.code where
  found := elim_error_eq_ok_iff.trans Connector.ofCode?_eq_some_iff
  byte c := by cases c <;> decide

lemma Effect.coded : Coded Effect.ofCode Effect.code where
  found := elim_error_eq_ok_iff.trans Effect.ofCode?_eq_some_iff
  byte e := by cases e <;> decide

namespace Reader

variable {input rest bytes : Bytes}

/-! ### Readers in sequence -/

lemma bind_apply (r : Reader α) (k : α → Reader β) (input : Bytes) :
    (r >>= k) input = r input >>= fun p => k p.1 p.2 := rfl

lemma bind_of_ok {r : Reader α} {k : α → Reader β} {a : α} (h : r input = .ok (a, rest)) :
    (r >>= k) input = k a rest := by
  rw [bind_apply, h]
  rfl

lemma bind_eq_ok_iff {r : Reader α} {k : α → Reader β} {b : β} :
    (r >>= k) input = .ok (b, rest) ↔
      ∃ a mid, r input = .ok (a, mid) ∧ k a mid = .ok (b, rest) := by
  rw [bind_apply]
  cases h : r input with
  | error e => simp [bind, Except.bind]
  | ok p =>
    refine ⟨fun hk => ⟨p.1, p.2, rfl, hk⟩, ?_⟩
    rintro ⟨a, mid, hp, hk⟩
    obtain rfl := Except.ok.inj hp
    exact hk

lemma bind_of_error {r : Reader α} {k : α → Reader β} {e : DecodeError} (h : r input = .error e) :
    (r >>= k) input = .error e := by
  rw [bind_apply, h]
  rfl

lemma bind_eq_error_iff {r : Reader α} {k : α → Reader β} {e : DecodeError} :
    (r >>= k) input = .error e ↔
      r input = .error e ∨ ∃ a mid, r input = .ok (a, mid) ∧ k a mid = .error e := by
  cases h : r input with
  | error e' => simp [bind_of_error h]
  | ok p =>
    rw [bind_of_ok h]
    refine ⟨fun he => .inr ⟨p.1, p.2, rfl, he⟩, ?_⟩
    rintro (he | ⟨a, mid, hp, he⟩)
    · simp at he
    · obtain rfl := Except.ok.inj hp
      exact he

@[simp] lemma pure_eq_ok_iff {a b : α} :
    (pure a : Reader α) input = .ok (b, rest) ↔ a = b ∧ input = rest := by
  constructor
  · intro h
    exact Prod.mk.inj (Except.ok.inj h)
  · rintro ⟨rfl, rfl⟩
    rfl

@[simp] lemma throw_apply (e : DecodeError) (input : Bytes) :
    (throw e : Reader α) input = .error e := rfl

/-! ### Fields -/

@[simp] lemma input_byte : (Input.byte : Reader UInt8) = byte := rfl

@[simp] lemma input_number (width : ℕ) : (Input.number width : Reader ℕ) = number width := rfl

@[simp] lemma input_require (n : ℕ) : (Input.require n : Reader Unit) = require n := rfl

lemma byte_eq_ok_iff {b : UInt8} : byte input = .ok (b, rest) ↔ input = b :: rest := by
  cases input <;> simp [byte]

lemma take_eq_ok_iff {n : ℕ} :
    take n input = .ok (bytes, rest) ↔ bytes.length = n ∧ input = bytes ++ rest := by
  by_cases hn : n ≤ input.length
  · rw [take, if_pos (Bytes.hasLength_iff.2 hn)]
    constructor
    · intro h
      obtain ⟨rfl, rfl⟩ := Prod.mk.inj (Except.ok.inj h)
      exact ⟨List.length_take_of_le hn, (List.take_append_drop n input).symm⟩
    · rintro ⟨rfl, rfl⟩
      simp
  · rw [take, if_neg (by simpa using hn)]
    refine ⟨nofun, ?_⟩
    rintro ⟨rfl, rfl⟩
    simp at hn

lemma take_eq_error_iff {n : ℕ} {e : DecodeError} :
    take n input = .error e ↔ input.length < n ∧ e = .truncated n input.length := by
  by_cases hn : n ≤ input.length
  · rw [take, if_pos (Bytes.hasLength_iff.2 hn)]
    simp [Nat.not_lt_of_le hn]
  · rw [take, if_neg (by simpa using hn)]
    simp [Nat.lt_of_not_le hn, eq_comm]

lemma require_eq_ok_iff {n : ℕ} {u : Unit} :
    require n input = .ok (u, rest) ↔ n ≤ input.length ∧ input = rest := by
  by_cases hn : n ≤ input.length
  · rw [require, if_pos (Bytes.hasLength_iff.2 hn)]
    simp [hn]
  · rw [require, if_neg (by simpa using hn)]
    simp [hn]

lemma require_eq_error_iff {n : ℕ} {e : DecodeError} :
    require n input = .error e ↔ input.length < n ∧ e = .truncated n input.length := by
  by_cases hn : n ≤ input.length
  · rw [require, if_pos (Bytes.hasLength_iff.2 hn)]
    simp [Nat.not_lt_of_le hn]
  · rw [require, if_neg (by simpa using hn)]
    simp [Nat.lt_of_not_le hn, eq_comm]

lemma number_eq_ok_iff {width n : ℕ} :
    number width input = .ok (n, rest) ↔
      n < 256 ^ width ∧ input = Bytes.littleEndian width n ++ rest := by
  simp only [number, bind_eq_ok_iff, take_eq_ok_iff, pure_eq_ok_iff]
  constructor
  · rintro ⟨bytes, mid, ⟨rfl, rfl⟩, rfl, rfl⟩
    exact ⟨Bytes.value_lt bytes, by rw [Bytes.littleEndian_value]⟩
  · rintro ⟨hn, rfl⟩
    exact ⟨_, _, ⟨Bytes.length_littleEndian width n, rfl⟩,
      Bytes.value_littleEndian_of_lt hn, rfl⟩

lemma flag_eq_ok_iff {b : Bool} :
    (flag : Reader Bool) input = .ok (b, rest) ↔ input = flagByte b :: rest := by
  simp only [flag, input_byte, bind_eq_ok_iff, byte_eq_ok_iff]
  constructor
  · rintro ⟨c, mid, rfl, h⟩
    split at h
    · obtain ⟨rfl, rfl⟩ := pure_eq_ok_iff.1 h
      simp_all [flagByte]
    split at h
    · obtain ⟨rfl, rfl⟩ := pure_eq_ok_iff.1 h
      simp_all [flagByte]
    · simp at h
  · rintro rfl
    refine ⟨_, _, rfl, ?_⟩
    cases b <;> simp [flagByte]

lemma integer_eq_ok_iff {n : Int64} :
    (integer : Reader Int64) input = .ok (n, rest) ↔ input = integerBytes n ++ rest := by
  simp only [integer, input_number, bind_eq_ok_iff, number_eq_ok_iff, pure_eq_ok_iff, integerBytes]
  constructor
  · rintro ⟨m, mid, ⟨hm, rfl⟩, rfl, rfl⟩
    have hnumber : (UInt64.ofNat m).toNat = m := UInt64.toNat_ofNat_of_lt' hm
    rw [UInt64.toUInt64_toInt64, hnumber]
  · rintro rfl
    exact ⟨_, _, ⟨n.toUInt64.toNat_lt, rfl⟩, by simp, rfl⟩

/-- A text is taken with its number of bytes, which is within the limit. -/
lemma text_eq_ok_iff {limit : ℕ} {s : String} (hlimit : limit < UInt32.size) :
    (text limit : Reader String) input = .ok (s, rest) ↔
      (Bytes.ofText s).length ≤ limit ∧ input = textBytes s ++ rest := by
  simp only [text, input_number, bind_eq_ok_iff, number_eq_ok_iff]
  constructor
  · rintro ⟨n, mid, ⟨-, rfl⟩, h⟩
    split at h
    · simp at h
    · obtain ⟨bytes, mid', htake, h'⟩ := bind_eq_ok_iff.1 h
      obtain ⟨rfl, rfl⟩ := take_eq_ok_iff.1 htake
      cases ht : Bytes.toText? bytes with
      | none => simp [ht] at h'
      | some t =>
        simp only [ht, pure_eq_ok_iff] at h'
        obtain ⟨rfl, rfl⟩ := h'
        obtain rfl := Bytes.toText?_eq_some_iff.1 ht
        exact ⟨by omega, by simp [textBytes, countBytes]⟩
  · rintro ⟨hs, rfl⟩
    refine ⟨_, _, ⟨Nat.lt_of_le_of_lt hs hlimit, List.append_assoc ..⟩, ?_⟩
    rw [if_neg (by omega)]
    refine bind_eq_ok_iff.2 ⟨_, _, take_eq_ok_iff.2 ⟨rfl, rfl⟩, ?_⟩
    simp

lemma text_of_gt {limit : ℕ} {s : String} (hs : limit < (Bytes.ofText s).length)
    (hs' : (Bytes.ofText s).length < UInt32.size) :
    (text limit : Reader String) (textBytes s ++ rest) =
      .error (.stringTooLong (Bytes.ofText s).length) := by
  have hn : number 4 (textBytes s ++ rest) =
      .ok ((Bytes.ofText s).length, Bytes.ofText s ++ rest) :=
    number_eq_ok_iff.2 ⟨hs', List.append_assoc ..⟩
  rw [text, input_number, bind_of_ok hn, if_pos hs, throw_apply]

lemma checked_apply (x : Except FormulaError α) (input : Bytes) :
    (checked x : Reader α) input = (x.mapError .formula).map (·, input) := by
  cases x <;> rfl

lemma checked_eq_ok_iff {x : Except FormulaError α} {a : α} :
    (checked x : Reader α) input = .ok (a, rest) ↔ x = .ok a ∧ input = rest := by
  cases x <;> simp [checked]

lemma word_eq_ok_iff {ofCode : Int → Except FormulaError α} {code : α → ℕ}
    (h : Coded ofCode code) {a : α} :
    (word ofCode : Reader α) input = .ok (a, rest) ↔ input = UInt8.ofNat (code a) :: rest := by
  have ha := h.byte a
  simp only [word, input_byte, bind_eq_ok_iff, byte_eq_ok_iff, checked_eq_ok_iff, h.found]
  constructor
  · rintro ⟨b, mid, rfl, hb, rfl⟩
    simp [← Int.ofNat_inj.1 hb]
  · rintro rfl
    refine ⟨_, _, rfl, ?_, rfl⟩
    simp [Nat.mod_eq_of_lt ha]

/-- To a list of bytes it does not matter where a node begins. -/
lemma readTagged_eq (above : ℕ) (compound : Reader Formula) :
    readTagged above compound = (do
      let tag ← Input.byte
      if tag = compoundTag then compound else return .atom (← readAtom tag)) := rfl

/-! ### Whole inputs -/

lemma run_of_error {r : Reader α} {e : DecodeError} (h : r input = .error e) :
    r.run input = .error e := by
  rw [Reader.run, h]

lemma run_of_ok {r : Reader α} {a : α} (h : r input = .ok (a, rest)) :
    r.run input = if rest = [] then .ok a else .error (.trailingBytes rest.length) := by
  rw [Reader.run, h]
  cases rest <;> rfl

lemma run_eq_ok_iff {r : Reader α} {a : α} : r.run input = .ok a ↔ r input = .ok (a, []) := by
  cases h : r input with
  | error e => simp [run_of_error h]
  | ok p =>
    obtain ⟨b, rest⟩ := p
    rw [run_of_ok h]
    by_cases hrest : rest = [] <;> simp [hrest]

/-! ### What a reader makes of given bytes -/

/-- A reader makes `x` of the bytes, whatever follows them, and leaves what follows. -/
def Reads (r : Reader α) (bytes : Bytes) (x : Except DecodeError α) : Prop :=
  ∀ rest, r (bytes ++ rest) = x.map (·, rest)

lemma Reads.pure (a : α) : Reads (pure a) [] (.ok a) := fun _ => rfl

lemma Reads.throw (e : DecodeError) (bytes : Bytes) :
    Reads (throw e : Reader α) bytes (.error e) := fun _ => rfl

lemma Reads.byte (b : UInt8) : Reads byte [b] (.ok b) := fun _ => byte_eq_ok_iff.2 rfl

lemma Reads.flag (b : Bool) : Reads flag [flagByte b] (.ok b) := fun _ => flag_eq_ok_iff.2 rfl

lemma Reads.integer (n : Int64) : Reads integer (integerBytes n) (.ok n) :=
  fun _ => integer_eq_ok_iff.2 rfl

lemma Reads.word {ofCode : Int → Except FormulaError α} {code : α → ℕ} (h : Coded ofCode code)
    (a : α) : Reads (word ofCode) [UInt8.ofNat (code a)] (.ok a) :=
  fun _ => (word_eq_ok_iff h).2 rfl

lemma Reads.text {limit : ℕ} {s : String} (hlimit : limit < UInt32.size)
    (hs : (Bytes.ofText s).length ≤ limit) : Reads (text limit) (textBytes s) (.ok s) :=
  fun _ => (text_eq_ok_iff hlimit).2 ⟨hs, rfl⟩

lemma Reads.text_of_gt {limit : ℕ} {s : String} (hs : limit < (Bytes.ofText s).length)
    (hs' : (Bytes.ofText s).length < UInt32.size) :
    Reads (Input.text limit) (textBytes s) (.error (.stringTooLong (Bytes.ofText s).length)) :=
  fun _ => Reader.text_of_gt hs hs'

lemma Reads.checked (x : Except FormulaError α) : Reads (checked x) [] (x.mapError .formula) :=
  fun rest => checked_apply x rest

lemma Reads.bind {r : Reader α} {k : α → Reader β} {b₁ b₂ : Bytes} {x : Except DecodeError α}
    {y : α → Except DecodeError β} (hr : Reads r b₁ x)
    (hk : ∀ a, x = .ok a → Reads (k a) b₂ (y a)) : Reads (r >>= k) (b₁ ++ b₂) (x >>= y) := by
  intro rest
  rw [List.append_assoc, bind_apply, hr]
  cases x with
  | error e => rfl
  | ok a => exact hk a rfl rest

lemma Reads.bind_ok {r : Reader α} {k : α → Reader β} {b₁ b₂ : Bytes} {a : α}
    {x : Except DecodeError β} (hr : Reads r b₁ (.ok a)) (hk : Reads (k a) b₂ x) :
    Reads (r >>= k) (b₁ ++ b₂) x :=
  hr.bind (y := fun _ => x) fun _ ha => Except.ok.inj ha ▸ hk

lemma Reads.bind_last {r : Reader α} {k : α → Reader β} {x : Except DecodeError α}
    {y : α → Except DecodeError β} (hr : Reads r bytes x)
    (hk : ∀ a, x = .ok a → Reads (k a) [] (y a)) : Reads (r >>= k) bytes (x >>= y) := by
  have h := hr.bind hk
  rwa [List.append_nil] at h

lemma Reads.bind_error {r : Reader α} {k : α → Reader β} {b₁ b₂ : Bytes} {e : DecodeError}
    (hr : Reads r b₁ (.error e)) : Reads (r >>= k) (b₁ ++ b₂) (.error e) :=
  hr.bind (y := fun _ => .error e) nofun

lemma Reads.map {r : Reader α} {x : Except DecodeError α} (hr : Reads r bytes x) (g : α → β) :
    Reads (r >>= fun a => Pure.pure (g a)) bytes (g <$> x) := by
  intro rest
  rw [bind_apply, hr]
  cases x <;> rfl

lemma Reads.run {r : Reader α} {x : Except DecodeError α} (h : Reads r bytes x) :
    r.run bytes = x := by
  have hx := h []
  rw [List.append_nil] at hx
  cases x with
  | error e => exact run_of_error hx
  | ok a => exact run_eq_ok_iff.2 hx

lemma Reads.many {element : Reader α} {written : γ → Bytes} {x : γ → Except DecodeError α}
    {cs : List γ} (h : ∀ c ∈ cs, Reads element (written c) (x c)) :
    Reads (many element cs.length) (cs.flatMap written) (cs.mapM x) := by
  induction cs with
  | nil => exact Reads.pure []
  | cons c cs ih =>
    obtain ⟨hc, hcs⟩ := List.forall_mem_cons.1 h
    rw [List.mapM_cons]
    exact hc.bind fun a _ => (ih hcs).map (a :: ·)

/-! ### What a reader can have taken -/

/-- When a reader succeeds, it has taken the bytes written for its answer, which satisfies `P`. -/
def Takes (r : Reader α) (P : α → Prop) (written : α → Bytes) : Prop :=
  ∀ ⦃input rest a⦄, r input = .ok (a, rest) → P a ∧ input = written a ++ rest

variable {P : α → Prop} {written : α → Bytes}

lemma Takes.run {r : Reader α} {a : α} (h : Takes r P written) (ha : r.run bytes = .ok a) :
    P a ∧ bytes = written a := by
  simpa using h (run_eq_ok_iff.1 ha)

lemma Takes.many {element : Reader α} (h : Takes element P written) (n : ℕ) :
    Takes (many element n) (fun as => as.length = n ∧ ∀ a ∈ as, P a) (·.flatMap written) := by
  induction n with
  | zero =>
    intro input rest as has
    obtain ⟨rfl, rfl⟩ := pure_eq_ok_iff.1 has
    simp
  | succ n ih =>
    intro input rest as has
    simp only [Input.many, bind_eq_ok_iff, pure_eq_ok_iff] at has
    obtain ⟨a, mid, ha, as, mid', has, rfl, rfl⟩ := has
    obtain ⟨hP, rfl⟩ := h ha
    obtain ⟨⟨rfl, hPs⟩, rfl⟩ := ih has
    exact ⟨⟨rfl, List.forall_mem_cons.2 ⟨hP, hPs⟩⟩, by simp⟩

/-! ### Counted sequences -/

/-- A reader of the number of elements that follow. It may refuse a number that exceeds the
number of bytes left, and no other. -/
structure Counts (count : Reader ℕ) : Prop where
  takes : Takes count (· < UInt32.size) countBytes
  reads : ∀ {n : ℕ} {rest : Bytes}, n < UInt32.size → n ≤ rest.length →
    count (countBytes n ++ rest) = .ok (n, rest)

lemma counts_number : Counts (number 4) where
  takes _ _ _ h := number_eq_ok_iff.1 h
  reads h _ := number_eq_ok_iff.2 ⟨h, rfl⟩

lemma counts_count : Counts Input.count where
  takes input rest n h := by
    simp only [Input.count, input_number, input_require, bind_eq_ok_iff, require_eq_ok_iff,
      pure_eq_ok_iff] at h
    obtain ⟨n, mid, hn, _, _, ⟨-, rfl⟩, rfl, rfl⟩ := h
    exact counts_number.takes hn
  reads {n rest} h hrest := by
    have hrequire : require n rest = .ok ((), rest) := require_eq_ok_iff.2 ⟨hrest, rfl⟩
    rw [Input.count, input_number, bind_of_ok (counts_number.reads h hrest), input_require,
      bind_of_ok hrequire]
    rfl

/-- Elements of `k` bytes or more for each of their parts have `k` times as many bytes as there are
parts. -/
lemma mul_length_flatMap_le {δ : Type} {k : ℕ} {cs : List γ} {parts : γ → List δ}
    {written : γ → Bytes} (h : ∀ c ∈ cs, k * (parts c).length ≤ (written c).length) :
    k * (cs.flatMap parts).length ≤ (cs.flatMap written).length := by
  induction cs with
  | nil => simp
  | cons c cs ih =>
    obtain ⟨hc, hcs⟩ := List.forall_mem_cons.1 h
    have := ih hcs
    rw [List.flatMap_cons, List.flatMap_cons, List.length_append, List.length_append, Nat.mul_add]
    omega

lemma mul_length_le_flatMap {k : ℕ} {cs : List γ} {written : γ → Bytes}
    (h : ∀ c ∈ cs, k ≤ (written c).length) : k * cs.length ≤ (cs.flatMap written).length := by
  have hself : ∀ c ∈ cs, k * [c].length ≤ (written c).length := by simpa using h
  simpa using mul_length_flatMap_le hself

variable {count : Reader ℕ} {element : Reader α}

lemma Reads.counted {written : γ → Bytes} {x : γ → Except DecodeError α} {cs : List γ}
    (hcount : Counts count) (hlength : cs.length < UInt32.size) (hne : ∀ c ∈ cs, written c ≠ [])
    (h : ∀ c ∈ cs, Reads element (written c) (x c)) :
    Reads (count >>= Input.many element) (countBytes cs.length ++ cs.flatMap written)
      (cs.mapM x) := by
  intro rest
  -- Elements of a byte or more are no fewer than their bytes, so their count is not refused.
  have hle : cs.length ≤ (cs.flatMap written ++ rest).length := by
    have := mul_length_le_flatMap fun c hc => List.length_pos_iff.2 (hne c hc)
    rw [List.length_append]
    omega
  rw [List.append_assoc, bind_of_ok (hcount.reads hlength hle)]
  exact Reads.many h rest

lemma Takes.counted (hcount : Counts count) (h : Takes element P written) :
    Takes (count >>= Input.many element) (fun as => as.length < UInt32.size ∧ ∀ a ∈ as, P a)
      (fun as => countBytes as.length ++ as.flatMap written) := by
  intro input rest as has
  obtain ⟨n, mid, hn, hmany⟩ := bind_eq_ok_iff.1 has
  obtain ⟨hlt, rfl⟩ := hcount.takes hn
  obtain ⟨⟨rfl, hP⟩, rfl⟩ := h.many n hmany
  exact ⟨⟨hlt, hP⟩, (List.append_assoc ..).symm⟩

end Reader

end InstallPolicy
