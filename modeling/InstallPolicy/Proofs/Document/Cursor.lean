import InstallPolicy.Proofs.Document.Parametric
import InstallPolicy.Proofs.Document.Reader

/-!
Reading by position.

A document can be read with a position in the whole input in the place of the bytes that are left.
Then some things could go wrong that a list of bytes rules out: the position could pass the end, so
that no number of bytes is left, a part could be cut out that is not there, and a node could be
entered below too many compounds. A cursor stops with a breach when this is about to happen.

`Follows` says that a cursor does what a reader does with the bytes from the position on, without a
breach. Documents are read by the same programs here as there, on other ways to take something from
an input, and these ways follow each other. So do the programs, and none of this ever happens.
-/

namespace InstallPolicy

open Document Input

variable {α β : Type}

/-- What must not happen while an input is read by position. -/
inductive Breach where
  /-- The position passes the end of the input. -/
  | position (position length : ℕ)
  /-- A part is taken that the input does not have. -/
  | range (start stop length : ℕ)
  /-- A node is entered below more compounds than there may be. -/
  | depth (above : ℕ)
  deriving DecidableEq

/-- A program that reads an input from a position on. It stops with a breach, or refuses the input,
or comes to an answer and a new position. -/
abbrev Cursor (α : Type) := ReaderT Bytes (StateT ℕ (ExceptT DecodeError (Except Breach))) α

namespace Cursor

/-! ### Fields by position -/

def breach (b : Breach) : Cursor α := fun _ _ => Except.error (ε := Breach) b

def remaining : Cursor ℕ := do
  let input ← read
  let position ← get
  if position ≤ input.length then return input.length - position
  else breach (.position position input.length)

def slice (start stop : ℕ) : Cursor Bytes := do
  let input ← read
  if start ≤ stop ∧ stop ≤ input.length then return (input.take stop).drop start
  else breach (.range start stop input.length)

def moveTo (position : ℕ) : Cursor Unit := do
  let input ← read
  if position ≤ input.length then set position else breach (.position position input.length)

def require (n : ℕ) : Cursor Unit := do
  let left ← remaining
  if n > left then throw (.truncated n left)

def take (n : ℕ) : Cursor Bytes := do
  require n
  let position ← get
  let bytes ← slice position (position + n)
  moveTo (position + n)
  return bytes

def byte : Cursor UInt8 := do
  match ← take 1 with
  | b :: _ => return b
  | [] => breach (.range 0 1 0)

def number (width : ℕ) : Cursor ℕ := do
  let bytes ← take width
  if bytes.length = width then return Bytes.value bytes else breach (.range 0 width bytes.length)

def enter (above : ℕ) : Cursor Unit :=
  if above ≤ maxDepth then pure () else breach (.depth above)

instance : Input Cursor where
  byte := byte
  take := take
  number := number
  require := require
  enter := enter

def finish : Cursor Unit := do
  let left ← remaining
  if left ≠ 0 then throw (.trailingBytes left)

/-- What a cursor makes of a whole input, of which it may leave nothing. -/
def run (c : Cursor α) (input : Bytes) : Except Breach (Except DecodeError α) :=
  Except.map (Except.map Prod.fst) <| (do let a ← c; finish; return a : Cursor α) input 0

/-! ### Cursors in sequence -/

variable {c : Cursor α} {k : α → Cursor β} {input : Bytes} {position position' : ℕ}

lemma bind_apply (c : Cursor α) (k : α → Cursor β) (input : Bytes) (position : ℕ) :
    (c >>= k) input position = c input position >>= fun p => k p.1 input p.2 := rfl

lemma bind_of_ok {a : α} (h : c input position = .ok (.ok (a, position'))) :
    (c >>= k) input position = k a input position' := by
  rw [bind_apply, h]
  rfl

lemma bind_of_error {e : DecodeError} (h : c input position = .ok (.error e)) :
    (c >>= k) input position = .ok (.error e) := by
  rw [bind_apply, h]
  rfl

/-! ### Cursors and readers -/

/-- A cursor does what a reader does with the bytes from the position on. It stops for no breach,
and where the reader succeeds, the cursor comes to the position of the bytes that are left. -/
structure Follows (c : Cursor α) (r : Reader α) : Prop where
  ok : ∀ {input rest position a}, position ≤ input.length →
    r (input.drop position) = .ok (a, rest) → ∃ position', position ≤ position' ∧
      position' ≤ input.length ∧ rest = input.drop position' ∧
      c input position = .ok (.ok (a, position'))
  error : ∀ {input position e}, position ≤ input.length →
    r (input.drop position) = .error e → c input position = .ok (.error e)

lemma Follows.pure (a : α) : Follows (pure a) (pure a) where
  ok {input rest position b} hposition h := by
    obtain ⟨rfl, rfl⟩ := Reader.pure_eq_ok_iff.1 h
    exact ⟨position, Nat.le_refl _, hposition, rfl, rfl⟩
  error _ := nofun

lemma Follows.throw (e : DecodeError) : Follows (throw e : Cursor α) (throw e) where
  ok _ := nofun
  error _ h := by
    obtain rfl := Except.error.inj h
    rfl

/-- After what the reader has read, the cursor has only to follow for answers that are possible. -/
lemma Follows.bind_of {r : Reader α} {k' : α → Reader β} (hr : Follows c r)
    (hk : ∀ a input rest, r input = .ok (a, rest) → Follows (k a) (k' a)) :
    Follows (c >>= k) (r >>= k') where
  ok hposition h := by
    obtain ⟨a, mid, ha, hb⟩ := Reader.bind_eq_ok_iff.1 h
    obtain ⟨p, hle, hp, rfl, hc⟩ := hr.ok hposition ha
    obtain ⟨p', hle', hp', hrest, hc'⟩ := (hk a _ _ ha).ok hp hb
    exact ⟨p', Nat.le_trans hle hle', hp', hrest, (bind_of_ok hc).trans hc'⟩
  error hposition h := by
    rcases Reader.bind_eq_error_iff.1 h with he | ⟨a, mid, ha, he⟩
    · exact bind_of_error (hr.error hposition he)
    · obtain ⟨p, -, hp, rfl, hc⟩ := hr.ok hposition ha
      exact (bind_of_ok hc).trans ((hk a _ _ ha).error hp he)

lemma Follows.bind {r : Reader α} {k' : α → Reader β} (hr : Follows c r)
    (hk : ∀ a, Follows (k a) (k' a)) : Follows (c >>= k) (r >>= k') :=
  hr.bind_of fun a _ _ _ => hk a

/-- From a position in the input no cursor that follows a reader stops for a breach. -/
lemma Follows.exists_ok {r : Reader α} (h : Follows c r) (hposition : position ≤ input.length) :
    ∃ x, c input position = .ok x := by
  cases hr : r (input.drop position) with
  | error e => exact ⟨_, h.error hposition hr⟩
  | ok p =>
    obtain ⟨_, -, -, -, hc⟩ := h.ok hposition hr
    exact ⟨_, hc⟩

/-! ### Fields -/

lemma remaining_of_le (h : position ≤ input.length) :
    remaining input position = .ok (.ok (input.length - position, position)) := by
  change (if position ≤ input.length then Pure.pure (input.length - position)
    else breach (.position position input.length) : Cursor ℕ) input position = _
  rw [if_pos h]
  rfl

lemma slice_of_le {start stop : ℕ} (h : start ≤ stop) (h' : stop ≤ input.length) :
    slice start stop input position = .ok (.ok ((input.take stop).drop start, position)) := by
  change (if start ≤ stop ∧ stop ≤ input.length then Pure.pure ((input.take stop).drop start)
    else breach (.range start stop input.length) : Cursor Bytes) input position = _
  rw [if_pos ⟨h, h'⟩]
  rfl

lemma moveTo_of_le (h : position' ≤ input.length) :
    moveTo position' input position = .ok (.ok ((), position')) := by
  change (if position' ≤ input.length then set position'
    else breach (.position position' input.length) : Cursor Unit) input position = _
  rw [if_pos h]
  rfl

lemma require_of_le {n : ℕ} (h : position + n ≤ input.length) :
    require n input position = .ok (.ok ((), position)) := by
  have hleft : ¬ n > input.length - position := by omega
  rw [require, bind_of_ok (remaining_of_le (by omega)), if_neg hleft]
  rfl

lemma require_of_lt {n : ℕ} (hposition : position ≤ input.length)
    (h : input.length < position + n) :
    require n input position = .ok (.error (.truncated n (input.length - position))) := by
  have hleft : n > input.length - position := by omega
  rw [require, bind_of_ok (remaining_of_le hposition), if_pos hleft]
  rfl

/-- The bytes that `take` makes sure of can be cut out, and the position stays in the input. -/
lemma take_of_le {n : ℕ} (h : position + n ≤ input.length) :
    take n input position = .ok (.ok ((input.drop position).take n, position + n)) := by
  have hget : (get : Cursor ℕ) input position = .ok (.ok (position, position)) := rfl
  have hslice : slice position (position + n) input position =
      .ok (.ok ((input.drop position).take n, position)) := by
    rw [slice_of_le (Nat.le_add_right ..) h, List.drop_take, Nat.add_sub_cancel_left]
  rw [take, bind_of_ok (require_of_le h), bind_of_ok hget, bind_of_ok hslice,
    bind_of_ok (moveTo_of_le h)]
  rfl

lemma Follows.require (n : ℕ) : Follows (require n) (Reader.require n) where
  ok {input rest position u} hposition h := by
    obtain ⟨hle, rfl⟩ := Reader.require_eq_ok_iff.1 h
    rw [List.length_drop] at hle
    exact ⟨position, Nat.le_refl _, hposition, rfl, require_of_le (by omega)⟩
  error {input position e} hposition h := by
    obtain ⟨hlt, rfl⟩ := Reader.require_eq_error_iff.1 h
    rw [List.length_drop] at hlt ⊢
    exact require_of_lt hposition (by omega)

lemma Follows.take (n : ℕ) : Follows (take n) (Reader.take n) where
  ok {input rest position bytes} hposition h := by
    obtain ⟨rfl, hdrop⟩ := Reader.take_eq_ok_iff.1 h
    have hlength := congrArg List.length hdrop
    rw [List.length_drop, List.length_append] at hlength
    have hle : position + bytes.length ≤ input.length := by omega
    refine ⟨position + bytes.length, Nat.le_add_right .., hle, ?_, ?_⟩
    · rw [← List.drop_drop, hdrop, List.drop_left]
    · rw [take_of_le hle, hdrop, List.take_left]
  error {input position e} hposition h := by
    obtain ⟨hlt, rfl⟩ := Reader.take_eq_error_iff.1 h
    rw [List.length_drop] at hlt ⊢
    rw [Cursor.take]
    exact bind_of_error (require_of_lt hposition (by omega))

lemma Follows.byte : Follows byte Reader.byte where
  ok {input rest position b} hposition h := by
    have hdrop := Reader.byte_eq_ok_iff.1 h
    have hone : Reader.take 1 (input.drop position) = .ok ([b], rest) :=
      Reader.take_eq_ok_iff.2 ⟨rfl, hdrop⟩
    obtain ⟨p, hle, hp, hrest, hc⟩ := (Follows.take 1).ok hposition hone
    exact ⟨p, hle, hp, hrest, bind_of_ok hc⟩
  error {input position e} hposition h := by
    cases hdrop : input.drop position with
    | nil =>
      rw [hdrop] at h
      obtain rfl := Except.error.inj h
      have hnone : Reader.take 1 (input.drop position) = .error (.truncated 1 0) := by
        rw [hdrop]
        rfl
      exact bind_of_error ((Follows.take 1).error hposition hnone)
    | cons b rest => simp [hdrop, Reader.byte] at h

lemma Follows.number (width : ℕ) : Follows (number width) (Reader.number width) := by
  refine (Follows.take width).bind_of fun bytes input rest h => ?_
  rw [if_pos (Reader.take_eq_ok_iff.1 h).1]
  exact .pure _

lemma Follows.enter {above : ℕ} (h : above ≤ maxDepth) :
    Follows (enter above) (Input.enter above) := by
  rw [Cursor.enter, if_pos h]
  exact .pure ()

lemma Follows.parametric : Parametric (m := Cursor) (n := Reader) fun _ c r => Follows c r where
  pure := .pure
  throw _ := .throw _
  bind := .bind
  byte := .byte
  take := .take
  number := .number
  require := .require
  enter := .enter

/-! ### Whole inputs -/

lemma finish_of_le (h : position ≤ input.length) :
    finish input position =
      if input.drop position = [] then .ok (.ok ((), position))
      else .ok (.error (.trailingBytes (input.drop position).length)) := by
  have hleft : (input.drop position).length = input.length - position := List.length_drop
  rw [finish, bind_of_ok (remaining_of_le h), ← hleft]
  by_cases hend : input.drop position = []
  · rw [if_neg (by simp [hend]), if_pos hend]
    rfl
  · rw [if_pos (mt List.length_eq_zero_iff.1 hend), if_neg hend]
    rfl

/-- **Reading by position is reading**: a cursor that follows a reader makes of every input what the
reader makes of it, and it never stops for a breach. -/
theorem Follows.run {c : Cursor α} {r : Reader α} (h : Follows c r) (input : Bytes) :
    c.run input = .ok (r.run input) := by
  have hzero : 0 ≤ input.length := Nat.zero_le _
  unfold Cursor.run
  cases hr : r input with
  | error e =>
    rw [bind_of_error (h.error hzero hr), Reader.run_of_error hr]
    rfl
  | ok p =>
    obtain ⟨a, rest⟩ := p
    obtain ⟨position, -, hposition, rfl, hc⟩ := h.ok hzero hr
    rw [bind_of_ok hc, Reader.run_of_ok hr]
    by_cases hrest : input.drop position = []
    · rw [if_pos hrest, bind_of_ok ((finish_of_le hposition).trans (if_pos hrest))]
      rfl
    · rw [if_neg hrest, bind_of_error ((finish_of_le hposition).trans (if_neg hrest))]
      rfl

end Cursor

end InstallPolicy
