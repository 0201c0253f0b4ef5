/-!
Byte strings and the three ways the library fills them: little-endian numbers of a fixed width,
UTF-8 text, and runs of blocks of one size. A text and its UTF-8 bytes determine each other.
-/

namespace InstallPolicy

abbrev Bytes := List UInt8

namespace Bytes

/-! ### Little-endian fields -/

/-- The `width` low bytes of `n`, the least significant one first. -/
def littleEndian : (width n : Nat) → Bytes
  | 0, _ => []
  | width + 1, n => UInt8.ofNat n :: littleEndian width (n / 256)

/-- The number that a little-endian field spells. -/
def value : Bytes → Nat
  | [] => 0
  | b :: bs => b.toNat + 256 * value bs

@[simp] theorem length_littleEndian (width n : Nat) : (littleEndian width n).length = width := by
  induction width generalizing n with
  | zero => rfl
  | succ width ih => simp [littleEndian, ih]

/-! ### Text -/

def ofText (s : String) : Bytes := s.toByteArray.data.toList

def toText? (bs : Bytes) : Option String := String.fromUTF8? ⟨bs.toArray⟩

@[simp] theorem toText?_ofText (s : String) : toText? (ofText s) = some s := by
  simp [toText?, ofText, String.fromUTF8?, s.isValidUTF8, String.fromUTF8]

theorem toText?_eq_some_iff {bs : Bytes} {s : String} : toText? bs = some s ↔ bs = ofText s := by
  refine ⟨fun h => ?_, fun h => h ▸ toText?_ofText s⟩
  simp only [toText?, String.fromUTF8?] at h
  split at h
  · obtain rfl := Option.some.inj h
    simp [ofText, String.fromUTF8]
  · simp at h

/-! ### Parts -/

/-- Whether there are `n` bytes, found without a look at those beyond. -/
def hasLength (bs : Bytes) (n : Nat) : Bool := (bs.take n).length == n

@[simp] theorem hasLength_iff {bs : Bytes} {n : Nat} : hasLength bs n = true ↔ n ≤ bs.length := by
  rw [hasLength, beq_iff_eq, List.length_take]
  omega

/-- The first `count` blocks of `size` bytes. -/
def blocks (size : Nat) : (count : Nat) → Bytes → List Bytes
  | 0, _ => []
  | count + 1, bs => bs.take size :: blocks size count (bs.drop size)

end Bytes

end InstallPolicy
