import InstallPolicy.Bytes

/-!
The SHA-256 digest of a byte string.

The message is padded to whole blocks of sixty-four bytes, each block is stretched to sixty-four
words, and the words are mixed one by one into a state of eight. The digest is the last state
written out, so that its length of thirty-two bytes shows without looking at any round.
-/

namespace InstallPolicy.Sha256

/-- The eight words that a message is folded into. -/
structure State where
  a : UInt32
  b : UInt32
  c : UInt32
  d : UInt32
  e : UInt32
  f : UInt32
  g : UInt32
  h : UInt32

namespace State

def initial : State :=
  ⟨0x6a09e667, 0xbb67ae85, 0x3c6ef372, 0xa54ff53a, 0x510e527f, 0x9b05688c, 0x1f83d9ab, 0x5be0cd19⟩

def add (s t : State) : State :=
  ⟨s.a + t.a, s.b + t.b, s.c + t.c, s.d + t.d, s.e + t.e, s.f + t.f, s.g + t.g, s.h + t.h⟩

def words (s : State) : List UInt32 := [s.a, s.b, s.c, s.d, s.e, s.f, s.g, s.h]

end State

def roundConstants : List UInt32 := [
  0x428a2f98, 0x71374491, 0xb5c0fbcf, 0xe9b5dba5, 0x3956c25b, 0x59f111f1, 0x923f82a4, 0xab1c5ed5,
  0xd807aa98, 0x12835b01, 0x243185be, 0x550c7dc3, 0x72be5d74, 0x80deb1fe, 0x9bdc06a7, 0xc19bf174,
  0xe49b69c1, 0xefbe4786, 0x0fc19dc6, 0x240ca1cc, 0x2de92c6f, 0x4a7484aa, 0x5cb0a9dc, 0x76f988da,
  0x983e5152, 0xa831c66d, 0xb00327c8, 0xbf597fc7, 0xc6e00bf3, 0xd5a79147, 0x06ca6351, 0x14292967,
  0x27b70a85, 0x2e1b2138, 0x4d2c6dfc, 0x53380d13, 0x650a7354, 0x766a0abb, 0x81c2c92e, 0x92722c85,
  0xa2bfe8a1, 0xa81a664b, 0xc24b8b70, 0xc76c51a3, 0xd192e819, 0xd6990624, 0xf40e3585, 0x106aa070,
  0x19a4c116, 0x1e376c08, 0x2748774c, 0x34b0bcb5, 0x391c0cb3, 0x4ed8aa4a, 0x5b9cca4f, 0x682e6ff3,
  0x748f82ee, 0x78a5636f, 0x84c87814, 0x8cc70208, 0x90befffa, 0xa4506ceb, 0xbef9a3f7, 0xc67178f2]

/-- Rotation of a word to the right, by fewer than thirty-two places and at least one. -/
def rotate (x n : UInt32) : UInt32 := (x >>> n) ||| (x <<< (32 - n))

/-- The word after those of `recent`, which holds the words so far, the latest first. -/
def nextWord (recent : List UInt32) : UInt32 :=
  let x := recent.getD 14 0
  let y := recent.getD 1 0
  recent.getD 15 0 + (rotate x 7 ^^^ rotate x 18 ^^^ (x >>> 3)) +
    recent.getD 6 0 + (rotate y 17 ^^^ rotate y 19 ^^^ (y >>> 10))

/-- Puts `count` further words before those of `recent`. -/
def stretch : (count : Nat) → (recent : List UInt32) → List UInt32
  | 0, recent => recent
  | count + 1, recent => stretch count (nextWord recent :: recent)

/-- The number that four bytes spell, the most significant one first. -/
def wordOf (field : Bytes) : UInt32 := UInt32.ofNat (Bytes.value field.reverse)

/-- The sixteen words of a block and the forty-eight that follow from them. -/
def schedule (block : Bytes) : List UInt32 :=
  (stretch 48 ((Bytes.blocks 4 16 block).map wordOf).reverse).reverse

def round (s : State) (constantAndWord : UInt32 × UInt32) : State :=
  let choice := (s.e &&& s.f) ^^^ (~~~s.e &&& s.g)
  let majority := (s.a &&& s.b) ^^^ (s.a &&& s.c) ^^^ (s.b &&& s.c)
  let t := s.h + (rotate s.e 6 ^^^ rotate s.e 11 ^^^ rotate s.e 25) + choice +
    constantAndWord.1 + constantAndWord.2
  let u := (rotate s.a 2 ^^^ rotate s.a 13 ^^^ rotate s.a 22) + majority
  ⟨t + u, s.a, s.b, s.c, s.d + t, s.e, s.f, s.g⟩

def compress (s : State) (block : Bytes) : State :=
  s.add ((roundConstants.zip (schedule block)).foldl round s)

/-- The message, a closing bit, zeros up to a whole block, and the length in bits. -/
def pad (message : Bytes) : Bytes :=
  let length := message.length
  message ++ 0x80 :: List.replicate ((119 - length % 64) % 64) 0 ++
    (Bytes.littleEndian 8 (8 * length)).reverse

def absorb (message : Bytes) : State :=
  let padded := pad message
  (Bytes.blocks 64 (padded.length / 64) padded).foldl compress State.initial

def digest (message : Bytes) : Bytes :=
  (absorb message).words.flatMap fun word => (Bytes.littleEndian 4 word.toNat).reverse

/-- A digest has thirty-two bytes, whatever the message. -/
@[simp] theorem length_digest (message : Bytes) : (digest message).length = 32 := by
  simp [digest, State.words]

end InstallPolicy.Sha256
