import InstallPolicy.Bytes

/-!
The SHA3-256 digest of a byte string.

A state of twenty-five lanes takes the padded message in blocks of one hundred and thirty-six
bytes, with the Keccak permutation after each. The digest is the first four lanes written out, so
that its length of thirty-two bytes shows without looking at any round.
-/

namespace InstallPolicy.Sha3

/-- Twenty-five lanes, five rows of five. -/
abbrev State := Vector UInt64 25

/-- The lane in column `x` of row `y`, both counted modulo five. -/
def State.lane (s : State) (x y : Nat) : UInt64 := s.get ⟨x % 5 + 5 * (y % 5), by omega⟩

/-- The state whose lane in column `x` of row `y` is `f x y`. -/
def State.ofLanes (f : (x y : Nat) → UInt64) : State :=
  Vector.ofFn fun i => f (i.val % 5) (i.val / 5)

def roundConstants : List UInt64 := [
  0x0000000000000001, 0x0000000000008082, 0x800000000000808a, 0x8000000080008000,
  0x000000000000808b, 0x0000000080000001, 0x8000000080008081, 0x8000000000008009,
  0x000000000000008a, 0x0000000000000088, 0x0000000080008009, 0x000000008000000a,
  0x000000008000808b, 0x800000000000008b, 0x8000000000008089, 0x8000000000008003,
  0x8000000000008002, 0x8000000000000080, 0x000000000000800a, 0x800000008000000a,
  0x8000000080008081, 0x8000000000008080, 0x0000000080000001, 0x8000000080008008]

/-- How far the lane in column `x` of row `y` is rotated, five rows of five. -/
def offsets : State := State.ofLanes fun x y =>
  ([0, 1, 62, 28, 27,
    36, 44, 6, 55, 20,
    3, 10, 43, 25, 39,
    41, 45, 15, 21, 8,
    18, 2, 61, 56, 14] : List UInt64).getD (x + 5 * y) 0

/-- Rotation of a lane to the left, by fewer than sixty-four places. -/
def rotate (x n : UInt64) : UInt64 := (x <<< n) ||| (x >>> (64 - n))

/-- Adds to each lane the parities of two neighbouring columns. -/
def mixColumns (s : State) : State :=
  let parity : Vector UInt64 5 :=
    Vector.ofFn fun x => s.lane x 0 ^^^ s.lane x 1 ^^^ s.lane x 2 ^^^ s.lane x 3 ^^^ s.lane x 4
  let column (x : Nat) : UInt64 := parity.get ⟨x % 5, by omega⟩
  let effect : Vector UInt64 5 :=
    Vector.ofFn fun x => column (x.val + 4) ^^^ rotate (column (x.val + 1)) 1
  State.ofLanes fun x y => s.lane x y ^^^ effect.get ⟨x % 5, by omega⟩

/-- Rotates each lane by its offset and moves it to its new place. -/
def scatter (s : State) : State :=
  State.ofLanes fun x y => rotate (s.lane (x + 3 * y) x) (offsets.lane (x + 3 * y) x)

/-- Adds to each lane a product of the two lanes that follow it in its row. -/
def mixRows (s : State) : State :=
  State.ofLanes fun x y => s.lane x y ^^^ (~~~s.lane (x + 1) y &&& s.lane (x + 2) y)

def round (s : State) (constant : UInt64) : State :=
  let s := mixRows (scatter (mixColumns s))
  s.set 0 (s.lane 0 0 ^^^ constant)

def permute (s : State) : State := roundConstants.foldl round s

/-- The number of message bytes that go into the state at a time. -/
def rate : Nat := 136

def lanesOf (block : Bytes) : List UInt64 :=
  (Bytes.blocks 8 17 block).map fun field => UInt64.ofNat (Bytes.value field)

/-- Adds a block to the first lanes and permutes. -/
def absorbBlock (s : State) (block : Bytes) : State :=
  let lanes := (lanesOf block).toArray
  permute (State.ofLanes fun x y => s.lane x y ^^^ lanes.getD (x + 5 * y) 0)

/-- The message, the mark of this hash, zeros, and a closing bit at the end of a block. -/
def pad (message : Bytes) : Bytes :=
  match rate - message.length % rate with
  | 1 => message ++ [0x86]
  | room => message ++ 0x06 :: List.replicate (room - 2) 0 ++ [0x80]

def absorb (message : Bytes) : State :=
  let padded := pad message
  (Bytes.blocks rate (padded.length / rate) padded).foldl absorbBlock (Vector.replicate 25 0)

def digest (message : Bytes) : Bytes :=
  let s := absorb message
  [s.lane 0 0, s.lane 1 0, s.lane 2 0, s.lane 3 0].flatMap fun lane =>
    Bytes.littleEndian 8 lane.toNat

/-- A digest has thirty-two bytes, whatever the message. -/
@[simp] theorem length_digest (message : Bytes) : (digest message).length = 32 := by
  simp [digest]

end InstallPolicy.Sha3
