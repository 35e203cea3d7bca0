import EvmCore.Bytes

/-!
# Keccak-256

The hash of the machine: the sponge over the permutation Keccak-f[1600] with a rate of 136 bytes,
padding `10*1` without a domain suffix, and a digest of 32 bytes. The state is kept as five planes
of five 64-bit lanes.
-/

namespace EvmCore

namespace Keccak

/-- Five lanes of the state with a common `y` coordinate. -/
structure Plane where
  x0 : UInt64
  x1 : UInt64
  x2 : UInt64
  x3 : UInt64
  x4 : UInt64
  deriving DecidableEq

/-- The 25 lanes of the state. -/
structure State where
  y0 : Plane
  y1 : Plane
  y2 : Plane
  y3 : Plane
  y4 : Plane
  deriving DecidableEq

/-- The lane-wise exclusive or of two planes. -/
def Plane.xor (p q : Plane) : Plane :=
  ⟨p.x0 ^^^ q.x0, p.x1 ^^^ q.x1, p.x2 ^^^ q.x2, p.x3 ^^^ q.x3, p.x4 ^^^ q.x4⟩

/-- A lane rotated left by `k` bits, for `0 < k < 64`. -/
def rotate (v : UInt64) (k : UInt64) : UInt64 := (v <<< k) ||| (v >>> (64 - k))

/-- Adds to each lane the parities of two neighbouring columns. -/
def State.theta (s : State) : State :=
  let c := s.y0.xor (s.y1.xor (s.y2.xor (s.y3.xor s.y4)))
  let d : Plane :=
    ⟨c.x4 ^^^ rotate c.x1 1, c.x0 ^^^ rotate c.x2 1, c.x1 ^^^ rotate c.x3 1,
      c.x2 ^^^ rotate c.x4 1, c.x3 ^^^ rotate c.x0 1⟩
  ⟨s.y0.xor d, s.y1.xor d, s.y2.xor d, s.y3.xor d, s.y4.xor d⟩

/-- Rotates each lane by its own offset and moves it to its new place. -/
def State.rhoPi (s : State) : State where
  y0 := ⟨s.y0.x0, rotate s.y1.x1 44, rotate s.y2.x2 43, rotate s.y3.x3 21, rotate s.y4.x4 14⟩
  y1 := ⟨rotate s.y0.x3 28, rotate s.y1.x4 20, rotate s.y2.x0 3, rotate s.y3.x1 45,
    rotate s.y4.x2 61⟩
  y2 := ⟨rotate s.y0.x1 1, rotate s.y1.x2 6, rotate s.y2.x3 25, rotate s.y3.x4 8, rotate s.y4.x0 18⟩
  y3 := ⟨rotate s.y0.x4 27, rotate s.y1.x0 36, rotate s.y2.x1 10, rotate s.y3.x2 15,
    rotate s.y4.x3 56⟩
  y4 := ⟨rotate s.y0.x2 62, rotate s.y1.x3 55, rotate s.y2.x4 39, rotate s.y3.x0 41,
    rotate s.y4.x1 2⟩

/-- The non-linear map within a plane. -/
def Plane.chi (p : Plane) : Plane :=
  ⟨p.x0 ^^^ (~~~p.x1 &&& p.x2), p.x1 ^^^ (~~~p.x2 &&& p.x3), p.x2 ^^^ (~~~p.x3 &&& p.x4),
    p.x3 ^^^ (~~~p.x4 &&& p.x0), p.x4 ^^^ (~~~p.x0 &&& p.x1)⟩

/-- One round with its round constant. -/
def State.round (s : State) (constant : UInt64) : State :=
  let t := s.theta.rhoPi
  let first := t.y0.chi
  ⟨{ first with x0 := first.x0 ^^^ constant }, t.y1.chi, t.y2.chi, t.y3.chi, t.y4.chi⟩

/-- The constants of the 24 rounds. -/
def roundConstants : List UInt64 :=
  [0x0000000000000001, 0x0000000000008082, 0x800000000000808a, 0x8000000080008000,
    0x000000000000808b, 0x0000000080000001, 0x8000000080008081, 0x8000000000008009,
    0x000000000000008a, 0x0000000000000088, 0x0000000080008009, 0x000000008000000a,
    0x000000008000808b, 0x800000000000008b, 0x8000000000008089, 0x8000000000008003,
    0x8000000000008002, 0x8000000000000080, 0x000000000000800a, 0x800000008000000a,
    0x8000000080008081, 0x8000000000008080, 0x0000000080000001, 0x8000000080008008]

/-- The permutation Keccak-f[1600]. -/
def State.permute (s : State) : State := roundConstants.foldl State.round s

/-- The state before any input. -/
def State.zero : State :=
  let p : Plane := ⟨0, 0, 0, 0, 0⟩
  ⟨p, p, p, p, p⟩

/-- The number of bytes absorbed between two permutations. -/
def rate : Nat := 136

/-- The byte at a position, zero past the end. -/
@[inline] def byteAt (b : ByteArray) (i : Nat) : UInt64 :=
  if h : i < b.size then b[i].toUInt64 else 0

/-- The lane written by the eight bytes from `i` on, least significant byte first. -/
def laneAt (b : ByteArray) (i : Nat) : UInt64 :=
  byteAt b i ||| (byteAt b (i + 1) <<< 8) ||| (byteAt b (i + 2) <<< 16) |||
    (byteAt b (i + 3) <<< 24) ||| (byteAt b (i + 4) <<< 32) ||| (byteAt b (i + 5) <<< 40) |||
    (byteAt b (i + 6) <<< 48) ||| (byteAt b (i + 7) <<< 56)

/-- Five lanes written from `i` on. -/
def planeAt (b : ByteArray) (i : Nat) : Plane :=
  ⟨laneAt b i, laneAt b (i + 8), laneAt b (i + 16), laneAt b (i + 24), laneAt b (i + 32)⟩

/-- Adds the block of 17 lanes from `i` on to the state and permutes. -/
def State.absorb (s : State) (b : ByteArray) (i : Nat) : State :=
  let last : Plane := ⟨laneAt b (i + 120), laneAt b (i + 128), 0, 0, 0⟩
  State.permute
    ⟨s.y0.xor (planeAt b i), s.y1.xor (planeAt b (i + 40)), s.y2.xor (planeAt b (i + 80)),
      s.y3.xor last, s.y4⟩

/-- The message filled up to whole blocks: a one bit, zeros, and a one bit at the very end. -/
def pad (b : ByteArray) : ByteArray :=
  let missing := rate - b.size % rate
  if missing = 1 then b.push 0x81
  else ((b.push 0x01) ++ Bytes.zeros (missing - 2)).push 0x80

/-- The eight bytes of a lane, least significant first. -/
def laneBytes (v : UInt64) : List UInt8 :=
  [v, v >>> 8, v >>> 16, v >>> 24, v >>> 32, v >>> 40, v >>> 48, v >>> 56].map UInt64.toUInt8

/-- The Keccak-256 hash of a byte string. -/
def hash (b : ByteArray) : ByteArray :=
  let message := pad b
  let s := Nat.fold (message.size / rate) (fun i _ s => s.absorb message (rate * i)) State.zero
  (laneBytes s.y0.x0 ++ laneBytes s.y0.x1 ++ laneBytes s.y0.x2 ++ laneBytes s.y0.x3).toByteArray

/-- A digest has 32 bytes. -/
@[simp] theorem size_hash (b : ByteArray) : (hash b).size = 32 := by
  simp [hash, laneBytes]

end Keccak

end EvmCore
