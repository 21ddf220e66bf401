import SqlInjection.Text.Basic

/-!
# Bytes and words

Little-endian words of 32 and 64 bits at a byte position, rotation, and the folded product that the
digests use. Reading past the end of the bytes gives zeros.
-/

namespace SqlInjection.Digest

/-- The UTF-8 form of a text. -/
def bytes (t : Text) : Array UInt8 := (t.flatMap String.utf8EncodeChar).toArray

/-- The little-endian word of `n` bytes at position `i`. -/
def littleEndian (b : Array UInt8) (i : Nat) : Nat → Nat
  | 0 => 0
  | n + 1 => (b[i]?.getD 0).toNat + 256 * littleEndian b (i + 1) n

/-- The 32-bit word at position `i`. -/
def word32 (b : Array UInt8) (i : Nat) : UInt32 := (littleEndian b i 4).toUInt32

/-- The 64-bit word at position `i`. -/
def word64 (b : Array UInt8) (i : Nat) : UInt64 := (littleEndian b i 8).toUInt64

/-- Rotation to the left. -/
def rotl32 (x : UInt32) (n : UInt32) : UInt32 := (x <<< n) ||| (x >>> (32 - n))

/-- Rotation to the left. -/
def rotl64 (x : UInt64) (n : UInt64) : UInt64 := (x <<< n) ||| (x >>> (64 - n))

/-- The word with its bytes in the opposite order. -/
def swapBytes (x : UInt64) : UInt64 :=
  (List.range 8).foldl
    (fun acc k => (acc <<< 8) ||| ((x >>> (8 * k).toUInt64) &&& 0xFF)) 0

/-- The two halves of the product of two words, combined by exclusive or. -/
def foldedProduct (x y : UInt64) : UInt64 :=
  let p := x.toNat * y.toNat
  (p % UInt64.size).toUInt64 ^^^ (p / UInt64.size).toUInt64

end SqlInjection.Digest
