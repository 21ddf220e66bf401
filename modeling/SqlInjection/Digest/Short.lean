import SqlInjection.Digest.Word

/-!
# The 32-bit digest

The xxHash digest of 32 bits with seed zero. Stripes of sixteen bytes go through four lanes, what is
left goes in by words and then by bytes, and a last round spreads the bits.
-/

namespace SqlInjection.Digest

/-- First multiplier of the 32-bit digest. -/
def mixA : UInt32 := 0x9E3779B1

/-- Second multiplier of the 32-bit digest. -/
def mixB : UInt32 := 0x85EBCA77

/-- Third multiplier of the 32-bit digest. -/
def mixC : UInt32 := 0xC2B2AE3D

/-- Fourth multiplier of the 32-bit digest. -/
def mixD : UInt32 := 0x27D4EB2F

/-- Fifth multiplier of the 32-bit digest. -/
def mixE : UInt32 := 0x165667B1

/-- The four lanes after `n` more stripes, the next at position `i`. -/
def lanes (b : Array UInt8) (i : Nat) : Nat → UInt32 × UInt32 × UInt32 × UInt32 →
    UInt32 × UInt32 × UInt32 × UInt32
  | 0, v => v
  | n + 1, (v1, v2, v3, v4) =>
    let round (v : UInt32) (k : Nat) := rotl32 (v + word32 b (i + 4 * k) * mixB) 13 * mixA
    lanes b (i + 16) n (round v1 0, round v2 1, round v3 2, round v4 3)

/-- The digest of `n` more words from position `i`. -/
def addWords (b : Array UInt8) (i : Nat) : Nat → UInt32 → UInt32
  | 0, h => h
  | n + 1, h => addWords b (i + 4) n (rotl32 (h + word32 b i * mixC) 17 * mixD)

/-- The digest of `n` more bytes from position `i`. -/
def addBytes (b : Array UInt8) (i : Nat) : Nat → UInt32 → UInt32
  | 0, h => h
  | n + 1, h =>
    addBytes b (i + 1) n (rotl32 (h + (b[i]?.getD 0).toUInt32 * mixE) 11 * mixA)

/-- The 32-bit digest of a string of bytes. -/
def digest32 (b : Array UInt8) : UInt32 :=
  let size := b.size
  let stripes := size / 16
  let start :=
    if stripes = 0 then mixE
    else
      let (v1, v2, v3, v4) := lanes b 0 stripes (mixA + mixB, mixB, 0, 0 - mixA)
      rotl32 v1 1 + rotl32 v2 7 + rotl32 v3 12 + rotl32 v4 18
  let at16 := 16 * stripes
  let words := (size - at16) / 4
  let h := addWords b at16 words (start + size.toUInt32)
  let h := addBytes b (at16 + 4 * words) (size - at16 - 4 * words) h
  let h := (h ^^^ (h >>> 15)) * mixB
  let h := (h ^^^ (h >>> 13)) * mixC
  h ^^^ (h >>> 16)

end SqlInjection.Digest
