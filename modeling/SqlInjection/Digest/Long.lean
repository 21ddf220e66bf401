import SqlInjection.Digest.Word

/-!
# The 64-bit digest

The XXH3 digest of 64 bits with seed zero and the standard key. Inputs are digested by their length:
up to sixteen bytes in one step, up to 240 by mixing pairs of words, longer ones in blocks of
sixteen stripes over eight accumulators.
-/

namespace SqlInjection.Digest

/-- The standard key. -/
def key : Array UInt8 :=
  #[0xb8, 0xfe, 0x6c, 0x39, 0x23, 0xa4, 0x4b, 0xbe, 0x7c, 0x01, 0x81, 0x2c, 0xf7, 0x21, 0xad, 0x1c,
    0xde, 0xd4, 0x6d, 0xe9, 0x83, 0x90, 0x97, 0xdb, 0x72, 0x40, 0xa4, 0xa4, 0xb7, 0xb3, 0x67, 0x1f,
    0xcb, 0x79, 0xe6, 0x4e, 0xcc, 0xc0, 0xe5, 0x78, 0x82, 0x5a, 0xd0, 0x7d, 0xcc, 0xff, 0x72, 0x21,
    0xb8, 0x08, 0x46, 0x74, 0xf7, 0x43, 0x24, 0x8e, 0xe0, 0x35, 0x90, 0xe6, 0x81, 0x3a, 0x26, 0x4c,
    0x3c, 0x28, 0x52, 0xbb, 0x91, 0xc3, 0x00, 0xcb, 0x88, 0xd0, 0x65, 0x8b, 0x1b, 0x53, 0x2e, 0xa3,
    0x71, 0x64, 0x48, 0x97, 0xa2, 0x0d, 0xf9, 0x4e, 0x38, 0x19, 0xef, 0x46, 0xa9, 0xde, 0xac, 0xd8,
    0xa8, 0xfa, 0x76, 0x3f, 0xe3, 0x9c, 0x34, 0x3f, 0xf9, 0xdc, 0xbb, 0xc7, 0xc7, 0x0b, 0x4f, 0x1d,
    0x8a, 0x51, 0xe0, 0x4b, 0xcd, 0xb4, 0x59, 0x31, 0xc8, 0x9f, 0x7e, 0xc9, 0xd9, 0x78, 0x73, 0x64,
    0xea, 0xc5, 0xac, 0x83, 0x34, 0xd3, 0xeb, 0xc3, 0xc5, 0x81, 0xa0, 0xff, 0xfa, 0x13, 0x63, 0xeb,
    0x17, 0x0d, 0xdd, 0x51, 0xb7, 0xf0, 0xda, 0x49, 0xd3, 0x16, 0x55, 0x26, 0x29, 0xd4, 0x68, 0x9e,
    0x2b, 0x16, 0xbe, 0x58, 0x7d, 0x47, 0xa1, 0xfc, 0x8f, 0xf8, 0xb8, 0xd1, 0x7a, 0xd0, 0x31, 0xce,
    0x45, 0xcb, 0x3a, 0x8f, 0x95, 0x16, 0x04, 0x28, 0xaf, 0xd7, 0xfb, 0xca, 0xbb, 0x4b, 0x40, 0x7e]

/-- The 64-bit word of the key at position `i`. -/
def keyWord (i : Nat) : UInt64 := word64 key i

/-- First multiplier of the 64-bit digest. -/
def wideA : UInt64 := 0x9E3779B185EBCA87

/-- Second multiplier of the 64-bit digest. -/
def wideB : UInt64 := 0xC2B2AE3D27D4EB4F

/-- Third multiplier of the 64-bit digest. -/
def wideC : UInt64 := 0x165667B19E3779F9

/-- Spreads the bits of a short digest. -/
def spread (h : UInt64) : UInt64 :=
  let h := (h ^^^ (h >>> 33)) * wideB
  let h := (h ^^^ (h >>> 29)) * wideC
  h ^^^ (h >>> 32)

/-- Spreads the bits of a longer digest. -/
def settle (h : UInt64) : UInt64 :=
  let h := (h ^^^ (h >>> 37)) * 0x165667919E3779F9
  h ^^^ (h >>> 32)

/-- The digest of at most three bytes. -/
def digestTiny (b : Array UInt8) : UInt64 :=
  let n := b.size
  if n = 0 then spread (keyWord 56 ^^^ keyWord 64)
  else
    let byteAt (i : Nat) : UInt64 := (b[i]?.getD 0).toUInt64
    let combined :=
      (byteAt 0 <<< 16) ||| (byteAt (n / 2) <<< 24) ||| byteAt (n - 1) ||| (n.toUInt64 <<< 8)
    spread (combined ^^^ (word32 key 0 ^^^ word32 key 4).toUInt64)

/-- The digest of four to eight bytes. -/
def digestSmall (b : Array UInt8) : UInt64 :=
  let n := b.size
  let input := (word32 b (n - 4)).toUInt64 + ((word32 b 0).toUInt64 <<< 32)
  let h := input ^^^ (keyWord 8 ^^^ keyWord 16)
  let h := (h ^^^ rotl64 h 49 ^^^ rotl64 h 24) * 0x9FB21C651E98DF25
  let h := (h ^^^ ((h >>> 35) + n.toUInt64)) * 0x9FB21C651E98DF25
  h ^^^ (h >>> 28)

/-- The digest of nine to sixteen bytes. -/
def digestMedium (b : Array UInt8) : UInt64 :=
  let n := b.size
  let low := word64 b 0 ^^^ (keyWord 24 ^^^ keyWord 32)
  let high := word64 b (n - 8) ^^^ (keyWord 40 ^^^ keyWord 48)
  settle (n.toUInt64 + swapBytes low + high + foldedProduct low high)

/-- Sixteen bytes at position `i` mixed with sixteen bytes of the key at position `k`. -/
def mixPair (b : Array UInt8) (i k : Nat) : UInt64 :=
  foldedProduct (word64 b i ^^^ keyWord k) (word64 b (i + 8) ^^^ keyWord (k + 8))

/-- The digest of 17 to 128 bytes. Pairs are taken from both ends inwards. -/
def digestPaired (b : Array UInt8) : UInt64 :=
  let n := b.size
  let pairs := (n - 1) / 32 + 1
  settle ((List.range pairs).foldl
    (fun acc j => acc + mixPair b (16 * j) (32 * j) + mixPair b (n - 16 * (j + 1)) (32 * j + 16))
    (n.toUInt64 * wideA))

/-- The digest of 129 to 240 bytes. -/
def digestRounds (b : Array UInt8) : UInt64 :=
  let n := b.size
  let first := settle ((List.range 8).foldl (fun acc j => acc + mixPair b (16 * j) (16 * j))
    (n.toUInt64 * wideA))
  let more := (List.range (n / 16 - 8)).foldl
    (fun acc j => acc + mixPair b (16 * (j + 8)) (16 * j + 3)) first
  settle (more + mixPair b (n - 16) 119)

/-- What the eight accumulators start from. -/
def startAccumulators : Array UInt64 :=
  #[0xC2B2AE3D, wideA, wideB, wideC, 0x85EBCA77C2B2AE63, 0x85EBCA77, 0x27D4EB2F165667C5, 0x9E3779B1]

/-- One stripe of 64 bytes at position `i`, keyed from position `k`. -/
def addStripe (b : Array UInt8) (acc : Array UInt64) (i k : Nat) : Array UInt64 :=
  (Array.range 8).map fun j =>
    let value : UInt64 := word64 b (i + 8 * j) ^^^ keyWord (k + 8 * j)
    let other : UInt64 := word64 b (i + 8 * (if j % 2 = 0 then j + 1 else j - 1))
    let low : UInt64 := value &&& 0xFFFFFFFF
    let high : UInt64 := value >>> 32
    (acc[j]?.getD 0 : UInt64) + other + low * high

/-- `n` stripes from position `i` on. -/
def addStripes (b : Array UInt8) (i n : Nat) (acc : Array UInt64) : Array UInt64 :=
  (List.range n).foldl (fun acc j => addStripe b acc (i + 64 * j) (8 * j)) acc

/-- The accumulators mixed at the end of a block. -/
def scramble (acc : Array UInt64) : Array UInt64 :=
  (Array.range 8).map fun j =>
    let x : UInt64 := acc[j]?.getD 0
    ((x ^^^ (x >>> 47)) ^^^ keyWord (128 + 8 * j)) * 0x9E3779B1

/-- The digest of more than 240 bytes. -/
def digestBlocks (b : Array UInt8) : UInt64 :=
  let n := b.size
  let blocks := (n - 1) / 1024
  let acc := (List.range blocks).foldl
    (fun acc j => scramble (addStripes b (1024 * j) 16 acc)) startAccumulators
  let acc := addStripes b (1024 * blocks) ((n - 1 - 1024 * blocks) / 64) acc
  let acc := addStripe b acc (n - 64) 121
  settle ((List.range 4).foldl
    (fun h j => h + foldedProduct (acc[2 * j]?.getD 0 ^^^ keyWord (11 + 16 * j))
      (acc[2 * j + 1]?.getD 0 ^^^ keyWord (19 + 16 * j)))
    (n.toUInt64 * wideA))

/-- The 64-bit digest of a string of bytes. -/
def digest64 (b : Array UInt8) : UInt64 :=
  if b.size ≤ 3 then digestTiny b
  else if b.size ≤ 8 then digestSmall b
  else if b.size ≤ 16 then digestMedium b
  else if b.size ≤ 128 then digestPaired b
  else if b.size ≤ 240 then digestRounds b
  else digestBlocks b

end SqlInjection.Digest
