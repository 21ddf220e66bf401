import SqlInjection.Digest.Long
import SqlInjection.Digest.Short

/-!
# Fingerprints

A finding keeps its fingerprint as long as its location name and its text stay the same, and its
identifier as long as detector, file and line stay the same too. An allow-list holds the
fingerprints of findings that have been reviewed and are not to be reported.
-/

namespace SqlInjection

/-- The fingerprint of a flagged text at a named location. -/
def fingerprint (location flagged : Text) : UInt32 :=
  Digest.digest32 (Digest.bytes (location ++ '|' :: flagged))

/-- The digits of `n` to base sixteen, at least `width` of them. -/
def hexDigits (width n : Nat) : Text :=
  let digits := Nat.toDigits 16 n
  List.replicate (width - digits.length) '0' ++ digits

/-- The digits of `n` to base ten. -/
def decimal (n : Nat) : Text := Nat.toDigits 10 n

/-- The identifier of a finding. -/
def findingId (detector file : Text) (line : Nat) (flagged : Text) : Text :=
  hexDigits 16
    (Digest.digest64 (Digest.bytes
      (detector ++ '\n' :: file ++ '\n' :: decimal line ++ '\n' :: flagged))).toNat

/-- The fingerprints of reviewed findings. -/
structure AllowList where
  known : List UInt32
  deriving DecidableEq, Repr

namespace AllowList

/-- Whether a fingerprint is on the list. -/
def allows (l : AllowList) (f : UInt32) : Bool := l.known.contains f

/-- The number of different fingerprints on the list. -/
def size (l : AllowList) : Nat := l.known.eraseDups.length

end AllowList

end SqlInjection
