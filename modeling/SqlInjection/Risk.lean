/-!
# Verdicts

The verdict on one dynamic point of a query. Verdicts on several points combine to `risky` as soon
as one of them is.
-/

namespace SqlInjection

/-- Whether a dynamic point can inject a value. -/
inductive Risk where
  | safe
  | risky
  deriving DecidableEq, Repr, Inhabited

namespace Risk

/-- `risky` exactly when the condition holds. -/
def ofBool (b : Bool) : Risk := if b then .risky else .safe

/-- Whether the verdict is `risky`. -/
def isRisky : Risk → Bool
  | .safe => false
  | .risky => true

/-- `risky` as soon as one of the two is. -/
def or : Risk → Risk → Risk
  | .safe, r => r
  | .risky, _ => .risky

/-- The verdict on all the points together. -/
def all (rs : List Risk) : Risk := rs.foldr or .safe

@[simp] theorem all_nil : all [] = .safe := rfl

@[simp] theorem all_cons (r : Risk) (rs : List Risk) : all (r :: rs) = r.or (all rs) := rfl

theorem all_eq_risky_iff {rs : List Risk} : all rs = .risky ↔ .risky ∈ rs := by
  induction rs with
  | nil => simp
  | cons r rs ih => cases r <;> simp [or, ih]

end Risk

end SqlInjection
