import BoxCert.Number.Nearest

/-!
# Time budgets

A run may be given a budget of seconds. A budget is kept to the nanosecond,
and counts as used up by a run that takes just as long.
-/

namespace BoxCert

/-- Why a number of seconds is no budget. -/
inductive BudgetFault where
  | negative
  /-- The number is not finite, or has more than 64 bits. -/
  | unbounded
deriving DecidableEq, Repr

def BudgetFault.message : BudgetFault → String
  | negative =>
      "cannot convert float seconds to Duration: value is negative"
  | unbounded =>
      "cannot convert float seconds to Duration: " ++
        "value is either too big or NaN"

/-- How long a run may take. -/
structure TimeBudget where
  nanoseconds : Nat
deriving DecidableEq, Repr

namespace TimeBudget

abbrev perSecond : Nat := 10 ^ 9

/-- The budget of so many seconds, rounded to the nearest nanosecond. -/
def ofSeconds (seconds : Binary64) : Except BudgetFault TimeBudget :=
  if seconds < 0 then .error .negative
  else
    match seconds with
    | .finite _ rank =>
        let nanoseconds :=
          divNearestEven (magnitudeUnits rank * perSecond) oneUnits
        if nanoseconds < 2 ^ 64 * perSecond then .ok ⟨nanoseconds⟩
        else .error .unbounded
    | _ => .error .unbounded

def seconds (b : TimeBudget) : Binary64 :=
  Binary64.ofNat (b.nanoseconds / perSecond) +
    Binary64.ofNat (b.nanoseconds % perSecond) / Binary64.ofNat perSecond

/-- Whether a run of so many seconds uses the budget up. -/
def isUsedUp (b : TimeBudget) (elapsed : Binary64) : Bool :=
  decide (b.seconds ≤ elapsed)

end TimeBudget

end BoxCert
