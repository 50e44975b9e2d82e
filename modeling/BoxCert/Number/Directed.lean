import BoxCert.Number.Nearest

/-!
# Directed sums and products

A sum or product rounded to nearest is off by at most half a step, and the
error it made can be recovered exactly: for a sum by subtracting the operands
back out, for a product by one fused multiply-add. The directed operations
look at the sign of that error and move one step outwards only if there is
one, so exact results come back unchanged.

Two cases have no recoverable error. Beyond the finite range the lower result
of finite operands is the largest finite number rather than infinity, and an
indeterminate form is as wide as possible. Near the bottom of the range, below
`underflowGuard`, the error of a product may itself be rounded away, so the
result always moves one step.
-/

namespace BoxCert.Binary64

/-- The magnitude `2 ^ -960` below which the error of a product may be lost. -/
def underflowGuard : Binary64 := finite false ⟨63 * 2 ^ 52, by decide⟩

/-- The rounded sum together with its rounding error. A sum that is not finite
has no error. -/
def sumWithError (a b : Binary64) : Binary64 × Binary64 :=
  let s := a + b
  if s.isFinite then
    let rest := s - a
    -- What the sum lost of either operand; `rest` is the share of `b` in it.
    (s, (a - (s - rest)) + (b - rest))
  else (s, 0)

/-- The rounded product together with its rounding error, or `none` if the
product is so small that the error is not representable. A zero factor makes
the product zero whatever the other factor is. -/
def productWithError? (a b : Binary64) : Option (Binary64 × Binary64) :=
  if a.isZero || b.isZero then some (0, 0)
  else
    let p := a * b
    -- The error is not looked at where the product is not finite.
    if !p.isFinite then some (p, 0)
    else if p.abs < underflowGuard then none
    else some (p, mulAdd a b (-p))

/-- The lower result where rounding to nearest gave `r`, which is not finite. -/
def lowerUnbounded (a b r : Binary64) : Binary64 :=
  if a.isNan || b.isNan then nan
  else if r.isNan then negInfinity
  else if r = infinity && (a.isFinite && b.isFinite) then greatest false
  else r

def upperUnbounded (a b r : Binary64) : Binary64 :=
  if a.isNan || b.isNan then nan
  else if r.isNan then infinity
  else if r = negInfinity && (a.isFinite && b.isFinite) then greatest true
  else r

def addDown (a b : Binary64) : Binary64 :=
  let (s, error) := sumWithError a b
  if s.isFinite then if error < 0 then s.nextDown else s
  else lowerUnbounded a b s

def addUp (a b : Binary64) : Binary64 :=
  let (s, error) := sumWithError a b
  if s.isFinite then if 0 < error then s.nextUp else s
  else upperUnbounded a b s

def subDown (a b : Binary64) : Binary64 := addDown a (-b)

def subUp (a b : Binary64) : Binary64 := addUp a (-b)

def mulDown (a b : Binary64) : Binary64 :=
  match productWithError? a b with
  | none => (a * b).nextDown
  | some (p, error) =>
      if p.isFinite then if error < 0 then p.nextDown else p
      else lowerUnbounded a b p

def mulUp (a b : Binary64) : Binary64 :=
  match productWithError? a b with
  | none => (a * b).nextUp
  | some (p, error) =>
      if p.isFinite then if 0 < error then p.nextUp else p
      else upperUnbounded a b p

end BoxCert.Binary64
