import BoxCert.Number.Binary64

/-!
# Properties

A robustness property: on every input between two corners, the label wins.
-/

namespace BoxCert

/-- The claim that `label` wins on every input between `lower` and `upper`. -/
structure Property where
  lower : List Binary64
  upper : List Binary64
  label : Nat
deriving DecidableEq, Repr

def Property.dim (p : Property) : Nat := p.lower.length

end BoxCert
