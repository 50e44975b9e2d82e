/-!
# Powers of natural numbers

Sizes and bounds are written as powers throughout. A richer algebra knows a
second way to read the power of a natural number, equal to the first one but
not the same term, and prefers it wherever it is in scope. The built-in way is
put first here, so that a definition means the same whatever else is known.
-/

attribute [default_instance high+1, instance (high+1)] instPowNat
