import BoxCert.Layer
import BoxCert.Proofs.Number.Value

/-!
# When a layer can be built

A layer is built from a weight, a bias and a tolerance. The tolerance and the
length of the bias are the caller's part. With these in order there is a layer
of just these parameters if the weight is not empty and every entry is finite,
and otherwise a fault of the model.
-/

namespace BoxCert.Layer

open Binary64

variable {weight : Grid Binary64} {bias : List Binary64} {t : Binary64}

/-- Whether parameters are those of a layer: there is an output and an input,
and no entry is infinite or NaN. -/
structure Usable (weight : Grid Binary64) (bias : List Binary64) : Prop where
  rows_ne_zero : weight.rows ≠ 0
  cols_ne_zero : weight.cols ≠ 0
  finite : ∀ x ∈ weight.cells ++ bias, x.isFinite = true

/-- A tolerance is finite and not negative. -/
theorem isTolerance_iff_nonneg :
    t.isTolerance = true ↔ t.isFinite = true ∧ (0 : Binary64) ≤ t := by
  rw [isTolerance, Bool.and_eq_true, Bool.not_eq_true',
    decide_eq_false_iff_not]
  exact and_congr_right fun hfin => not_below_iff rfl (isNan_of_isFinite hfin)

section Build

variable (ht : t.isTolerance = true) (hbias : bias.length = weight.rows)
  (order : StorageOrder)

include ht hbias

theorem build_of_usable (h : Usable weight bias) :
    ∃ layer, build weight bias t order = .ok layer ∧
      layer.weightPoints = weight ∧ layer.biasPoints = bias ∧
      layer.tolerance = t ∧ layer.order = order := by
  unfold build
  rw [dif_pos ht, dif_pos ⟨h.rows_ne_zero, h.cols_ne_zero⟩, dif_pos hbias]
  split
  · next x hx =>
      have hfin := h.finite x (List.mem_of_find?_eq_some hx)
      have hbad := List.find?_some hx
      rw [hfin] at hbad
      cases hbad
  · exact ⟨_, rfl, rfl, rfl, rfl, rfl⟩

theorem build_of_not_usable (h : ¬ Usable weight bias) :
    ∃ cause, build weight bias t order = .error (.invalidModel cause) := by
  unfold build
  rw [dif_pos ht]
  simp only [hbias, dite_true]
  split
  · next hsize =>
      split
      · exact ⟨_, rfl⟩
      · next hnone =>
          refine absurd ⟨hsize.1, hsize.2, fun x hx => ?_⟩ h
          simpa using List.find?_eq_none.1 hnone x hx
  · exact ⟨_, rfl⟩

end Build

end BoxCert.Layer
