import Mathlib.Order.Iterate
import Mathlib.Tactic.Ring

/-!
# Running averages that are rounded down

A running average takes `w` parts of its value and one part of a report, and rounds down (`blend`).
It stays between bounds on the value and the reports, and greater values and reports give a greater
average (`foldl_blend_mono`).

Under a constant report the average does not come to the report from below. A value above the report
falls down to it, one that is more than `w` below rises until it is `w` below, and any other value
stays. The distances from the report follow recurrences of their own (`iterate_blend_above`,
`iterate_blend_below`).
-/

set_option autoImplicit false

namespace Quagga.Library

variable {w value value' report report' bound : ℕ}

/-- The average of `w` parts of the value and one part of the report. -/
def blend (w value report : ℕ) : ℕ := (value * w + report) / (w + 1)

theorem blend_mono (values : value ≤ value') (reports : report ≤ report') :
    blend w value report ≤ blend w value' report' :=
  Nat.div_le_div_right (Nat.add_le_add (Nat.mul_le_mul_right w values) reports)

/-- An upper bound may be exceeded by the reports, as long as it is by no more than `w`. -/
theorem blend_le (value_le : value ≤ bound) (report_le : report ≤ bound + w) :
    blend w value report ≤ bound := by
  have parts := Nat.mul_le_mul_right w value_le
  have whole : (bound + 1) * (w + 1) = bound * w + bound + w + 1 := by ring
  rw [blend, ← Nat.lt_succ_iff, Nat.div_lt_iff_lt_mul (Nat.succ_pos w), whole]
  omega

theorem le_blend (le_value : bound ≤ value) (le_report : bound ≤ report) :
    bound ≤ blend w value report := by
  have parts := Nat.mul_le_mul_right w le_value
  rw [blend, Nat.le_div_iff_mul_le (Nat.succ_pos w), Nat.mul_succ]
  omega

/-! ## Sequences of reports -/

variable {reports : List ℕ}

theorem foldl_blend_le (value_le : value ≤ bound) (reports_le : ∀ r ∈ reports, r ≤ bound + w) :
    reports.foldl (blend w) value ≤ bound := by
  induction reports generalizing value with
  | nil => exact value_le
  | cons report later ih =>
    obtain ⟨first, others⟩ := List.forall_mem_cons.mp reports_le
    exact ih (blend_le value_le first) others

theorem le_foldl_blend (le_value : bound ≤ value) (le_reports : ∀ r ∈ reports, bound ≤ r) :
    bound ≤ reports.foldl (blend w) value := by
  induction reports generalizing value with
  | nil => exact le_value
  | cons report later ih =>
    obtain ⟨first, others⟩ := List.forall_mem_cons.mp le_reports
    exact ih (le_blend le_value first) others

/-- **Greater values and reports give a greater average.** -/
theorem foldl_blend_mono {reports' : List ℕ} (pointwise : List.Forall₂ (· ≤ ·) reports reports')
    (values : value ≤ value') :
    reports.foldl (blend w) value ≤ reports'.foldl (blend w) value' := by
  induction pointwise generalizing value value' with
  | nil => exact values
  | cons first _ ih => exact ih (blend_mono values first)

/-! ## A constant report -/

/-- How the distance of a value above the report changes. -/
def fall (w distance : ℕ) : ℕ := distance * w / (w + 1)

/-- How the distance of a value below the report changes. -/
def rise (w distance : ℕ) : ℕ := distance - distance / (w + 1)

theorem fall_monotone : Monotone (fall w) :=
  fun _ _ le => Nat.div_le_div_right (Nat.mul_le_mul_right w le)

theorem rise_monotone : Monotone (rise w) := by
  intro distance distance' le
  obtain ⟨more, rfl⟩ := Nat.exists_eq_add_of_le le
  have gap : (distance + more) / (w + 1) ≤ distance / (w + 1) + more := by
    rw [← Nat.add_mul_div_left distance more (Nat.succ_pos w)]
    exact Nat.div_le_div_right (Nat.add_le_add_left (Nat.le_mul_of_pos_left more w.succ_pos) _)
  rw [rise, rise]
  omega

theorem blend_above (distance : ℕ) :
    blend w (report + distance) report = report + fall w distance := by
  have whole : (report + distance) * w + report = distance * w + (w + 1) * report := by ring
  rw [blend, whole, Nat.add_mul_div_left _ _ (Nat.succ_pos w), Nat.add_comm, fall]

theorem blend_below {distance : ℕ} (le : distance ≤ report) :
    blend w (report - distance) report = report - rise w distance := by
  obtain ⟨value, rfl⟩ := Nat.exists_eq_add_of_le le
  have self := Nat.div_le_self distance (w + 1)
  have whole : value * w + (distance + value) = distance + (w + 1) * value := by ring
  rw [blend, Nat.add_sub_cancel_left, whole, Nat.add_mul_div_left _ _ (Nat.succ_pos w), rise]
  generalize distance / (w + 1) = quotient at self ⊢
  omega

/-- **A value above the report keeps above it, at a distance that falls.** -/
theorem iterate_blend_above (n distance : ℕ) :
    (blend w · report)^[n] (report + distance) = report + (fall w)^[n] distance := by
  induction n with
  | zero => rfl
  | succ n ih => rw [Function.iterate_succ_apply', Function.iterate_succ_apply', ih, blend_above]

/-- **A value below the report keeps below it, at a distance that falls as well.** -/
theorem iterate_blend_below (n : ℕ) {distance : ℕ} (le : distance ≤ report) :
    (blend w · report)^[n] (report - distance) = report - (rise w)^[n] distance := by
  have shrinks : ∀ k, (rise w)^[k] distance ≤ report := by
    intro k
    induction k with
    | zero => exact le
    | succ k ih =>
      rw [Function.iterate_succ_apply']
      exact (Nat.sub_le _ _).trans ih
  induction n with
  | zero => rfl
  | succ n ih =>
    rw [Function.iterate_succ_apply', Function.iterate_succ_apply', ih, blend_below (shrinks n)]

/-- A value below the report by no more than `w` stays. -/
theorem iterate_rise_small {distance : ℕ} (le : distance ≤ w) (n : ℕ) :
    (rise w)^[n] distance = distance :=
  Function.iterate_fixed (by rw [rise, Nat.div_eq_of_lt (Nat.lt_succ_of_le le), Nat.sub_zero]) n

end Quagga.Library
