import Mathlib.Data.List.Basic

/-!
# Postconditions of computations that may fail

A computation in `Except φ` ends with a value or with a fault. `Ensures tolerated post`
states that a value satisfies the postcondition and that a fault is a tolerated one. With
no tolerated fault this is total correctness; tolerating some faults singles out the others
as the ones that must not occur.

The rules follow the way such computations are put together: a value, a sequence
(`Ensures.bind`) and a loop over a list with an invariant (`Ensures.foldlM`). A loop that
never fails is a fold (`foldlM_eq_foldl`).
-/

set_option autoImplicit false

namespace Quagga.Library

universe u

variable {φ α β σ : Type u} {tolerated : φ → Prop}

/-- A value satisfies the postcondition, and a fault is tolerated. -/
def Ensures (tolerated : φ → Prop) (post : α → Prop) : Except φ α → Prop
  | .ok value => post value
  | .error fault => tolerated fault

@[simp] theorem ok_bind (value : α) (next : α → Except φ β) :
    (Except.ok value >>= next) = next value := rfl

@[simp] theorem error_bind (fault : φ) (next : α → Except φ β) :
    ((Except.error fault : Except φ α) >>= next) = .error fault := rfl

theorem bind_eq_ok {first : Except φ α} {next : α → Except φ β} {result : β}
    (returned : (first >>= next) = .ok result) :
    ∃ value, first = .ok value ∧ next value = .ok result := by
  cases first with
  | error fault => cases returned
  | ok value => exact ⟨value, rfl, returned⟩

variable {post : α → Prop}

@[simp] theorem ensures_ok {value : α} : Ensures tolerated post (.ok value) ↔ post value := Iff.rfl

variable {computation : Except φ α}

theorem Ensures.mono {post' : α → Prop} (ensures : Ensures tolerated post computation)
    (weaker : ∀ value, post value → post' value) : Ensures tolerated post' computation := by
  cases computation with
  | ok value => exact weaker value ensures
  | error fault => exact ensures

theorem Ensures.of_ok {value : α} (ensures : Ensures tolerated post computation)
    (returned : computation = .ok value) : post value := by
  rw [returned] at ensures
  exact ensures

theorem ensures_any (computation : Except φ α) :
    Ensures (fun _ => True) (fun _ => True) computation := by
  cases computation <;> trivial

theorem Ensures.exists_ok (ensures : Ensures (fun _ => False) post computation) :
    ∃ value, computation = .ok value ∧ post value := by
  cases computation with
  | ok value => exact ⟨value, rfl, ensures⟩
  | error fault => exact ensures.elim

/-- **Rule of sequences.** -/
theorem Ensures.bind {middle : α → Prop} {post : β → Prop} {next : α → Except φ β}
    (first : Ensures tolerated middle computation)
    (second : ∀ value, middle value → Ensures tolerated post (next value)) :
    Ensures tolerated post (computation >>= next) := by
  cases computation with
  | ok value => exact second value first
  | error fault => exact first

/-- **Rule of loops over a list.** The invariant speaks of the elements still to come. -/
theorem Ensures.foldlM (Inv : List α → σ → Prop) {body : σ → α → Except φ σ}
    (step : ∀ {a rest s}, Inv (a :: rest) s → Ensures tolerated (Inv rest) (body s a)) :
    ∀ (elements : List α) (s : σ), Inv elements s →
      Ensures tolerated (Inv []) (elements.foldlM body s) := by
  intro elements
  induction elements with
  | nil => exact fun s holds => holds
  | cons a rest ih =>
    intro s holds
    exact (step holds).bind fun s' holds' => ih s' holds'

/-- **A loop whose steps all succeed is a fold.** The fold may work on a view of the state. -/
theorem foldlM_eq_foldl {τ : Type u} (Inv : τ → Prop) (view : τ → σ)
    {body : σ → α → Except φ σ} {next : τ → α → τ} {elements : List α}
    (step : ∀ a ∈ elements, ∀ t, Inv t →
      body (view t) a = .ok (view (next t a)) ∧ Inv (next t a)) :
    ∀ t, Inv t → elements.foldlM body (view t) = .ok (view (elements.foldl next t)) := by
  induction elements with
  | nil => exact fun t _ => rfl
  | cons a rest ih =>
    intro t holds
    obtain ⟨stepped, holds'⟩ := step a (List.mem_cons_self ..) t holds
    rw [List.foldlM_cons, stepped]
    exact ih (fun b member => step b (List.mem_cons_of_mem _ member)) _ holds'

end Quagga.Library
