import Mathlib.Data.List.Basic
import Mathlib.Data.List.Induction

/-!
# Histories of a total step function

A component whose steps cannot fail is a step function on its states. A history is a list of events,
and the component goes through the states that the beginnings of the history lead to.

What is wanted of a component is often that a property holds in all these states (`Throughout`).
Where it does not hold for every history, one looks for a condition on each event and the state that
it meets (`EachMeets`) that describes the good histories exactly. The rule for this is
`throughout_iff_eachMeets`: an invariant that is kept by the steps which meet the condition and
implies the property gives one direction, and that the property after a step needs the condition
gives the other.
-/

set_option autoImplicit false

namespace Quagga.Library

universe u v

variable {σ : Type u} {ε : Type v} (step : σ → ε → σ) (start : σ)

/-- The state that a history leads to. -/
def afterAll (history : List ε) : σ :=
  history.foldl step start

@[simp]
theorem afterAll_nil : afterAll step start [] = start := rfl

@[simp]
theorem afterAll_concat (history : List ε) (event : ε) :
    afterAll step start (history ++ [event]) = step (afterAll step start history) event := by
  rw [afterAll, List.foldl_concat]
  rfl

/-- The property holds in every state that the history goes through. -/
def Throughout (property : σ → Prop) (history : List ε) : Prop :=
  ∀ ⦃before later : List ε⦄, history = before ++ later → property (afterAll step start before)

/-- Each event of the history meets the condition in the state that it finds. -/
def EachMeets (condition : σ → ε → Prop) (history : List ε) : Prop :=
  ∀ ⦃before : List ε⦄ ⦃event : ε⦄ ⦃later : List ε⦄, history = before ++ event :: later →
    condition (afterAll step start before) event

variable {step start} {property : σ → Prop} {history : List ε}

theorem Throughout.here (throughout : Throughout step start property history) :
    property (afterAll step start history) :=
  throughout (List.append_nil history).symm

theorem Throughout.of_append {later : List ε}
    (throughout : Throughout step start property (history ++ later)) :
    Throughout step start property history := by
  intro before rest split
  apply throughout
  rw [split, List.append_assoc]

theorem throughout_nil : Throughout step start property ([] : List ε) ↔ property start := by
  refine ⟨fun throughout => throughout.here, fun holds before later split => ?_⟩
  obtain ⟨rfl, -⟩ := List.append_eq_nil_iff.mp split.symm
  exact holds

variable {event : ε}

theorem throughout_concat :
    Throughout step start property (history ++ [event]) ↔
      Throughout step start property history ∧
        property (step (afterAll step start history) event) := by
  refine ⟨fun throughout => ⟨throughout.of_append, ?_⟩, fun ⟨earlier, last⟩ => ?_⟩
  · simpa using throughout.here
  · intro before later split
    rcases List.eq_nil_or_concat later with rfl | ⟨rest, final, rfl⟩
    · rw [List.append_nil] at split
      rw [← split, afterAll_concat]
      exact last
    · rw [List.concat_eq_append, ← List.append_assoc] at split
      exact earlier (List.append_inj' split rfl).1

theorem throughout_cons :
    Throughout step start property (event :: history) ↔
      property start ∧ Throughout step (step start event) property history := by
  refine ⟨fun throughout => ⟨throughout (List.nil_append _).symm, fun before later split => ?_⟩,
    fun ⟨first, rest⟩ before later split => ?_⟩
  · have longer : event :: history = (event :: before) ++ later := by rw [split, List.cons_append]
    exact throughout longer
  · cases before with
    | nil => exact first
    | cons head tail =>
      obtain ⟨rfl, tails⟩ := List.cons.inj split
      exact rest tails

variable {condition : σ → ε → Prop}

theorem eachMeets_nil : EachMeets step start condition [] := by
  intro before event later split
  simp at split

theorem eachMeets_concat :
    EachMeets step start condition (history ++ [event]) ↔
      EachMeets step start condition history ∧
        condition (afterAll step start history) event := by
  refine ⟨fun meets => ⟨fun before other later split => ?_, meets rfl⟩,
    fun ⟨earlier, last⟩ => ?_⟩
  · have longer : history ++ [event] = before ++ other :: (later ++ [event]) := by
      rw [split, List.append_assoc, List.cons_append]
    exact meets longer
  · intro before other later split
    rcases List.eq_nil_or_concat later with rfl | ⟨rest, final, rfl⟩
    · obtain ⟨rfl, same⟩ := List.append_inj' split rfl
      obtain ⟨rfl, -⟩ := List.cons.inj same
      exact last
    · rw [List.concat_eq_append, ← List.cons_append, ← List.append_assoc] at split
      exact earlier (List.append_inj' split rfl).1

theorem eachMeets_cons :
    EachMeets step start condition (event :: history) ↔
      condition start event ∧ EachMeets step (step start event) condition history := by
  refine ⟨fun meets => ⟨meets (List.nil_append _).symm, fun before other later split => ?_⟩,
    fun ⟨first, rest⟩ before other later split => ?_⟩
  · have longer : event :: history = (event :: before) ++ other :: later := by
      rw [split, List.cons_append]
    exact meets longer
  · cases before with
    | nil =>
      obtain ⟨rfl, -⟩ := List.cons.inj split
      exact first
    | cons head tail =>
      obtain ⟨rfl, tails⟩ := List.cons.inj split
      exact rest tails

theorem Throughout.eachMeets (throughout : Throughout step start property history) :
    EachMeets step start (fun s _ => property s) history :=
  fun _ _ _ split => throughout split

variable {other : σ → ε → Prop}

theorem EachMeets.and (meets : EachMeets step start condition history)
    (meetsOther : EachMeets step start other history) :
    EachMeets step start (fun s event => condition s event ∧ other s event) history :=
  fun _ _ _ split => ⟨meets split, meetsOther split⟩

/-- **An invariant along the histories whose events meet a condition.** -/
theorem EachMeets.invariant (Inv : σ → Prop) (initial : Inv start)
    (kept : ∀ s event, Inv s → condition s event → Inv (step s event))
    (meets : EachMeets step start condition history) : Inv (afterAll step start history) := by
  induction history using List.reverseRecOn with
  | nil => exact initial
  | append_singleton history event ih =>
    obtain ⟨earlier, last⟩ := eachMeets_concat.mp meets
    rw [afterAll_concat]
    exact kept _ _ (ih earlier) last

theorem EachMeets.of_append {later : List ε}
    (meets : EachMeets step start condition (history ++ later)) :
    EachMeets step start condition history := by
  intro before event rest split
  apply meets
  rw [split, List.append_assoc, List.cons_append]

section

variable (Inv : σ → Prop) (initial : Inv start)
include Inv initial

/-- Along the histories whose events meet a condition, an invariant may be used to show that they
meet another one. -/
theorem EachMeets.weaken (kept : ∀ s event, Inv s → condition s event → Inv (step s event))
    (weaker : ∀ s event, Inv s → condition s event → other s event)
    (meets : EachMeets step start condition history) : EachMeets step start other history := by
  intro before event later split
  have earlier : EachMeets step start condition before := by
    rw [split] at meets
    exact meets.of_append
  exact weaker _ _ (earlier.invariant Inv initial kept) (meets split)

theorem invariant_afterAll (kept : ∀ s event, Inv s → Inv (step s event)) (history : List ε) :
    Inv (afterAll step start history) :=
  have met : EachMeets step start (fun _ _ => True) history := fun _ _ _ _ => trivial
  met.invariant Inv initial fun s event holds _ => kept s event holds

/-- Two conditions that agree wherever an invariant holds are met by the same histories. -/
theorem eachMeets_congr (kept : ∀ s event, Inv s → Inv (step s event))
    (same : ∀ s event, Inv s → (condition s event ↔ other s event)) (history : List ε) :
    EachMeets step start condition history ↔ EachMeets step start other history := by
  constructor
  · exact EachMeets.weaken Inv initial (fun s event holds _ => kept s event holds)
      fun s event holds => (same s event holds).mp
  · exact EachMeets.weaken Inv initial (fun s event holds _ => kept s event holds)
      fun s event holds => (same s event holds).mpr

/-- **A property holds throughout exactly if each event meets the condition**, where an invariant
gives the property as long as the condition was met and the property after a step needs it. -/
theorem throughout_iff_eachMeets (kept : ∀ s event, Inv s → condition s event → Inv (step s event))
    (enough : ∀ s, Inv s → property s)
    (needed : ∀ s event, Inv s → property (step s event) → condition s event) (history : List ε) :
    Throughout step start property history ↔ EachMeets step start condition history := by
  induction history using List.reverseRecOn with
  | nil => exact iff_of_true (throughout_nil.mpr (enough _ initial)) eachMeets_nil
  | append_singleton history event ih =>
    rw [throughout_concat, eachMeets_concat, ih]
    refine and_congr_right fun earlier => ?_
    have invariant := earlier.invariant Inv initial kept
    exact ⟨needed _ _ invariant, fun met => enough _ (kept _ _ invariant met)⟩

end

end Quagga.Library
