import Mathlib.Logic.Relation
import Quagga.Library.Outcomes

/-!
# Loops that may be left early

A `while` loop has a guard and a body. A pass through the body goes on with a new state,
returns from the function around the loop, or faults. `While.within n` is what the loop
gives within `n` passes, and `none` when `n` passes are not enough.

Nothing says that a loop ends. One whose passes come back to an invariant under which the
guard holds never does (`While.within_eq_none`), and one whose passes make a measure smaller
ends within that measure (`While.within_isSome`). A `Loop` carries such a measure, so that it
can be run: `Loop.run` satisfies the equation of the loop (`Loop.run_eq`), and an invariant of
its passes holds of its result (`Loop.ensures`).

A `Walk` is a loop that cannot fault. A loop over some view of the state of a walk, whose passes
are the steps of the walk, gives what the walk gives (`Loop.run_eq_walk`).

A parser made of nested loops goes through a sequence of places of its input. `Encounters` says
that a walk from place to place comes to one with some property.
-/

set_option autoImplicit false

namespace Quagga.Library

universe u

variable {φ σ ρ : Type u}

/-- How one pass through the body of a loop ends. -/
inductive Pass (σ ρ : Type u) where
  | again (s : σ)
  | leave (result : ρ)
  deriving DecidableEq

/-- Go on after a pass, unless it has left. -/
def Pass.next (rest : σ → Except φ (Pass σ ρ)) : Pass σ ρ → Except φ (Pass σ ρ)
  | .again s => rest s
  | .leave result => .ok (.leave result)

/-- A loop with its guard. -/
structure While (φ σ ρ : Type u) where
  guard : σ → Bool
  body : σ → Except φ (Pass σ ρ)

namespace While

variable (loop : While φ σ ρ)

/-- What the loop gives within a number of passes. When the guard fails, the loop ends with
the state at hand. -/
def within : Nat → σ → Option (Except φ (Pass σ ρ))
  | 0, s => if loop.guard s then none else some (.ok (.again s))
  | n + 1, s =>
    if loop.guard s then
      match loop.body s with
      | .error fault => some (.error fault)
      | .ok (.leave result) => some (.ok (.leave result))
      | .ok (.again s') => within n s'
    else some (.ok (.again s))

variable {loop}

theorem within_of_done {s : σ} (done : loop.guard s = false) (n : Nat) :
    loop.within n s = some (.ok (.again s)) := by
  cases n <;> simp [within, done]

theorem within_succ {s : σ} (going : loop.guard s = true) (n : Nat) :
    loop.within (n + 1) s =
      match loop.body s with
      | .error fault => some (.error fault)
      | .ok (.leave result) => some (.ok (.leave result))
      | .ok (.again s') => loop.within n s' := by
  simp [within, going]

/-- **More passes give the same result.** -/
theorem within_mono {n m : Nat} (le : n ≤ m) : ∀ {s : σ} {result : Except φ (Pass σ ρ)},
    loop.within n s = some result → loop.within m s = some result := by
  induction n generalizing m with
  | zero =>
    intro s result ended
    cases going : loop.guard s with
    | true => simp [within, going] at ended
    | false => rwa [within_of_done going] at ended ⊢
  | succ n ih =>
    intro s result ended
    cases going : loop.guard s with
    | false => rwa [within_of_done going] at ended ⊢
    | true =>
      obtain ⟨m, rfl⟩ : ∃ k, m = k + 1 := ⟨m - 1, by omega⟩
      rw [within_succ going] at ended ⊢
      cases passed : loop.body s with
      | error fault => simpa [passed] using ended
      | ok pass =>
        cases pass with
        | leave result' => simpa [passed] using ended
        | again s' =>
          simp only [passed] at ended ⊢
          exact ih (by omega) ended

/-- **A loop whose passes come back to an invariant under which the guard holds never
ends.** -/
theorem within_eq_none (Inv : σ → Prop)
    (back : ∀ s, Inv s → loop.guard s = true ∧ ∃ s', loop.body s = .ok (.again s') ∧ Inv s')
    (n : Nat) : ∀ {s : σ}, Inv s → loop.within n s = none := by
  induction n with
  | zero =>
    intro s holds
    simp [within, (back s holds).1]
  | succ n ih =>
    intro s holds
    obtain ⟨going, s', passed, holds'⟩ := back s holds
    rw [within_succ going, passed]
    exact ih holds'

/-- **A loop whose passes make a measure smaller ends within that measure.** -/
theorem within_isSome (Inv : σ → Prop) (measure : σ → Nat)
    (falls : ∀ s, Inv s → loop.guard s = true → 0 < measure s ∧
      ∀ s', loop.body s = .ok (.again s') → Inv s' ∧ measure s' < measure s) (n : Nat) :
    ∀ {s : σ}, Inv s → measure s ≤ n → (loop.within n s).isSome := by
  induction n with
  | zero =>
    intro s holds le
    cases going : loop.guard s with
    | true => have := (falls s holds going).1; omega
    | false => simp [within_of_done going]
  | succ n ih =>
    intro s holds le
    cases going : loop.guard s with
    | false => simp [within_of_done going]
    | true =>
      rw [within_succ going]
      cases passed : loop.body s with
      | error fault => rfl
      | ok pass =>
        cases pass with
        | leave result => rfl
        | again s' =>
          obtain ⟨holds', less⟩ := (falls s holds going).2 s' passed
          exact ih holds' (by omega)

end While

/-- A loop with a measure that every pass makes smaller. -/
structure Loop (φ σ ρ : Type u) extends While φ σ ρ where
  measure : σ → Nat
  falls : ∀ {s s' : σ}, guard s = true → body s = .ok (.again s') → measure s' < measure s

namespace Loop

variable (loop : Loop φ σ ρ)

theorem within_measure (s : σ) : (loop.within (loop.measure s + 1) s).isSome :=
  While.within_isSome (fun _ => True) (fun s => loop.measure s + 1)
    (fun _ _ going => ⟨Nat.succ_pos _, fun _ passed =>
      ⟨trivial, Nat.succ_lt_succ (loop.falls going passed)⟩⟩) _ trivial (Nat.le_refl _)

/-- Run the loop. It ends with the state in which the guard fails, or is left with a
result. -/
def run (s : σ) : Except φ (Pass σ ρ) :=
  (loop.within (loop.measure s + 1) s).get (loop.within_measure s)

variable {loop} {s : σ}

theorem within_run {n : Nat} (enough : loop.measure s < n) : loop.within n s = some (loop.run s) :=
  While.within_mono enough (Option.some_get _).symm

/-- **The equation of a loop.** -/
theorem run_eq (s : σ) :
    loop.run s =
      if loop.guard s then
        match loop.body s with
        | .error fault => .error fault
        | .ok (.leave result) => .ok (.leave result)
        | .ok (.again s') => loop.run s'
      else .ok (.again s) := by
  apply Option.some.inj
  rw [← within_run (Nat.lt_succ_self (loop.measure s))]
  cases going : loop.guard s with
  | false => simp [While.within_of_done going]
  | true =>
    rw [While.within_succ going]
    cases passed : loop.body s with
    | error fault => rfl
    | ok pass =>
      cases pass with
      | leave result => rfl
      | again s' => exact within_run (loop.falls going passed)

theorem run_of_done (done : loop.guard s = false) : loop.run s = .ok (.again s) := by
  rw [run_eq, done]
  rfl

section

variable (going : loop.guard s = true)

include going

theorem run_of_leave {result : ρ}
    (passed : loop.body s = .ok (.leave result)) : loop.run s = .ok (.leave result) := by
  rw [run_eq, going, passed]
  rfl

theorem run_of_again {s' : σ}
    (passed : loop.body s = .ok (.again s')) : loop.run s = loop.run s' := by
  rw [run_eq s, going, passed]
  rfl

theorem run_of_guard : loop.run s = loop.body s >>= Pass.next loop.run := by
  rw [run_eq, going]
  cases loop.body s with
  | error fault => rfl
  | ok pass => cases pass <;> rfl

end

theorem induction (loop : Loop φ σ ρ) {P : σ → Prop}
    (step : ∀ s, (∀ s', loop.guard s = true → loop.body s = .ok (.again s') → P s') → P s)
    (s : σ) : P s := by
  induction measured : loop.measure s using Nat.strongRecOn generalizing s with
  | ind n ih =>
    apply step
    intro s' going passed
    exact ih _ (measured ▸ loop.falls going passed) s' rfl

/-- What a pass has to establish: the invariant when the loop goes on, and the
postcondition when it is left. -/
def PassPost (Inv : σ → Prop) (post : Pass σ ρ → Prop) : Pass σ ρ → Prop
  | .again s => Inv s
  | .leave result => post (.leave result)

/-- **Rule of loops with an invariant.** -/
theorem ensures {tolerated : φ → Prop} (Inv : σ → Prop) {post : Pass σ ρ → Prop}
    (pass : ∀ s, Inv s → loop.guard s = true →
      Ensures tolerated (PassPost Inv post) (loop.body s))
    (done : ∀ s, Inv s → loop.guard s = false → post (.again s)) :
    ∀ s, Inv s → Ensures tolerated post (loop.run s) := by
  intro s
  induction s using Loop.induction loop with
  | step s ih =>
    intro holds
    cases going : loop.guard s with
    | false =>
      rw [run_of_done going]
      exact done s holds going
    | true =>
      have passPost := pass s holds going
      rw [run_of_guard going]
      cases passed : loop.body s with
      | error fault => rwa [passed] at passPost
      | ok ending =>
        rw [passed] at passPost
        cases ending with
        | leave result => exact passPost
        | again s' => exact ih s' going passed passPost

theorem returns (pass : ∀ s, loop.guard s = true → ∃ passed, loop.body s = .ok passed) (s : σ) :
    ∃ ending, loop.run s = .ok ending := by
  have each : ∀ s, True → loop.guard s = true →
      Ensures (fun _ => False) (PassPost (fun _ => True) fun _ => True) (loop.body s) := by
    intro s _ going
    obtain ⟨passed, returned⟩ := pass s going
    rw [returned]
    cases passed <;> trivial
  obtain ⟨ending, ended, -⟩ := (ensures _ each (fun _ _ _ => trivial) s trivial).exists_ok
  exact ⟨ending, ended⟩

/-- What a pass does to the state, a loop that ends by its guard does, and then the guard
fails. -/
theorem run_again {R : σ → σ → Prop} (refl : ∀ s, R s s)
    (trans : ∀ {s s' s''}, R s s' → R s' s'' → R s s'')
    (pass : ∀ {s s'}, loop.guard s = true → loop.body s = .ok (.again s') → R s s') {s' : σ}
    (ran : loop.run s = .ok (.again s')) : R s s' ∧ loop.guard s' = false := by
  have ensured : Ensures (fun _ => True)
      (PassPost (fun s' => R s s' ∧ loop.guard s' = false) fun _ => True) (loop.run s) := by
    refine ensures (R s) ?_ (fun _ holds done => ⟨holds, done⟩) s (refl s)
    intro s' holds going
    cases passed : loop.body s' with
    | error fault => trivial
    | ok ending =>
      cases ending with
      | leave result => trivial
      | again next => exact trans holds (pass going passed)
  exact ensured.of_ok ran

end Loop

/-! ## Loops that cannot fault -/

/-- A loop whose passes are steps that always succeed. -/
structure Walk (σ ρ : Type u) where
  guard : σ → Bool
  step : σ → Pass σ ρ
  measure : σ → Nat
  falls : ∀ {s s' : σ}, guard s = true → step s = .again s' → measure s' < measure s

namespace Walk

variable (walk : Walk σ ρ)

/-- The walk as a loop without faults. -/
def toLoop : Loop PEmpty σ ρ where
  guard := walk.guard
  body s := .ok (walk.step s)
  measure := walk.measure
  falls going passed := walk.falls going (Except.ok.inj passed)

/-- Where the walk ends. -/
def run (s : σ) : Pass σ ρ :=
  match walk.toLoop.run s with
  | .ok pass => pass

variable {walk}

theorem run_of_done {s : σ} (done : walk.guard s = false) : walk.run s = .again s := by
  have loop : walk.toLoop.run s = .ok (.again s) := Loop.run_of_done done
  rw [run, loop]

theorem run_of_leave {s : σ} {result : ρ} (going : walk.guard s = true)
    (left : walk.step s = .leave result) : walk.run s = .leave result := by
  have passed : walk.toLoop.body s = .ok (.leave result) := congrArg Except.ok left
  have loop : walk.toLoop.run s = .ok (.leave result) := Loop.run_of_leave going passed
  rw [run, loop]

theorem run_of_again {s s' : σ} (going : walk.guard s = true)
    (stepped : walk.step s = .again s') : walk.run s = walk.run s' := by
  have passed : walk.toLoop.body s = .ok (.again s') := congrArg Except.ok stepped
  have loop : walk.toLoop.run s = walk.toLoop.run s' := Loop.run_of_again going passed
  rw [run, run, loop]

theorem induction (walk : Walk σ ρ) {P : σ → Prop}
    (step : ∀ s, (∀ s', walk.guard s = true → walk.step s = .again s' → P s') → P s) (s : σ) :
    P s :=
  Loop.induction walk.toLoop
    (fun s ih => step s fun s' going stepped => ih s' going (congrArg Except.ok stepped)) s

/-- **Rule of walks with an invariant.** -/
theorem ensures (Inv : σ → Prop) {post : Pass σ ρ → Prop}
    (step : ∀ s, Inv s → walk.guard s = true → Loop.PassPost Inv post (walk.step s))
    (done : ∀ s, Inv s → walk.guard s = false → post (.again s)) (s : σ) (holds : Inv s) :
    post (walk.run s) := by
  have pass : ∀ s, Inv s → walk.toLoop.guard s = true →
      Ensures (fun _ => False) (Loop.PassPost Inv post) (walk.toLoop.body s) := step
  have ensured : Ensures (fun _ => False) post (walk.toLoop.run s) :=
    Loop.ensures Inv pass done s holds
  obtain ⟨pass, ran, holds'⟩ := ensured.exists_ok
  rw [run, ran]
  exact holds'

/-- A walk ends where the guard fails, or is left at a place where a step leaves it. -/
def Ends (walk : Walk σ ρ) (Inv : σ → Prop) : Pass σ ρ → Prop
  | .again s => Inv s ∧ walk.guard s = false
  | .leave result => ∃ s, Inv s ∧ walk.guard s = true ∧ walk.step s = .leave result

section Invariant

variable (Inv : σ → Prop)
  (keeps : ∀ s s', Inv s → walk.guard s = true → walk.step s = .again s' → Inv s') {s : σ}
  (holds : Inv s)

include keeps holds

theorem run_ends : walk.Ends Inv (walk.run s) := by
  refine ensures Inv ?_ (fun _ holds done => ⟨holds, done⟩) s holds
  intro s holds going
  cases stepped : walk.step s with
  | again next => exact keeps s next holds going stepped
  | leave result => exact ⟨s, holds, going, stepped⟩

theorem run_again {s' : σ} (ran : walk.run s = .again s') : Inv s' ∧ walk.guard s' = false := by
  have ends := run_ends Inv keeps holds
  rwa [ran] at ends

theorem run_leave {result : ρ} (ran : walk.run s = .leave result) :
    ∃ s', Inv s' ∧ walk.guard s' = true ∧ walk.step s' = .leave result := by
  have ends := run_ends Inv keeps holds
  rwa [ran] at ends

end Invariant

end Walk

/-- A pass seen through views of the states and results. -/
def Pass.map {τ ρ' : Type u} (view : τ → σ) (result : ρ' → ρ) : Pass τ ρ' → Pass σ ρ
  | .again t => .again (view t)
  | .leave r => .leave (result r)

/-- **A loop whose passes are the steps of a walk ends where the walk does.** -/
theorem Loop.run_eq_walk {τ ρ' : Type u} (loop : Loop φ σ ρ) (walk : Walk τ ρ')
    (Inv : τ → Prop) (view : τ → σ) (result : ρ' → ρ)
    (guard_eq : ∀ t, Inv t → loop.guard (view t) = walk.guard t)
    (body_eq : ∀ t, Inv t → walk.guard t = true →
      loop.body (view t) = .ok ((walk.step t).map view result))
    (keeps : ∀ t t', Inv t → walk.guard t = true → walk.step t = .again t' → Inv t')
    (t : τ) : Inv t → loop.run (view t) = .ok ((walk.run t).map view result) := by
  induction t using Walk.induction walk with
  | step t ih =>
    intro holds
    cases going : walk.guard t with
    | false =>
      rw [Loop.run_of_done ((guard_eq t holds).trans going), Walk.run_of_done going]
      rfl
    | true =>
      have loopGoing : loop.guard (view t) = true := (guard_eq t holds).trans going
      have passed := body_eq t holds going
      cases stepped : walk.step t with
      | leave r =>
        rw [stepped] at passed
        rw [Loop.run_of_leave loopGoing passed, Walk.run_of_leave going stepped]
        rfl
      | again t' =>
        rw [stepped] at passed
        rw [Loop.run_of_again loopGoing passed, Walk.run_of_again going stepped]
        exact ih t' going stepped (keeps t t' holds going stepped)

/-! ## Places on the way -/

section Walks

variable {α : Type u} {next : α → Option α} {P : α → Prop}

/-- A walk from the place comes to one with the property. -/
def Encounters (next : α → Option α) (P : α → Prop) (a : α) : Prop :=
  ∃ b, Relation.ReflTransGen (fun a b => next a = some b) a b ∧ P b

/-- **A walk has the property where it starts, or encounters it from the next place on.** -/
theorem encounters_iff {a : α} :
    Encounters next P a ↔ P a ∨ ∃ b, next a = some b ∧ Encounters next P b := by
  constructor
  · rintro ⟨c, walk, holds⟩
    rcases walk.cases_head with rfl | ⟨b, step, rest⟩
    · exact .inl holds
    · exact .inr ⟨b, step, c, rest, holds⟩
  · rintro (holds | ⟨b, step, c, walk, holds⟩)
    · exact ⟨a, .refl, holds⟩
    · exact ⟨c, walk.head step, holds⟩

theorem encounters_next {a b : α} (step : next a = some b) (not : ¬ P a) :
    Encounters next P a ↔ Encounters next P b := by
  rw [encounters_iff]
  simp [step, not]

theorem not_encounters {a : α} (stop : next a = none) (not : ¬ P a) : ¬ Encounters next P a := by
  rw [encounters_iff]
  simp [stop, not]

/-- Where the places with the property have no next one, all places of a walk encounter the
same. -/
theorem encounters_of_walk {a b : α} (stops : ∀ c, P c → next c = none)
    (walk : Relation.ReflTransGen (fun a b => next a = some b) a b) :
    Encounters next P a ↔ Encounters next P b := by
  induction walk with
  | refl => rfl
  | tail _ step ih =>
    refine ih.trans (encounters_next step fun here => ?_)
    rw [stops _ here] at step
    cases step

end Walks

/-! ## Loops that fail at certain places -/

section Places

variable {φ σ ρ α : Type u}

/-- **A loop that goes from place to place, and goes wrong exactly at those with a property, ends
well exactly if it encounters none of them.** To go wrong is to fail, or to leave a state that is
not good and never becomes good again. -/
theorem Loop.endsWell_iff (loop : Loop φ σ ρ) (place : σ → α) (next : α → Option α) (P : α → Prop)
    (Good : σ → Prop) (EndsWell : Pass σ ρ → Prop)
    (done : ∀ s, loop.guard s = false →
      next (place s) = none ∧ ¬ P (place s) ∧ (EndsWell (.again s) ↔ Good s))
    (wrong : ∀ s ending, loop.guard s = true → P (place s) → loop.body s = .ok ending →
      ¬ PassPost Good EndsWell ending)
    (leaves : ∀ s, loop.guard s = true → ¬ P (place s) → next (place s) = none →
      ∃ result, loop.body s = .ok (.leave result) ∧ (EndsWell (.leave result) ↔ Good s))
    (again : ∀ s b, loop.guard s = true → ¬ P (place s) → next (place s) = some b →
      ∃ s', loop.body s = .ok (.again s') ∧ place s' = b ∧ (Good s' ↔ Good s))
    (s : σ) : (∃ ending, loop.run s = .ok ending ∧ EndsWell ending) ↔
      Good s ∧ ¬ Encounters next P (place s) := by
  induction s using Loop.induction loop with
  | step s ih =>
    cases going : loop.guard s with
    | false =>
      obtain ⟨stop, not, well⟩ := done s going
      rw [Loop.run_of_done going]
      simp [well, not_encounters stop not]
    | true =>
      by_cases here : P (place s)
      · refine iff_of_false ?_ fun both => both.2 (encounters_iff.mpr (.inl here))
        rintro ⟨ending, ended, holds⟩
        rw [Loop.run_of_guard going] at ended
        obtain ⟨pass, passed, ended⟩ := bind_eq_ok ended
        refine wrong s pass going here passed ?_
        cases pass with
        | leave result =>
          cases ended
          exact holds
        | again s' => exact ((ih s' going passed).mp ⟨ending, ended, holds⟩).1
      · cases step : next (place s) with
        | none =>
          obtain ⟨result, left, well⟩ := leaves s going here step
          rw [Loop.run_of_leave going left]
          simp [well, not_encounters step here]
        | some b =>
          obtain ⟨s', passed, rfl, same⟩ := again s b going here step
          rw [Loop.run_of_again going passed, encounters_next step here, ← same]
          exact ih s' going passed

end Places

end Quagga.Library
