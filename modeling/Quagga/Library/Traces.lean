import Mathlib.Data.List.Basic
import Mathlib.Data.List.Induction

/-!
# Runs of a step function and the traces they leave

A component reacts to events. One step takes a state and an event and gives the next state
with the actions the step performed, or a fault that ends the run. A run is any finite
sequence of allowed events whose steps succeed, and its trace is the sequence of all their
actions.

Statements about the component's behaviour are statements about traces: what holds of every
action together with the actions before it (`Always`). Such a statement is proved for one
step and follows for the run (`Run.invariant`, `Always.append`). A common case are responses
that need a flag which a request sets (`due`, `count_response_le`).
-/

set_option autoImplicit false

namespace Quagga.Library

universe u

variable {σ ε α φ : Type u}

/-- The runs from a start state in which every event is allowed where it happens, with their
traces. -/
inductive Run (step : σ → ε → Except φ (σ × List α)) (allowed : σ → ε → Prop) (start : σ) :
    List α → σ → Prop where
  | start : Run step allowed start [] start
  | next {trace actions : List α} {s s' : σ} {event : ε} :
      Run step allowed start trace s → allowed s event → step s event = .ok (s', actions) →
        Run step allowed start (trace ++ actions) s'

variable {step : σ → ε → Except φ (σ × List α)} {allowed : σ → ε → Prop} {start : σ}
  {trace : List α}

/-- **What holds at the start and is kept by every allowed step holds after every run.** -/
theorem Run.invariant (Inv : List α → σ → Prop) (initial : Inv [] start) (preserved : ∀ {trace
    actions : List α} {s s' : σ} {event : ε}, Inv trace s → allowed s event → step s event = .ok
    (s', actions) → Inv (trace ++ actions) s') {s : σ} (run : Run step allowed start trace s) :
    Inv trace s := by
  induction run with
  | start => exact initial
  | next _ permitted stepped ih => exact preserved ih permitted stepped

/-- Perform events in their order. -/
def execute (step : σ → ε → Except φ (σ × List α)) : σ → List ε → Except φ (σ × List α)
  | s, [] => .ok (s, [])
  | s, event :: events =>
    match step s event with
    | .error fault => .error fault
    | .ok (s', actions) =>
      match execute step s' events with
      | .error fault => .error fault
      | .ok (final, trace) => .ok (final, actions ++ trace)

/-- Each of the events is allowed in the state that the events before it lead to. -/
def Permitted (step : σ → ε → Except φ (σ × List α)) (allowed : σ → ε → Prop) :
    σ → List ε → Prop
  | _, [] => True
  | s, event :: events =>
    allowed s event ∧
      match step s event with
      | .error _ => True
      | .ok (s', _) => Permitted step allowed s' events

variable {events : List ε}

/-- What executing events appends to a run is again a run. -/
theorem Run.execute :
    ∀ {trace later : List α} {s final : σ}, Run step allowed start trace s →
      Permitted step allowed s events → execute step s events = .ok (final, later) →
        Run step allowed start (trace ++ later) final := by
  induction events with
  | nil =>
    intro trace later s final run _ executed
    obtain ⟨rfl, rfl⟩ := executed
    simpa using run
  | cons event events ih =>
    intro trace later s final run permitted executed
    obtain ⟨here, after⟩ := permitted
    simp only [Library.execute] at executed
    cases stepped : step s event with
    | error fault => simp [stepped] at executed
    | ok result =>
      obtain ⟨s', actions⟩ := result
      rw [stepped] at after
      cases rest : Library.execute step s' events with
      | error fault => simp [stepped, rest] at executed
      | ok result =>
        simp only [stepped, rest] at executed
        obtain ⟨rfl, rfl⟩ := executed
        rw [← List.append_assoc]
        exact ih (run.next here stepped) after rest

theorem run_of_execute {final : σ} (permitted : Permitted step allowed start events)
    (executed : execute step start events = .ok (final, trace)) :
    Run step allowed start trace final := by
  simpa using Run.execute .start permitted executed

theorem permitted_of_forall (always : ∀ s, ∀ event ∈ events, allowed s event) :
    ∀ s, Permitted step allowed s events := by
  induction events with
  | nil => exact fun _ => trivial
  | cons event events ih =>
    intro s
    refine ⟨always s event List.mem_cons_self, ?_⟩
    cases step s event with
    | error fault => trivial
    | ok result => exact ih (fun s' event' mem => always s' event' (List.mem_cons_of_mem _ mem)) _

/-! ## Statements about an action and what came before it -/

variable {P : List α → α → Prop}

/-- The statement holds of every action of the trace and the actions before it. -/
def Always (P : List α → α → Prop) (trace : List α) : Prop :=
  ∀ ⦃before : List α⦄ ⦃action : α⦄ ⦃after : List α⦄,
    trace = before ++ action :: after → P before action

theorem Always.nil : Always P [] := by
  intro before action after split
  simp at split

theorem Always.append {actions : List α} (earlier : Always P trace)
    (later : Always (fun before action => P (trace ++ before) action) actions) :
    Always P (trace ++ actions) := by
  intro before action after split
  rcases List.append_eq_append_iff.mp split with ⟨middle, prefixEq, suffixEq⟩ |
    ⟨middle, prefixEq, suffixEq⟩
  · rw [prefixEq]
    exact later suffixEq
  · cases middle with
    | nil =>
      have first : actions = [] ++ action :: after := by simpa using suffixEq.symm
      simpa [prefixEq] using later first
    | cons head tail =>
      obtain ⟨rfl, rfl⟩ := List.cons.inj suffixEq
      exact earlier prefixEq

theorem Always.single {action : α} (holds : P [] action) : Always P [action] := by
  intro before other after split
  cases before with
  | nil =>
    obtain ⟨rfl, -⟩ := List.cons.inj split
    exact holds
  | cons head tail => simp at split

theorem Always.snoc {action : α} (earlier : Always P trace) (holds : P trace action) :
    Always P (trace ++ [action]) := by
  apply earlier.append
  apply Always.single
  rwa [List.append_nil]

theorem Always.of_append {later : List α} (always : Always P (trace ++ later)) :
    Always P trace := by
  intro before action after split
  apply always
  rw [split, List.append_assoc, List.cons_append]

/-- **Induction on a trace from its start**, with the statement about each action at hand. -/
theorem Always.induction (Q : List α → Prop) (nil : Q [])
    (snoc : ∀ before action, Q before → P before action → Q (before ++ [action]))
    (always : Always P trace) : Q trace := by
  induction trace using List.reverseRecOn with
  | nil => exact nil
  | append_singleton before action ih =>
    apply snoc before action (ih always.of_append)
    exact always rfl

/-! ## Flags between requests and responses

A flag says that a response is due: requests set it and responses unset it.
-/

/-- How an action changes the flag. -/
def dueStep (request response : α → Bool) (due : Bool) (action : α) : Bool :=
  if request action then true else if response action then false else due

/-- The last request has not been answered. -/
def due (request response : α → Bool) (trace : List α) : Bool :=
  trace.foldl (dueStep request response) false

variable {request response : α → Bool}

theorem due_snoc (request response : α → Bool) (trace : List α) (action : α) :
    due request response (trace ++ [action]) =
      dueStep request response (due request response trace) action :=
  List.foldl_concat ..

/-- **Responses that happen only when they are due are no more than the requests.** -/
theorem count_response_le (apart : ∀ action, response action = true → request action = false)
    (guarded : ∀ before action, P before action → response action = true → due request response
    before = true) (always : Always P trace) :
    trace.countP response + (due request response trace).toNat ≤ trace.countP request := by
  refine always.induction (fun trace =>
    trace.countP response + (due request response trace).toNat ≤ trace.countP request) ?_ ?_
  · exact Nat.le_refl _
  · intro before action ih holds
    rw [due_snoc, dueStep, List.countP_append, List.countP_append, List.countP_singleton,
      List.countP_singleton]
    cases answers : response action with
    | true =>
      rw [guarded before action holds answers] at ih
      rw [apart action answers]
      simpa using ih
    | false =>
      cases asks : request action with
      | true => simpa using Nat.le_trans (Nat.le_add_right _ _) ih
      | false => simpa using ih

/-- **A flag that is no longer set was unset by a response.** -/
theorem exists_response_of_due {actions : List α} (wasDue : due request response trace = true)
    (done : due request response (trace ++ actions) = false) :
    ∃ action ∈ actions, response action = true := by
  induction actions using List.reverseRecOn with
  | nil =>
    rw [List.append_nil, wasDue] at done
    cases done
  | append_singleton actions action ih =>
    rw [← List.append_assoc, due_snoc, dueStep] at done
    cases answers : response action with
    | true => exact ⟨action, List.mem_append_right _ List.mem_cons_self, answers⟩
    | false =>
      by_cases asks : request action = true
      · rw [if_pos asks] at done
        cases done
      · rw [if_neg asks, answers] at done
        obtain ⟨other, mem, answered⟩ := ih done
        exact ⟨other, List.mem_append_left _ mem, answered⟩

end Quagga.Library
