import Mathlib.Data.List.Basic

/-!
# Work queues

A `struct work_queue` has a list of items and a background thread that runs them. The thread is
scheduled exactly while there are items: `work_queue_add` schedules it, and `work_queue_run` either
schedules it again, because it had to yield, or has run all items and calls the completion function.

The work functions in `bgpd` return `WQ_SUCCESS`, and so an item is removed after its run.
-/

set_option autoImplicit false

namespace Quagga.Lib

universe u v

variable {α : Type u} {σ : Type v}

/-- `struct work_queue`: the items, and whether the thread is scheduled. -/
structure WorkQueue (α : Type u) where
  items : List α
  thread : Bool
  thread_iff : thread = true ↔ items ≠ []

namespace WorkQueue

/-- `work_queue_new`. -/
def new : WorkQueue α :=
  { items := [], thread := false, thread_iff := by simp }

/-- `work_queue_add`, with `work_queue_schedule`. -/
def add (queue : WorkQueue α) (item : α) : WorkQueue α :=
  { items := queue.items ++ [item], thread := true, thread_iff := by simp }

/-- `work_queue_add` for one item after the other. -/
def addAll (queue : WorkQueue α) (items : List α) : WorkQueue α :=
  items.foldl add queue

@[simp]
theorem addAll_items (queue : WorkQueue α) (items : List α) :
    (queue.addAll items).items = queue.items ++ items := by
  induction items generalizing queue with
  | nil => exact (List.append_nil _).symm
  | cons item rest ih =>
    have added := ih (queue.add item)
    rw [add, List.append_assoc] at added
    exact added

/-- `work_queue_run`: the first item is run, and as many more as there is time for. Tells whether
all items are done, and the completion function is called. -/
def run (work : σ → α → σ) (more : Nat) (queue : WorkQueue α) (s : σ) : WorkQueue α × σ × Bool :=
  let items := queue.items.drop (more + 1)
  ({ items := items, thread := !items.isEmpty, thread_iff := by simp },
    (queue.items.take (more + 1)).foldl work s, items.isEmpty)

end WorkQueue

end Quagga.Lib
