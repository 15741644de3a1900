import Mathlib.Data.List.Nodup
import Quagga.Lib.WorkQueue
import Quagga.Library.Histories

/-!
# The queues of nodes to be processed

A node whose routes have changed is put into `process_main_queue` or, if its table belongs to a
route server client, into `process_rsclient_queue`. The work functions run later, in the
background. `bgp_process` does not add a node with the flag `BGP_NODE_PROCESS_SCHEDULED`, and both
work functions unset this flag on every way out.

Nothing sets it. So a node that changes twice before it is processed is in its queue twice, and the
nodes wait at most once each exactly if `bgp_process` is never called for a node that waits
(`waits_once_iff`).
-/

set_option autoImplicit false

namespace Quagga.Bgpd

open Lib Library

universe u v

variable {β : Type u} {ν : Type v}

/-! ## Scheduling and running -/

/-- The type of a table: `BGP_TABLE_MAIN` or `BGP_TABLE_RSCLIENT`. -/
inductive TableType where
  | main
  | rsclient
  deriving DecidableEq

/-- `struct bgp_process_queue`. -/
structure BgpProcessQueue (β : Type u) (ν : Type v) where
  bgp : β
  rn : ν
  afi : Nat
  safi : Nat

/-- The nodes with `BGP_NODE_PROCESS_SCHEDULED` in their flags, and the two queues. -/
structure ProcessState (β : Type u) (ν : Type v) where
  scheduled : ν → Bool
  mainQueue : WorkQueue (BgpProcessQueue β ν)
  rsclientQueue : WorkQueue (BgpProcessQueue β ν)

namespace ProcessState

/-- The queues as `bgp_process_queue_init` makes them. The flags of a node are zero at first. -/
def init : ProcessState β ν :=
  { scheduled := fun _ => false, mainQueue := .new, rsclientQueue := .new }

variable (st : ProcessState β ν)

/-- The queue for a type of table. -/
def queue : TableType → WorkQueue (BgpProcessQueue β ν)
  | .main => st.mainQueue
  | .rsclient => st.rsclientQueue

/-- Replace that queue. -/
def setQueue (queue : WorkQueue (BgpProcessQueue β ν)) : TableType → ProcessState β ν
  | .main => { st with mainQueue := queue }
  | .rsclient => { st with rsclientQueue := queue }

/-- The nodes that wait in a queue. -/
def waiting (type : TableType) : List ν :=
  (st.queue type).items.map (·.rn)

/-- `bgp_process`, for a node of a table of the type. -/
def bgpProcess (type : TableType) (pqnode : BgpProcessQueue β ν) : ProcessState β ν :=
  if st.scheduled pqnode.rn then st
  else st.setQueue ((st.queue type).add pqnode) type

variable [DecidableEq ν]

/-- What `bgp_process_main` and `bgp_process_rsclient` do to the flags, on every way out. -/
def unschedule (scheduled : ν → Bool) (pq : BgpProcessQueue β ν) : ν → Bool :=
  Function.update scheduled pq.rn false

/-- `work_queue_run` for one of the queues. -/
def workQueueRun (st : ProcessState β ν) (type : TableType) (more : Nat) : ProcessState β ν :=
  let (queue, scheduled, _) := (st.queue type).run unschedule more st.scheduled
  { st with scheduled := scheduled }.setQueue queue type

end ProcessState

/-- What happens to the queues. -/
inductive ProcessEvent (β : Type u) (ν : Type v) where
  | process (type : TableType) (pqnode : BgpProcessQueue β ν)
  | run (type : TableType) (more : Nat)

variable [DecidableEq ν]

/-- One call of `bgp_process` or of `work_queue_run`. -/
def processStep (st : ProcessState β ν) : ProcessEvent β ν → ProcessState β ν
  | .process type pqnode => st.bgpProcess type pqnode
  | .run type more => st.workQueueRun type more

/-! ## Nodes in the queues -/

/-- Each node waits at most once in each queue. -/
def WaitsOnce (st : ProcessState β ν) : Prop :=
  ∀ type, (st.waiting type).Nodup

/-- `bgp_process` is not called for a node that waits. -/
def CalledForOthers (st : ProcessState β ν) : ProcessEvent β ν → Prop
  | .process type pqnode => pqnode.rn ∉ st.waiting type
  | .run _ _ => True

namespace ProcessState

variable {st : ProcessState β ν}

omit [DecidableEq ν] in
theorem waiting_setQueue (st : ProcessState β ν) (queue : WorkQueue (BgpProcessQueue β ν))
    (type other : TableType) :
    (st.setQueue queue type).waiting other =
      if other = type then queue.items.map (·.rn) else st.waiting other := by
  cases type <;> cases other <;> rfl

omit [DecidableEq ν] in
theorem scheduled_setQueue (st : ProcessState β ν) (queue : WorkQueue (BgpProcessQueue β ν))
    (type : TableType) : (st.setQueue queue type).scheduled = st.scheduled := by
  cases type <;> rfl

omit [DecidableEq ν] in
theorem waiting_bgpProcess {type : TableType} {pqnode : BgpProcessQueue β ν}
    (unset : st.scheduled pqnode.rn = false) (other : TableType) :
    (st.bgpProcess type pqnode).waiting other =
      if other = type then st.waiting type ++ [pqnode.rn] else st.waiting other := by
  rw [bgpProcess, unset, if_neg Bool.false_ne_true, waiting_setQueue, WorkQueue.add, List.map_append]
  rfl

theorem scheduled_processStep (unset : ∀ rn, st.scheduled rn = false) (event : ProcessEvent β ν)
    (rn : ν) : (processStep st event).scheduled rn = false := by
  cases event with
  | process type pqnode =>
    rw [processStep, bgpProcess, unset, if_neg Bool.false_ne_true, scheduled_setQueue]
    exact unset rn
  | run type more =>
    rw [processStep, workQueueRun, scheduled_setQueue, WorkQueue.run]
    generalize (st.queue type).items.take (more + 1) = done
    generalize st.scheduled = scheduled at unset
    induction done generalizing scheduled with
    | nil => exact unset rn
    | cons pq rest ih =>
      refine ih (unschedule scheduled pq) fun rn' => ?_
      rw [unschedule, Function.update_apply]
      split_ifs
      · rfl
      · exact unset rn'

end ProcessState

/-- No node has the flag, and each waits at most once. -/
structure PlainQueues (st : ProcessState β ν) : Prop where
  unset : ∀ rn, st.scheduled rn = false
  once : WaitsOnce st

section

variable {st : ProcessState β ν} (plain : PlainQueues st) {event : ProcessEvent β ν}
include plain

theorem PlainQueues.step (others : CalledForOthers st event) :
    PlainQueues (processStep st event) where
  unset := ProcessState.scheduled_processStep plain.unset event
  once type := by
    cases event with
    | process type' pqnode =>
      rw [processStep, ProcessState.waiting_bgpProcess (plain.unset _)]
      split_ifs
      · rw [← List.concat_eq_append]
        exact List.Nodup.concat others (plain.once type')
      · exact plain.once type
    | run type' more =>
      rw [processStep, ProcessState.workQueueRun, ProcessState.waiting_setQueue]
      split_ifs
      · exact (plain.once type').sublist ((List.drop_sublist _ _).map _)
      · exact plain.once type

/-- A call for a node that waits makes it wait twice. -/
theorem PlainQueues.calledForOthers (once : WaitsOnce (processStep st event)) :
    CalledForOthers st event := by
  cases event with
  | process type pqnode =>
    intro waits
    have nodup := once type
    rw [processStep, ProcessState.waiting_bgpProcess (plain.unset _), if_pos rfl] at nodup
    exact (List.nodup_append.mp nodup).2.2 _ waits _ (List.mem_singleton_self _) rfl
  | run => trivial

end

/-- **In every run each node waits at most once in each queue exactly if `bgp_process` is never
called for a node that waits.** -/
theorem waits_once_iff (history : List (ProcessEvent β ν)) :
    Throughout processStep .init WaitsOnce history ↔
      EachMeets processStep .init CalledForOthers history :=
  throughout_iff_eachMeets PlainQueues
    ⟨fun _ => rfl, fun type => by cases type <;> exact List.nodup_nil⟩
    (fun _ _ plain others => plain.step others) (fun _ plain => plain.once)
    (fun _ _ plain once => plain.calledForOthers once) history

/-- Two changes of a node before it is processed put it into the queue twice. -/
theorem changed_twice_waits_twice :
    ¬ Throughout processStep (.init : ProcessState Unit Nat) WaitsOnce
      [.process .main ⟨(), 0, 1, 1⟩, .process .main ⟨(), 0, 1, 1⟩] := by
  intro throughout
  exact absurd (throughout.here .main) (by decide)

end Quagga.Bgpd
