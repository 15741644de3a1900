import Quagga.Lib.WorkQueue
import Quagga.Bgpd.IdleStopped
import Quagga.Bgpd.Rib

/-!
# Clearing the routes of a peer

When a session goes down, `bgp_fsm_change_status` calls `bgp_clear_route_all`, which goes through
the address families and puts the nodes that hold a route of the peer on the work queue
`clear_node_queue`. The peer stays in `Clearing` until the event `Clearing_Completed`, which the
work queue posts when all nodes are done.

If nothing was queued for a family, `bgp_clear_route` posts the event itself. But it does so for
each family on its own: where the queue is still empty after the first family, the event is posted
although a later family may queue routes. `clearing_complete_iff` says when all routes are cleared
before the peer goes to `Idle`, whatever order the scheduler chooses:

* no family has a route that is not stale, or
* the queue is not empty already, or the first family, IPv4 unicast, has a route; and the event is
  not waiting from before.
-/

set_option autoImplicit false

namespace Quagga.Bgpd

open Lib Library

/-! ## Address families and nodes -/

/-- `AFI_IP` and `AFI_IP6`. -/
inductive Afi where
  | ip
  | ip6
  deriving DecidableEq

/-- `SAFI_UNICAST` and the others below `SAFI_MAX`. -/
inductive Safi where
  | unicast
  | multicast
  | unicastMulticast
  | mplsVpn
  deriving DecidableEq

/-- The address families in the order of the loops over them. -/
def families : List (Afi × Safi) :=
  [(.ip, .unicast), (.ip, .multicast), (.ip, .unicastMulticast), (.ip, .mplsVpn),
    (.ip6, .unicast), (.ip6, .multicast), (.ip6, .unicastMulticast), (.ip6, .mplsVpn)]

/-- The node has a route of the peer. -/
def hasRoute (peer : Peer) (rn : List BgpInfo) : Bool :=
  rn.any fun ri => ri.peer = peer

/-- The node holds a route of the peer that is not stale. -/
def hasFreshRoute (peer : Peer) (rn : List BgpInfo) : Bool :=
  rn.any fun ri => ri.peer = peer && !ri.flags.stale

/-- What `bgp_clear_route_node` does to the route of the peer. -/
def clearRoute (nsf : Bool) (ri : BgpInfo) : BgpInfo :=
  if nsf && !ri.flags.stale && !(ri.flags.history || ri.flags.damped || ri.flags.removed) then
    { ri with flags := { ri.flags with stale := true } }
  else bgpRibRemove ri

/-- `bgp_clear_route_node` for the routes that are learned from the peer. -/
def bgpClearRouteNode (peer : Peer) (nsf : Bool) (rn : List BgpInfo) : List BgpInfo :=
  modifyFirst (fun ri => ri.peer = peer) (clearRoute nsf) rn

/-! ## The peer and its work queue -/

/-- A peer with the events that wait for it, its `NSF_WAIT` flag and `nsf` fields, the nodes of the
tables that its routes may be in, and its `clear_node_queue`. -/
structure ClearPeer (Node : Type) where
  conn : FsmPeer
  events : List FsmEvent
  nsfWait : Bool
  nsf : Afi × Safi → Bool
  rib : Afi × Safi → Node → List BgpInfo
  queue : WorkQueue ((Afi × Safi) × Node)

/-- The function calls `bgp_stop`. -/
def FsmFunc.stops : FsmFunc → Bool
  | .bgpStop | .bgpStopWithError | .bgpConnectFail | .bgpReconnect | .bgpFsmHoldtimeExpire
  | .bgpClearingCompleted => true
  | _ => false

/-- The events that the function posts and that are not flushed by it. -/
def FsmFunc.posts (func : FsmFunc) (input : ConnectInput) : List FsmEvent :=
  match func with
  | .bgpStart | .bgpReconnect =>
    if input.suppressed then []
    else if input.passive then [.tcpConnectionOpenFailed]
    else
      match input.socket, input.connect with
      | none, _ => []
      | some _, .error => [.tcpConnectionOpenFailed]
      | some _, .success => [.tcpConnectionOpen]
      | some _, .inProgress => []
  | _ => []

/-- What the function leaves of the events that wait: `bgp_stop` flushes them unless the peer is in
`Clearing`, and `bgp_clearing_completed` always. -/
def FsmFunc.leaves (func : FsmFunc) (status : PeerStatus) (events : List FsmEvent) :
    List FsmEvent :=
  if func = .bgpClearingCompleted ∨ func.stops = true ∧ status ≠ .clearing then [] else events

variable (family : Afi × Safi)

section

variable {Node : Type} (peer : Peer) (nodes : Afi × Safi → List Node) (s : ClearPeer Node)

/-- The nodes of a family that `bgp_clear_route_table` queues, where `nodes` lists the nodes of the
tables of each family in the order in which `bgp_clear_route` goes through them. -/
def toClear (family : Afi × Safi) : List ((Afi × Safi) × Node) :=
  ((nodes family).filter fun node => hasRoute peer (s.rib family node)).map (family, ·)

/-- `bgp_clear_route` with `BGP_CLEAR_ROUTE_NORMAL`. -/
def bgpClearRoute (family : Afi × Safi) : ClearPeer Node :=
  let s := { s with queue := s.queue.addAll (toClear peer nodes s family) }
  if s.queue.thread then s else { s with events := s.events ++ [.clearingCompleted] }

/-- `bgp_clear_route_all`. -/
def bgpClearRouteAll : ClearPeer Node :=
  families.foldl (bgpClearRoute peer nodes) s

/-- `peer_nsf_stop`. -/
def peerNsfStop : ClearPeer Node :=
  bgpClearRouteAll peer nodes
    { s with
      nsfWait := false
      nsf := fun family => s.nsf family && family.2 ≠ .unicast && family.2 ≠ .multicast }

/-- Take the next event from the list. -/
def handleEvent (input : ConnectInput) : ClearPeer Node :=
  match s.events with
  | [] => s
  | event :: events =>
    let func := (fsm s.conn.status event).1
    let s' :=
      { s with
        conn := s.conn.event event input
        events := func.leaves s.conn.status events ++ func.posts input }
    if s.conn.status ≠ .clearing ∧ s'.conn.status = .clearing then bgpClearRouteAll peer nodes s'
    else s'

/-! ## Clearing all families -/

variable {peer : Peer} {nodes : Afi × Safi → List Node} {s : ClearPeer Node}

/-- What clearing families leaves alone, what it queues, and when it posts the event. -/
structure Cleared (peer : Peer) (nodes : Afi × Safi → List Node) (families : List (Afi × Safi))
    (s after : ClearPeer Node) : Prop where
  conn_eq : after.conn = s.conn
  rib_eq : after.rib = s.rib
  items_eq : after.queue.items = s.queue.items ++ families.flatMap (toClear peer nodes s)
  keeps : ∀ event ∈ s.events, event ∈ after.events
  quiet : s.queue.items ≠ [] → after.events = s.events

theorem bgpClearRoute_eq : bgpClearRoute peer nodes s family = { s with
        queue := s.queue.addAll (toClear peer nodes s family)
        events := s.events ++
          if (s.queue.addAll (toClear peer nodes s family)).thread then []
          else [.clearingCompleted] } := by
  unfold bgpClearRoute
  dsimp only
  split_ifs
  · rw [List.append_nil]
  · rfl

theorem bgpClearRoute_busy (busy : s.queue.items ≠ [] ∨ toClear peer nodes s family ≠ []) :
    (bgpClearRoute peer nodes s family).events = s.events := by
  rw [bgpClearRoute_eq, if_pos, List.append_nil]
  rw [WorkQueue.thread_iff, WorkQueue.addAll_items]
  intro none
  obtain ⟨first, second⟩ := List.append_eq_nil_iff.mp none
  exact busy.elim (· first) (· second)

theorem bgpClearRoute_cleared :
    Cleared peer nodes [family] s (bgpClearRoute peer nodes s family) := by
  refine ⟨by rw [bgpClearRoute_eq], by rw [bgpClearRoute_eq], ?_, ?_,
    fun busy => bgpClearRoute_busy family (.inl busy)⟩
  · rw [bgpClearRoute_eq, List.flatMap_singleton]
    exact WorkQueue.addAll_items ..
  · intro event mem
    rw [bgpClearRoute_eq]
    exact List.mem_append_left _ mem

theorem Cleared.trans {first second : List (Afi × Safi)} {middle after : ClearPeer Node}
    (one : Cleared peer nodes first s middle) (two : Cleared peer nodes second middle after) :
    Cleared peer nodes (first ++ second) s after := by
  have same : toClear peer nodes middle = toClear peer nodes s := by
    unfold toClear
    rw [one.rib_eq]
  refine ⟨two.conn_eq.trans one.conn_eq, two.rib_eq.trans one.rib_eq, ?_,
    fun event mem => two.keeps event (one.keeps event mem), fun busy => ?_⟩
  · rw [two.items_eq, one.items_eq, same, List.append_assoc, List.flatMap_append]
  · rw [two.quiet, one.quiet busy]
    rw [one.items_eq]
    exact fun none => busy (List.append_eq_nil_iff.mp none).1

theorem foldl_cleared (families : List (Afi × Safi)) :
    Cleared peer nodes families s (families.foldl (bgpClearRoute peer nodes) s) := by
  induction families generalizing s with
  | nil => exact ⟨rfl, rfl, by simp, fun _ mem => mem, fun _ => rfl⟩
  | cons family rest ih => exact (bgpClearRoute_cleared family).trans ih

theorem bgpClearRouteAll_cleared :
    Cleared peer nodes families s (bgpClearRouteAll peer nodes s) :=
  foldl_cleared families

/-- Nothing in the queue and in the first family: the event is posted. -/
theorem bgpClearRouteAll_early (idle : s.queue.items = [])
    (nothing : toClear peer nodes s (.ip, .unicast) = []) :
    .clearingCompleted ∈ (bgpClearRouteAll peer nodes s).events := by
  have rest : Cleared peer nodes families.tail (bgpClearRoute peer nodes s (.ip, .unicast))
      (bgpClearRouteAll peer nodes s) := foldl_cleared families.tail
  apply rest.keeps
  rw [bgpClearRoute_eq, if_neg]
  · exact List.mem_append_right _ (List.mem_singleton_self _)
  · rw [WorkQueue.thread_iff, WorkQueue.addAll_items, idle, nothing]
    simp

/-- Something in the queue or in the first family: no event is posted. -/
theorem bgpClearRouteAll_quiet
    (busy : s.queue.items ≠ [] ∨ toClear peer nodes s (.ip, .unicast) ≠ []) :
    (bgpClearRouteAll peer nodes s).events = s.events := by
  have first : Cleared peer nodes [(.ip, .unicast)] s (bgpClearRoute peer nodes s (.ip, .unicast)) :=
    bgpClearRoute_cleared (.ip, .unicast)
  have rest : Cleared peer nodes families.tail (bgpClearRoute peer nodes s (.ip, .unicast))
      (bgpClearRouteAll peer nodes s) := foldl_cleared families.tail
  refine (rest.quiet ?_).trans (bgpClearRoute_busy _ busy)
  rw [first.items_eq]
  intro none
  obtain ⟨one, two⟩ := List.append_eq_nil_iff.mp none
  rw [List.flatMap_singleton] at two
  exact busy.elim (· one) (· two)

theorem mem_toClear {family : Afi × Safi} {item : (Afi × Safi) × Node} :
    item ∈ toClear peer nodes s family ↔
      item.1 = family ∧ item.2 ∈ nodes item.1 ∧ hasRoute peer (s.rib item.1 item.2) = true := by
  obtain ⟨itemFamily, node⟩ := item
  simp only [toClear, List.mem_map, List.mem_filter, Prod.mk.injEq]
  constructor
  · rintro ⟨other, ⟨inNodes, found⟩, rfl, rfl⟩
    exact ⟨rfl, inNodes, found⟩
  · rintro ⟨rfl, inNodes, found⟩
    exact ⟨node, ⟨inNodes, found⟩, rfl, rfl⟩

theorem toClear_eq_nil_iff {family : Afi × Safi} :
    toClear peer nodes s family = [] ↔
      ¬ ∃ node ∈ nodes family, hasRoute peer (s.rib family node) = true := by
  rw [List.eq_nil_iff_forall_not_mem]
  constructor
  · rintro none ⟨node, inNodes, found⟩
    exact none (family, node) (mem_toClear.mpr ⟨rfl, inNodes, found⟩)
  · rintro none item queued
    obtain ⟨rfl, inNodes, found⟩ := mem_toClear.mp queued
    exact none ⟨item.2, inNodes, found⟩

theorem mem_families : family ∈ families := by
  obtain ⟨afi, safi⟩ := family
  cases afi <;> cases safi <;> simp [families]

/-- Queued nodes are nodes of their tables. -/
def ItemsOfTables (nodes : Afi × Safi → List Node) (s : ClearPeer Node) : Prop :=
  ∀ item ∈ s.queue.items, item.2 ∈ nodes item.1

theorem Cleared.itemsOfTables {cleared : List (Afi × Safi)} {after : ClearPeer Node}
    (done : Cleared peer nodes cleared s after) (inside : ItemsOfTables nodes s) :
    ItemsOfTables nodes after := by
  intro item mem
  rw [done.items_eq] at mem
  rcases List.mem_append.mp mem with old | new
  · exact inside item old
  · obtain ⟨family, -, queued⟩ := List.mem_flatMap.mp new
    exact (mem_toClear.mp queued).2.1

/-- In `Clearing` an event is taken from the queue, or `Clearing_Completed` flushes it. -/
theorem handleEvent_clearing (peer : Peer) (nodes : Afi × Safi → List Node) {event : FsmEvent}
    {events : List FsmEvent} (input : ConnectInput) (clearing : s.conn.status = .clearing)
    (waiting : s.events = event :: events) :
    ∃ conn, handleEvent peer nodes s input =
        { s with conn := conn, events := if event = .clearingCompleted then [] else events } ∧
      (event ≠ .clearingCompleted → conn.status = .clearing) := by
  refine ⟨s.conn.event event input, ?_, ?_⟩
  · unfold handleEvent
    rw [waiting]
    rw [clearing]
    cases event <;> simp [fsm, FsmFunc.leaves, FsmFunc.posts]
  · intro other
    unfold FsmPeer.event
    rw [clearing]
    cases event with
    | clearingCompleted => exact absurd rfl other
    | _ => rfl

end

/-! ## Steps -/

section

variable {Node : Type} [DecidableEq Node] (peer : Peer) (nodes : Afi × Safi → List Node)
  (s : ClearPeer Node)

/-- Change the routes of a node. -/
def ClearPeer.setNode (item : (Afi × Safi) × Node) (rn : List BgpInfo) : ClearPeer Node :=
  { s with rib := Function.update s.rib item.1 (Function.update (s.rib item.1) item.2 rn) }

/-- The work function of the queue. -/
def clearNode (item : (Afi × Safi) × Node) : ClearPeer Node :=
  s.setNode item (bgpClearRouteNode peer (s.nsfWait && s.nsf item.1) (s.rib item.1 item.2))

/-- `work_queue_run` for the queue, with `bgp_clear_node_complete`. -/
def runQueue (more : Nat) : ClearPeer Node :=
  if s.queue.thread then
    let (queue, s', completed) := s.queue.run (clearNode peer) more s
    { s' with
      queue := queue
      events := if completed then s'.events ++ [.clearingCompleted] else s'.events }
  else s

/-- What happens to the peer. Only `bgp_clear_node_complete` posts `Clearing_Completed`. The rest of
the daemon changes the routes of nodes, and the settings for graceful restart. -/
inductive ClearStep (Node : Type) where
  | post (event : FsmEvent) (other : event ≠ .clearingCompleted)
  | handle (input : ConnectInput)
  | runQueue (more : Nat)
  | clearFamily (family : Afi × Safi)
  | nsfStop
  | restart (nsfWait : Bool) (nsf : Afi × Safi → Bool)
  | routes (item : (Afi × Safi) × Node) (rn : List BgpInfo)

/-- One step. A single family is cleared only while the session is up: when the neighbour takes back
its capability, or when it is deactivated. Routes are learned only while the session is up, too. -/
def clearStep : ClearStep Node → ClearPeer Node
  | .post event _ => { s with events := s.events ++ [event] }
  | .handle input => handleEvent peer nodes s input
  | .runQueue more => runQueue peer s more
  | .clearFamily family =>
    if s.conn.status = .established then bgpClearRoute peer nodes s family else s
  | .nsfStop => if s.nsfWait then peerNsfStop peer nodes s else s
  | .restart nsfWait nsf => { s with nsfWait := nsfWait, nsf := nsf }
  | .routes item rn =>
    if s.conn.status = .established ∨
        (hasFreshRoute peer rn → hasFreshRoute peer (s.rib item.1 item.2)) then
      s.setNode item rn
    else s

/-- A peer that has just been configured. -/
def ClearPeer.fresh (rib : Afi × Safi → Node → List BgpInfo) : ClearPeer Node :=
  { conn := .fresh, events := [], nsfWait := false, nsf := fun _ => false, rib := rib
    queue := .new }

/-! ## The property and the condition -/

/-- No route of the peer that is not stale waits in the queue. -/
def NothingWaiting : Prop :=
  ∀ item ∈ s.queue.items, hasFreshRoute peer (s.rib item.1 item.2) = false

/-- No family has a route of the peer that is not stale. -/
def NothingFresh : Prop :=
  ∀ family, ∀ node ∈ nodes family, hasFreshRoute peer (s.rib family node) = false

/-- The step calls `bgp_clear_route_all`, and the peer is in `Clearing` then. -/
def ClearsAll : ClearStep Node → Prop
  | .handle _ => s.conn.status = .established ∧
      ∃ event events, s.events = event :: events ∧ (fsm .established event).2 = .clearing
  | .nsfStop => s.conn.status = .clearing ∧ s.nsfWait = true
  | _ => False

/-- Steps in `Clearing` none of which calls `bgp_clear_route_all` again. -/
def WhileClearing (later : List (ClearStep Node)) : Prop :=
  Throughout (clearStep peer nodes) s (fun s => s.conn.status = .clearing) later ∧
    EachMeets (clearStep peer nodes) s (fun s next => ¬ ClearsAll s next) later

/-- Whenever `Clearing_Completed` takes the peer from `Clearing` to `Idle`, nothing waits. -/
def CompleteBeforeIdle : Prop :=
  ∀ later, WhileClearing peer nodes s later →
    (afterAll (clearStep peer nodes) s later).events.head? = some .clearingCompleted →
      NothingWaiting peer (afterAll (clearStep peer nodes) s later)

/-- `Clearing_Completed` waits before the step that clears all families and is not flushed by
it. -/
def Signalled : ClearStep Node → Prop
  | .nsfStop => .clearingCompleted ∈ s.events
  | _ => False

/-- There is nothing to clear in any family, or the queue has something to do from before or from
the first family, and has not signalled its completion. -/
def SignalInTime (next : ClearStep Node) : Prop :=
  NothingFresh peer nodes s ∨
    ¬ Signalled s next ∧
      (s.queue.items ≠ [] ∨
        ∃ node ∈ nodes (.ip, .unicast), hasRoute peer (s.rib (.ip, .unicast) node) = true)

/-! ## Steps in `Clearing` -/

variable {peer : Peer} {nodes : Afi × Safi → List Node} {s : ClearPeer Node}

theorem hasFreshRoute_cleared (nsf : Bool) (rn : List BgpInfo)
    (stale : hasFreshRoute peer rn = false) :
    hasFreshRoute peer (bgpClearRouteNode peer nsf rn) = false := by
  refine any_modifyFirst (fun ri fresh => ?_) stale
  unfold clearRoute bgpRibRemove bgpInfoDelete at fresh
  split_ifs at fresh <;> first | exact fresh | simp at fresh

theorem NothingFresh.setNode {item : (Afi × Safi) × Node} {rn : List BgpInfo}
    (nothing : NothingFresh peer nodes s)
    (stale : hasFreshRoute peer (s.rib item.1 item.2) = false → hasFreshRoute peer rn = false) :
    NothingFresh peer nodes (s.setNode item rn) := by
  intro family node inNodes
  obtain ⟨itemFamily, itemNode⟩ := item
  dsimp only [ClearPeer.setNode]
  by_cases sameFamily : family = itemFamily
  · subst sameFamily
    rw [Function.update_self]
    by_cases sameNode : node = itemNode
    · subst sameNode
      rw [Function.update_self]
      exact stale (nothing family node inNodes)
    · rw [Function.update_of_ne sameNode]
      exact nothing family node inNodes
  · rw [Function.update_of_ne sameFamily]
    exact nothing family node inNodes

theorem foldl_clearNode (peer : Peer) (nodes : Afi × Safi → List Node) (s : ClearPeer Node)
    (items : List ((Afi × Safi) × Node)) :
    ∃ rib, items.foldl (clearNode peer) s = { s with rib := rib } ∧
      (NothingFresh peer nodes s → NothingFresh peer nodes { s with rib := rib }) := by
  induction items generalizing s with
  | nil => exact ⟨s.rib, rfl, id⟩
  | cons item rest ih =>
    obtain ⟨rib, ran, keeps⟩ := ih (clearNode peer s item)
    refine ⟨rib, ran, fun nothing => keeps (nothing.setNode ?_)⟩
    exact hasFreshRoute_cleared _ _

/-- The signal waits only if the queue is empty, or there is nothing to wait for. -/
def SignalSound (peer : Peer) (nodes : Afi × Safi → List Node) (s : ClearPeer Node) : Prop :=
  NothingFresh peer nodes s ∨ (.clearingCompleted ∈ s.events → s.queue.items = [])

theorem SignalSound.step {next : ClearStep Node} (sound : SignalSound peer nodes s)
    (clearing : s.conn.status = .clearing) (once : ¬ ClearsAll s next) :
    SignalSound peer nodes (clearStep peer nodes s next) := by
  cases next with
  | post event other =>
    refine sound.imp id fun idle mem => idle ?_
    exact (List.mem_append.mp mem).resolve_right fun new =>
      other (List.mem_singleton.mp new).symm
  | handle input =>
    cases waiting : s.events with
    | nil =>
      have same : clearStep peer nodes s (.handle input) = s := by
        simp only [clearStep, handleEvent, waiting]
      rw [same]
      exact sound
    | cons event events =>
      rw [clearStep]
      obtain ⟨conn, handled, -⟩ := handleEvent_clearing peer nodes input clearing waiting
      rw [handled]
      refine sound.imp id fun idle mem => idle ?_
      split_ifs at mem
      · cases mem
      · rw [waiting]
        exact List.mem_cons_of_mem _ mem
  | runQueue more =>
    rw [clearStep, runQueue]
    by_cases thread : s.queue.thread = true
    · obtain ⟨rib, ran, keeps⟩ :=
        foldl_clearNode peer nodes s (s.queue.items.take (more + 1))
      rw [if_pos thread]
      simp only [WorkQueue.run, ran]
      refine sound.imp keeps fun idle mem => ?_
      by_cases completed : (s.queue.items.drop (more + 1)).isEmpty
      · exact List.isEmpty_iff.mp completed
      · rw [if_neg completed] at mem
        exact absurd (idle mem) (s.queue.thread_iff.mp thread)
    · rw [if_neg thread]
      exact sound
  | clearFamily family =>
    have same : clearStep peer nodes s (.clearFamily family) = s := by
      simp [clearStep, clearing]
    rw [same]
    exact sound
  | nsfStop =>
    have same : clearStep peer nodes s .nsfStop = s := by
      rw [clearStep, if_neg]
      exact fun waits => once ⟨clearing, waits⟩
    rw [same]
    exact sound
  | restart nsfWait nsf => exact sound
  | routes item rn =>
    rw [clearStep]
    split_ifs with allowed
    · have fewer := allowed.resolve_left (by rw [clearing]; decide)
      refine sound.imp (fun nothing => nothing.setNode fun stale => ?_) id
      by_contra fresh
      simp [fewer (by simpa using fresh)] at stale
    · exact sound

/-! ## Steps in any status -/

theorem ItemsOfTables.step (inside : ItemsOfTables nodes s) (next : ClearStep Node) :
    ItemsOfTables nodes (clearStep peer nodes s next) := by
  cases next with
  | post event other => exact inside
  | handle input =>
    rw [clearStep, handleEvent]
    cases s.events with
    | nil => exact inside
    | cons event events =>
      dsimp only
      split_ifs
      · exact bgpClearRouteAll_cleared.itemsOfTables inside
      · exact inside
  | runQueue more =>
    rw [clearStep, runQueue]
    split_ifs
    · intro item mem
      exact inside item (List.mem_of_mem_drop mem)
    · exact inside
  | clearFamily family =>
    rw [clearStep]
    split_ifs
    · exact (bgpClearRoute_cleared family).itemsOfTables inside
    · exact inside
  | nsfStop =>
    rw [clearStep]
    split_ifs
    · exact bgpClearRouteAll_cleared.itemsOfTables inside
    · exact inside
  | restart nsfWait nsf => exact inside
  | routes item rn =>
    rw [clearStep]
    split_ifs <;> exact inside

/-- A step that clears all families does so with the old routes and the old queue. -/
theorem ClearsAll.step_eq (peer : Peer) (nodes : Afi × Safi → List Node) {next : ClearStep Node}
    (clears : ClearsAll s next) :
    ∃ before, clearStep peer nodes s next = bgpClearRouteAll peer nodes before ∧
      before.rib = s.rib ∧ before.queue = s.queue ∧ before.conn.status = .clearing ∧
      (.clearingCompleted ∈ before.events ↔ Signalled s next) := by
  cases next with
  | handle input =>
    obtain ⟨up, event, events, waiting, down⟩ := clears
    have stopped : (s.conn.event event input).status = .clearing := by
      unfold FsmPeer.event
      rw [up]
      revert down
      cases event <;> first | (intro down; cases down; done) | (intro _; rfl)
    refine ⟨{ s with
      conn := s.conn.event event input
      events := (fsm s.conn.status event).1.leaves s.conn.status events ++
        (fsm s.conn.status event).1.posts input }, ?_, rfl, rfl, stopped, ?_⟩
    · rw [clearStep, handleEvent, waiting]
      exact if_pos ⟨by rw [up]; decide, stopped⟩
    · rw [up]
      revert down
      cases event <;>
        simp [fsm, FsmFunc.leaves, FsmFunc.stops, FsmFunc.posts, Signalled]
  | nsfStop =>
    obtain ⟨clearing, waits⟩ := clears
    refine ⟨{ s with
      nsfWait := false
      nsf := fun family => s.nsf family && family.2 ≠ .unicast && family.2 ≠ .multicast },
      ?_, rfl, rfl, clearing, Iff.rfl⟩
    rw [clearStep, if_pos waits]
    rfl
  | _ => exact clears.elim

/-- Handling the events one after the other gets to `Clearing_Completed`. -/
theorem reach_signal {events : List FsmEvent} (clearing : s.conn.status = .clearing)
    (waiting : s.events = events) (signal : .clearingCompleted ∈ events) :
    ∃ later, WhileClearing peer nodes s later ∧
      (afterAll (clearStep peer nodes) s later).events.head? = some .clearingCompleted ∧
      (afterAll (clearStep peer nodes) s later).rib = s.rib ∧
      (afterAll (clearStep peer nodes) s later).queue = s.queue := by
  induction events generalizing s with
  | nil => cases signal
  | cons event events ih =>
    by_cases first : event = .clearingCompleted
    · subst first
      exact ⟨[], ⟨throughout_nil.mpr clearing, eachMeets_nil⟩, by rw [afterAll_nil, waiting]; rfl,
        rfl, rfl⟩
    · obtain ⟨conn, handled, still⟩ :=
        handleEvent_clearing peer nodes connecting clearing waiting
      rw [if_neg first] at handled
      have rest : .clearingCompleted ∈ events :=
        (List.mem_cons.mp signal).resolve_left (Ne.symm first)
      obtain ⟨later, ⟨throughout, once⟩, head, rib, queue⟩ :=
        ih (s := { s with conn := conn, events := events }) (still first) rfl rest
      have stepped : clearStep peer nodes s (.handle connecting) =
          { s with conn := conn, events := events } := handled
      rw [← stepped] at throughout once head rib queue
      refine ⟨.handle connecting :: later,
        ⟨throughout_cons.mpr ⟨clearing, throughout⟩, eachMeets_cons.mpr ⟨?_, once⟩⟩, head,
        rib.trans (by rw [stepped]), queue.trans (by rw [stepped])⟩
      rintro ⟨up, -⟩
      rw [clearing] at up
      cases up

/-! ## Clearing is complete before `Idle` -/

theorem hasRoute_of_fresh {rn : List BgpInfo} (fresh : hasFreshRoute peer rn = true) :
    hasRoute peer rn = true := by
  obtain ⟨ri, mem, found⟩ := List.any_eq_true.mp fresh
  exact List.any_eq_true.mpr ⟨ri, mem, (Bool.and_eq_true_iff.mp found).1⟩

/-- **All routes of a peer are cleared before it goes from `Clearing` to `Idle`, in whichever order
events and queue are run, exactly if the signal for it comes in time.** -/
theorem clearing_complete_iff (peer : Peer) (nodes : Afi × Safi → List Node)
    (rib : Afi × Safi → Node → List BgpInfo) (history : List (ClearStep Node))
    (next : ClearStep Node)
    (clears : ClearsAll (afterAll (clearStep peer nodes) (.fresh rib) history) next) :
    CompleteBeforeIdle peer nodes
        (afterAll (clearStep peer nodes) (.fresh rib) (history ++ [next])) ↔
      SignalInTime peer nodes (afterAll (clearStep peer nodes) (.fresh rib) history) next := by
  have inside : ItemsOfTables nodes (afterAll (clearStep peer nodes) (.fresh rib) history) :=
    invariant_afterAll (ItemsOfTables nodes) (fun _ none => by cases none)
      (fun s event inside => inside.step event) history
  rw [afterAll_concat]
  generalize afterAll (clearStep peer nodes) (.fresh rib) history = s at clears inside ⊢
  obtain ⟨before, stepped, rib_eq, queue_eq, clearing, signalled⟩ := clears.step_eq peer nodes
  have done : Cleared peer nodes families before (bgpClearRouteAll peer nodes before) :=
    bgpClearRouteAll_cleared
  have first : (∃ node ∈ nodes (.ip, .unicast), hasRoute peer (s.rib (.ip, .unicast) node) = true) ↔
      toClear peer nodes before (.ip, .unicast) ≠ [] := by
    rw [ne_eq, toClear_eq_nil_iff, not_not, rib_eq]
  rw [stepped, SignalInTime, ← signalled, first, ← queue_eq]
  have after : (bgpClearRouteAll peer nodes before).conn.status = .clearing := by
    rw [done.conn_eq, clearing]
  constructor
  · -- With a fresh route somewhere, a signal that is there too early is handled first.
    intro complete
    by_contra early
    rw [not_or, not_and_or, not_not, not_or, not_not, not_not] at early
    obtain ⟨fresh, signal⟩ := early
    have posted : .clearingCompleted ∈ (bgpClearRouteAll peer nodes before).events := by
      rcases signal with old | ⟨idle, nothing⟩
      · exact done.keeps _ old
      · exact bgpClearRouteAll_early idle nothing
    obtain ⟨later, clearingLater, head, ribLater, queueLater⟩ := reach_signal after rfl posted
    have nothing := complete later clearingLater head
    apply fresh
    intro family node inNodes
    by_contra found
    rw [Bool.not_eq_false] at found
    have queued : (family, node) ∈ (bgpClearRouteAll peer nodes before).queue.items := by
      rw [done.items_eq]
      refine List.mem_append_right _ (List.mem_flatMap.mpr ⟨family, mem_families family, ?_⟩)
      rw [mem_toClear, rib_eq]
      exact ⟨rfl, inNodes, hasRoute_of_fresh found⟩
    rw [← queueLater] at queued
    have stale := nothing _ queued
    rw [ribLater, done.rib_eq, rib_eq, found] at stale
    cases stale
  · rintro inTime later ⟨throughout, once⟩ head
    have sound : SignalSound peer nodes (bgpClearRouteAll peer nodes before) := by
      rcases inTime with nothing | ⟨unsignalled, busy⟩
      · left
        intro family node inNodes
        rw [done.rib_eq, rib_eq]
        exact nothing family node inNodes
      · right
        rw [bgpClearRouteAll_quiet busy]
        exact fun signal => absurd signal unsignalled
    have tables : ItemsOfTables nodes (bgpClearRouteAll peer nodes before) := by
      apply done.itemsOfTables
      unfold ItemsOfTables
      rw [queue_eq]
      exact inside
    have kept := (throughout.eachMeets.and once).invariant
      (fun s => SignalSound peer nodes s ∧ ItemsOfTables nodes s) ⟨sound, tables⟩
      (fun s next holds met => ⟨holds.1.step met.1 met.2, holds.2.step next⟩)
    intro item mem
    rcases kept.1 with nothing | idle
    · exact nothing item.1 item.2 (kept.2 item mem)
    · rw [idle (List.mem_of_mem_head? head)] at mem
      cases mem

end

/-- The session comes up, the neighbour sends a route in one family, and the hold timer expires. -/
def sessionWithRoute : List (ClearStep Unit) :=
  [.post .bgpStart (by decide), .handle connecting, .post .tcpConnectionOpen (by decide),
    .handle connecting, .post .receiveOpenMessage (by decide), .handle connecting,
    .post .receiveKeepaliveMessage (by decide), .handle connecting,
    .routes (family, ()) [learnedRoute 1], .post .holdTimerExpired (by decide)]

/-- An IPv4 route is cleared before the peer is `Idle`. -/
theorem clearing_complete_ipv4 :
    CompleteBeforeIdle (learnedRoute 1).peer (fun _ => [()])
      (afterAll (clearStep (learnedRoute 1).peer fun _ => [()]) (.fresh fun _ _ => [])
        (sessionWithRoute (.ip, .unicast) ++ [.handle connecting])) := by
  have clears : ClearsAll
      (afterAll (clearStep (learnedRoute 1).peer fun _ => [()]) (.fresh fun _ _ => [])
        (sessionWithRoute (.ip, .unicast))) (.handle connecting) :=
    ⟨rfl, .holdTimerExpired, [], rfl, rfl⟩
  refine (clearing_complete_iff _ _ _ _ _ clears).mpr (.inr ⟨id, .inr ?_⟩)
  exact ⟨(), List.mem_singleton_self _, by decide⟩

/-- With an IPv6 route only, `Clearing_Completed` is posted for the IPv4 unicast family, and the
route still waits when it is handled. -/
theorem clearing_incomplete_ipv6 :
    ¬ CompleteBeforeIdle (learnedRoute 1).peer (fun _ => [()])
      (afterAll (clearStep (learnedRoute 1).peer fun _ => [()]) (.fresh fun _ _ => [])
        (sessionWithRoute (.ip6, .unicast) ++ [.handle connecting])) := by
  intro complete
  have stale := complete [] ⟨throughout_nil.mpr rfl, eachMeets_nil⟩ rfl ((.ip6, .unicast), ())
    (by decide)
  revert stale
  decide

end Quagga.Bgpd
