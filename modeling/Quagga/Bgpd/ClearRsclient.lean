import Quagga.Bgpd.ClearRoutes

/-!
# Clearing the table of a route-server client

A route-server client has a table of its own with the routes of all peers. When it stops being a
client, `bgp_clear_route` is called with `BGP_CLEAR_ROUTE_MY_RSCLIENT`, for which routes of every
peer are looked for. But a node is queued once, and an item of the queue clears the first route that
it finds. So all routes are removed when the queue has drained exactly if at each node there is at
most one to remove, in the first place (`rsclient_cleared_iff`).
-/

set_option autoImplicit false

namespace Quagga.Bgpd

open Lib Function

section Client

variable {Node : Type} [DecidableEq Node] (nsf : Bool) (nodes : List Node)
  (rib : Node → List BgpInfo)

/-- `bgp_clear_route_node`. `nsf` says that the client is in `PEER_STATUS_NSF_WAIT` and has `nsf`
set for the family. -/
def clearRsclientNode (rib : Node → List BgpInfo) (node : Node) : Node → List BgpInfo :=
  update rib node (modifyFirst (fun _ => true) (clearRoute nsf) (rib node))

/-- `bgp_clear_route`, which queues the nodes of the client's table that have a route. -/
def clearRsclient : WorkQueue Node :=
  WorkQueue.new.addAll (nodes.filter fun node => (rib node).any fun _ => true)

/-- The queue is run some times, and yields in between. -/
def runRsclient (runs : List Nat) : WorkQueue Node × (Node → List BgpInfo) :=
  runs.foldl (fun t more => ((t.1.run (clearRsclientNode nsf) more t.2).1,
    (t.1.run (clearRsclientNode nsf) more t.2).2.1)) (clearRsclient nodes rib, rib)

/-- When the queue has drained, all routes of the table are removed. -/
def RsclientCleared : Prop :=
  ∀ runs, (runRsclient nsf nodes rib runs).1.items = [] →
    ∀ node ∈ nodes, ∀ ri ∈ (runRsclient nsf nodes rib runs).2 node, ri.flags.removed = true

/-- The first route can be removed: it is not kept as history, and does not become stale
instead. -/
def BgpInfo.Clears (ri : BgpInfo) : Prop :=
  ri.flags.removed = true ∨
    ri.flags.history = false ∧ (nsf = true → ri.flags.stale = true ∨ ri.flags.damped = true)

theorem clearRoute_removed_iff (ri : BgpInfo) :
    (clearRoute nsf ri).flags.removed = true ↔ ri.Clears nsf := by
  rw [clearRoute, bgpRibRemove, bgpInfoDelete, BgpInfo.Clears]
  cases removed : ri.flags.removed <;> cases history : ri.flags.history <;>
    cases ri.flags.stale <;> cases ri.flags.damped <;> cases nsf <;> simp [removed]

theorem runRsclient_items (runs : List Nat) :
    (runRsclient nsf nodes rib runs).1.items.foldl (clearRsclientNode nsf)
        (runRsclient nsf nodes rib runs).2 =
      (clearRsclient nodes rib).items.foldl (clearRsclientNode nsf) rib := by
  induction runs using List.reverseRecOn with
  | nil => rfl
  | append_singleton runs more ih =>
    rw [← ih, ← List.take_append_drop (more + 1) (runRsclient nsf nodes rib runs).1.items,
      List.foldl_append, runRsclient, List.foldl_append]
    rfl

/-- Each node is run once. -/
theorem foldl_clearRsclientNode {nodes : List Node} (nodup : nodes.Nodup) (node : Node) :
    nodes.foldl (clearRsclientNode nsf) rib node =
      if node ∈ nodes then (rib node).modifyHead (clearRoute nsf) else rib node := by
  induction nodes generalizing rib with
  | nil => rfl
  | cons first rest ih =>
    rw [List.nodup_cons] at nodup
    rw [List.foldl_cons, ih _ nodup.2, clearRsclientNode]
    by_cases here : node = first
    · subst here
      cases routes : rib node <;> simp [nodup.1, modifyFirst]
    · simp [here]

variable {nodes} in
/-- **When the queue has drained, all routes of a client's table are removed exactly if at each node
no route but the first has to be removed, and that one is.** -/
theorem rsclient_cleared_iff (nodup : nodes.Nodup) :
    RsclientCleared nsf nodes rib ↔ ∀ node ∈ nodes,
      (∀ ri ∈ (rib node).head?, ri.Clears nsf) ∧ ∀ ri ∈ (rib node).tail, ri.flags.removed = true := by
  have drained : ∀ runs, (runRsclient nsf nodes rib runs).1.items = [] → ∀ node ∈ nodes,
      (runRsclient nsf nodes rib runs).2 node = (rib node).modifyHead (clearRoute nsf) := by
    intro runs done node member
    have items := runRsclient_items nsf nodes rib runs
    rw [done, List.foldl_nil, clearRsclient, WorkQueue.addAll_items] at items
    rw [items, WorkQueue.new, List.nil_append, foldl_clearRsclientNode nsf rib (nodup.filter _)]
    cases routes : rib node <;> simp [member, routes]
  have removed : ∀ rn : List BgpInfo, (∀ ri ∈ rn.modifyHead (clearRoute nsf),
      ri.flags.removed = true) ↔
        (∀ ri ∈ rn.head?, ri.Clears nsf) ∧ ∀ ri ∈ rn.tail, ri.flags.removed = true := by
    intro rn
    cases rn <;> simp [clearRoute_removed_iff]
  constructor
  · intro cleared node member
    have done : (runRsclient nsf nodes rib [(clearRsclient nodes rib).items.length]).1.items = [] :=
      List.drop_eq_nil_of_le (Nat.le_succ _)
    have gone := cleared _ done node member
    rw [drained _ done node member] at gone
    exact (removed _).mp gone
  · intro one runs done node member
    rw [drained runs done node member]
    exact (removed _).mpr (one node member)

end Client

/-- Each of two peers has a route for a prefix of its own. -/
theorem rsclient_cleared_apart : RsclientCleared false [1, 2] fun node => [learnedRoute node] := by
  refine (rsclient_cleared_iff false _ (by decide)).mpr fun node _ => ⟨?_, by simp⟩
  rintro ri ⟨⟩
  exact .inr ⟨rfl, nofun⟩

/-- Two peers have a route for one prefix. The second route stays. -/
theorem rsclient_not_cleared :
    ¬ RsclientCleared false [()] fun _ => [learnedRoute 1, learnedRoute 2] := by
  intro cleared
  exact absurd (cleared [0] rfl () (by simp) (learnedRoute 2) (by decide)) (by decide)

end Quagga.Bgpd
