import Quagga.Bgpd.UniqueSelected

/-!
# Clearing the adjacencies of a peer

Besides its routes, a node of a table has two lists of adjacencies. With soft reconfiguration,
`adj_in` keeps the attributes that a peer sent, also if the filters deny the update. `adj_out` keeps
what was sent to a peer and what is still to be sent, also after the routes of the node are gone
and a withdrawal is pending.

When a session goes down, `bgp_clear_route_all` walks through the nodes of all main tables and takes
out the adjacencies of the peer. It skips the nodes that have no routes. So all adjacencies of the
peer are gone afterwards exactly if it had none at a node without routes (`clearing_removes_iff`).
Both ways to such an adjacency are in `clearing_leaves_adjacencies`.

The tables change by updates, withdrawals, local routes, next-hop scanning, the work queues and
packets that are sent. What filters and `bgp_announce_check` decide is part of the event. Packets
are sent in any order: an event takes one pending advertisement. Next-hop scanning queues every
node, so a node may be processed at any time.
-/

set_option autoImplicit false

namespace Quagga.Bgpd

open Lib Library

/-! ## Adjacencies -/

variable (peer : Peer)

section Adjacencies

variable {β : Type}

/-- `struct bgp_adj_in`. -/
structure AdjIn (β : Type) where
  peer : Peer
  attr : β

/-- A pending advertisement: an update with its attributes, or a withdrawal. -/
inductive Pending (β : Type) where
  | update (attr : β)
  | withdraw

/-- An entry of `rn->adj_out`: the attributes that were sent last and the pending advertisement. -/
structure NodeAdjOut (β : Type) where
  peer : Peer
  attr : Option β
  adv : Option (Pending β)

/-- A node of a main table. -/
structure AdjNode (β : Type) where
  info : List BgpInfo
  adjIn : List (AdjIn β)
  adjOut : List (NodeAdjOut β)

/-- Change the first entry of a peer. -/
def changeOf {α : Type} (peerOf : α → Peer) (peer : Peer) (change : α → α) : List α → List α
  | [] => []
  | entry :: rest =>
    if peerOf entry = peer then change entry :: rest
    else entry :: changeOf peerOf peer change rest

namespace AdjNode

/-- `bgp_adj_in_set`. -/
def bgpAdjInSet (attr : β) (rn : AdjNode β) : AdjNode β :=
  if rn.adjIn.any (·.peer = peer) then
    { rn with adjIn := changeOf AdjIn.peer peer (fun adj => { adj with attr := attr }) rn.adjIn }
  else { rn with adjIn := { peer := peer, attr := attr } :: rn.adjIn }

variable (rn : AdjNode β)

/-- `bgp_adj_in_unset`. -/
def bgpAdjInUnset : AdjNode β :=
  { rn with adjIn := rn.adjIn.eraseP (·.peer = peer) }

/-- `bgp_adj_out_set`. -/
def bgpAdjOutSet (attr : β) (rn : AdjNode β) : AdjNode β :=
  if rn.adjOut.any (·.peer = peer) then
    { rn with
      adjOut := changeOf NodeAdjOut.peer peer (fun adj => { adj with adv := some (.update attr) })
        rn.adjOut }
  else { rn with adjOut := { peer := peer, attr := none, adv := some (.update attr) } :: rn.adjOut }

/-- Take out the first adjacency of the peer: the end of `bgp_adj_out_unset` and of
`bgp_adj_out_remove`. -/
def bgpAdjOutRemove : AdjNode β :=
  { rn with adjOut := rn.adjOut.eraseP (·.peer = peer) }

/-- `bgp_adj_out_unset`. -/
def bgpAdjOutUnset : AdjNode β :=
  match rn.adjOut.find? (·.peer = peer) with
  | none => rn
  | some adj =>
    if adj.attr.isSome then
      { rn with
        adjOut := changeOf NodeAdjOut.peer peer (fun adj => { adj with adv := some .withdraw })
          rn.adjOut }
    else rn.bgpAdjOutRemove peer

/-- What `bgp_update_packet` does to the adjacency whose update it sends. -/
def sendUpdate : AdjNode β :=
  { rn with
    adjOut := changeOf NodeAdjOut.peer peer
      (fun adj => match adj.adv with
        | some (.update attr) => { adj with attr := some attr, adv := none }
        | _ => adj)
      rn.adjOut }

/-- What `bgp_withdraw_packet` does to the adjacency whose withdrawal it sends. -/
def sendWithdraw : AdjNode β :=
  match rn.adjOut.find? (·.peer = peer) with
  | some { adv := some .withdraw, .. } => rn.bgpAdjOutRemove peer
  | _ => rn

/-- `bgp_clear_route_table` at a node, for the adjacencies. -/
def bgpClearRouteTable : AdjNode β :=
  if rn.info.isEmpty then rn else (rn.bgpAdjInUnset peer).bgpAdjOutRemove peer

/-- Announce a route to a peer, or withdraw it if there is none or it is denied. -/
def tell (route : Option β) (rn : AdjNode β) : AdjNode β :=
  match route with
  | some attr => rn.bgpAdjOutSet peer attr
  | none => rn.bgpAdjOutUnset peer

/-- `bgp_process_announce_selected` for the peers that are established, have negotiated the address
family and do not wait for a refresh. -/
def announceSelected (ready : List Peer) (check : Peer → BgpInfo → Option β)
    (selected : Option BgpInfo) (rn : AdjNode β) : AdjNode β :=
  ready.foldl (fun rn peer => rn.tell peer (selected.bind (check peer))) rn

/-- `bgp_announce_table` at a node. -/
def bgpAnnounceTable (check : BgpInfo → Option β) (rn : AdjNode β) : AdjNode β :=
  rn.info.foldl
    (fun node ri => if ri.flags.selected && ri.peer ≠ peer then node.tell peer (check ri) else node)
    rn

/-- `bgp_process_main`. -/
def bgpProcessMain (bgp : Bgp) (files : Files) (ready : List Peer)
    (check : Peer → BgpInfo → Option β) (rn : AdjNode β) :
    Except Fault (Files × AdjNode β) := do
  let files := makeTrustFiles bgp files
  let (info, result) ← bgpBestSelection files bgp rn.info
  if nothingToDo result info then return (files, { rn with info := info })
  let info := moveSelected result info
  let selected := info.find? fun ri => result.new = some ri.ptr
  return (files, { rn.announceSelected ready check selected with info := reapOld result info })

end AdjNode

end Adjacencies

/-! ## The main tables -/

/-- The main tables, the number of items for each node in the clear queues of the peers, and the next
free address. The nodes of the VPN tables are those of the tables of all route distinguishers. -/
structure MainTables (Node β : Type) where
  files : Files
  tables : Afi × Safi → Node → AdjNode β
  clearQueue : Peer → Afi × Safi → Node → Nat
  nextPtr : Nat

/-- What happens to the main tables. -/
inductive MainEvent (Node β : Type) where
  | update (peer : Peer) (family : Afi × Safi) (node : Node) (received : β) (softReconfig : Bool)
      (attr : Attr) (filtered reachable : Bool)
  | withdraw (peer : Peer) (family : Afi × Safi) (node : Node) (softReconfig : Bool)
  | originate (route : LocalRoute) (family : Afi × Safi) (node : Node) (attr : Attr)
  | retract (route : LocalRoute) (family : Afi × Safi) (node : Node)
  | scan (family : Afi × Safi) (node : Node) (ptr : Nat) (valid damped history : Bool)
  | process (family : Afi × Safi) (node : Node) (ready : List Peer)
      (check : Peer → BgpInfo → Option β)
  | announce (peer : Peer) (family : Afi × Safi) (check : Node → BgpInfo → Option β)
  | sendUpdate (peer : Peer) (family : Afi × Safi) (node : Node)
  | sendWithdraw (peer : Peer) (family : Afi × Safi) (node : Node)
  | clearAdjIn (peer : Peer) (family : Afi × Safi)
  | clearAll (peer : Peer)
  | clearNode (peer : Peer) (family : Afi × Safi) (node : Node) (nsf : Bool)

namespace MainTables

variable {Node β : Type} (family : Afi × Safi)

/-- Change all nodes of a table. -/
def walk (change : Node → AdjNode β → AdjNode β) (s : MainTables Node β) : MainTables Node β :=
  { s with
    tables := Function.update s.tables family fun node => change node (s.tables family node) }

/-- `bgp_clear_route` with `BGP_CLEAR_ROUTE_NORMAL` for the main table. -/
def bgpClearRoute (s : MainTables Node β) (family : Afi × Safi) : MainTables Node β :=
  { s.walk family fun _ rn => rn.bgpClearRouteTable peer with
    clearQueue := fun other family' node =>
      if other = peer ∧ family' = family ∧ hasRoute peer (s.tables family node).info then
        s.clearQueue other family' node + 1
      else s.clearQueue other family' node }

/-- `bgp_clear_route_all`. -/
def bgpClearRouteAll (s : MainTables Node β) : MainTables Node β :=
  families.foldl (bgpClearRoute peer) s

variable [DecidableEq Node] (node : Node)

/-- Replace a node. Its new routes use up an address. -/
def change (rn : AdjNode β) (s : MainTables Node β) : MainTables Node β :=
  { s with
    tables := Function.update s.tables family (Function.update (s.tables family) node rn)
    nextPtr := s.nextPtr + 1 }

/-- Replace the routes of a node. -/
def changeInfo (info : List BgpInfo) (s : MainTables Node β) : MainTables Node β :=
  s.change family node { s.tables family node with info := info }

/-- `bgp_update_main`. -/
def bgpUpdateMain (received : β)
    (softReconfig : Bool) (attr : Attr) (filtered reachable : Bool) (s : MainTables Node β) :
    MainTables Node β :=
  let rn := s.tables family node
  let rn := if softReconfig then rn.bgpAdjInSet peer received else rn
  s.change family node
    { rn with info := Bgpd.bgpUpdateMain peer attr filtered reachable s.nextPtr rn.info }

/-- `bgp_withdraw`. -/
def bgpWithdraw (softReconfig : Bool) (s : MainTables Node β) : MainTables Node β :=
  let rn := s.tables family node
  let rn := if softReconfig then rn.bgpAdjInUnset peer else rn
  s.change family node { rn with info := Bgpd.bgpWithdraw peer rn.info }

/-- `bgp_clear_route_node` for an item of the clear queue. -/
def bgpClearRouteNode (nsf : Bool) (s : MainTables Node β) : MainTables Node β :=
  if s.clearQueue peer family node = 0 then s
  else
    { s.changeInfo family node (Bgpd.bgpClearRouteNode peer nsf (s.tables family node).info) with
      clearQueue := fun other family' node' =>
        if other = peer ∧ family' = family ∧ node' = node then
          s.clearQueue other family' node' - 1
        else s.clearQueue other family' node' }

/-- Empty tables. -/
def initial (files : Files) : MainTables Node β :=
  { files := files, clearQueue := fun _ _ _ => 0, nextPtr := 0
    tables := fun _ _ => { info := [], adjIn := [], adjOut := [] } }

end MainTables

/-- One event at the main tables. There are no actions to record. -/
def mainStep {Node β : Type} [DecidableEq Node] (bgp : Bgp) (s : MainTables Node β) :
    MainEvent Node β → Except Fault (MainTables Node β × List Unit)
  | .update peer family node received softReconfig attr filtered reachable =>
    .ok (s.bgpUpdateMain peer family node received softReconfig attr filtered reachable, [])
  | .withdraw peer family node softReconfig =>
    .ok (s.bgpWithdraw peer family node softReconfig, [])
  | .originate route family node attr =>
    .ok (s.changeInfo family node
      (Bgpd.originate route attr s.nextPtr (s.tables family node).info), [])
  | .retract route family node =>
    .ok (s.changeInfo family node (Bgpd.retract route (s.tables family node).info), [])
  | .scan family node ptr valid damped history =>
    .ok (s.changeInfo family node (setFlags ptr
      (fun flags => { flags with valid := valid, damped := damped, history := history })
      (s.tables family node).info), [])
  | .process family node ready check => do
      let (files, rn) ← (s.tables family node).bgpProcessMain bgp s.files ready check
      return ({ s.change family node rn with files := files }, [])
  | .announce peer family check =>
    .ok (s.walk family fun node rn => rn.bgpAnnounceTable peer (check node), [])
  | .sendUpdate peer family node =>
    .ok (s.change family node ((s.tables family node).sendUpdate peer), [])
  | .sendWithdraw peer family node =>
    .ok (s.change family node ((s.tables family node).sendWithdraw peer), [])
  | .clearAdjIn peer family => .ok (s.walk family fun _ rn => rn.bgpAdjInUnset peer, [])
  | .clearAll peer => .ok (s.bgpClearRouteAll peer, [])
  | .clearNode peer family node nsf => .ok (s.bgpClearRouteNode peer family node nsf, [])

/-- The tables that a run can lead to. -/
def MainTables.Reachable {Node β : Type} [DecidableEq Node] (bgp : Bgp) (files : Files)
    (s : MainTables Node β) : Prop :=
  ∃ trace, Run (mainStep bgp) (fun _ _ => True) (MainTables.initial files) trace s

/-- The node has an entry of the peer. -/
def AdjNode.holds {β : Type} (peer : Peer) (rn : AdjNode β) : Bool :=
  rn.adjIn.any (·.peer = peer) || rn.adjOut.any (·.peer = peer)

/-- No node has an entry of the peer. -/
def MainTables.Scrubbed {Node β : Type} (peer : Peer) (s : MainTables Node β) : Prop :=
  ∀ family node, (s.tables family node).holds peer = false

/-! ## One adjacency for each peer -/

section Entries

variable {α : Type} {peerOf : α → Peer} {entries : List α}

theorem nodup_changeOf {change : α → α}
    (same : ∀ entry, peerOf (change entry) = peerOf entry) (single : (entries.map peerOf).Nodup) :
    ((changeOf peerOf peer change entries).map peerOf).Nodup := by
  have unchanged : (changeOf peerOf peer change entries).map peerOf = entries.map peerOf := by
    clear single
    induction entries with
    | nil => rfl
    | cons entry rest ih =>
      rw [changeOf]
      split_ifs
      · rw [List.map_cons, same, List.map_cons]
      · rw [List.map_cons, ih, List.map_cons]
  exact unchanged ▸ single

theorem nodup_eraseP (single : (entries.map peerOf).Nodup) :
    ((entries.eraseP (peerOf · = peer)).map peerOf).Nodup :=
  single.sublist (List.eraseP_sublist.map peerOf)

/-- Where each peer has one entry, taking out the first one of a peer leaves none. -/
theorem any_eraseP (single : (entries.map peerOf).Nodup) :
    (entries.eraseP (peerOf · = peer)).any (peerOf · = peer) = false := by
  induction entries with
  | nil => rfl
  | cons entry rest ih =>
    rw [List.map_cons, List.nodup_cons] at single
    by_cases here : peerOf entry = peer
    · rw [List.eraseP_cons_of_pos (by simpa using here), List.any_eq_false]
      intro other mem same
      have same : peerOf other = peer := by simpa using same
      exact single.1 (here.trans same.symm ▸ List.mem_map_of_mem mem)
    · rw [List.eraseP_cons_of_neg (by simpa using here), List.any_cons, ih single.2]
      simpa using here

theorem nodup_cons_absent {peer : Peer} {entry : α} (own : peerOf entry = peer)
    (absent : entries.any (peerOf · = peer) = false) (single : (entries.map peerOf).Nodup) :
    ((entry :: entries).map peerOf).Nodup := by
  rw [List.map_cons, List.nodup_cons]
  refine ⟨fun mem => ?_, single⟩
  obtain ⟨other, otherMem, same⟩ := List.mem_map.mp mem
  have none := List.any_eq_false.mp absent other otherMem
  exact none (by simpa using same.trans own)

end Entries

variable {bgp : Bgp}

namespace AdjNode

variable {β : Type}

/-- Each peer has at most one adjacency of each kind. -/
structure Single (rn : AdjNode β) : Prop where
  adjIn : (rn.adjIn.map AdjIn.peer).Nodup
  adjOut : (rn.adjOut.map NodeAdjOut.peer).Nodup

variable {rn : AdjNode β} (single : rn.Single) (peer : Peer)
include single

theorem Single.withInfo (info : List BgpInfo) : Single { rn with info := info } :=
  ⟨single.adjIn, single.adjOut⟩

theorem Single.bgpAdjInSet (attr : β) : (rn.bgpAdjInSet peer attr).Single := by
  unfold AdjNode.bgpAdjInSet
  split_ifs with known
  · exact ⟨nodup_changeOf peer (fun _ => rfl) single.adjIn, single.adjOut⟩
  · exact ⟨nodup_cons_absent rfl (by simpa using known) single.adjIn, single.adjOut⟩

theorem Single.bgpAdjInUnset : (rn.bgpAdjInUnset peer).Single :=
  ⟨nodup_eraseP peer single.adjIn, single.adjOut⟩

theorem Single.changeOut {change : NodeAdjOut β → NodeAdjOut β}
    (same : ∀ adj, (change adj).peer = adj.peer) :
    Single { rn with adjOut := changeOf NodeAdjOut.peer peer change rn.adjOut } :=
  ⟨single.adjIn, nodup_changeOf peer same single.adjOut⟩

theorem Single.bgpAdjOutRemove : (rn.bgpAdjOutRemove peer).Single :=
  ⟨single.adjIn, nodup_eraseP peer single.adjOut⟩

theorem Single.tell (route : Option β) : (rn.tell peer route).Single := by
  cases route with
  | some attr =>
    change (rn.bgpAdjOutSet peer attr).Single
    unfold AdjNode.bgpAdjOutSet
    split_ifs with known
    · exact single.changeOut peer fun _ => rfl
    · exact ⟨single.adjIn, nodup_cons_absent rfl (by simpa using known) single.adjOut⟩
  | none =>
    change (rn.bgpAdjOutUnset peer).Single
    unfold AdjNode.bgpAdjOutUnset
    split
    · exact single
    · split_ifs
      · exact single.changeOut peer fun _ => rfl
      · exact single.bgpAdjOutRemove peer

theorem Single.sendUpdate : (rn.sendUpdate peer).Single := by
  refine single.changeOut peer fun adj => ?_
  split <;> rfl

theorem Single.sendWithdraw : (rn.sendWithdraw peer).Single := by
  unfold AdjNode.sendWithdraw
  split
  · exact single.bgpAdjOutRemove peer
  · exact single

theorem Single.bgpClearRouteTable : (rn.bgpClearRouteTable peer).Single := by
  unfold AdjNode.bgpClearRouteTable
  split_ifs
  · exact single
  · exact (single.bgpAdjInUnset peer).bgpAdjOutRemove peer

omit single in
theorem Single.foldl {γ : Type} {step : AdjNode β → γ → AdjNode β}
    (kept : ∀ rn item, rn.Single → (step rn item).Single) (items : List γ) :
    ∀ {rn : AdjNode β}, rn.Single → (items.foldl step rn).Single := by
  induction items with
  | nil => exact id
  | cons item rest ih => exact fun single => ih (kept _ item single)

theorem Single.bgpAnnounceTable (check : BgpInfo → Option β) :
    (rn.bgpAnnounceTable peer check).Single := by
  refine Single.foldl (fun node ri single => ?_) rn.info single
  split_ifs
  · exact single.tell peer _
  · exact single

theorem Single.bgpProcessMain {files files' : Files} {ready : List Peer}
    {check : Peer → BgpInfo → Option β} {after : AdjNode β}
    (processed : rn.bgpProcessMain bgp files ready check = .ok (files', after)) :
    after.Single := by
  unfold AdjNode.bgpProcessMain at processed
  cases selection : bgpBestSelection (makeTrustFiles bgp files) bgp rn.info with
  | error fault => simp [selection] at processed
  | ok found =>
    obtain ⟨info, result⟩ := found
    simp only [selection, ok_bind] at processed
    split_ifs at processed
    · cases processed
      exact single.withInfo info
    · cases processed
      exact (Single.foldl (fun _ peer single => single.tell peer _) ready single).withInfo _

end AdjNode

/-! ## Runs -/

namespace MainTables

variable {Node β : Type} {s : MainTables Node β}

/-- Each peer has at most one adjacency of each kind at each node. -/
def Single (s : MainTables Node β) : Prop := ∀ family node, (s.tables family node).Single

theorem Single.walk (single : s.Single) (family : Afi × Safi)
    {change : Node → AdjNode β → AdjNode β}
    (kept : ∀ node rn, rn.Single → (change node rn).Single) : (s.walk family change).Single := by
  intro family' node
  unfold MainTables.walk
  dsimp only
  by_cases same : family' = family
  · subst same
    rw [Function.update_self]
    exact kept node _ (single family' node)
  · rw [Function.update_of_ne same]
    exact single family' node

theorem Single.bgpClearRouteAll (single : s.Single) (peer : Peer) :
    (s.bgpClearRouteAll peer).Single := by
  unfold MainTables.bgpClearRouteAll
  generalize families = walked
  induction walked generalizing s with
  | nil => exact single
  | cons family rest ih =>
    exact ih (single.walk family fun _ _ single => single.bgpClearRouteTable peer)

variable [DecidableEq Node]

theorem Single.change (single : s.Single) (family : Afi × Safi) (node : Node) {rn : AdjNode β}
    (kept : rn.Single) : (s.change family node rn).Single := by
  intro family' node'
  unfold MainTables.change
  dsimp only
  by_cases same : family' = family
  · subst same
    rw [Function.update_self]
    by_cases here : node' = node
    · subst here
      rw [Function.update_self]
      exact kept
    · rw [Function.update_of_ne here]
      exact single family' node'
  · rw [Function.update_of_ne same]
    exact single family' node'

theorem Single.changeInfo (single : s.Single) (family : Afi × Safi) (node : Node)
    (info : List BgpInfo) : (s.changeInfo family node info).Single :=
  single.change family node ((single family node).withInfo info)

theorem Single.step {event : MainEvent Node β} {s' : MainTables Node β}
    {actions : List Unit} (single : s.Single) (stepped : mainStep bgp s event = .ok (s', actions)) :
    s'.Single := by
  cases event with
  | process family node ready check =>
    cases processed : (s.tables family node).bgpProcessMain bgp s.files ready check with
    | error fault => simp [mainStep, processed] at stepped
    | ok result =>
      simp only [mainStep, processed] at stepped
      cases stepped
      exact single.change family node ((single family node).bgpProcessMain processed)
  | update peer family node received softReconfig attr filtered reachable =>
    cases stepped
    refine single.change family node (AdjNode.Single.withInfo ?_ _)
    split_ifs
    · exact (single family node).bgpAdjInSet peer received
    · exact single family node
  | withdraw peer family node softReconfig =>
    cases stepped
    refine single.change family node (AdjNode.Single.withInfo ?_ _)
    split_ifs
    · exact (single family node).bgpAdjInUnset peer
    · exact single family node
  | originate route family node attr =>
    cases stepped
    exact single.changeInfo family node _
  | retract route family node =>
    cases stepped
    exact single.changeInfo family node _
  | scan family node ptr valid damped history =>
    cases stepped
    exact single.changeInfo family node _
  | announce peer family check =>
    cases stepped
    exact single.walk family fun _ _ single => single.bgpAnnounceTable peer _
  | sendUpdate peer family node =>
    cases stepped
    exact single.change family node ((single family node).sendUpdate peer)
  | sendWithdraw peer family node =>
    cases stepped
    exact single.change family node ((single family node).sendWithdraw peer)
  | clearAdjIn peer family =>
    cases stepped
    exact single.walk family fun _ _ single => single.bgpAdjInUnset peer
  | clearAll peer =>
    cases stepped
    exact single.bgpClearRouteAll peer
  | clearNode peer family node nsf =>
    cases stepped
    unfold MainTables.bgpClearRouteNode
    split_ifs
    · exact single
    · exact single.changeInfo family node _

theorem Reachable.single {files : Files} (reached : s.Reachable bgp files) :
    s.Single := by
  obtain ⟨trace, run⟩ := reached
  refine run.invariant (fun _ s => s.Single) ?_ fun single _ stepped => single.step stepped
  exact fun _ _ => ⟨List.nodup_nil, List.nodup_nil⟩

end MainTables

/-! ## Clearing -/

section Clearing

variable {Node β : Type}

theorem MainTables.bgpClearRouteAll_tables (peer : Peer) (s : MainTables Node β)
    (family : Afi × Safi) (node : Node) :
    (s.bgpClearRouteAll peer).tables family node =
      (s.tables family node).bgpClearRouteTable peer := by
  obtain ⟨afi, safi⟩ := family
  cases afi <;> cases safi <;> rfl

/-- Clearing leaves no adjacency of the peer at a node, unless the node has no routes and had one
before. -/
theorem AdjNode.Single.bgpClearRouteTable_holds {rn : AdjNode β} (single : rn.Single)
    (peer : Peer) :
    (rn.bgpClearRouteTable peer).holds peer = false ↔
      (rn.info.isEmpty = true → rn.holds peer = false) := by
  unfold AdjNode.bgpClearRouteTable
  split_ifs with empty
  · exact ⟨fun none _ => none, fun none => none empty⟩
  · refine iff_of_true ?_ fun isEmpty => absurd isEmpty empty
    unfold AdjNode.holds AdjNode.bgpAdjOutRemove AdjNode.bgpAdjInUnset
    rw [any_eraseP peer single.adjIn, any_eraseP peer single.adjOut]
    rfl

/-- **After `bgp_clear_route_all` no node of a main table has an adjacency of the peer, exactly if
before no node without routes had one.** -/
theorem clearing_removes_iff [DecidableEq Node] {bgp : Bgp} {files : Files} {s : MainTables Node β}
    (reached : s.Reachable bgp files) (peer : Peer) :
    (s.bgpClearRouteAll peer).Scrubbed peer ↔
      ∀ family node, (s.tables family node).info.isEmpty = true →
        (s.tables family node).holds peer = false := by
  refine forall_congr' fun family => forall_congr' fun node => ?_
  rw [MainTables.bgpClearRouteAll_tables]
  exact (reached.single family node).bgpClearRouteTable_holds peer

end Clearing

/-- The address family of the runs below, whose tables have one node. -/
def ipv4Unicast : Afi × Safi := (.ip, .unicast)

/-- An update of a peer with soft reconfiguration. -/
def softUpdate (filtered : Bool) : MainEvent Unit Unit :=
  .update (neighbour 2) ipv4Unicast () () true plainAttr filtered true

theorem reachable_of_execute {events : List (MainEvent Unit Unit)} {files : Files}
    {trace : List Unit} {s : MainTables Unit Unit}
    (executed : execute (mainStep bgp) (.initial files) events = .ok (s, trace)) :
    s.Reachable bgp files :=
  ⟨trace, run_of_execute (permitted_of_forall (fun _ _ _ => trivial) _) executed⟩

/-- The adjacency of a route that is in the table is taken out. -/
theorem clearing_removes_accepted :
    ∃ s : MainTables Unit Unit,
      s.Reachable plainBgp (filesOf (fun _ => 50) fun _ => none) ∧
      (s.tables ipv4Unicast ()).holds (neighbour 2) = true ∧
      (s.bgpClearRouteAll (neighbour 2)).Scrubbed (neighbour 2) := by
  obtain ⟨s, trace, executed, here, others⟩ : ∃ s trace,
      execute (mainStep plainBgp) (.initial (filesOf (fun _ => 50) fun _ => none))
        [softUpdate false] = .ok (s, trace) ∧
      (s.tables ipv4Unicast ()).holds (neighbour 2) = true ∧
      ∀ family node, (s.tables family node).info.isEmpty = true →
        (s.tables family node).holds (neighbour 2) = false := by
    refine ⟨_, _, rfl, rfl, ?_⟩
    rintro ⟨afi, safi⟩ ⟨⟩
    cases afi <;> cases safi <;> decide
  have reached := reachable_of_execute executed
  exact ⟨s, reached, here, (clearing_removes_iff reached (neighbour 2)).mpr others⟩

/-- The node is processed while only the neighbour in AS 3 is ready. -/
def announceTo3 : MainEvent Unit Unit :=
  .process ipv4Unicast () [neighbour 3] fun _ _ => some ()

/-- **Adjacencies survive clearing**: the one of an update that was denied, and the one of a
withdrawal that has not been sent yet. -/
theorem clearing_leaves_adjacencies :
    (∃ s : MainTables Unit Unit, s.Reachable plainBgp (filesOf (fun _ => 50) fun _ => none) ∧
      ((s.bgpClearRouteAll (neighbour 2)).tables ipv4Unicast ()).adjIn.length = 1 ∧
      ¬ (s.bgpClearRouteAll (neighbour 2)).Scrubbed (neighbour 2)) ∧
    ∃ s : MainTables Unit Unit, s.Reachable plainBgp (filesOf (fun _ => 50) fun _ => none) ∧
      ((s.bgpClearRouteAll (neighbour 3)).tables ipv4Unicast ()).adjOut.length = 1 ∧
      ¬ (s.bgpClearRouteAll (neighbour 3)).Scrubbed (neighbour 3) := by
  constructor
  · obtain ⟨s, trace, executed, one, here⟩ : ∃ s trace,
        execute (mainStep plainBgp) (.initial (filesOf (fun _ => 50) fun _ => none))
          [softUpdate true] = .ok (s, trace) ∧
        ((s.bgpClearRouteAll (neighbour 2)).tables ipv4Unicast ()).adjIn.length = 1 ∧
        ((s.bgpClearRouteAll (neighbour 2)).tables ipv4Unicast ()).holds (neighbour 2) = true :=
      ⟨_, _, rfl, rfl, rfl⟩
    refine ⟨s, reachable_of_execute executed, one, fun scrubbed => ?_⟩
    rw [scrubbed ipv4Unicast ()] at here
    cases here
  · obtain ⟨s, trace, executed, one, here⟩ : ∃ s trace,
        execute (mainStep plainBgp) (.initial (filesOf (fun _ => 50) fun _ => none))
          [softUpdate false, announceTo3, .sendUpdate (neighbour 3) ipv4Unicast (),
            .withdraw (neighbour 2) ipv4Unicast () true, announceTo3] = .ok (s, trace) ∧
        ((s.bgpClearRouteAll (neighbour 3)).tables ipv4Unicast ()).adjOut.length = 1 ∧
        ((s.bgpClearRouteAll (neighbour 3)).tables ipv4Unicast ()).holds (neighbour 3) = true :=
      ⟨_, _, rfl, rfl, rfl⟩
    refine ⟨s, reachable_of_execute executed, one, fun scrubbed => ?_⟩
    rw [scrubbed ipv4Unicast ()] at here
    cases here

end Quagga.Bgpd
