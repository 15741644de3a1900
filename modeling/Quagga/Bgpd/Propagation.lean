import Quagga.Bgpd.UniqueSelected

/-!
# Neighbours and the FIB follow the selected route

An update changes a route in place and queues its node; `bgp_process_main` runs later. It announces
the selected route to the neighbours and to zebra unless the same route stays selected and its flag
`ATTR_CHANGED` is not set. A second copy of an update that arrives before the queue runs unsets that
flag, and an update that dampening suppresses replaces the attributes without queueing the node.

`follows_of_changeKept` says that these are the only ways in which a change is lost: the announcements
are up to date whenever nothing is queued in the runs in which no copy of an update finds
`ATTR_CHANGED` set at the selected route and no suppressed update replaces its attributes while
nothing is queued. `duplicate_loses_change` is a run with such a copy.

The model is one node of the main IPv4 unicast table of the default instance. What the filters of
incoming updates, the next-hop lookup and dampening decide about an update is part of the event. The
neighbours with an established session that negotiated the address family, and what
`bgp_announce_check` decides about an announcement, are fixed.
-/

set_option autoImplicit false

namespace Quagga.Bgpd

open Lib Library

/-! ## The node -/

/-- Interned path attributes: those that selection reads, the next hop and the others. Two of them
are equal exactly if `attrhash_cmp` holds. -/
structure PathAttr (β : Type) where
  attr : Attr
  nexthop : Nat
  others : β
  deriving DecidableEq

/-- The metric that zebra is sent: `attr->med`, which is 0 without the attribute. -/
def PathAttr.metric {β : Type} (path : PathAttr β) : Nat := path.attr.med.getD 0

/-- What a node keeps of a route that selection does not read. -/
structure Beyond (β : Type) where
  nexthop : Nat
  others : β
  igpChanged : Bool

/-- A node, the number of its items in `process_main_queue` and the next free address. Nothing sets
`BGP_NODE_PROCESS_SCHEDULED`, so each `bgp_process` adds an item. -/
structure NodeState (β : Type) where
  rn : List BgpInfo
  beyond : Nat → Beyond β
  queued : Nat
  nextPtr : Nat

/-- A route that came in an update, as opposed to a local one. -/
def BgpInfo.FromUpdate (ri : BgpInfo) : Prop := ri.type = zebraRouteBgp ∧ ri.subType = .normal

instance (ri : BgpInfo) : Decidable ri.FromUpdate :=
  inferInstanceAs (Decidable (ri.type = zebraRouteBgp ∧ ri.subType = .normal))

/-- An update, with what the filters, the next-hop lookup and dampening decide about it. -/
structure Received (β : Type) where
  peer : Peer
  path : PathAttr β
  filtered : Bool
  reachable : Bool
  /-- The IGP metric after the next-hop lookup. -/
  igpMetric : Option Nat
  /-- Dampening is configured and the peer is external. -/
  dampening : Bool
  /-- The flag `DAMPED` after `bgp_damp_update`. -/
  damped : Bool
  /-- `bgp_damp_update` returns `BGP_DAMP_SUPPRESSED`. -/
  suppressed : Bool
  /-- `bgp_maximum_prefix_overflow` for a new route. -/
  overflow : Bool

/-- A withdrawal, with what dampening decides about it. -/
structure Withdrawn where
  peer : Peer
  dampening : Bool
  damped : Bool

section Node

variable {β : Type}

variable (node : NodeState β)

/-- The attributes of a route. -/
def NodeState.pathOf (ri : BgpInfo) : PathAttr β :=
  { attr := ri.attr, nexthop := (node.beyond ri.ptr).nexthop,
    others := (node.beyond ri.ptr).others }

/-- Change the route that an update from this peer replaces. -/
def NodeState.change (peer : Peer) (change : BgpInfo → BgpInfo)
    (queues : Bool) : NodeState β :=
  { node with
    rn := modifyFirst (learnedFrom peer) change node.rn
    queued := if queues then node.queued + 1 else node.queued }

/-- Store the next hop and the other attributes of the route at an address. -/
def NodeState.store (ptr : Nat) (path : PathAttr β) : NodeState β :=
  { node with
    beyond := Function.update node.beyond ptr
      { node.beyond ptr with nexthop := path.nexthop, others := path.others } }

/-- The same attributes come in: dampening may bring a withdrawn route back, and otherwise the route
is no longer stale. -/
def Received.again (update : Received β) (ri : BgpInfo) : BgpInfo :=
  if update.dampening && ri.flags.history then
    { ri with flags := { ri.flags with attrChanged := false, history := false,
                                       damped := update.damped } }
  else { ri with flags := { ri.flags with attrChanged := false, stale := false } }

/-- Whether the node is queued then. -/
def Received.againQueues (update : Received β) (ri : BgpInfo) : Bool :=
  if update.dampening && ri.flags.history then !update.suppressed else ri.flags.stale

/-- The route is suppressed. -/
def Received.held (update : Received β) : Bool := update.dampening && update.suppressed

/-- New attributes come in. Dampening may suppress the route before its next hop is looked up. -/
def Received.replace (update : Received β) (ri : BgpInfo) : BgpInfo :=
  { ri with
    attr := update.path.attr
    extra := if update.held then ri.extra else update.igpMetric
    flags :=
      { ri.flags with
        removed := false
        stale := false
        attrChanged := true
        history := if update.dampening then false else ri.flags.history
        damped := if update.dampening then update.damped else ri.flags.damped
        valid :=
          if update.held then ri.flags.removed || ri.flags.valid else update.reachable } }

/-- The route of an update from a peer that has none at the node. -/
def Received.newRoute (update : Received β) (ptr : Nat) : BgpInfo :=
  { ptr := ptr, peer := update.peer, attr := update.path.attr, extra := update.igpMetric,
    type := zebraRouteBgp, subType := .normal,
    flags := { newFlags with valid := update.reachable } }

/-- What a withdrawal does to the route. It keeps a route that dampening follows as history. -/
def Withdrawn.withdraw (withdrawal : Withdrawn) (ri : BgpInfo) : BgpInfo :=
  if ri.flags.history then ri
  else if withdrawal.dampening then
    { ri with flags := { ri.flags with history := true,
                                       damped := ri.flags.damped || withdrawal.damped } }
  else bgpInfoDelete ri

/-- The node is queued. -/
def Withdrawn.queues (withdrawal : Withdrawn) (ri : BgpInfo) : Bool :=
  !ri.flags.history && !(withdrawal.dampening && ri.flags.damped)

variable [DecidableEq β]

/-- The update is the one that the route has already. -/
def NodeState.repeats (update : Received β) (ri : BgpInfo) : Bool :=
  !ri.flags.removed && node.pathOf ri = update.path

/-- `bgp_update_main`. -/
def NodeState.bgpUpdateMain (update : Received β) : NodeState β :=
  match node.rn.find? (learnedFrom update.peer) with
  | none =>
    if update.filtered then node
    else
      { (node.store node.nextPtr update.path) with
        rn := update.newRoute node.nextPtr :: node.rn
        queued := if update.overflow then node.queued else node.queued + 1
        nextPtr := node.nextPtr + 1 }
  | some ri =>
    if update.filtered then node.change update.peer bgpRibRemove true
    else if node.repeats update ri then
      node.change update.peer update.again (update.againQueues ri)
    else (node.store ri.ptr update.path).change update.peer update.replace !update.held

omit [DecidableEq β] in
/-- `bgp_withdraw`. -/
def NodeState.bgpWithdraw (withdrawal : Withdrawn) : NodeState β :=
  match node.rn.find? (learnedFrom withdrawal.peer) with
  | none => node
  | some ri => node.change withdrawal.peer withdrawal.withdraw (withdrawal.queues ri)

end Node

/-! ## Announcements -/

/-- A route message for zebra, with the next hop and the metric. -/
inductive ZebraMsg where
  | add (nexthop metric : Nat)
  | delete (nexthop metric : Nat)
  deriving DecidableEq

/-- `bgp_zebra_announce`. -/
def PathAttr.bgpZebraAnnounce {β : Type} (path : PathAttr β) : ZebraMsg :=
  .add path.nexthop path.metric

/-- `bgp_zebra_withdraw`. -/
def PathAttr.bgpZebraWithdraw {β : Type} (path : PathAttr β) : ZebraMsg :=
  .delete path.nexthop path.metric

/-- What is fixed in a run: the configuration and the trust files, the neighbours whose session is
established and has negotiated the address family, those of them whose first update is deferred
until a route refresh, and `bgp_announce_check` for a neighbour, the peer that a route came from and
its attributes. -/
structure Policy (β : Type) where
  bgp : Bgp
  files : Files
  peers : List Peer
  orfWaitRefresh : Peer → Bool
  bgpAnnounceCheck : Peer → Peer → PathAttr β → Option (PathAttr β)

/-- The node with what has been announced: the last message for zebra and the attributes last queued
for each neighbour. The last field records the attributes of the route that was announced last. -/
structure Announcing (β : Type) where
  node : NodeState β
  zebra : Option ZebraMsg
  adjOut : Peer → Option (PathAttr β)
  announced : Option (PathAttr β)

/-- The route at an address. -/
def routeAt (rn : List BgpInfo) (ptr : Option Nat) : Option BgpInfo :=
  rn.find? fun ri => ptr = some ri.ptr

section Announcing

variable {β : Type} (policy : Policy β)

/-- `bgp_process_announce_selected` for a neighbour. -/
def Policy.bgpProcessAnnounceSelected (node : NodeState β) (selected : Option BgpInfo) (peer : Peer)
    (adjOut : Option (PathAttr β)) : Option (PathAttr β) :=
  if peer ∉ policy.peers then adjOut
  else if policy.orfWaitRefresh peer then adjOut
  else selected.bind fun ri => policy.bgpAnnounceCheck peer ri.peer (node.pathOf ri)

/-- The message for zebra when the selected route changes. -/
def NodeState.fibUpdate (node : NodeState β) (old new : Option BgpInfo) : Option ZebraMsg :=
  match new.filter (·.FromUpdate) with
  | some new => some (node.pathOf new).bgpZebraAnnounce
  | none => (old.filter (·.FromUpdate)).map fun old => (node.pathOf old).bgpZebraWithdraw

/-- The message for zebra when the selected route stays. -/
def NodeState.refresh (node : NodeState β) (old : Option BgpInfo) : Option ZebraMsg :=
  (old.filter fun ri => (node.beyond ri.ptr).igpChanged).map fun ri =>
    (node.pathOf ri).bgpZebraAnnounce

/-- `bgp_process_main` with the announcements. -/
def Announcing.bgpProcessMain (s : Announcing β) : Except Fault (Announcing β) := do
  let (rn, result) ← bgpBestSelection (makeTrustFiles policy.bgp policy.files) policy.bgp s.node.rn
  let old := routeAt rn result.old
  let new := routeAt rn result.new
  if nothingToDo result rn then
    return { s with
      node := { s.node with rn := rn, queued := s.node.queued - 1 }
      zebra := (s.node.refresh old).or s.zebra }
  return {
    node :=
      { s.node with rn := reapOld result (moveSelected result rn), queued := s.node.queued - 1 }
    zebra := (s.node.fibUpdate old new).or s.zebra
    adjOut := fun peer => policy.bgpProcessAnnounceSelected s.node new peer (s.adjOut peer)
    announced := new.map s.node.pathOf }

/-- What happens to the node. -/
inductive RouteEvent (β : Type) where
  | update (update : Received β)
  | withdraw (withdrawal : Withdrawn)
  | process

variable [DecidableEq β]

/-- One event at the node. A fault ends the daemon. -/
def announcingStep : Except Fault (Announcing β) → RouteEvent β → Except Fault (Announcing β)
  | .error fault, _ => .error fault
  | .ok s, .update update => .ok { s with node := s.node.bgpUpdateMain update }
  | .ok s, .withdraw withdrawal => .ok { s with node := s.node.bgpWithdraw withdrawal }
  | .ok s, .process => if s.node.queued = 0 then .ok s else s.bgpProcessMain policy

omit [DecidableEq β] in
/-- An empty node. -/
def Announcing.start [Inhabited β] : Announcing β :=
  { node :=
      { rn := [], beyond := fun _ => { nexthop := 0, others := default, igpChanged := false },
        queued := 0, nextPtr := 0 }
    zebra := none
    adjOut := fun _ => none
    announced := none }

end Announcing

/-! ## Announcements that are up to date -/

section Follows

variable {β : Type} (policy : Policy β)

/-- The last message for zebra adds the selected route, and the attributes last queued for the
neighbours are those of the selected route, if nothing is queued. -/
def Announcing.Follows (s : Announcing β) : Prop :=
  s.node.queued = 0 → ∀ ri ∈ s.node.rn, ri.flags.selected = true → ri.FromUpdate →
    s.zebra = some (s.node.pathOf ri).bgpZebraAnnounce ∧
    ∀ peer ∈ policy.peers, ∀ out,
      policy.bgpAnnounceCheck peer ri.peer (s.node.pathOf ri) = some out →
        s.adjOut peer = some out

/-- What holds of every state that has not ended in a fault. -/
def Running {σ : Type} (property : σ → Prop) : Except Fault σ → Prop
  | .ok s => property s
  | .error _ => True

theorem Running.mono {σ : Type} {one two : σ → Prop} {state : Except Fault σ}
    (running : Running one state) (weaker : ∀ s, one s → two s) : Running two state := by
  cases state with
  | ok s => exact weaker s running
  | error fault => trivial

end Follows

/-! ## Routes after a change -/

/-- What an update or a withdrawal leaves of a route. -/
structure SameRoute (before after : BgpInfo) : Prop where
  mark_eq : after.mark = before.mark
  peer_eq : after.peer = before.peer
  type_eq : after.type = before.type
  subType_eq : after.subType = before.subType

variable {change : BgpInfo → BgpInfo}

section Routes

variable {next : Nat} {rn passed : List BgpInfo} {result : BgpInfoPair} {ri : BgpInfo}

/-- Where the addresses are distinct, the first route found is changed by its address. -/
theorem modifyFirst_eq_map {found : BgpInfo → Bool}
    (distinct : (rn.map BgpInfo.ptr).Nodup) (first : rn.find? found = some ri) :
    modifyFirst found change rn = rn.map fun r => if r.ptr = ri.ptr then change r else r := by
  induction rn with
  | nil => cases first
  | cons head rest ih =>
    rw [List.map_cons, List.nodup_cons] at distinct
    rw [modifyFirst, List.map_cons]
    by_cases here : found head = true
    · rw [List.find?_cons_of_pos here] at first
      obtain rfl := Option.some.inj first
      rw [if_pos here, if_pos rfl]
      congr 1
      refine (List.map_id rest).symm.trans (List.map_congr_left fun r mem => ?_)
      have other : r.ptr ≠ head.ptr := by
        intro same
        exact distinct.1 (same ▸ List.mem_map_of_mem mem)
      rw [if_neg other, id]
    · rw [List.find?_cons_of_neg here] at first
      have other : head.ptr ≠ ri.ptr := by
        intro same
        exact distinct.1 (same ▸ List.mem_map_of_mem (List.mem_of_find?_eq_some first))
      rw [if_neg here, if_neg other, ih distinct.2 first]

theorem routeAt_eq_some_iff (distinct : (rn.map BgpInfo.ptr).Nodup) {ptr : Option Nat} :
    routeAt rn ptr = some ri ↔ ri ∈ rn ∧ ptr = some ri.ptr := by
  constructor
  · intro found
    exact ⟨List.mem_of_find?_eq_some found, by simpa using List.find?_some found⟩
  · rintro ⟨mem, rfl⟩
    cases found : routeAt rn (some ri.ptr) with
    | none =>
      rw [routeAt, List.find?_eq_none] at found
      simpa using found ri mem
    | some other =>
      have same : some ri.ptr = some other.ptr := by simpa using List.find?_some found
      have otherMem : other ∈ rn := List.mem_of_find?_eq_some found
      rw [List.inj_on_of_nodup_map distinct mem otherMem (Option.some.inj same)]

section

variable (selection : SelectionResult rn passed result)

include selection

/-- A route that selection leaves is one of the node up to the marks of deterministic MED. -/
theorem SelectionResult.sameRoute (mem : ri ∈ passed) :
    ∃ origin ∈ rn, SameRoute origin ri ∧ origin.attr = ri.attr ∧
      origin.flags.attrChanged = ri.flags.attrChanged := by
  have cleared : ri.clearDmed ∈ (rn.filter BgpInfo.kept).map BgpInfo.clearDmed :=
    selection.rn_eq ▸ List.mem_map_of_mem mem
  obtain ⟨origin, originMem, same⟩ := List.mem_map.mp cleared
  have view {γ : Type} (field : BgpInfo → γ) : field origin.clearDmed = field ri.clearDmed :=
    congrArg field same
  exact ⟨origin, (List.mem_filter.mp originMem).1, ⟨(view BgpInfo.mark).symm,
    (view BgpInfo.peer).symm, (view BgpInfo.type).symm, (view BgpInfo.subType).symm⟩,
    view BgpInfo.attr, view (·.flags.attrChanged)⟩

theorem SelectionResult.distinct (inv : NodeInv next rn) : (passed.map BgpInfo.ptr).Nodup :=
  inv.distinct.sublist selection.ptr_sublist

theorem SelectionResult.selected_moved (inv : NodeInv next rn) :
    (ri ∈ reapOld result (moveSelected result passed) ∧ ri.flags.selected = true) ↔
      ∃ new, routeAt passed result.new = some new ∧ ri = moveOne result new := by
  constructor
  · rintro ⟨mem, selected⟩
    have isNew := (selection.processed_moved inv mem).selected_iff.mp selected
    rw [moveSelected_eq_map] at mem
    obtain ⟨before, beforeMem, rfl⟩ := List.mem_map.mp (List.mem_filter.mp mem).1
    exact ⟨before, (routeAt_eq_some_iff (selection.distinct inv)).mpr ⟨beforeMem, isNew⟩, rfl⟩
  · rintro ⟨new, found, rfl⟩
    obtain ⟨mem, isNew⟩ := (routeAt_eq_some_iff (selection.distinct inv)).mp found
    refine ⟨?_, by rw [moveOne_selected, if_pos isNew]⟩
    have usable := selection.usable inv mem isNew
    have present : new.flags.removed = false := by
      by_contra removed
      rw [holddown_of_removed (Bool.eq_true_of_not_eq_false removed)] at usable
      cases usable
    rw [reapOld, moveSelected_eq_map, List.mem_filter]
    refine ⟨List.mem_map_of_mem mem, ?_⟩
    rw [moveOne_removed, present, Bool.and_false, Bool.not_false]

end

end Routes

/-! ## The state in a run -/

section Invariant

variable {β : Type} (policy : Policy β)

/-- The announcements are those of the attributes recorded as announced. -/
structure Policy.Announced (s : Announcing β) (source : Peer) (announced : PathAttr β) : Prop where
  recorded : s.announced = some announced
  zebra_eq : s.zebra = some announced.bgpZebraAnnounce
  queued_eq : ∀ peer ∈ policy.peers, policy.orfWaitRefresh peer = false →
    s.adjOut peer = policy.bgpAnnounceCheck peer source announced

/-- The routes of the node have their addresses, at most one is selected, and all came in
updates. -/
structure NodeState.Wf (node : NodeState β) : Prop where
  routes : NodeInv node.nextPtr node.rn
  learned : ∀ ri ∈ node.rn, ri.FromUpdate

/-- In a run, the selected route is the one that was announced last, maybe with other attributes. -/
structure Policy.Inv (s : Announcing β) : Prop where
  node : s.node.Wf
  igp : ∀ ptr, (s.node.beyond ptr).igpChanged = false
  selected : ∀ ri ∈ s.node.rn, ri.flags.selected = true →
    ∃ announced, policy.Announced s ri.peer announced

/-- The selected route was announced with the attributes that it has, if `ATTR_CHANGED` is not set
or nothing is queued. -/
def Announcing.Current (s : Announcing β) : Prop :=
  ∀ ri ∈ s.node.rn, ri.flags.selected = true → ri.flags.attrChanged = false ∨ s.node.queued = 0 →
    s.announced = some (s.node.pathOf ri)

variable {policy} {s : Announcing β}

theorem Policy.Inv.follows (inv : policy.Inv s)
    (immediate : ∀ peer ∈ policy.peers, policy.orfWaitRefresh peer = false)
    (current : s.Current) : s.Follows policy := by
  intro empty ri mem isSelected _
  obtain ⟨announced, shown⟩ := inv.selected ri mem isSelected
  obtain rfl : announced = s.node.pathOf ri :=
    Option.some.inj (shown.recorded.symm.trans (current ri mem isSelected (.inr empty)))
  refine ⟨shown.zebra_eq, fun peer peerMem out check => ?_⟩
  rw [shown.queued_eq peer peerMem (immediate peer peerMem), check]

theorem NodeState.Wf.start [Inhabited β] : (Announcing.start : Announcing β).node.Wf :=
  ⟨⟨List.nodup_nil, fun _ none => (by cases none), fun _ none => (by cases none)⟩,
    fun _ none => (by cases none)⟩

theorem Policy.Inv.start [Inhabited β] : policy.Inv (Announcing.start : Announcing β) :=
  ⟨.start, fun _ => rfl, fun _ none => (by cases none)⟩

/-! ### Updates and withdrawals -/

variable {after ri : BgpInfo} {node : NodeState β} {peer : Peer}

theorem bgpRibRemove_same (ri : BgpInfo) : SameRoute ri (bgpRibRemove ri) := by
  unfold bgpRibRemove
  split_ifs <;> exact ⟨rfl, rfl, rfl, rfl⟩

theorem Received.again_same (update : Received β) (ri : BgpInfo) :
    SameRoute ri (update.again ri) := by
  unfold Received.again
  split_ifs <;> exact ⟨rfl, rfl, rfl, rfl⟩

theorem Received.replace_same (update : Received β) (ri : BgpInfo) :
    SameRoute ri (update.replace ri) := ⟨rfl, rfl, rfl, rfl⟩

theorem Withdrawn.withdraw_same (withdrawal : Withdrawn) (ri : BgpInfo) :
    SameRoute ri (withdrawal.withdraw ri) := by
  unfold Withdrawn.withdraw
  split_ifs <;> exact ⟨rfl, rfl, rfl, rfl⟩

section

variable {before : BgpInfo} (same : SameRoute before after)
include same

theorem SameRoute.ptr_eq :
    after.ptr = before.ptr := congrArg Prod.fst same.mark_eq

theorem SameRoute.selected_eq :
    after.flags.selected = before.flags.selected := congrArg Prod.snd same.mark_eq

theorem SameRoute.fromUpdate (learned : before.FromUpdate) : after.FromUpdate :=
  ⟨same.type_eq.trans learned.1, same.subType_eq.trans learned.2⟩

end

variable {rn : List BgpInfo}

theorem mem_modifyFirst {next : Nat} (inv : NodeInv next rn)
    {found : BgpInfo → Bool} (first : rn.find? found = some ri)
    (mem : after ∈ modifyFirst found change rn) :
    after = change ri ∨ after ∈ rn ∧ after.ptr ≠ ri.ptr := by
  rw [modifyFirst_eq_map inv.distinct first] at mem
  obtain ⟨before, beforeMem, rfl⟩ := List.mem_map.mp mem
  split_ifs with same
  · rw [inv.eq_of_ptr beforeMem (List.mem_of_find?_eq_some first) same]
    exact .inl rfl
  · exact .inr ⟨beforeMem, same⟩

/-- A node after an update or a withdrawal. A selected route was there before. -/
structure NodeState.Succeeds (node after : NodeState β) : Prop where
  wf : after.Wf
  igp_eq : ∀ ptr, (after.beyond ptr).igpChanged = (node.beyond ptr).igpChanged
  origin : ∀ route ∈ after.rn, route.flags.selected = true →
    ∃ before ∈ node.rn, SameRoute before route

theorem NodeState.Wf.stays (wf : node.Wf) : node.Succeeds node :=
  ⟨wf, fun _ => rfl, fun route mem _ => ⟨route, mem, rfl, rfl, rfl, rfl⟩⟩

theorem NodeState.Wf.changed {after : NodeState β} (wf : node.Wf)
    (same : ∀ ri, SameRoute ri (change ri)) (found : node.rn.find? (learnedFrom peer) = some ri)
    (rn_eq : after.rn = modifyFirst (learnedFrom peer) change node.rn)
    (igp_eq : ∀ ptr, (after.beyond ptr).igpChanged = (node.beyond ptr).igpChanged)
    (nextPtr_eq : after.nextPtr = node.nextPtr) : node.Succeeds after := by
  have origin : ∀ route ∈ after.rn, ∃ before ∈ node.rn, SameRoute before route := by
    intro route mem
    rw [rn_eq] at mem
    rcases mem_modifyFirst wf.routes found mem with rfl | ⟨mem, -⟩
    · exact ⟨ri, List.mem_of_find?_eq_some found, same ri⟩
    · exact ⟨route, mem, rfl, rfl, rfl, rfl⟩
  refine ⟨⟨?_, fun route mem => ?_⟩, igp_eq, fun route mem _ => origin route mem⟩
  · rw [nextPtr_eq, rn_eq]
    exact wf.routes.of_marks (map_modifyFirst _ (fun ri => (same ri).mark_eq) _)
  · obtain ⟨before, beforeMem, route⟩ := origin route mem
    exact route.fromUpdate (wf.learned before beforeMem)

theorem Policy.Inv.succeeds (inv : policy.Inv s) (step : s.node.Succeeds node) :
    policy.Inv { s with node := node } := by
  refine ⟨step.wf, fun ptr => (step.igp_eq ptr).trans (inv.igp ptr), fun after mem isSelected => ?_⟩
  obtain ⟨before, beforeMem, route⟩ := step.origin after mem isSelected
  obtain ⟨announced, shown⟩ := inv.selected before beforeMem (route.selected_eq ▸ isSelected)
  rw [route.peer_eq]
  exact ⟨announced, shown.recorded, shown.zebra_eq, shown.queued_eq⟩

theorem NodeState.pathOf_change (same : ∀ ri, SameRoute ri (change ri))
    (attr_eq : (change ri).attr = ri.attr) (queues : Bool) :
    (node.change peer change queues).pathOf (change ri) = node.pathOf ri := by
  rw [NodeState.pathOf, attr_eq, (same ri).ptr_eq]
  rfl

theorem Announcing.Current.changed (current : s.Current) (inv : policy.Inv s)
    (same : ∀ ri, SameRoute ri (change ri)) (queues : Bool)
    (found : s.node.rn.find? (learnedFrom peer) = some ri) (attr_eq : (change ri).attr = ri.attr)
    (set : ri.flags.selected = true → (change ri).flags.attrChanged = false →
      ri.flags.attrChanged = false) :
    Announcing.Current { s with node := s.node.change peer change queues } := by
  intro after mem isSelected settled
  have before : (s.node.change peer change queues).queued = 0 → s.node.queued = 0 := by
    dsimp only [NodeState.change]
    split_ifs
    · exact False.elim
    · exact id
  rcases mem_modifyFirst inv.node.routes found mem with rfl | ⟨mem, -⟩
  · rw [(same ri).selected_eq] at isSelected
    have announced := current ri (List.mem_of_find?_eq_some found) isSelected
      (settled.imp (set isSelected) before)
    rw [NodeState.pathOf_change same attr_eq]
    exact announced
  · exact current after mem isSelected (settled.imp_right before)

@[simp] theorem NodeState.store_beyond_ne {ptr other : Nat} (ne : other ≠ ptr) (path : PathAttr β) :
    (node.store ptr path).beyond other = node.beyond other :=
  Function.update_of_ne ne _ _

theorem NodeState.store_beyond_self (node : NodeState β) (ptr : Nat) (path : PathAttr β) :
    (node.store ptr path).beyond ptr =
      { nexthop := path.nexthop, others := path.others,
        igpChanged := (node.beyond ptr).igpChanged } :=
  Function.update_self ..

theorem NodeState.store_igpChanged (node : NodeState β) (ptr other : Nat) (path : PathAttr β) :
    ((node.store ptr path).beyond other).igpChanged = (node.beyond other).igpChanged := by
  by_cases same : other = ptr
  · rw [same, NodeState.store_beyond_self]
  · rw [NodeState.store_beyond_ne same]

theorem NodeState.store_pathOf_ne {ptr : Nat} (ne : ri.ptr ≠ ptr) (path : PathAttr β) :
    (node.store ptr path).pathOf ri = node.pathOf ri := by
  rw [NodeState.pathOf, NodeState.pathOf, NodeState.store_beyond_ne ne]

/-- The node with a new route, which is not selected. -/
def NodeState.add (node : NodeState β) (update : Received β) (queued : Nat) : NodeState β :=
  { (node.store node.nextPtr update.path) with
    rn := update.newRoute node.nextPtr :: node.rn
    queued := queued
    nextPtr := node.nextPtr + 1 }

theorem NodeState.Wf.added (wf : node.Wf) (update : Received β) (queued : Nat) :
    node.Succeeds (node.add update queued) := by
  refine ⟨⟨wf.routes.add rfl rfl, fun ri mem => ?_⟩,
    fun ptr => node.store_igpChanged _ ptr update.path, fun ri mem isSelected => ?_⟩
  · rcases List.mem_cons.mp mem with rfl | mem
    · exact ⟨rfl, rfl⟩
    · exact wf.learned ri mem
  · rcases List.mem_cons.mp mem with rfl | mem
    · cases isSelected
    · exact ⟨ri, mem, rfl, rfl, rfl, rfl⟩

theorem Announcing.Current.added (current : s.Current) (inv : policy.Inv s)
    (update : Received β) {queued : Nat} (more : s.node.queued ≤ queued) :
    Announcing.Current { s with node := s.node.add update queued } := by
  intro ri mem isSelected settled
  rcases List.mem_cons.mp mem with rfl | mem
  · cases isSelected
  · rw [current ri mem isSelected (settled.imp_right fun empty : queued = 0 => by omega)]
    exact congrArg some
      (NodeState.store_pathOf_ne (inv.node.routes.below ri mem).ne update.path).symm

/-- New attributes of the selected route need an item in the queue. -/
theorem Announcing.Current.replaced (current : s.Current) (inv : policy.Inv s)
    (update : Received β) (found : s.node.rn.find? (learnedFrom update.peer) = some ri)
    (waits : ri.flags.selected = true → update.held = true → s.node.queued ≠ 0) :
    Announcing.Current { s with node :=
        (s.node.store ri.ptr update.path).change update.peer update.replace !update.held } := by
  intro route mem isSelected settled
  have before (empty : ((s.node.store ri.ptr update.path).change update.peer update.replace
      !update.held).queued = 0) : update.held = true ∧ s.node.queued = 0 := by
    cases held : update.held with
    | false =>
      rw [held] at empty
      exact absurd empty (Nat.succ_ne_zero _)
    | true =>
      rw [held] at empty
      exact ⟨rfl, empty⟩
  rcases mem_modifyFirst inv.node.routes found mem with rfl | ⟨mem, ne⟩
  · obtain ⟨held, none⟩ := before (settled.resolve_left nofun)
    exact absurd none (waits isSelected held)
  · rw [current route mem isSelected (settled.imp_right fun empty => (before empty).2)]
    exact congrArg some (NodeState.store_pathOf_ne ne update.path).symm

theorem bgpRibRemove_attr (ri : BgpInfo) : (bgpRibRemove ri).attr = ri.attr := by
  unfold bgpRibRemove
  split_ifs <;> rfl

theorem Received.again_attr (update : Received β) (ri : BgpInfo) :
    (update.again ri).attr = ri.attr := by
  unfold Received.again
  split_ifs <;> rfl

theorem Withdrawn.withdraw_attr (withdrawal : Withdrawn) (ri : BgpInfo) :
    (withdrawal.withdraw ri).attr = ri.attr := by
  unfold Withdrawn.withdraw
  split_ifs <;> rfl

variable [DecidableEq β]

/-- **An event that loses no change of the selected route.** No copy of an update finds
`ATTR_CHANGED` set at the selected route, and no update that dampening suppresses replaces its
attributes while nothing is queued. -/
def ChangeKept : Except Fault (Announcing β) → RouteEvent β → Prop
  | .ok s, .update update =>
    update.filtered = false → ∀ ri, s.node.rn.find? (learnedFrom update.peer) = some ri →
      ri.flags.selected = true →
        if s.node.repeats update ri then ri.flags.attrChanged = false
        else update.held = true → s.node.queued ≠ 0
  | _, _ => True

theorem Announcing.Current.update (current : s.Current) (inv : policy.Inv s)
    {update : Received β} (kept : ChangeKept (.ok s) (.update update)) :
    Announcing.Current { s with node := s.node.bgpUpdateMain update } := by
  unfold NodeState.bgpUpdateMain
  cases found : s.node.rn.find? (learnedFrom update.peer) with
  | none =>
    split_ifs
    · exact current
    · exact current.added inv update le_rfl
    · exact current.added inv update (Nat.le_succ _)
  | some ri =>
    have kept' (unfiltered : ¬ update.filtered = true) :=
      kept (Bool.eq_false_of_not_eq_true unfiltered) ri found
    dsimp only
    split_ifs with filtered repeats
    · refine current.changed inv bgpRibRemove_same true found (bgpRibRemove_attr ri) ?_
      unfold bgpRibRemove
      split_ifs <;> exact fun _ unset => unset
    · refine current.changed inv update.again_same _ found (update.again_attr ri) ?_
      intro isSelected _
      have unset := kept' filtered isSelected
      rw [if_pos repeats] at unset
      exact unset
    · refine current.replaced inv update found fun isSelected => ?_
      have waits := kept' filtered isSelected
      rw [if_neg repeats] at waits
      exact waits

theorem NodeState.Wf.bgpUpdateMain (wf : node.Wf) (update : Received β) :
    node.Succeeds (node.bgpUpdateMain update) := by
  unfold NodeState.bgpUpdateMain
  cases found : node.rn.find? (learnedFrom update.peer) with
  | none =>
    split_ifs
    · exact wf.stays
    · exact wf.added update _
    · exact wf.added update _
  | some ri =>
    dsimp only
    split_ifs
    · exact wf.changed bgpRibRemove_same found rfl (fun _ => rfl) rfl
    · exact wf.changed update.again_same found rfl (fun _ => rfl) rfl
    · exact wf.changed update.replace_same found rfl
        (fun ptr => node.store_igpChanged _ ptr update.path) rfl

omit [DecidableEq β] in
theorem NodeState.Wf.bgpWithdraw (wf : node.Wf) (withdrawal : Withdrawn) :
    node.Succeeds (node.bgpWithdraw withdrawal) := by
  unfold NodeState.bgpWithdraw
  cases found : node.rn.find? (learnedFrom withdrawal.peer) with
  | none => exact wf.stays
  | some ri => exact wf.changed withdrawal.withdraw_same found rfl (fun _ => rfl) rfl

omit [DecidableEq β] in
theorem Announcing.Current.withdraw (current : s.Current) (inv : policy.Inv s)
    (withdrawal : Withdrawn) :
    Announcing.Current { s with node := s.node.bgpWithdraw withdrawal } := by
  unfold NodeState.bgpWithdraw
  cases found : s.node.rn.find? (learnedFrom withdrawal.peer) with
  | none => exact current
  | some ri =>
    refine current.changed inv withdrawal.withdraw_same _ found (withdrawal.withdraw_attr ri) ?_
    unfold Withdrawn.withdraw
    split_ifs <;> exact fun _ unset => unset

/-! ### Processing -/

omit [DecidableEq β] in
/-- The selected route stays, and nothing is announced. -/
def Announcing.keep (s : Announcing β) (rn : List BgpInfo) (result : BgpInfoPair) : Announcing β :=
  { s with
    node := { s.node with rn := rn, queued := s.node.queued - 1 }
    zebra := (s.node.refresh (routeAt rn result.old)).or s.zebra }

omit [DecidableEq β] in
/-- The new route is announced. -/
def Policy.move (policy : Policy β) (s : Announcing β) (rn : List BgpInfo) (result : BgpInfoPair) :
    Announcing β where
  node := { s.node with rn := reapOld result (moveSelected result rn), queued := s.node.queued - 1 }
  zebra := (s.node.fibUpdate (routeAt rn result.old) (routeAt rn result.new)).or s.zebra
  adjOut peer :=
    policy.bgpProcessAnnounceSelected s.node (routeAt rn result.new) peer (s.adjOut peer)
  announced := (routeAt rn result.new).map s.node.pathOf

omit [DecidableEq β] in
/-- The two ways in which `bgp_process_main` ends. -/
theorem Announcing.bgpProcessMain_cases {s' : Announcing β}
    (processed : s.bgpProcessMain policy = .ok s') :
    ∃ rn result,
      bgpBestSelection (makeTrustFiles policy.bgp policy.files) policy.bgp s.node.rn =
        .ok (rn, result) ∧
      (nothingToDo result rn = true ∧ s' = s.keep rn result ∨
        nothingToDo result rn = false ∧ s' = policy.move s rn result) := by
  unfold Announcing.bgpProcessMain at processed
  cases selected :
      bgpBestSelection (makeTrustFiles policy.bgp policy.files) policy.bgp s.node.rn with
  | error fault =>
    rw [selected] at processed
    cases processed
  | ok selection =>
    obtain ⟨rn, result⟩ := selection
    refine ⟨rn, result, rfl, ?_⟩
    rw [selected, ok_bind] at processed
    dsimp only at processed
    split_ifs at processed with nothing
    · exact .inl ⟨nothing, (Except.ok.inj processed).symm⟩
    · exact .inr ⟨Bool.eq_false_of_not_eq_true nothing, (Except.ok.inj processed).symm⟩

variable {result : BgpInfoPair}

omit [DecidableEq β] in
theorem Announcing.bgpProcessMain_ok
    (selected : bgpBestSelection (makeTrustFiles policy.bgp policy.files) policy.bgp s.node.rn =
      .ok (rn, result)) : ∃ s', s.bgpProcessMain policy = .ok s' := by
  unfold Announcing.bgpProcessMain
  rw [selected, ok_bind]
  dsimp only
  split_ifs <;> exact ⟨_, rfl⟩

section Processed

variable {rn : List BgpInfo} {result : BgpInfoPair}

omit [DecidableEq β]

variable {node : NodeState β}

theorem SelectionResult.fromUpdate (selection : SelectionResult node.rn rn result) (wf : node.Wf)
    {ri : BgpInfo} (mem : ri ∈ rn) : ri.FromUpdate := by
  obtain ⟨origin, originMem, route, -⟩ := selection.sameRoute mem
  exact route.fromUpdate (wf.learned origin originMem)

theorem NodeState.Wf.kept {node : NodeState β} (wf : node.Wf)
    (selection : SelectionResult node.rn rn result) (nothing : nothingToDo result rn = true)
    (queued : Nat) : NodeState.Wf { node with rn := rn, queued := queued } :=
  ⟨wf.routes.of_processed selection.ptr_sublist fun _ mem =>
      selection.processed_same wf.routes (same_of_nothingToDo nothing) mem,
    fun _ mem => selection.fromUpdate wf mem⟩

theorem NodeState.Wf.moved (wf : node.Wf) (selection : SelectionResult node.rn rn result)
    (queued : Nat) :
    NodeState.Wf
      { node with rn := reapOld result (moveSelected result rn), queued := queued } := by
  refine ⟨?_, fun ri mem => ?_⟩
  · exact wf.routes.of_processed selection.moved_sublist fun ri mem =>
      selection.processed_moved wf.routes mem
  · rw [moveSelected_eq_map] at mem
    obtain ⟨before, beforeMem, rfl⟩ := List.mem_map.mp (List.mem_filter.mp mem).1
    have learned : before.FromUpdate := selection.fromUpdate wf beforeMem
    exact learned

section

variable (inv : policy.Inv s)
include inv

theorem Policy.Inv.refresh_none (old : Option BgpInfo) :
    s.node.refresh old = none := by
  cases old with
  | none => rfl
  | some ri => simp [NodeState.refresh, inv.igp]

theorem Policy.Inv.kept (selection : SelectionResult s.node.rn rn result)
    (nothing : nothingToDo result rn = true) : policy.Inv (s.keep rn result) := by
  rw [Announcing.keep, inv.refresh_none]
  refine ⟨inv.node.kept selection nothing _, inv.igp, fun ri mem isSelected => ?_⟩
  obtain ⟨origin, originMem, route, -⟩ := selection.sameRoute mem
  obtain ⟨announced, shown⟩ := inv.selected origin originMem (route.selected_eq ▸ isSelected)
  rw [route.peer_eq]
  exact ⟨announced, shown.recorded, shown.zebra_eq, shown.queued_eq⟩

omit inv in
theorem Policy.announced_selected {new : BgpInfo} (learned : new.FromUpdate)
    {old : Option BgpInfo} :
    policy.Announced
      { node := node
        zebra := (s.node.fibUpdate old (some new)).or s.zebra
        adjOut := fun peer =>
          policy.bgpProcessAnnounceSelected s.node (some new) peer (s.adjOut peer)
        announced := some (s.node.pathOf new) } new.peer (s.node.pathOf new) := by
  refine ⟨rfl, ?_, fun peer mem immediate => ?_⟩
  · simp [NodeState.fibUpdate, Option.filter, learned]
  · simp [Policy.bgpProcessAnnounceSelected, mem, immediate]

theorem Policy.Inv.moved (selection : SelectionResult s.node.rn rn result) :
    policy.Inv (policy.move s rn result) := by
  refine ⟨inv.node.moved selection _, inv.igp, fun ri mem isSelected => ?_⟩
  obtain ⟨new, found, rfl⟩ := (selection.selected_moved inv.node.routes).mp ⟨mem, isSelected⟩
  rw [Policy.move, found]
  have learned := selection.fromUpdate inv.node (List.mem_of_find?_eq_some found)
  exact ⟨_, Policy.announced_selected learned⟩

theorem Policy.Inv.process {s' : Announcing β} (processed : s.bgpProcessMain policy = .ok s') :
    policy.Inv s' := by
  obtain ⟨rn, result, selected, ⟨nothing, rfl⟩ | ⟨nothing, rfl⟩⟩ :=
    Announcing.bgpProcessMain_cases processed
  · have selection := (bgpBestSelection_result inv.node.routes.distinct).of_ok selected
    exact inv.kept selection nothing
  · have selection := (bgpBestSelection_result inv.node.routes.distinct).of_ok selected
    exact inv.moved selection

end

end Processed

omit [DecidableEq β] in
/-- **Whatever `bgp_process_main` does, it leaves the selected route announced with its
attributes.** If it does nothing, `ATTR_CHANGED` is not set, and the attributes are those announced
before. -/
theorem Announcing.Current.process (current : s.Current) (inv : policy.Inv s) {s' : Announcing β}
    (processed : s.bgpProcessMain policy = .ok s') : s'.Current := by
  intro ri mem isSelected _
  obtain ⟨rn, result, selected, ⟨nothing, rfl⟩ | ⟨nothing, rfl⟩⟩ :=
    Announcing.bgpProcessMain_cases processed
  · have selection := (bgpBestSelection_result inv.node.routes.distinct).of_ok selected
    have isOld := (selection.old_iff inv.node.routes mem).mpr isSelected
    simp only [nothingToDo, Bool.and_eq_true, Bool.not_eq_true', List.any_eq_false] at nothing
    have unset : result.old = some ri.ptr → ri.flags.attrChanged = false := by
      simpa using nothing.2 ri mem
    obtain ⟨origin, originMem, route, attr_eq, changed_eq⟩ := selection.sameRoute mem
    have announced := current origin originMem (route.selected_eq ▸ isSelected)
      (.inl (changed_eq.trans (unset isOld)))
    rw [NodeState.pathOf, attr_eq, ← route.ptr_eq] at announced
    exact announced
  · have selection := (bgpBestSelection_result inv.node.routes.distinct).of_ok selected
    obtain ⟨new, found, rfl⟩ := (selection.selected_moved inv.node.routes).mp ⟨mem, isSelected⟩
    rw [Policy.move, found]
    rfl

/-! ## Runs -/

variable (policy) in
omit [DecidableEq β] in
/-- What holds in a run in which no change is lost. -/
structure Policy.Kept (s : Announcing β) : Prop where
  inv : policy.Inv s
  current : s.Current

theorem Policy.Kept.step (kept : policy.Kept s) {event : RouteEvent β}
    (change : ChangeKept (.ok s) event) :
    Running policy.Kept (announcingStep policy (.ok s) event) := by
  obtain ⟨inv, current⟩ := kept
  cases event with
  | update update =>
    exact ⟨inv.succeeds (inv.node.bgpUpdateMain update), current.update inv change⟩
  | withdraw withdrawal =>
    exact ⟨inv.succeeds (inv.node.bgpWithdraw withdrawal), current.withdraw inv withdrawal⟩
  | process =>
    rw [announcingStep]
    split_ifs
    · exact ⟨inv, current⟩
    · cases processed : s.bgpProcessMain policy with
      | error fault => trivial
      | ok s' => exact ⟨inv.process processed, current.process inv processed⟩

theorem Policy.kept_of_changeKept [Inhabited β] {history : List (RouteEvent β)}
    (changes : EachMeets (announcingStep policy) (.ok Announcing.start) ChangeKept history) :
    Throughout (announcingStep policy) (.ok Announcing.start) (Running policy.Kept) history := by
  rintro before later rfl
  refine changes.of_append.invariant (Running policy.Kept) ?_ ?_
  · exact ⟨Policy.Inv.start, fun _ none => (by cases none)⟩
  · intro state event holds change
    cases state with
    | error fault => trivial
    | ok s => exact holds.step change

/-- **The neighbours and the FIB have the selected route whenever nothing is queued**, in every run
in which no announcement is deferred and no event loses a change. -/
theorem follows_of_changeKept [Inhabited β]
    (immediate : ∀ peer ∈ policy.peers, policy.orfWaitRefresh peer = false)
    {history : List (RouteEvent β)}
    (changes : EachMeets (announcingStep policy) (.ok Announcing.start) ChangeKept history) :
    Throughout (announcingStep policy) (.ok Announcing.start)
      (Running (Announcing.Follows policy)) history := by
  intro before later split
  have kept := Policy.kept_of_changeKept changes split
  exact kept.mono fun s facts => facts.inv.follows immediate facts.current

/-- No copy of an update finds `ATTR_CHANGED` set at the selected route, and dampening is off. -/
def Undisturbed : Except Fault (Announcing β) → RouteEvent β → Prop
  | .ok s, .update update =>
    update.dampening = false ∧
      ∀ ri, s.node.rn.find? (learnedFrom update.peer) = some ri → ri.flags.selected = true →
        s.node.repeats update ri = true → ri.flags.attrChanged = false
  | _, _ => True

theorem Undisturbed.changeKept {state : Except Fault (Announcing β)} {event : RouteEvent β}
    (undisturbed : Undisturbed state event) : ChangeKept state event := by
  cases state with
  | error fault => trivial
  | ok s =>
    cases event with
    | update update =>
      intro _ ri found isSelected
      split_ifs with repeats
      · exact undisturbed.2 ri found isSelected repeats
      · intro held
        simp [Received.held, undisturbed.1] at held
    | withdraw withdrawal => trivial
    | process => trivial

/-- **Without dampening, in the runs in which no copy of an update finds `ATTR_CHANGED` set, the
neighbours and the FIB have the selected route when nothing is queued.** -/
theorem neighbours_follow [Inhabited β]
    (immediate : ∀ peer ∈ policy.peers, policy.orfWaitRefresh peer = false)
    {history : List (RouteEvent β)}
    (undisturbed : EachMeets (announcingStep policy) (.ok Announcing.start) Undisturbed history) :
    Throughout (announcingStep policy) (.ok Announcing.start)
      (Running (Announcing.Follows policy)) history := by
  intro before later split
  have changes : EachMeets (announcingStep policy) (.ok Announcing.start) ChangeKept history :=
    fun _ _ _ split => (undisturbed split).changeKept
  have kept := Policy.kept_of_changeKept changes split
  exact kept.mono fun s facts => facts.inv.follows immediate facts.current

end Invariant

/-! ## A copy that loses a change -/

/-- A path with a next hop and a MED. -/
def pathWith (nexthop med : Nat) : PathAttr Unit :=
  { attr := { plainAttr with med := some med }, nexthop := nexthop, others := () }

/-- An update that no filter refuses. -/
def acceptedUpdate (as : Nat) (path : PathAttr Unit) (reachable : Bool) : Received Unit :=
  { peer := neighbour as, path := path, filtered := false, reachable := reachable,
    igpMetric := none, dampening := false, damped := false, suppressed := false, overflow := false }

/-- The neighbour in AS 3 gets every route from other neighbours. -/
def openPolicy : Policy Unit :=
  { bgp := plainBgp, files := filesOf (fun _ => 50) fun _ => none, peers := [neighbour 3],
    orfWaitRefresh := fun _ => false,
    bgpAnnounceCheck := fun peer source path => if peer = source then none else some path }

/-- A change that is announced before a copy of its update arrives is not lost. -/
theorem follows_of_changeKept_copy :
    Throughout (announcingStep openPolicy) (.ok Announcing.start)
      (Running (Announcing.Follows openPolicy))
      [.update (acceptedUpdate 2 (pathWith 7 10) true), .process,
        .update (acceptedUpdate 2 (pathWith 8 20) true), .process,
        .update (acceptedUpdate 2 (pathWith 8 20) true)] := by
  refine follows_of_changeKept (fun _ _ => rfl) ?_
  refine eachMeets_cons.mpr ⟨fun _ ri found => (by cases found), ?_⟩
  refine eachMeets_cons.mpr ⟨trivial, eachMeets_cons.mpr ⟨fun _ ri found _ => ?_, ?_⟩⟩
  · cases found
    exact fun held => (by cases held)
  · refine eachMeets_cons.mpr ⟨trivial, eachMeets_cons.mpr ⟨fun _ ri found _ => ?_, eachMeets_nil⟩⟩
    cases found
    exact rfl

theorem neighbours_follow_first : Throughout (announcingStep openPolicy) (.ok Announcing.start)
    (Running (Announcing.Follows openPolicy))
    [.update (acceptedUpdate 2 (pathWith 7 10) true), .process] := by
  refine neighbours_follow (fun _ _ => rfl) (eachMeets_cons.mpr ⟨⟨rfl, fun ri found => ?_⟩, ?_⟩)
  · cases found
  · exact eachMeets_cons.mpr ⟨trivial, eachMeets_nil⟩

/-- **A copy of an update that arrives before the queue runs loses the change.** Afterwards the
queue is empty, and zebra and the neighbour still have the old next hop and MED. -/
theorem duplicate_loses_change :
    ∃ s, afterAll (announcingStep openPolicy) (.ok Announcing.start)
        [.update (acceptedUpdate 2 (pathWith 7 10) true), .process,
          .update (acceptedUpdate 2 (pathWith 8 20) true),
          .update (acceptedUpdate 2 (pathWith 8 20) true), .process] = .ok s ∧
      s.node.queued = 0 ∧
      (∃ ri ∈ s.node.rn, ri.flags.selected = true ∧ ri.FromUpdate ∧
        s.node.pathOf ri = pathWith 8 20) ∧
      s.zebra = some (.add 7 10) ∧ s.adjOut (neighbour 3) = some (pathWith 7 10) ∧
      ¬ s.Follows openPolicy := by
  refine ⟨_, rfl, rfl, ⟨_, List.mem_singleton_self _, rfl, ⟨rfl, rfl⟩, rfl⟩, rfl, rfl, ?_⟩
  intro follows
  have wrong := (follows rfl _ (List.mem_singleton_self _) rfl ⟨rfl, rfl⟩).1
  revert wrong
  decide

end Quagga.Bgpd
