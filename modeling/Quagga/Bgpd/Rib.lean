import Quagga.Library.Traces
import Quagga.Bgpd.BestSelection

/-!
# The routing table under updates

The routes of the RIB nodes change by updates and withdrawals from configured neighbours, by
local routes that `network`, `redistribute` and `aggregate-address` put in, and by next-hop
scanning and dampening, which set and unset the flags of a route. All local routes are
stored under `bgp->peer_self`. The work queue then processes a node: it makes the trust
files that are not there yet, selects the best route and moves the `SELECTED` flag to it.

A node stands for a node of the main table or of the table of a route-server client. What the
filters of incoming updates, route maps and the next-hop lookup decide about an update is
part of the event here.
-/

set_option autoImplicit false

namespace Quagga.Bgpd

open Lib Library

/-! ## Peers and routes -/

/-- `bgp->peer_self`: a peer as `peer_new` allocates it, zeroed. Its address is null, and no
comparison gets as far as to read it. -/
def peerSelf : Peer :=
  { host := 0, as := 0, localAs := 0, group := none, remoteId := 0, suRemote := .inet 0 }

/-- `ZEBRA_ROUTE_BGP`. -/
def zebraRouteBgp : Nat := 9

/-- The flags of `bgp_info_new`. -/
def newFlags : InfoFlags :=
  { damped := false, history := false, selected := false, valid := false, attrChanged := false,
    dmedCheck := false, dmedSelected := false, stale := false, removed := false }

/-- `bgp_info_delete`. -/
def bgpInfoDelete (ri : BgpInfo) : BgpInfo :=
  { ri with flags := { ri.flags with removed := true, valid := false } }

/-- `bgp_info_restore`. -/
def bgpInfoRestore (ri : BgpInfo) : BgpInfo :=
  { ri with flags := { ri.flags with removed := false, valid := true } }

/-- `bgp_rib_remove`: the route stays as history if it is history already. -/
def bgpRibRemove (ri : BgpInfo) : BgpInfo := if ri.flags.history then ri else bgpInfoDelete ri

/-- Change the first route of a node that a search finds. -/
def modifyFirst (found : BgpInfo → Bool) (change : BgpInfo → BgpInfo) :
    List BgpInfo → List BgpInfo
  | [] => []
  | ri :: rest => if found ri then change ri :: rest else ri :: modifyFirst found change rest

theorem map_modifyFirst {β : Type} {view : BgpInfo → β} (found : BgpInfo → Bool)
    {change : BgpInfo → BgpInfo} (keeps : ∀ ri, view (change ri) = view ri) (rn : List BgpInfo) :
    (modifyFirst found change rn).map view = rn.map view := by
  induction rn with
  | nil => rfl
  | cons ri rest ih =>
    rw [modifyFirst]
    split_ifs
    · rw [List.map_cons, List.map_cons, keeps]
    · rw [List.map_cons, List.map_cons, ih]

theorem any_modifyFirst {test found : BgpInfo → Bool} {change : BgpInfo → BgpInfo}
    (keeps : ∀ ri, test (change ri) = true → test ri = true) {rn : List BgpInfo}
    (none : rn.any test = false) : (modifyFirst found change rn).any test = false := by
  induction rn with
  | nil => rfl
  | cons ri rest ih =>
    rw [List.any_cons, Bool.or_eq_false_iff] at none
    rw [modifyFirst]
    split_ifs
    · rw [List.any_cons, none.2, Bool.or_false, Bool.eq_false_iff]
      exact fun changed => by simp [keeps ri changed] at none
    · rw [List.any_cons, none.1, ih none.2, Bool.or_false]

/-! ## Learned routes -/

/-- The route that an update from this peer replaces. -/
def learnedFrom (peer : Peer) (ri : BgpInfo) : Bool :=
  ri.peer = peer ∧ ri.type = zebraRouteBgp ∧ ri.subType = .normal

/-- An update for a route that is there already. -/
def implicitWithdraw (attr : Attr) (reachable : Bool) (ri : BgpInfo) : BgpInfo :=
  if !ri.flags.removed && ri.attr = attr then
    { ri with flags := { ri.flags with attrChanged := false, stale := false } }
  else
    let ri := if ri.flags.removed then bgpInfoRestore ri else ri
    { ri with attr := attr,
              flags := { ri.flags with stale := false, attrChanged := true, valid := reachable } }

/-- `bgp_update_main` at a node, with the address of a newly allocated route. -/
def bgpUpdateMain (peer : Peer) (attr : Attr) (filtered reachable : Bool) (ptr : Nat)
    (rn : List BgpInfo) : List BgpInfo :=
  if filtered then modifyFirst (learnedFrom peer) bgpRibRemove rn
  else if rn.any (learnedFrom peer) then
    modifyFirst (learnedFrom peer) (implicitWithdraw attr reachable) rn
  else
    { ptr := ptr, peer := peer, attr := attr, extra := none, type := zebraRouteBgp,
      subType := .normal, flags := { newFlags with valid := reachable } } :: rn

/-- `bgp_withdraw` at a node. -/
def bgpWithdraw (peer : Peer) (rn : List BgpInfo) : List BgpInfo :=
  modifyFirst (learnedFrom peer) bgpRibRemove rn

/-! ## Local routes -/

/-- The three ways in which local routes are put in. -/
inductive LocalRoute where
  | network
  | redistribute (type : Nat)
  | aggregate
  deriving DecidableEq

/-- The type and sub-type under which a local route is stored. -/
def LocalRoute.types : LocalRoute → Nat × SubType
  | .network => (zebraRouteBgp, .static)
  | .redistribute type => (type, .redistribute)
  | .aggregate => (zebraRouteBgp, .aggregate)

variable (route : LocalRoute)

/-- The route that adding a local route replaces. `bgp_redistribute_add` does not look at the
type, and the aggregate functions always add a route. -/
def LocalRoute.replaces (ri : BgpInfo) : Bool :=
  match route with
  | .network => ri.peer = peerSelf ∧ ri.type = zebraRouteBgp ∧ ri.subType = .static
  | .redistribute _ => ri.peer = peerSelf ∧ ri.subType = .redistribute
  | .aggregate => false

/-- The route that deleting a local route finds. `bgp_redistribute_delete` does not look at
the sub-type. -/
def LocalRoute.deletes (ri : BgpInfo) : Bool :=
  match route with
  | .network => ri.peer = peerSelf ∧ ri.type = zebraRouteBgp ∧ ri.subType = .static
  | .redistribute type => ri.peer = peerSelf ∧ ri.type = type
  | .aggregate => ri.peer = peerSelf ∧ ri.type = zebraRouteBgp ∧ ri.subType = .aggregate

/-- A local route that is there already gets new attributes. -/
def rewriteLocal (attr : Attr) (ri : BgpInfo) : BgpInfo :=
  if ri.attr = attr && !ri.flags.removed then ri
  else
    let ri := if ri.flags.removed then bgpInfoRestore ri else ri
    { ri with attr := attr, flags := { ri.flags with attrChanged := true } }

/-- `bgp_static_update_main`, `bgp_redistribute_add` and `bgp_aggregate_route` at a node. -/
def originate (attr : Attr) (ptr : Nat) (rn : List BgpInfo) : List BgpInfo :=
  if rn.any route.replaces then modifyFirst route.replaces (rewriteLocal attr) rn
  else
    { ptr := ptr, peer := peerSelf, attr := attr, extra := none, type := route.types.1,
      subType := route.types.2, flags := { newFlags with valid := true } } :: rn

/-- `bgp_static_withdraw`, `bgp_redistribute_delete` and `bgp_aggregate_delete` at a node. -/
def retract (rn : List BgpInfo) : List BgpInfo :=
  modifyFirst route.deletes bgpInfoDelete rn

/-! ## Processing a node -/

/-- What `bgp_process_main` writes to a new `/inTrust.txt`. For another AS number the file
stays empty. -/
def inTrustNumbers : Nat → List Nat
  | 1 => [71, 40, 50, 60, 34, 56, 78, 31, 80, 45]
  | 2 => [25, 44, 78, 33, 66, 90, 80, 31, 40, 70]
  | 3 => [67, 40, 28, 76, 72, 67, 57, 88, 50, 21]
  | 4 => [88, 53, 66, 28, 76, 38, 82, 57, 62, 66]
  | 5 => [29, 44, 79, 33, 22, 29, 82, 63, 49, 76]
  | 6 => [70, 70, 44, 60, 67, 87, 49, 31, 35, 55]
  | 7 => [72, 61, 55, 59, 50, 43, 47, 49, 33, 57]
  | 8 => [66, 40, 48, 60, 27, 22, 46, 79, 21, 52]
  | 9 => [54, 26, 68, 44, 30, 63, 56, 35, 64, 25]
  | 10 => [36, 75, 58, 34, 73, 20, 32, 74, 41, 62]
  | _ => []

/-- The first part of `bgp_process_main`: make the trust files that are not there. -/
def makeTrustFiles (bgp : Bgp) (files : Files) : Files :=
  { files with
    myAS := some (files.myAS.getD bgp.as)
    inTrust := some (files.inTrust.getD fun i => (inTrustNumbers bgp.as).getD i 0)
    obsTrust := some (files.obsTrust.getD fun _ => 50) }

/-- Change the flags of the route at an address. -/
def setFlags (ptr : Nat) (change : InfoFlags → InfoFlags) (rn : List BgpInfo) : List BgpInfo :=
  rn.map fun ri => if ri.ptr = ptr then { ri with flags := change ri.flags } else ri

/-- Unset `SELECTED` at the old route, and move it to the new one. -/
def moveSelected (result : BgpInfoPair) (rn : List BgpInfo) : List BgpInfo :=
  let rn :=
    match result.old with
    | some old => setFlags old (fun flags => { flags with selected := false }) rn
    | none => rn
  match result.new with
  | some new => setFlags new (fun flags => { flags with selected := true, attrChanged := false }) rn
  | none => rn

/-- `bgp_info_reap` of the old route, if it is removed. -/
def reapOld (result : BgpInfoPair) (rn : List BgpInfo) : List BgpInfo :=
  rn.filter fun ri => !(result.old = some ri.ptr && ri.flags.removed)

/-- The selected route stays and its attributes did not change. -/
def nothingToDo (result : BgpInfoPair) (rn : List BgpInfo) : Bool :=
  result.old.isSome && result.old = result.new &&
    !rn.any fun ri => result.old = some ri.ptr && ri.flags.attrChanged

/-- `bgp_process_main` at a node, without the announcements. -/
def bgpProcessMain (bgp : Bgp) (files : Files) (rn : List BgpInfo) :
    Except Fault (Files × List BgpInfo) := do
  let files := makeTrustFiles bgp files
  let (rn, result) ← bgpBestSelection files bgp rn
  if nothingToDo result rn then return (files, rn)
  return (files, reapOld result (moveSelected result rn))

/-- `bgp_process_rsclient` at a node of a client that is no peer group, without the
announcements. -/
def bgpProcessRsclient (bgp : Bgp) (files : Files) (rn : List BgpInfo) :
    Except Fault (List BgpInfo) := do
  let (rn, result) ← bgpBestSelection files bgp rn
  return reapOld result (moveSelected result rn)

/-! ## Runs -/

/-- The files, the neighbours configured so far, the routes of each node and the next free
address. -/
structure Rib where
  files : Files
  peers : List Peer
  nodes : Nat → List BgpInfo
  nextPtr : Nat

/-- What happens to a RIB. -/
inductive RibEvent where
  | neighbor (peer : Peer)
  | update (peer : Peer) (node : Nat) (attr : Attr) (filtered reachable : Bool)
  | withdraw (peer : Peer) (node : Nat)
  | originate (route : LocalRoute) (node : Nat) (attr : Attr)
  | retract (route : LocalRoute) (node : Nat)
  | scan (node ptr : Nat) (valid damped history : Bool)
  | processMain (node : Nat)
  | processRsclient (node : Nat)

/-- Change the routes of one node. -/
def Rib.setNode (rib : Rib) (node : Nat) (rn : List BgpInfo) : Rib :=
  { rib with nodes := Function.update rib.nodes node rn, nextPtr := rib.nextPtr + 1 }

/-- One event. -/
def ribStep (bgp : Bgp) (rib : Rib) : RibEvent → Except Fault (Rib × List Unit)
  | .neighbor peer => .ok ({ rib with peers := peer :: rib.peers }, [])
  | .update peer node attr filtered reachable =>
    .ok (rib.setNode node
      (bgpUpdateMain peer attr filtered reachable rib.nextPtr (rib.nodes node)), [])
  | .withdraw peer node => .ok (rib.setNode node (bgpWithdraw peer (rib.nodes node)), [])
  | .originate route node attr =>
    .ok (rib.setNode node (Bgpd.originate route attr rib.nextPtr (rib.nodes node)), [])
  | .retract route node => .ok (rib.setNode node (Bgpd.retract route (rib.nodes node)), [])
  | .scan node ptr valid damped history =>
    .ok (rib.setNode node (setFlags ptr
      (fun flags => { flags with valid := valid, damped := damped, history := history })
      (rib.nodes node)), [])
  | .processMain node => do
      let (files, rn) ← bgpProcessMain bgp rib.files (rib.nodes node)
      return ({ rib.setNode node rn with files := files }, [])
  | .processRsclient node => do
      let rn ← bgpProcessRsclient bgp rib.files (rib.nodes node)
      return (rib.setNode node rn, [])

/-- The state of a daemon that has just started. -/
def Rib.initial (files : Files) : Rib :=
  { files := files, peers := [], nodes := fun _ => [], nextPtr := 0 }

end Quagga.Bgpd
