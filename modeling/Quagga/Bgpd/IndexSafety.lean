import Quagga.Bgpd.SelectionRule
import Quagga.Bgpd.Rib

/-!
# Table indices in selection

`bgp_info_cmp` looks up the trust of both peers at `peer->as - 1` without a bound check. A
configured neighbour has an AS number in `1..10`. But local routes are stored under
`bgp->peer_self`, whose AS number is zero, so the index is `2 ^ 32 - 1` as soon as a local
route is compared with any other route of its node (`local_route_index`).

A route is compared only with another eligible route of its node. So the indices stay
inside the tables in every run in which a node is processed only while an eligible local
route is alone among the eligible routes of the node (`ribStep_index_safe`).
-/

set_option autoImplicit false

namespace Quagga.Bgpd

open Lib Library

/-- The fault is not an index out of bounds. -/
def NoIndex (fault : Fault) : Prop := ∀ index, fault ≠ .arrayIndex index

/-! ## The comparison -/

theorem nullFile_noIndex : NoIndex .nullFile := fun _ => Fault.noConfusion

theorem bgpInfoCmp_noIndex (files : Files) (bgp : Bgp) {new exist : BgpInfo}
    (newIn : InTables new.peer.as) (existIn : InTables exist.peer.as) :
    Ensures NoIndex (fun _ => True) (bgpInfoCmp files bgp (some new) (some exist)) := by
  cases atObs : files.obsTrust with
  | none =>
    rw [bgpInfoCmp, atObs]
    exact nullFile_noIndex
  | some obsTrust =>
    cases atIn : files.inTrust with
    | none =>
      rw [bgpInfoCmp, atObs, atIn]
      exact nullFile_noIndex
    | some inTrust =>
      rw [bgpInfoCmp_eq_prefersNew ⟨atIn, atObs⟩ newIn existIn]
      exact ensures_ok.mpr trivial

/-! ## The selection -/

variable {files : Files} {bgp : Bgp} {rn : List BgpInfo}

/-- Two routes that may meet have table entries. -/
def MayMeet (first second : Peer × Bool) : Prop :=
  first.2 = false → second.2 = false → InTables first.1.as ∧ InTables second.1.as

/-- **Selection stays inside the tables when any two routes that may meet have entries, and it
brings in no peer.** -/
theorem bgpBestSelection_noIndex (meet : (rn.map BgpInfo.standing).Pairwise MayMeet) :
    Ensures NoIndex (fun result => ∀ ri ∈ result.1, ri.peer ∈ rn.map BgpInfo.peer)
      (bgpBestSelection files bgp rn) := by
  have meets : (rn.map BgpInfo.standing).Pairwise
      (Meets fun first second => InTables first.as ∧ InTables second.as) := meet
  exact bgpBestSelection_ensures
    (fun tables => bgpInfoCmp_noIndex files bgp tables.2 tables.1) meets

/-! ## Runs of the RIB -/

variable {rib : Rib}

/-- The peer of a stored route: `bgp->peer_self` or a configured neighbour. -/
def KnownPeer (peer : Peer) : Prop := peer = peerSelf ∨ peer.Configured

/-- An eligible local route is alone among the eligible routes of the node. -/
def LocalAlone (rn : List BgpInfo) : Prop :=
  rn.Pairwise fun first second => first.Eligible → second.Eligible →
    first.peer ≠ peerSelf ∧ second.peer ≠ peerSelf

/-- Every neighbour is configured with an AS number in `1..10`, updates and withdrawals come
from configured neighbours, and a node is processed only while `LocalAlone` holds of it. -/
def Guarded (rib : Rib) : RibEvent → Prop
  | .neighbor peer => peer.Configured
  | .update peer _ _ _ _ => peer ∈ rib.peers
  | .withdraw peer _ => peer ∈ rib.peers
  | .originate _ _ _ => True
  | .retract _ _ => True
  | .scan _ _ _ _ _ => True
  | .processMain node => LocalAlone (rib.nodes node)
  | .processRsclient node => LocalAlone (rib.nodes node)

/-- Every neighbour has an AS number in `1..10`, and every route has a known peer. -/
structure RibInv (rib : Rib) : Prop where
  configured : ∀ peer ∈ rib.peers, peer.Configured
  known : ∀ node, ∀ ri ∈ rib.nodes node, KnownPeer ri.peer

theorem RibInv.setNode (inv : RibInv rib) (node : Nat) (known : ∀ ri ∈ rn, KnownPeer ri.peer) :
    RibInv (rib.setNode node rn) := by
  refine ⟨inv.configured, fun other ri member => ?_⟩
  by_cases same : other = node
  · subst same
    exact known ri (by simpa [Rib.setNode] using member)
  · exact inv.known other ri (by simpa [Rib.setNode, same] using member)

theorem known_of_mem_map (known : ∀ ri ∈ rn, KnownPeer ri.peer) {peer : Peer}
    (member : peer ∈ rn.map BgpInfo.peer) : KnownPeer peer := by
  obtain ⟨origin, originMem, rfl⟩ := List.mem_map.mp member
  exact known origin originMem

theorem known_of_map_eq {rn' : List BgpInfo} (known : ∀ ri ∈ rn, KnownPeer ri.peer)
    (same : rn'.map BgpInfo.peer = rn.map BgpInfo.peer) : ∀ ri ∈ rn', KnownPeer ri.peer :=
  fun _ member => known_of_mem_map known (same ▸ List.mem_map_of_mem member)

theorem map_peer_setFlags (ptr : Nat) (change : InfoFlags → InfoFlags) (rn : List BgpInfo) :
    (setFlags ptr change rn).map BgpInfo.peer = rn.map BgpInfo.peer := by
  rw [setFlags, List.map_map]
  apply List.map_congr_left
  intro ri _
  by_cases here : ri.ptr = ptr
  · simp [here]
  · simp [here]

theorem map_peer_moveSelected (result : BgpInfoPair) (rn : List BgpInfo) :
    (moveSelected result rn).map BgpInfo.peer = rn.map BgpInfo.peer := by
  rw [moveSelected]
  cases result.old <;> cases result.new <;> simp only [map_peer_setFlags]

theorem bgpInfoDelete_peer (ri : BgpInfo) : (bgpInfoDelete ri).peer = ri.peer := rfl

theorem bgpRibRemove_peer (ri : BgpInfo) : (bgpRibRemove ri).peer = ri.peer := by
  rw [bgpRibRemove]
  split_ifs <;> rfl

theorem implicitWithdraw_peer (attr : Attr) (reachable : Bool) (ri : BgpInfo) :
    (implicitWithdraw attr reachable ri).peer = ri.peer := by
  rw [implicitWithdraw]
  split_ifs <;> rfl

theorem rewriteLocal_peer (attr : Attr) (ri : BgpInfo) :
    (rewriteLocal attr ri).peer = ri.peer := by
  rw [rewriteLocal]
  split_ifs <;> rfl

theorem bgpUpdateMain_known {peer : Peer} (configured : peer.Configured) (attr : Attr)
    (filtered reachable : Bool) (ptr : Nat) (known : ∀ ri ∈ rn, KnownPeer ri.peer) :
    ∀ ri ∈ bgpUpdateMain peer attr filtered reachable ptr rn, KnownPeer ri.peer := by
  rw [bgpUpdateMain]
  split_ifs
  · exact known_of_map_eq known (map_modifyFirst _ bgpRibRemove_peer rn)
  · exact known_of_map_eq known (map_modifyFirst _ (implicitWithdraw_peer attr reachable) rn)
  · exact List.forall_mem_cons.mpr ⟨.inr configured, known⟩

theorem originate_known (route : LocalRoute) (attr : Attr) (ptr : Nat)
    (known : ∀ ri ∈ rn, KnownPeer ri.peer) :
    ∀ ri ∈ originate route attr ptr rn, KnownPeer ri.peer := by
  rw [originate]
  split_ifs
  · exact known_of_map_eq known (map_modifyFirst _ (rewriteLocal_peer attr) rn)
  · exact List.forall_mem_cons.mpr ⟨.inl rfl, known⟩

/-- The routes that are left after the flags moved and the old route was reaped. -/
theorem reapOld_known (result : BgpInfoPair) (known : ∀ ri ∈ rn, KnownPeer ri.peer) :
    ∀ ri ∈ reapOld result (moveSelected result rn), KnownPeer ri.peer := by
  intro ri member
  exact known_of_map_eq known (map_peer_moveSelected result rn) ri (List.mem_filter.mp member).1

/-- Known peers other than `bgp->peer_self` have table entries. -/
theorem LocalAlone.mayMeet (alone : LocalAlone rn) (known : ∀ ri ∈ rn, KnownPeer ri.peer) :
    (rn.map BgpInfo.standing).Pairwise MayMeet := by
  rw [List.pairwise_map]
  refine List.Pairwise.imp_of_mem ?_ alone
  intro first second firstMem secondMem apart eligible eligible'
  obtain ⟨notSelf, notSelf'⟩ := apart eligible eligible'
  exact ⟨((known first firstMem).resolve_left notSelf).inTables,
    ((known second secondMem).resolve_left notSelf').inTables⟩

theorem RibInv.selection (files : Files) (inv : RibInv rib) {node : Nat}
    (alone : LocalAlone (rib.nodes node)) :
    Ensures NoIndex (fun result => ∀ ri ∈ result.1, KnownPeer ri.peer)
      (bgpBestSelection files bgp (rib.nodes node)) := by
  refine (bgpBestSelection_noIndex (alone.mayMeet (inv.known node))).mono ?_
  intro result peers ri member
  exact known_of_mem_map (inv.known node) (peers ri member)

/-- **One guarded step: no index outside the tables, and the invariant is kept.** -/
theorem ribStep_noIndex (bgp : Bgp) (inv : RibInv rib) {event : RibEvent}
    (guarded : Guarded rib event) :
    Ensures NoIndex (fun result => RibInv result.1) (ribStep bgp rib event) := by
  cases event with
  | neighbor peer =>
    exact ⟨List.forall_mem_cons.mpr ⟨guarded, inv.configured⟩, inv.known⟩
  | update peer node attr filtered reachable =>
    exact inv.setNode node (bgpUpdateMain_known (inv.configured peer guarded) attr filtered
      reachable rib.nextPtr (inv.known node))
  | withdraw peer node =>
    exact inv.setNode node
      (known_of_map_eq (inv.known node) (map_modifyFirst _ bgpRibRemove_peer _))
  | originate route node attr =>
    exact inv.setNode node (originate_known route attr rib.nextPtr (inv.known node))
  | retract route node =>
    exact inv.setNode node
      (known_of_map_eq (inv.known node) (map_modifyFirst _ bgpInfoDelete_peer _))
  | scan node ptr valid damped history =>
    exact inv.setNode node (known_of_map_eq (inv.known node) (map_peer_setFlags _ _ _))
  | processMain node =>
    have processed : Ensures NoIndex (fun result => ∀ ri ∈ result.2, KnownPeer ri.peer)
        (bgpProcessMain bgp rib.files (rib.nodes node)) := by
      refine (inv.selection (makeTrustFiles bgp rib.files) guarded).bind fun result known => ?_
      dsimp only
      split_ifs
      · exact known
      · exact reapOld_known result.2 known
    refine processed.bind fun result known => ?_
    have kept := inv.setNode node known
    exact ensures_ok.mpr ⟨kept.configured, kept.known⟩
  | processRsclient node =>
    have processed : Ensures NoIndex (fun rn => ∀ ri ∈ rn, KnownPeer ri.peer)
        (bgpProcessRsclient bgp rib.files (rib.nodes node)) :=
      (inv.selection rib.files guarded).bind fun result known => reapOld_known result.2 known
    exact processed.bind fun rn known => inv.setNode node known

/-! ## A local route that meets another one -/

/-- **In every run in which nodes are processed only while an eligible local route is alone,
no comparison looks outside the tables.** -/
theorem ribStep_index_safe {bgp : Bgp} {files : Files} {trace : List Unit} {rib : Rib}
    (run : Run (ribStep bgp) Guarded (Rib.initial files) trace rib) {event : RibEvent}
    (guarded : Guarded rib event) (index : Nat) :
    ribStep bgp rib event ≠ .error (.arrayIndex index) := by
  have inv : RibInv rib := by
    refine run.invariant (fun _ rib => RibInv rib) ⟨?_, ?_⟩ ?_
    · intro peer member
      cases member
    · intro node ri member
      cases member
    · intro _ _ before after event inv guarded stepped
      have kept := ribStep_noIndex bgp inv guarded
      rw [stepped] at kept
      exact kept
  intro failed
  have tolerated := ribStep_noIndex bgp inv guarded
  rw [failed] at tolerated
  exact tolerated index rfl

/-- The files before the daemon starts. -/
def freshFiles : Files :=
  { myAS := none, inTrust := none, obsTrust := none, neighborsN := 2, votes := fun _ => 0,
    votesRequests := fun _ => 0, votesResponses := fun _ => 0, voteresult := fun _ => none }

theorem ribStep_index_safe_two :
    ∃ rib : Rib, (rib.nodes 0).length = 2 ∧
      ribStep plainBgp rib (.processMain 0) ≠ .error (.arrayIndex (2 ^ 32 - 1)) := by
  have configured : (neighbour 2).Configured ∧ (neighbour 3).Configured := by decide
  have permitted : Permitted (ribStep plainBgp) Guarded (Rib.initial freshFiles)
      [.neighbor (neighbour 2), .neighbor (neighbour 3),
        .update (neighbour 2) 0 plainAttr false true,
        .update (neighbour 3) 0 plainAttr false true] :=
    ⟨configured.1, configured.2, .tail _ (.head _), .head _, trivial⟩
  refine ⟨_, rfl, ribStep_index_safe (run_of_execute permitted rfl)
    (?_ : Guarded _ (.processMain 0)) _⟩
  exact List.pairwise_pair.mpr fun _ _ => by decide

/-- A local route next to a learned one: with all configured AS numbers in `1..10`, processing
the node looks at entry `2 ^ 32 - 1`. -/
theorem local_route_index :
    (neighbour 2).Configured ∧
      execute (ribStep plainBgp) (Rib.initial freshFiles)
        [.neighbor (neighbour 2), .update (neighbour 2) 0 plainAttr false true,
          .originate .network 0 plainAttr, .processMain 0] =
        .error (.arrayIndex (2 ^ 32 - 1)) := by
  exact ⟨by decide, rfl⟩

end Quagga.Bgpd
