import Quagga.Library.Outcomes
import Quagga.Bgpd.BestSelection

/-!
# What selection compares

`bgp_best_selection` compares a route only with another eligible route of the node: in the
loop of deterministic MED with a later route of its group, in the main loop with the
incumbent. So when every comparison of two eligible routes of a node ends in a tolerated way,
selection does (`bgpBestSelection_ensures`). What makes a comparison tolerable is a relation
between the peers of the two routes, which a user of the rule picks.
-/

set_option autoImplicit false

namespace Quagga.Bgpd

open Lib Library

/-! The loops change only flags, and never one that puts a route in holddown or takes it out. -/

/-- What decides whether a comparison is safe: the peer, and whether the route is held. -/
def BgpInfo.standing (ri : BgpInfo) : Peer × Bool := (ri.peer, ri.holddown)

/-- Two eligible routes have peers that are comparable. -/
def Meets (Comparable : Peer → Peer → Prop) (first second : Peer × Bool) : Prop :=
  first.2 = false → second.2 = false → Comparable first.1 second.1

theorem pairwise_getElem? {α : Type} {R : α → α → Prop} {elements : List α}
    (pairwise : elements.Pairwise R) {i j : Nat} (less : i < j) {a b : α}
    (atI : elements[i]? = some a) (atJ : elements[j]? = some b) : R a b := by
  obtain ⟨boundI, rfl⟩ := List.getElem?_eq_some_iff.mp atI
  obtain ⟨boundJ, rfl⟩ := List.getElem?_eq_some_iff.mp atJ
  exact List.pairwise_iff_getElem.mp pairwise i j boundI boundJ less

theorem map_clearDmed_modify (change : BgpInfo → BgpInfo)
    (marks : ∀ ri, (change ri).clearDmed = ri.clearDmed) (rn : List BgpInfo) (i : Nat) :
    (rn.modify i change).map BgpInfo.clearDmed = rn.map BgpInfo.clearDmed := by
  apply List.ext_getElem?
  intro j
  rw [List.getElem?_map, List.getElem?_map, List.getElem?_modify]
  by_cases same : i = j
  · cases rn[j]? <;> simp [same, marks]
  · cases rn[j]? <;> simp [same]

section Selection

variable {files : Files} {bgp : Bgp} {cleared : List BgpInfo} {tolerated : Fault → Prop}
  {Comparable : Peer → Peer → Prop}
  (compares : ∀ {new exist : BgpInfo}, Comparable exist.peer new.peer →
    Ensures tolerated (fun _ => True) (bgpInfoCmp files bgp (some new) (some exist)))

/-- The inner loop of deterministic MED, with indices still to come. -/
structure GroupInv (cleared : List BgpInfo) (rest : List Nat) (st : List BgpInfo × Nat) :
    Prop where
  ascending : rest.Pairwise (· < ·)
  ahead : ∀ j ∈ rest, st.2 < j
  cleared_eq : st.1.map BgpInfo.clearDmed = cleared
  eligible : ∀ standing, (cleared.map BgpInfo.standing)[st.2]? = some standing →
    standing.2 = false

variable {rest : List Nat} {st : List BgpInfo × Nat} {ri : BgpInfo}

theorem GroupInv.standing_at (inv : GroupInv cleared rest st) {i : Nat}
    (atI : st.1[i]? = some ri) : (cleared.map BgpInfo.standing)[i]? = some ri.standing := by
  rw [← inv.cleared_eq, List.map_map, List.getElem?_map, atI]
  rfl

theorem GroupInv.skip {j : Nat} (inv : GroupInv cleared (j :: rest) st) :
    GroupInv cleared rest st :=
  { inv with
    ascending := (List.pairwise_cons.mp inv.ascending).2
    ahead := fun k member => inv.ahead k (List.mem_cons_of_mem _ member) }

include compares in
theorem dmedCompare_ensures (meet : (cleared.map BgpInfo.standing).Pairwise (Meets Comparable))
    (i : Nat) {j : Nat}
    (inv : GroupInv cleared (j :: rest) st) :
    Ensures tolerated (GroupInv cleared rest) (dmedCompare files bgp i st j) := by
  rw [dmedCompare]
  split
  · rename_i ri1 ri2 newSelect atI atJ atSelect
    split_ifs with skipped sameGroup
    · exact inv.skip
    · have less : st.2 < j := inv.ahead j (List.mem_cons_self ..)
      have jEligible : ri2.holddown = false := by
        cases held : ri2.holddown with
        | true => simp [held] at skipped
        | false => rfl
      have comparable := pairwise_getElem? meet less (inv.standing_at atSelect)
        (inv.standing_at atJ) (inv.eligible _ (inv.standing_at atSelect)) jEligible
      refine (compares comparable).bind fun better _ => ?_
      have later : ∀ k ∈ rest, j < k := (List.pairwise_cons.mp inv.ascending).1
      cases better with
      | true =>
        refine ⟨inv.skip.ascending, later, ?_, ?_⟩
        · exact (map_clearDmed_modify BgpInfo.setDmedCheck (fun _ => rfl) _ _).trans
            ((map_clearDmed_modify BgpInfo.unsetDmedSelected (fun _ => rfl) _ _).trans
              inv.cleared_eq)
        · intro standing atStanding
          rw [inv.standing_at atJ] at atStanding
          cases atStanding
          exact jEligible
      | false =>
        refine ⟨inv.skip.ascending, inv.skip.ahead, ?_, inv.eligible⟩
        exact (map_clearDmed_modify BgpInfo.setDmedCheck (fun _ => rfl) _ _).trans
          inv.cleared_eq
    · exact inv.skip
  · exact inv.skip

variable {rn : List BgpInfo}

include compares in
theorem dmedGroup_ensures (meet : (cleared.map BgpInfo.standing).Pairwise (Meets Comparable)) (i : Nat)
    (same : rn.map BgpInfo.clearDmed = cleared) :
    Ensures tolerated (fun rn' => rn'.map BgpInfo.clearDmed = cleared)
      (dmedGroup files bgp rn i) := by
  rw [dmedGroup]
  cases atI : rn[i]? with
  | none => exact same
  | some ri1 =>
    dsimp only
    split_ifs with skipped
    · exact same
    · have start : GroupInv cleared (List.range' (i + 1) (rn.length - (i + 1))) (rn, i) := by
        refine ⟨List.pairwise_lt_range', ?_, same, ?_⟩
        · intro j member
          exact (List.mem_range'_1.mp member).1
        · intro standing atStanding
          rw [← same, List.map_map, List.getElem?_map, atI] at atStanding
          cases atStanding
          cases held : ri1.holddown with
          | true => simp [held] at skipped
          | false => exact held
      refine (Ensures.foldlM (GroupInv cleared)
        (fun inv => dmedCompare_ensures compares meet i inv) _ _ start).bind ?_
      intro st inv
      exact (map_clearDmed_modify BgpInfo.setDmed (fun _ => rfl) _ _).trans inv.cleared_eq

include compares in
theorem dmedPhase_ensures (meet : (cleared.map BgpInfo.standing).Pairwise (Meets Comparable))
    (same : rn.map BgpInfo.clearDmed = cleared) :
    Ensures tolerated (fun rn' => rn'.map BgpInfo.clearDmed = cleared)
      (dmedPhase files bgp rn) := by
  rw [dmedPhase]
  split_ifs
  · exact Ensures.foldlM (fun _ (rn' : List BgpInfo) => rn'.map BgpInfo.clearDmed = cleared)
      (fun inv => dmedGroup_ensures compares meet _ inv) _ _ same
  · exact same

/-- The main loop, with routes still to come: the incumbent may meet each of them. -/
structure WalkInv (Comparable : Peer → Peer → Prop) (peers : List Peer) (rest : List BgpInfo)
    (st : SelectState) : Prop where
  meet : (rest.map BgpInfo.standing).Pairwise (Meets Comparable)
  incumbent : ∀ best, st.new = some best → ∀ ri ∈ rest, ri.Eligible →
    Comparable best.peer ri.peer
  passed : ∀ ri ∈ st.rn, ri.peer ∈ peers
  coming : ∀ ri ∈ rest, ri.peer ∈ peers

theorem WalkInv.pass {peers : List Peer} {rest : List BgpInfo} {st : SelectState}
    (inv : WalkInv Comparable peers (ri :: rest) st) (ri' : BgpInfo) (samePeer : ri'.peer = ri.peer)
    (old : Option Nat) :
    WalkInv Comparable peers rest { st with rn := st.rn ++ [ri'], old := old } where
  meet := (List.pairwise_cons.mp inv.meet).2
  incumbent best atNew later member :=
    inv.incumbent best atNew later (List.mem_cons_of_mem _ member)
  passed := by
    intro other member
    rcases List.mem_append.mp member with before | last
    · exact inv.passed other before
    · rw [List.mem_singleton.mp last, samePeer]
      exact inv.coming ri (List.mem_cons_self ..)
  coming later member := inv.coming later (List.mem_cons_of_mem _ member)

include compares

theorem selectRoute_ensures {peers : List Peer} {rest : List BgpInfo} {st : SelectState}
    (inv : WalkInv Comparable peers (ri :: rest) st) :
    Ensures tolerated (WalkInv Comparable peers rest) (selectRoute files bgp st ri) := by
  rw [selectRoute]
  generalize (if ri.flags.selected then some ri.ptr else st.old) = old
  by_cases held : ri.holddown = true
  · split_ifs with reaped
    · exact { inv.pass ri rfl old with passed := inv.passed }
    · exact inv.pass ri rfl old
  · have eligible : ri.Eligible := Bool.eq_false_iff.mpr held
    split_ifs with unmarked
    · exact inv.pass ri.unsetDmedCheck rfl old
    · have compared : Ensures tolerated (fun _ => True)
          (bgpInfoCmp files bgp (some ri.clearDmed) st.new) := by
        cases atNew : st.new with
        | none => exact trivial
        | some best =>
          have comparable := inv.incumbent best atNew ri (List.mem_cons_self ..) eligible
          exact compares comparable
      refine compared.bind fun better _ => ?_
      have passed := inv.pass ri.clearDmed rfl old
      refine ⟨passed.meet, ?_, passed.passed, passed.coming⟩
      intro best atNew later member laterEligible
      cases better with
      | true =>
        cases atNew
        exact (List.pairwise_cons.mp inv.meet).1 later.standing (List.mem_map_of_mem member)
          eligible laterEligible
      | false => exact passed.incumbent best atNew later member laterEligible

/-- **Selection ends in a tolerated way when every comparison of two eligible routes does, and
it brings in no peer.** -/
theorem bgpBestSelection_ensures (meet : (rn.map BgpInfo.standing).Pairwise (Meets Comparable)) :
    Ensures tolerated (fun result => ∀ ri ∈ result.1, ri.peer ∈ rn.map BgpInfo.peer)
      (bgpBestSelection files bgp rn) := by
  have view : ∀ rn : List BgpInfo,
      (rn.map BgpInfo.clearDmed).map BgpInfo.standing = rn.map BgpInfo.standing :=
    fun _ => List.map_map
  refine (dmedPhase_ensures compares ((view rn).symm ▸ meet) rfl).bind fun marked same => ?_
  replace same := congrArg (List.map BgpInfo.standing) same
  rw [view, view] at same
  have start : WalkInv Comparable (rn.map BgpInfo.peer) marked
      { rn := [], old := none, new := none } := by
    refine ⟨same ▸ meet, fun _ absent => (by cases absent), fun _ absent => (by cases absent),
      ?_⟩
    intro ri member
    have standing : ri.standing ∈ rn.map BgpInfo.standing := same ▸ List.mem_map_of_mem member
    obtain ⟨origin, originMem, sameStanding⟩ := List.mem_map.mp standing
    exact List.mem_map.mpr ⟨origin, originMem, congrArg Prod.fst sameStanding⟩
  refine (Ensures.foldlM (WalkInv Comparable (rn.map BgpInfo.peer))
    (fun inv => selectRoute_ensures compares inv) _ _ start).bind fun st inv => ?_
  exact ensures_ok.mpr inv.passed

end Selection

end Quagga.Bgpd
