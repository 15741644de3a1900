import Quagga.Bgpd.ClearRoutes
import Quagga.Bgpd.SelectionRule

/-!
# The selected route of a node

A route that is withdrawn while it is selected stays in its node with the flag `REMOVED` until the
work queue processes the node, and an update may restore it before. In between other routes come and
go, and the node may be queued several times.

Still, a node never has two selected routes, and after `bgp_process_main` the selected route is the
one that `bgp_best_selection` returned, is usable, and no removed route is left
(`selected_unique`). Without the marks of deterministic MED, `bgp_best_selection` only takes out the
removed routes that are not selected (`bgpBestSelection_result`).
-/

set_option autoImplicit false

namespace Quagga.Bgpd

open Lib Library

/-! ## Runs with cleared peers -/

/-- What happens to the tables: an event of the RIB, or the work queue clears the routes of a peer
at a node, keeping them as stale for a graceful restart. -/
inductive TableEvent where
  | rib (event : RibEvent)
  | clear (peer : Peer) (node : Nat) (nsf : Bool)

/-- An event of the RIB, or a node that is cleared. -/
def tableStep (bgp : Bgp) (rib : Rib) : TableEvent → Except Fault (Rib × List Unit)
  | .rib event => ribStep bgp rib event
  | .clear peer node nsf =>
    .ok (rib.setNode node (bgpClearRouteNode peer nsf (rib.nodes node)), [])

/-! ## What selection does to the routes -/

/-- A removed route that is not selected is reaped. -/
def BgpInfo.kept (ri : BgpInfo) : Bool := !ri.flags.removed || ri.flags.selected

variable {rn rn' : List BgpInfo}

section Selection

variable {files : Files} {bgp : Bgp}

theorem dmedPhase_clearDmed (rn : List BgpInfo) :
    Ensures (fun _ => True) (fun marked => marked.map BgpInfo.clearDmed = rn.map BgpInfo.clearDmed)
      (dmedPhase files bgp rn) := by
  have meet : ((rn.map BgpInfo.clearDmed).map BgpInfo.standing).Pairwise
      (Meets fun _ _ => True) := List.pairwise_of_forall fun _ _ _ _ => trivial
  exact dmedPhase_ensures (fun _ => ensures_any _) meet rfl

/-- The main loop after the first routes of a node. -/
structure Selecting (passed : List BgpInfo) (st : SelectState) : Prop where
  rn_eq : st.rn.map BgpInfo.clearDmed = (passed.filter BgpInfo.kept).map BgpInfo.clearDmed
  old_eq : st.old = ((passed.filter (·.flags.selected)).map BgpInfo.ptr).getLast?
  new_mem : ∀ best, st.new = some best → ∃ ri ∈ passed, ri.Eligible ∧ ri.ptr = best.ptr

theorem holddown_of_removed {ri : BgpInfo} (removed : ri.flags.removed = true) :
    ri.holddown = true := by
  simp [BgpInfo.holddown, removed]

theorem selectRoute_selecting {passed : List BgpInfo} {ri : BgpInfo} {st : SelectState}
    (selecting : Selecting passed st) (new : ri.ptr ∉ passed.map BgpInfo.ptr) :
    Ensures (fun _ => True) (Selecting (passed ++ [ri])) (selectRoute files bgp st ri) := by
  -- `old_select` is this route exactly if it is selected.
  have oldNe : st.old ≠ some ri.ptr := by
    rw [selecting.old_eq]
    intro last
    obtain ⟨other, mem, same⟩ := List.mem_map.mp (List.mem_of_getLast? last)
    exact new (List.mem_map.mpr ⟨other, (List.mem_filter.mp mem).1, same⟩)
  have old_eq : (if ri.flags.selected then some ri.ptr else st.old) =
      (((passed ++ [ri]).filter (·.flags.selected)).map BgpInfo.ptr).getLast? := by
    cases selected : ri.flags.selected with
    | true => simp [selected]
    | false => simpa [selected] using selecting.old_eq
  have new_mem : ∀ best, st.new = some best →
      ∃ other ∈ passed ++ [ri], other.Eligible ∧ other.ptr = best.ptr := by
    intro best atNew
    obtain ⟨other, mem, facts⟩ := selecting.new_mem best atNew
    exact ⟨other, List.mem_append_left _ mem, facts⟩
  have rn_eq : ∀ ri' : BgpInfo, ri'.clearDmed = ri.clearDmed → ri.kept = true →
      (st.rn ++ [ri']).map BgpInfo.clearDmed =
        ((passed ++ [ri]).filter BgpInfo.kept).map BgpInfo.clearDmed := by
    intro ri' same kept
    rw [List.filter_append, List.map_append, selecting.rn_eq]
    simp [kept, same]
  unfold selectRoute
  generalize atOld : (if ri.flags.selected then some ri.ptr else st.old) = old at old_eq ⊢
  have isOld : old = some ri.ptr ↔ ri.flags.selected = true := by
    rw [← atOld]
    cases ri.flags.selected with
    | true => simp
    | false => simp [oldNe]
  by_cases held : ri.holddown = true
  · have reaped : (ri.flags.removed && decide (old ≠ some ri.ptr)) = !ri.kept := by
      have other : decide (old ≠ some ri.ptr) = !ri.flags.selected := by simp [isOld]
      rw [other, BgpInfo.kept]
      cases ri.flags.removed <;> cases ri.flags.selected <;> rfl
    rw [if_pos held, reaped]
    cases kept : ri.kept with
    | false =>
      refine ⟨?_, old_eq, new_mem⟩
      rw [List.filter_append, selecting.rn_eq]
      simp [kept]
    | true => exact ⟨rn_eq ri rfl kept, old_eq, new_mem⟩
  · have kept : ri.kept = true := by
      cases removed : ri.flags.removed with
      | true => exact absurd (holddown_of_removed removed) held
      | false => simp [BgpInfo.kept, removed]
    split_ifs with unmarked
    · exact ⟨rn_eq ri.unsetDmedCheck rfl kept, old_eq, new_mem⟩
    · refine (ensures_any _).bind fun better _ => ?_
      refine ⟨rn_eq ri.clearDmed rfl kept, old_eq, ?_⟩
      cases better with
      | true =>
        intro best atNew
        cases atNew
        exact ⟨ri, List.mem_append_right _ (List.mem_singleton_self _),
          Bool.eq_false_iff.mpr held, rfl⟩
      | false => exact new_mem

/-- **What `bgp_best_selection` leaves of the routes and returns.** -/
structure SelectionResult (rn passed : List BgpInfo) (result : BgpInfoPair) : Prop where
  rn_eq : passed.map BgpInfo.clearDmed = (rn.filter BgpInfo.kept).map BgpInfo.clearDmed
  old_eq : result.old = ((rn.filter (·.flags.selected)).map BgpInfo.ptr).getLast?
  new_mem : ∀ ptr, result.new = some ptr → ∃ ri ∈ rn, ri.Eligible ∧ ri.ptr = ptr

theorem filter_clearDmed {β : Type} {test : BgpInfo → Bool} {view : BgpInfo → β}
    (test_eq : ∀ ri : BgpInfo, test ri.clearDmed = test ri)
    (view_eq : ∀ ri : BgpInfo, view ri.clearDmed = view ri)
    (same : rn.map BgpInfo.clearDmed = rn'.map BgpInfo.clearDmed) :
    (rn.filter test).map view = (rn'.filter test).map view := by
  have through : ∀ list : List BgpInfo,
      ((list.map BgpInfo.clearDmed).filter test).map view = (list.filter test).map view := by
    intro list
    rw [List.filter_map, List.map_map]
    have tests : test ∘ BgpInfo.clearDmed = test := funext test_eq
    have views : view ∘ BgpInfo.clearDmed = view := funext view_eq
    rw [tests, views]
  rw [← through rn, same, through rn']

theorem bgpBestSelection_result (distinct : (rn.map BgpInfo.ptr).Nodup) :
    Ensures (fun _ => True) (fun selected => SelectionResult rn selected.1 selected.2)
      (bgpBestSelection files bgp rn) := by
  refine (dmedPhase_clearDmed rn).bind fun marked same => ?_
  have ptrs : marked.map BgpInfo.ptr = rn.map BgpInfo.ptr := by
    have all : (marked.filter fun _ => true).map BgpInfo.ptr =
        (rn.filter fun _ => true).map BgpInfo.ptr :=
      filter_clearDmed (fun _ => rfl) (fun _ => rfl) same
    simpa using all
  have start : ∃ passed, marked = passed ++ marked ∧
      Selecting passed { rn := [], old := none, new := none } :=
    ⟨[], rfl, rfl, rfl, fun _ absent => by cases absent⟩
  refine (Ensures.foldlM
    (fun rest st => ∃ passed, marked = passed ++ rest ∧ Selecting passed st) ?_ _ _ start).bind ?_
  · rintro ri rest st ⟨passed, split, selecting⟩
    have new : ri.ptr ∉ passed.map BgpInfo.ptr := by
      rw [← ptrs, split, List.map_append, List.nodup_append] at distinct
      intro mem
      exact distinct.2.2 _ mem _ (List.mem_map_of_mem List.mem_cons_self) rfl
    refine (selectRoute_selecting selecting new).mono fun st' selecting' => ?_
    exact ⟨passed ++ [ri], by rw [split, List.append_assoc]; rfl, selecting'⟩
  · rintro st ⟨passed, split, selecting⟩
    rw [List.append_nil] at split
    subst split
    refine ⟨selecting.rn_eq.trans (filter_clearDmed (fun _ => rfl) (fun _ => rfl) same), ?_, ?_⟩
    · rw [selecting.old_eq]
      exact congrArg List.getLast? (filter_clearDmed (fun _ => rfl) (fun _ => rfl) same)
    · intro ptr atNew
      obtain ⟨best, bestNew, rfl⟩ := Option.map_eq_some_iff.mp atNew
      obtain ⟨ri, mem, eligible, samePtr⟩ := selecting.new_mem best bestNew
      have cleared : ri.clearDmed ∈ rn.map BgpInfo.clearDmed := same ▸ List.mem_map_of_mem mem
      obtain ⟨origin, originMem, originEq⟩ := List.mem_map.mp cleared
      refine ⟨origin, originMem, ?_, ?_⟩
      · have : origin.clearDmed.Eligible := by rw [originEq]; exact eligible
        exact this
      · have := congrArg BgpInfo.ptr originEq
        exact this.trans samePtr

end Selection

/-! ## Processing a node -/

variable (result : BgpInfoPair) (ri : BgpInfo)

/-- What moving the `SELECTED` flag does to one route. -/
def moveOne : BgpInfo :=
  { ri with
    flags :=
      { ri.flags with
        selected :=
          if result.new = some ri.ptr then true
          else if result.old = some ri.ptr then false else ri.flags.selected
        attrChanged := if result.new = some ri.ptr then false else ri.flags.attrChanged } }

theorem moveSelected_eq_map (rn : List BgpInfo) :
    moveSelected result rn = rn.map (moveOne result) := by
  obtain ⟨old, new⟩ := result
  unfold moveSelected setFlags
  cases old with
  | none =>
    cases new with
    | none => exact (List.map_id' rn).symm
    | some new =>
      refine List.map_congr_left fun ri _ => ?_
      by_cases isNew : ri.ptr = new
      · simp [moveOne, isNew]
      · simp [moveOne, isNew, Ne.symm isNew]
  | some old =>
    cases new with
    | none =>
      refine List.map_congr_left fun ri _ => ?_
      by_cases isOld : ri.ptr = old
      · simp [moveOne, isOld]
      · simp [moveOne, isOld, Ne.symm isOld]
    | some new =>
      dsimp only
      rw [List.map_map]
      refine List.map_congr_left fun ri _ => ?_
      by_cases isNew : ri.ptr = new <;> by_cases isOld : ri.ptr = old
      · simp [moveOne, ← isNew, ← isOld]
      · subst isNew
        simp [moveOne, isOld]
      · subst isOld
        simp [moveOne, isNew, Ne.symm isNew]
      · simp [moveOne, isOld, isNew, Ne.symm isNew, Ne.symm isOld]

@[simp] theorem moveOne_ptr : (moveOne result ri).ptr = ri.ptr := rfl

@[simp] theorem moveOne_removed : (moveOne result ri).flags.removed = ri.flags.removed := rfl

@[simp] theorem moveOne_holddown : (moveOne result ri).holddown = ri.holddown := rfl

theorem moveOne_selected : (moveOne result ri).flags.selected =
      if result.new = some ri.ptr then true
      else if result.old = some ri.ptr then false else ri.flags.selected := rfl

/-- The routes of a node have distinct addresses that have been given out, and at most one of them
is selected. -/
structure NodeInv (next : Nat) (rn : List BgpInfo) : Prop where
  distinct : (rn.map BgpInfo.ptr).Nodup
  below : ∀ ri ∈ rn, ri.ptr < next
  unique : ∀ ri ∈ rn, ∀ other ∈ rn, ri.flags.selected = true → other.flags.selected = true →
    ri.ptr = other.ptr

variable {next : Nat}

theorem NodeInv.eq_of_ptr (inv : NodeInv next rn)
    {ri other : BgpInfo} (mem : ri ∈ rn) (otherMem : other ∈ rn) (same : ri.ptr = other.ptr) :
    ri = other :=
  List.inj_on_of_nodup_map inv.distinct mem otherMem same

/-- **A node after `bgp_process_main`.** -/
structure Processed (result : BgpInfoPair) (ri : BgpInfo) : Prop where
  selected_iff : ri.flags.selected = true ↔ result.new = some ri.ptr
  usable : ri.flags.selected = true → ri.holddown = false
  present : ri.flags.removed = false

section Processing

variable {passed : List BgpInfo} {result : BgpInfoPair}

/-- A route that is left is one of the node, with other marks. -/
structure Origin (rn : List BgpInfo) (ri origin : BgpInfo) : Prop where
  mem : origin ∈ rn
  kept : origin.kept = true
  ptr_eq : ri.ptr = origin.ptr
  selected_eq : ri.flags.selected = origin.flags.selected
  removed_eq : ri.flags.removed = origin.flags.removed
  holddown_eq : ri.holddown = origin.holddown

variable {ri : BgpInfo}

section

variable (selection : SelectionResult rn passed result)

include selection

theorem SelectionResult.origin (mem : ri ∈ passed) :
    ∃ origin, Origin rn ri origin := by
  have cleared : ri.clearDmed ∈ (rn.filter BgpInfo.kept).map BgpInfo.clearDmed :=
    selection.rn_eq ▸ List.mem_map_of_mem mem
  obtain ⟨origin, originMem, same⟩ := List.mem_map.mp cleared
  obtain ⟨inRn, kept⟩ := List.mem_filter.mp originMem
  have view {β : Type} (field : BgpInfo → β) : field ri.clearDmed = field origin.clearDmed :=
    congrArg field same.symm
  exact ⟨origin, inRn, kept, view BgpInfo.ptr, view (·.flags.selected), view (·.flags.removed),
    view BgpInfo.holddown⟩

section

variable (inv : NodeInv next rn)
include inv

theorem SelectionResult.old_iff (mem : ri ∈ passed) :
    result.old = some ri.ptr ↔ ri.flags.selected = true := by
  obtain ⟨origin, source⟩ := selection.origin mem
  rw [selection.old_eq, source.ptr_eq, source.selected_eq]
  constructor
  · intro last
    obtain ⟨other, otherMem, otherPtr⟩ := List.mem_map.mp (List.mem_of_getLast? last)
    obtain ⟨otherIn, otherSelected⟩ := List.mem_filter.mp otherMem
    rwa [inv.eq_of_ptr source.mem otherIn otherPtr.symm]
  · intro selected
    have found : origin ∈ rn.filter (·.flags.selected) := List.mem_filter.mpr ⟨source.mem, selected⟩
    have nonempty : (rn.filter (·.flags.selected)).map BgpInfo.ptr ≠ [] := by
      rw [ne_eq, List.map_eq_nil_iff]
      exact List.ne_nil_of_mem found
    rw [List.getLast?_eq_some_getLast nonempty, Option.some.injEq]
    obtain ⟨other, otherMem, otherPtr⟩ := List.mem_map.mp (List.getLast_mem nonempty)
    obtain ⟨otherIn, otherSelected⟩ := List.mem_filter.mp otherMem
    rw [← otherPtr]
    exact inv.unique other otherIn origin source.mem otherSelected selected

theorem SelectionResult.usable (mem : ri ∈ passed) (new : result.new = some ri.ptr) :
    ri.holddown = false := by
  obtain ⟨origin, source⟩ := selection.origin mem
  obtain ⟨other, otherMem, eligible, otherPtr⟩ := selection.new_mem _ new
  rw [source.holddown_eq, inv.eq_of_ptr source.mem otherMem (source.ptr_eq.symm.trans otherPtr.symm)]
  exact eligible

theorem SelectionResult.old_of_removed (mem : ri ∈ passed) (removed : ri.flags.removed = true) :
    result.old = some ri.ptr := by
  obtain ⟨origin, source⟩ := selection.origin mem
  rw [selection.old_iff inv mem, source.selected_eq]
  rw [source.removed_eq] at removed
  simpa [BgpInfo.kept, removed] using source.kept

theorem SelectionResult.processed_same (same : result.old = result.new) (mem : ri ∈ passed) :
    Processed result ri := by
  have selected_iff : ri.flags.selected = true ↔ result.new = some ri.ptr := by
    rw [← same, selection.old_iff inv mem]
  have usable : ri.flags.selected = true → ri.holddown = false :=
    fun selected => selection.usable inv mem (selected_iff.mp selected)
  refine ⟨selected_iff, usable, ?_⟩
  by_contra removed
  rw [Bool.not_eq_false] at removed
  have held := selection.usable inv mem (same ▸ selection.old_of_removed inv mem removed)
  rw [holddown_of_removed removed] at held
  cases held

/-- The flag moves, and the old route is reaped if it was removed. -/
theorem SelectionResult.processed_moved (mem : ri ∈ reapOld result (moveSelected result passed)) :
    Processed result ri := by
  rw [moveSelected_eq_map] at mem
  obtain ⟨moved, unreaped⟩ := List.mem_filter.mp mem
  obtain ⟨before, beforeMem, rfl⟩ := List.mem_map.mp moved
  have selected_iff : (moveOne result before).flags.selected = true ↔
      result.new = some (moveOne result before).ptr := by
    rw [moveOne_selected]
    have old := selection.old_iff inv beforeMem
    split_ifs with isNew isOld
    · simp [isNew]
    · simp [isNew]
    · simp [isNew, mt old.mpr isOld]
  refine ⟨selected_iff, fun selected => ?_, ?_⟩
  · rw [moveOne_holddown]
    rw [selected_iff] at selected
    exact selection.usable inv beforeMem selected
  · by_contra removed
    rw [Bool.not_eq_false, moveOne_removed] at removed
    have old := selection.old_of_removed inv beforeMem removed
    simp [old, removed] at unreaped

end

theorem SelectionResult.ptr_sublist : (passed.map BgpInfo.ptr).Sublist (rn.map BgpInfo.ptr) := by
  have ptrs : passed.map BgpInfo.ptr = (rn.filter BgpInfo.kept).map BgpInfo.ptr := by
    have := congrArg (List.map BgpInfo.ptr) selection.rn_eq
    rwa [List.map_map, List.map_map] at this
  rw [ptrs]
  exact List.filter_sublist.map _

theorem SelectionResult.moved_sublist :
    ((reapOld result (moveSelected result passed)).map BgpInfo.ptr).Sublist
      (rn.map BgpInfo.ptr) := by
  refine List.Sublist.trans ?_ selection.ptr_sublist
  rw [moveSelected_eq_map]
  have ptrs : (passed.map (moveOne result)).map BgpInfo.ptr = passed.map BgpInfo.ptr :=
    List.map_map
  rw [← ptrs]
  exact List.filter_sublist.map _

end

theorem NodeInv.of_processed {after : List BgpInfo} (inv : NodeInv next rn)
    (sublist : (after.map BgpInfo.ptr).Sublist (rn.map BgpInfo.ptr))
    (processed : ∀ ri ∈ after, Processed result ri) : NodeInv next after := by
  refine ⟨inv.distinct.sublist sublist, fun ri mem => ?_, fun ri mem other otherMem one two => ?_⟩
  · obtain ⟨origin, originMem, same⟩ := List.mem_map.mp (sublist.subset (List.mem_map_of_mem mem))
    rw [← same]
    exact inv.below origin originMem
  · have first := (processed ri mem).selected_iff.mp one
    have second := (processed other otherMem).selected_iff.mp two
    exact Option.mem_unique first second

end Processing

/-! ## Events -/

/-- The address of a route and whether it is selected. -/
def BgpInfo.mark (ri : BgpInfo) : Nat × Bool := (ri.ptr, ri.flags.selected)

theorem NodeInv.succ (inv : NodeInv next rn) :
    NodeInv (next + 1) rn :=
  ⟨inv.distinct, fun ri mem => Nat.lt_succ_of_lt (inv.below ri mem), inv.unique⟩

theorem NodeInv.of_marks (inv : NodeInv next rn)
    (same : rn'.map BgpInfo.mark = rn.map BgpInfo.mark) : NodeInv next rn' := by
  have ptrs : rn'.map BgpInfo.ptr = rn.map BgpInfo.ptr := by
    have := congrArg (List.map Prod.fst) same
    rwa [List.map_map, List.map_map] at this
  have origin : ∀ ri ∈ rn', ∃ origin ∈ rn, origin.ptr = ri.ptr ∧
      origin.flags.selected = ri.flags.selected := by
    intro ri mem
    have marked : ri.mark ∈ rn.map BgpInfo.mark := same ▸ List.mem_map_of_mem mem
    obtain ⟨other, otherMem, mark_eq⟩ := List.mem_map.mp marked
    exact ⟨other, otherMem, congrArg Prod.fst mark_eq, congrArg Prod.snd mark_eq⟩
  refine ⟨ptrs ▸ inv.distinct, fun ri mem => ?_, fun ri mem other otherMem one two => ?_⟩
  · obtain ⟨before, beforeMem, ptr_eq, -⟩ := origin ri mem
    exact ptr_eq ▸ inv.below before beforeMem
  · obtain ⟨first, firstMem, firstPtr, firstSelected⟩ := origin ri mem
    obtain ⟨second, secondMem, secondPtr, secondSelected⟩ := origin other otherMem
    rw [← firstPtr, ← secondPtr]
    exact inv.unique first firstMem second secondMem (firstSelected.trans one)
      (secondSelected.trans two)

theorem NodeInv.add (inv : NodeInv next rn) {ri : BgpInfo}
    (ptr_eq : ri.ptr = next) (unselected : ri.flags.selected = false) :
    NodeInv (next + 1) (ri :: rn) := by
  have new : ri.ptr ∉ rn.map BgpInfo.ptr := by
    intro mem
    obtain ⟨other, otherMem, same⟩ := List.mem_map.mp mem
    exact absurd (inv.below other otherMem) (by omega)
  refine ⟨List.nodup_cons.mpr ⟨new, inv.distinct⟩, ?_, ?_⟩
  · intro other mem
    rcases List.mem_cons.mp mem with rfl | mem
    · omega
    · exact Nat.lt_succ_of_lt (inv.below other mem)
  · intro first firstMem second secondMem one two
    rcases List.mem_cons.mp firstMem with rfl | firstMem
    · simp [unselected] at one
    · rcases List.mem_cons.mp secondMem with rfl | secondMem
      · simp [unselected] at two
      · exact inv.unique first firstMem second secondMem one two

theorem bgpRibRemove_mark (ri : BgpInfo) : (bgpRibRemove ri).mark = ri.mark := by
  unfold bgpRibRemove
  split_ifs <;> rfl

theorem implicitWithdraw_mark (attr : Attr) (reachable : Bool) (ri : BgpInfo) :
    (implicitWithdraw attr reachable ri).mark = ri.mark := by
  unfold implicitWithdraw bgpInfoRestore
  split_ifs <;> rfl

theorem rewriteLocal_mark (attr : Attr) (ri : BgpInfo) :
    (rewriteLocal attr ri).mark = ri.mark := by
  unfold rewriteLocal bgpInfoRestore
  split_ifs <;> rfl

theorem clearRoute_mark (nsf : Bool) (ri : BgpInfo) : (clearRoute nsf ri).mark = ri.mark := by
  unfold clearRoute
  split_ifs
  · rfl
  · exact bgpRibRemove_mark ri

/-- Every node of the tables. -/
def TablesInv (rib : Rib) : Prop := ∀ node, NodeInv rib.nextPtr (rib.nodes node)

theorem TablesInv.setNode {rib : Rib} (inv : TablesInv rib) (node : Nat)
    (here : NodeInv (rib.nextPtr + 1) rn) : TablesInv (rib.setNode node rn) := by
  intro other
  by_cases same : other = node
  · subst same
    simpa [Rib.setNode] using here
  · simpa [Rib.setNode, same] using (inv other).succ

theorem bgpUpdateMain_inv (inv : NodeInv next rn) (peer : Peer)
    (attr : Attr) (filtered reachable : Bool) :
    NodeInv (next + 1) (bgpUpdateMain peer attr filtered reachable next rn) := by
  unfold bgpUpdateMain
  split_ifs
  · exact (inv.of_marks (map_modifyFirst _ bgpRibRemove_mark rn)).succ
  · exact (inv.of_marks (map_modifyFirst _ (implicitWithdraw_mark attr reachable) rn)).succ
  · exact inv.add rfl rfl

theorem originate_inv (inv : NodeInv next rn)
    (route : LocalRoute) (attr : Attr) : NodeInv (next + 1) (originate route attr next rn) := by
  unfold originate
  split_ifs
  · exact (inv.of_marks (map_modifyFirst _ (rewriteLocal_mark attr) rn)).succ
  · exact inv.add rfl rfl

theorem same_of_nothingToDo {result : BgpInfoPair}
    (nothing : nothingToDo result rn = true) : result.old = result.new := by
  simp only [nothingToDo, Bool.and_eq_true, decide_eq_true_eq] at nothing
  exact nothing.1.2

variable {bgp : Bgp}

/-- What `bgp_process_main` leaves of a node. -/
theorem bgpProcessMain_processed {files files' : Files}
    (inv : NodeInv next rn)
    (processed : bgpProcessMain bgp files rn = .ok (files', rn')) :
    ∃ passed result, bgpBestSelection (makeTrustFiles bgp files) bgp rn = .ok (passed, result) ∧
      (∀ ri ∈ rn', Processed result ri) ∧ (rn'.map BgpInfo.ptr).Sublist (rn.map BgpInfo.ptr) := by
  unfold bgpProcessMain at processed
  dsimp only at processed
  cases selected : bgpBestSelection (makeTrustFiles bgp files) bgp rn with
  | error fault =>
    rw [selected] at processed
    cases processed
  | ok selection =>
    obtain ⟨passed, result⟩ := selection
    have facts := (bgpBestSelection_result inv.distinct).of_ok selected
    refine ⟨passed, result, rfl, ?_⟩
    rw [selected, ok_bind] at processed
    split_ifs at processed with nothing
    · cases processed
      have same := same_of_nothingToDo nothing
      exact ⟨fun ri mem => facts.processed_same inv same mem, facts.ptr_sublist⟩
    · cases processed
      exact ⟨fun ri mem => facts.processed_moved inv mem, facts.moved_sublist⟩

theorem bgpProcessRsclient_inv {files : Files}
    (inv : NodeInv next rn) (processed : bgpProcessRsclient bgp files rn = .ok rn') :
    NodeInv (next + 1) rn' := by
  unfold bgpProcessRsclient at processed
  cases selected : bgpBestSelection files bgp rn with
  | error fault =>
    rw [selected] at processed
    cases processed
  | ok selection =>
    have facts := (bgpBestSelection_result inv.distinct).of_ok selected
    rw [selected] at processed
    cases processed
    exact (inv.of_processed facts.moved_sublist fun ri mem => facts.processed_moved inv mem).succ

/-- **Every event keeps the nodes in order.** -/
theorem TablesInv.step {rib rib' : Rib} {actions : List Unit} {event : TableEvent}
    (inv : TablesInv rib) (stepped : tableStep bgp rib event = .ok (rib', actions)) :
    TablesInv rib' := by
  cases event with
  | clear peer node nsf =>
    cases stepped
    exact inv.setNode node
      ((inv node).of_marks (map_modifyFirst _ (clearRoute_mark nsf) _)).succ
  | rib event =>
    cases event with
    | neighbor peer =>
      cases stepped
      exact inv
    | update peer node attr filtered reachable =>
      cases stepped
      exact inv.setNode node (bgpUpdateMain_inv (inv node) peer attr filtered reachable)
    | withdraw peer node =>
      cases stepped
      exact inv.setNode node
        ((inv node).of_marks (map_modifyFirst _ bgpRibRemove_mark _)).succ
    | originate route node attr =>
      cases stepped
      exact inv.setNode node (originate_inv (inv node) route attr)
    | retract route node =>
      cases stepped
      have deleted : ∀ ri, (bgpInfoDelete ri).mark = ri.mark := fun _ => rfl
      exact inv.setNode node ((inv node).of_marks (map_modifyFirst _ deleted _)).succ
    | scan node ptr valid damped history =>
      cases stepped
      refine inv.setNode node (NodeInv.succ ((inv node).of_marks ?_))
      rw [setFlags, List.map_map]
      refine List.map_congr_left fun ri _ => ?_
      by_cases here : ri.ptr = ptr <;> simp [BgpInfo.mark, here]
    | processMain node =>
      cases processed : bgpProcessMain bgp rib.files (rib.nodes node) with
      | error fault => simp [tableStep, ribStep, processed] at stepped
      | ok done =>
        simp only [tableStep, ribStep, processed] at stepped
        cases stepped
        obtain ⟨passed, result, -, marks, sublist⟩ :=
          bgpProcessMain_processed (inv node) processed
        exact inv.setNode node ((inv node).of_processed sublist marks).succ
    | processRsclient node =>
      cases processed : bgpProcessRsclient bgp rib.files (rib.nodes node) with
      | error fault => simp [tableStep, ribStep, processed] at stepped
      | ok rn =>
        simp only [tableStep, ribStep, processed] at stepped
        cases stepped
        exact inv.setNode node (bgpProcessRsclient_inv (inv node) processed)

theorem NodeInv.length_selected (inv : NodeInv next rn) :
    (rn.filter (·.flags.selected)).length ≤ 1 := by
  have distinct : ((rn.filter (·.flags.selected)).map BgpInfo.ptr).Nodup :=
    inv.distinct.sublist (List.filter_sublist.map _)
  match found : rn.filter (·.flags.selected) with
  | [] => simp [found]
  | [_] => simp [found]
  | first :: second :: rest =>
    have firstMem : first ∈ rn.filter (·.flags.selected) := by simp [found]
    have secondMem : second ∈ rn.filter (·.flags.selected) := by simp [found]
    rw [List.mem_filter] at firstMem secondMem
    have same := inv.unique first firstMem.1 second secondMem.1 firstMem.2 secondMem.2
    simp [found, same] at distinct

/-- **In every run a node has at most one selected route, and after `bgp_process_main` the selected
route is the one that `bgp_best_selection` returned, is usable, and no removed route is left.** -/
theorem selected_unique (bgp : Bgp) (files : Files) {trace : List Unit} {rib : Rib}
    (run : Run (tableStep bgp) (fun _ _ => True) (Rib.initial files) trace rib) (node : Nat) :
    ((rib.nodes node).filter (·.flags.selected)).length ≤ 1 ∧
      ∀ files' rn, bgpProcessMain bgp rib.files (rib.nodes node) = .ok (files', rn) →
        ∃ passed result,
          bgpBestSelection (makeTrustFiles bgp rib.files) bgp (rib.nodes node) =
            .ok (passed, result) ∧
          ∀ ri ∈ rn, (ri.flags.selected = true ↔ result.new = some ri.ptr) ∧
            (ri.flags.selected = true → ri.holddown = false) ∧ ri.flags.removed = false := by
  have inv : TablesInv rib := by
    refine run.invariant (fun _ rib => TablesInv rib) ?_ fun inv _ stepped => inv.step stepped
    exact fun _ => ⟨List.nodup_nil, fun _ none => (by cases none), fun _ none => (by cases none)⟩
  refine ⟨(inv node).length_selected, fun files' rn processed => ?_⟩
  obtain ⟨passed, result, selected, marks, -⟩ := bgpProcessMain_processed (inv node) processed
  exact ⟨passed, result, selected, fun ri mem =>
    ⟨(marks ri mem).selected_iff, (marks ri mem).usable, (marks ri mem).present⟩⟩

/-- A route is learned and selected, its peer is cleared, and a route of another neighbour comes
before the node is processed again. -/
theorem selected_unique_replaced :
    ∃ rib, Run (tableStep plainBgp) (fun _ _ => True)
        (Rib.initial (filesOf (fun _ => 50) fun _ => none)) [] rib ∧
      (rib.nodes 0).length = 2 ∧ ((rib.nodes 0).filter (·.flags.selected)).length ≤ 1 := by
  obtain ⟨rib, trace, executed, two⟩ : ∃ rib trace,
      execute (tableStep plainBgp) (Rib.initial (filesOf (fun _ => 50) fun _ => none))
        [.rib (.update (neighbour 2) 0 plainAttr false true), .rib (.processMain 0),
          .clear (neighbour 2) 0 false, .rib (.update (neighbour 3) 0 plainAttr false true)] =
        .ok (rib, trace) ∧ trace = [] ∧ (rib.nodes 0).length = 2 := ⟨_, _, rfl, rfl, rfl⟩
  obtain ⟨rfl, two⟩ := two
  have run := run_of_execute (permitted_of_forall (fun _ _ _ => trivial) _) executed
  exact ⟨rib, run, two, (selected_unique plainBgp _ run 0).1⟩

end Quagga.Bgpd
