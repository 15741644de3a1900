import Mathlib.Data.List.Nodup
import Mathlib.Logic.Relation
import Quagga.Lib.Stream
import Quagga.Library.Selection
import Quagga.Zebra.Rib

/-!
# Selecting an entry of a route node

`rib_process` goes through the entries of a route node once. It unlinks those that have been removed,
except the one that is selected now, and keeps the best of the others whose next hops are active:
connected entries are better than all others, then the lower distance is better, then the lower
metric, and of equal entries the last one. After that the old selection is withdrawn and the new one
is installed.

The number of active next hops is kept in an `u_char`. An entry with 256 of them, which static
routes can have, counts as one with none. So the right entry is selected exactly if the one that
ought to be does not have a multiple of 256 active next hops (`selects_winner_iff`).
-/

set_option autoImplicit false

namespace Quagga.Zebra

open Lib Library

/-! ## Entries -/

/-- `ZEBRA_ROUTE_KERNEL`. -/
def zebraRouteKernel : Nat := 1

/-- `DISTANCE_INFINITY`. -/
def distanceInfinity : UInt8 := 255

/-- `struct nexthop`: whether it is active and in the FIB, and its interface. -/
structure Nexthop where
  active : Bool
  fib : Bool
  ifindex : Nat
  deriving DecidableEq

/-- `struct rib`, at its address. The flags are `RIB_ENTRY_REMOVED`, `ZEBRA_FLAG_SELECTED` and
`ZEBRA_FLAG_CHANGED`. -/
structure Rib where
  ptr : Nat
  type : Nat
  distance : UInt8
  metric : UInt32
  removed : Bool
  selected : Bool
  changed : Bool
  nexthops : List Nexthop
  nexthopActiveNum : UInt8
  deriving DecidableEq

/-- `struct route_node`: the list of entries. -/
structure RouteNode where
  info : List Rib
  distinct : (info.map (·.ptr)).Nodup

/-- `RIB_SYSTEM_ROUTE`. -/
def Rib.system (rib : Rib) : Bool := rib.type = zebraRouteKernel ∨ rib.type = zebraRouteConnect

/-- What is around a route node: `nexthop_active_check` for the next hops of an entry by their
position, with the argument `set`, and `rib_install_kernel`. -/
structure RibEnv where
  nexthopActiveCheck : Bool → Nat → Nat → Nexthop → Nexthop
  ribInstallKernel : Nat → List Nexthop → List Nexthop

/-- Calls of other parts of zebra. -/
inductive RibCall where
  | redistributeAdd (ptr : Nat)
  | redistributeDelete (ptr : Nat)
  deriving DecidableEq

variable (env : RibEnv)

/-- The next hops as the check leaves them. -/
def checkedNexthops (set : Bool) (rib : Rib) : List Nexthop :=
  rib.nexthops.mapIdx (env.nexthopActiveCheck set rib.ptr)

/-- How many next hops of an entry are found to be active. -/
def activeCount (set : Bool) (rib : Rib) : Nat :=
  (checkedNexthops env set rib).countP (·.active)

/-- `nexthop_active_update`. -/
def nexthopActiveUpdate (set : Bool) (rib : Rib) : Rib :=
  { rib with
    nexthops := checkedNexthops env set rib
    nexthopActiveNum := UInt8.ofNat (activeCount env set rib)
    changed := (rib.nexthops.zip (checkedNexthops env set rib)).any fun (prev, new) =>
      prev.active ≠ new.active ∨ prev.ifindex ≠ new.ifindex }

variable (rib : Rib)

/-- `rib_uninstall_kernel`. -/
def ribUninstallKernel : Rib :=
  { rib with nexthops := rib.nexthops.map fun nexthop => { nexthop with fib := false } }

/-- `rib_install_kernel`. -/
def ribInstallKernel : Rib :=
  { rib with nexthops := env.ribInstallKernel rib.ptr rib.nexthops }

/-- Uninstall and install, unless the route is one of the system. -/
def uninstalled : Rib := if rib.system then rib else ribUninstallKernel rib

/-- An entry that is not a system route goes to the kernel. -/
def installed : Rib :=
  if rib.system then rib else ribInstallKernel env rib

/-! ## The loop -/

/-- Whether an entry takes the place of the one that is selected so far. -/
def ribBeats (rib select : Rib) : Bool :=
  if rib.type = zebraRouteConnect then select.type ≠ zebraRouteConnect ∨ rib.metric ≤ select.metric
  else if select.type = zebraRouteConnect then false
  else if rib.distance > select.distance then false
  else if rib.distance < select.distance then true
  else rib.metric ≤ select.metric

/-- The variables of the loop, with the entries that stay linked. What is read of the selected entry
does not change. -/
structure RibScan where
  linked : List Rib
  fib : Option Nat
  select : Option Rib
  del : Option Nat

/-- Before the first entry. -/
def RibScan.start : RibScan := { linked := [], fib := none, select := none, del := none }

/-- One pass of the loop of `rib_process`. -/
def ribScanEntry (scan : RibScan) (rib : Rib) : Except Fault RibScan :=
  if rib.selected ∧ scan.fib ≠ none then .error .assertion
  else
    let fib := if rib.selected then some rib.ptr else scan.fib
    if rib.removed then
      -- the entry is unlinked unless it is the one in the FIB
      if fib ≠ some rib.ptr then .ok { scan with fib := fib }
      else .ok { scan with fib := fib, linked := scan.linked ++ [rib], del := some rib.ptr }
    else
      let updated := nexthopActiveUpdate env false rib
      let scan := { scan with fib := fib, linked := scan.linked ++ [updated] }
      if updated.nexthopActiveNum = 0 then .ok scan
      else if rib.distance = distanceInfinity then .ok scan
      else .ok { scan with select := keepPreferred ribBeats scan.select rib }

/-- The entries with one of them changed. -/
def changeRib (ptr : Nat) (change : Rib → Rib) (info : List Rib) : List Rib :=
  info.map fun rib => if rib.ptr = ptr then change rib else rib

/-- The entry that stays selected. -/
def refreshed : Rib :=
  if rib.changed then installed env (nexthopActiveUpdate env true (uninstalled rib))
  else if ¬ rib.system ∧ ¬ rib.nexthops.any (·.fib) then ribInstallKernel env rib
  else rib

/-- The calls for an entry that stays selected. -/
def refreshCalls (ptr : Nat) (info : List Rib) : List RibCall :=
  if info.any fun rib => rib.ptr = ptr ∧ rib.changed then
    [.redistributeDelete ptr, .redistributeAdd ptr]
  else []

/-- The entry that was selected is withdrawn. -/
def withdrawn : Rib :=
  nexthopActiveUpdate env true { uninstalled rib with selected := false }

/-- The entry that is selected is added. -/
def added : Rib :=
  { installed env (nexthopActiveUpdate env true rib) with selected := true }

/-- Change the entry behind a pointer that may be null. -/
def changeSome (ptr : Option Nat) (change : Rib → Rib) (info : List Rib) : List Rib :=
  match ptr with
  | some ptr => changeRib ptr change info
  | none => info

/-- What is done after the loop: the entries, and the calls of the redistribution. -/
def ribFinish (scan : RibScan) : List Rib × List RibCall :=
  let select := scan.select.map (·.ptr)
  if select ≠ none ∧ select = scan.fib then
    (changeSome select (refreshed env) scan.linked,
      (select.map fun ptr => refreshCalls ptr scan.linked).getD [])
  else
    let info := changeSome scan.fib (withdrawn env) scan.linked
    let info := changeSome select (added env) info
    (info.filter fun rib => scan.del ≠ some rib.ptr,
      scan.fib.toList.map .redistributeDelete ++ select.toList.map .redistributeAdd)

/-- `rib_process`. -/
def ribProcess (rn : RouteNode) : Except Fault (List Rib × List RibCall) := do
  let scan ← rn.info.foldlM (ribScanEntry env) .start
  return ribFinish env scan

/-! ## The entry that ought to be selected -/

/-- A connected route. -/
def Rib.connected : Bool := rib.type = zebraRouteConnect

/-- An entry with an active next hop and a finite distance that is not removed. -/
def Rib.eligible : Bool :=
  !rib.removed && decide (0 < activeCount env false rib) && rib.distance ≠ distanceInfinity

/-- Of entries that are connected the last one of least metric, and of others the last one of least
distance and metric. -/
def Wins (eligible : List Rib) (winner : Rib) : Prop :=
  if eligible.any (·.connected) then
    LastLeast (fun rib => rib.metric.toNat) (eligible.filter (·.connected)) winner
  else LastLeast (fun rib => toLex (rib.distance.toNat, rib.metric.toNat)) eligible winner

/-- The winner, if there is any entry to choose from. -/
def IsWinner (eligible : List Rib) : Option Rib → Prop
  | none => eligible = []
  | some winner => Wins eligible winner

/-- What `rib_process` ought to do: all removed entries are unlinked, the winner is the one entry
that is selected, and when the selection changes the old and the new one are told once. -/
def SelectsWinner (rn : RouteNode) (result : List Rib × List RibCall) : Prop :=
  result.1.map (·.ptr) = (rn.info.filter fun rib => !rib.removed).map (·.ptr) ∧
    ∃ winner, IsWinner (rn.info.filter (·.eligible env)) winner ∧
      (result.1.filter (·.selected)).map (·.ptr) = winner.toList.map (·.ptr) ∧
      ((rn.info.find? (·.selected)).map (·.ptr) ≠ winner.map (·.ptr) →
        result.2 = (rn.info.find? (·.selected)).toList.map (fun rib => .redistributeDelete rib.ptr) ++
          winner.toList.map fun rib => .redistributeAdd rib.ptr)

/-! ## What the loop finds -/

/-- The order in which entries are preferred. -/
def ribRank : ℕ ×ₗ ℕ ×ₗ ℕ :=
  if rib.connected then toLex (0, toLex (0, rib.metric.toNat))
  else toLex (1, toLex (rib.distance.toNat, rib.metric.toNat))

theorem ribRank_connected {rib : Rib} (connected : rib.connected = true) :
    ribRank rib = toLex (0, toLex (0, rib.metric.toNat)) := if_pos connected

theorem ribRank_other {rib : Rib} (other : ¬ rib.connected = true) :
    ribRank rib = toLex (1, toLex (rib.distance.toNat, rib.metric.toNat)) := if_neg other

theorem ribBeats_eq (rib select : Rib) :
    ribBeats rib select = decide (ribRank rib ≤ ribRank select) := by
  rw [ribBeats]
  by_cases one : rib.connected = true <;> by_cases two : select.connected = true
  · rw [ribRank_connected one, ribRank_connected two]
    simp_all [Rib.connected, Prod.Lex.toLex_le_toLex, UInt32.le_iff_toNat_le]
  · rw [ribRank_connected one, ribRank_other two]
    simp_all [Rib.connected, Prod.Lex.toLex_le_toLex]
  · rw [ribRank_other one, ribRank_connected two]
    simp_all [Rib.connected, Prod.Lex.toLex_le_toLex]
  · rw [ribRank_other one, ribRank_other two]
    rw [Rib.connected, decide_eq_true_iff] at one two
    rw [if_neg one, if_neg two]
    simp only [UInt8.lt_iff_toNat_lt, UInt32.le_iff_toNat_le, Prod.Lex.toLex_le_toLex]
    rcases Nat.lt_trichotomy rib.distance.toNat select.distance.toNat with less | same | greater
    · simp [less, Nat.le_of_lt less]
    · simp [same]
    · simp [greater, Nat.ne_of_gt greater, Nat.lt_asymm greater]

variable {eligible : List Rib}

/-- **The entry that comes last by rank is the winner.** -/
theorem wins_of_lastLeast {winner : Rib}
    (lastLeast : LastLeast ribRank eligible winner) : Wins eligible winner := by
  obtain ⟨before, after, split, least, last⟩ := id lastLeast
  have atMost : ∀ rib ∈ eligible, ribRank winner ≤ ribRank rib := by
    intro rib member
    rw [split, List.mem_append, List.mem_cons] at member
    rcases member with member | rfl | member
    · exact least rib member
    · exact le_refl _
    · exact (last rib member).le
  unfold Wins
  split_ifs with any
  · obtain ⟨rib, member, connected⟩ := List.any_eq_true.mp any
    have wins : winner.connected = true := by
      by_contra other
      have le := atMost rib member
      rw [ribRank_connected connected, ribRank_other other] at le
      simp [Prod.Lex.toLex_le_toLex] at le
    refine (lastLeast.filter wins).key (fun other member => ?_) fun other member => ?_
    all_goals
      rw [ribRank_connected wins, ribRank_connected (List.mem_filter.mp member).2]
      simp [Prod.Lex.toLex_le_toLex, Prod.Lex.toLex_lt_toLex]
  · have others : ∀ rib ∈ eligible, ¬ rib.connected = true := by
      intro rib member connected
      exact any (List.any_eq_true.mpr ⟨rib, member, connected⟩)
    refine lastLeast.key (fun other member => ?_) fun other member => ?_
    all_goals
      rw [ribRank_other (others winner lastLeast.mem), ribRank_other (others other member)]
      simp [Prod.Lex.toLex_le_toLex, Prod.Lex.toLex_lt_toLex]

theorem Wins.unique {first second : Rib} (one : Wins eligible first)
    (two : Wins eligible second) : first = second := by
  unfold Wins at one two
  split_ifs at one two
  · exact one.unique two
  · exact one.unique two

/-- The entry is counted as one with an active next hop. -/
def Rib.counted : Bool :=
  rib.eligible env && decide (activeCount env false rib % 256 ≠ 0)

/-- What the loop leaves of an entry. -/
def leftOf : Option Rib :=
  if rib.removed then if rib.selected then some rib else none
  else some (nexthopActiveUpdate env false rib)

/-- The variables after the loop. -/
def scanned (info : List Rib) : RibScan where
  linked := info.filterMap (leftOf env)
  fib := (info.find? (·.selected)).map (·.ptr)
  select := select ribBeats (info.filter (·.counted env))
  del := (info.find? fun rib => rib.removed && rib.selected).map (·.ptr)

/-- **The loop of `rib_process`** over entries of which at most one is selected. -/
theorem foldlM_ribScanEntry {info : List Rib} (distinct : (info.map (·.ptr)).Nodup)
    (single : (info.filter (·.selected)).length ≤ 1) :
    info.foldlM (ribScanEntry env) .start = .ok (scanned env info) := by
  induction info using List.reverseRecOn with
  | nil => rfl
  | append_singleton info rib ih =>
    rw [List.map_append, List.nodup_append] at distinct
    obtain ⟨distinct, -, apart⟩ := distinct
    rw [List.filter_append, List.length_append] at single
    have other : ∀ entry ∈ info, entry.ptr ≠ rib.ptr := fun entry member =>
      apart _ (List.mem_map_of_mem member) _ (by simp)
    rw [List.foldlM_append, ih distinct (by omega), ok_bind, List.foldlM_cons]
    have counts : (nexthopActiveUpdate env false rib).nexthopActiveNum = 0 ↔
        activeCount env false rib % 256 = 0 := by
      simp [nexthopActiveUpdate, ← UInt8.toNat_inj]
    have fibNe : ((info.find? (·.selected)).map (·.ptr)) ≠ some rib.ptr := by
      cases found : info.find? (·.selected) with
      | none => simp
      | some entry => simpa using other entry (List.mem_of_find?_eq_some found)
    have none : rib.selected = true → ∀ entry ∈ info, ¬ entry.selected = true := by
      intro selected entry member also
      have : 0 < (info.filter (·.selected)).length :=
        List.length_pos_of_mem (List.mem_filter.mpr ⟨member, also⟩)
      have one : ([rib].filter (·.selected)).length = 1 := by simp [selected]
      omega
    have first : rib.selected = true → info.find? (·.selected) = .none := fun selected =>
      List.find?_eq_none.mpr (none selected)
    cases removed : rib.removed with
    | true =>
      have uncounted : rib.counted env = false := by simp [Rib.counted, Rib.eligible, removed]
      cases selected : rib.selected with
      | true =>
        have only : (info.find? fun rib => rib.removed && rib.selected) = .none :=
          List.find?_eq_none.mpr fun entry member => by simp [none selected entry member]
        simp [ribScanEntry, scanned, removed, selected, uncounted, leftOf, first selected, only]
      | false => simp [ribScanEntry, scanned, removed, selected, uncounted, leftOf, fibNe]
    | false =>
      have fib : ((info ++ [rib]).find? (·.selected)).map (·.ptr) =
          if rib.selected then some rib.ptr else (info.find? (·.selected)).map (·.ptr) := by
        cases selected : rib.selected with
        | true => simp [first selected, selected]
        | false => simp [selected]
      have passes : ¬ (rib.selected = true ∧ (info.find? (·.selected)).map (·.ptr) ≠ .none) := by
        rintro ⟨selected, some⟩
        exact some (by rw [first selected]; rfl)
      have linked : (info ++ [rib]).filterMap (leftOf env) =
          info.filterMap (leftOf env) ++ [nexthopActiveUpdate env false rib] := by
        simp [leftOf, removed]
      rw [ribScanEntry, scanned, if_neg passes, scanned, fib, linked]
      simp only [counts]
      by_cases active : activeCount env false rib % 256 = 0
      · simp [active, Rib.counted, removed]
      by_cases infinite : rib.distance = distanceInfinity
      · simp [infinite, Rib.counted, Rib.eligible, removed]
      have counted : rib.counted env = true := by
        simp [Rib.counted, Rib.eligible, removed, infinite]
        omega
      simp [active, infinite, counted, removed, select]

/-! ## What is left at the end -/

@[simp] theorem ptr_nexthopActiveUpdate (set : Bool) (rib : Rib) :
    (nexthopActiveUpdate env set rib).ptr = rib.ptr := rfl

@[simp] theorem ptr_installed : (installed env rib).ptr = rib.ptr := by
  unfold installed
  split_ifs <;> rfl

@[simp] theorem selected_installed : (installed env rib).selected = rib.selected := by
  unfold installed
  split_ifs <;> rfl

@[simp] theorem ptr_uninstalled : (uninstalled rib).ptr = rib.ptr := by
  unfold uninstalled
  split_ifs <;> rfl

@[simp] theorem selected_uninstalled : (uninstalled rib).selected = rib.selected := by
  unfold uninstalled
  split_ifs <;> rfl

@[simp] theorem ptr_refreshed : (refreshed env rib).ptr = rib.ptr := by
  unfold refreshed
  split_ifs <;> simp [ribInstallKernel]

@[simp] theorem selected_refreshed : (refreshed env rib).selected = rib.selected := by
  unfold refreshed
  split_ifs <;> simp [nexthopActiveUpdate, ribInstallKernel]

theorem changeSome_eq (ptr : Option Nat) (change : Rib → Rib) (info : List Rib) :
    changeSome ptr change info =
      info.map fun rib => if ptr = some rib.ptr then change rib else rib := by
  cases ptr with
  | none => simp [changeSome]
  | some ptr => simp [changeSome, changeRib, eq_comm]

theorem filterMap_left {info : List Rib} {left : Rib → Option Rib} {final : Rib → Rib}
    (same : ∀ rib ∈ info, left rib = if rib.removed then none else some (final rib)) :
    info.filterMap left = (info.filter fun rib => !rib.removed).map final := by
  rw [List.filterMap_congr same]
  clear same
  induction info with
  | nil => rfl
  | cons rib rest ih => cases removed : rib.removed <;> simp [removed, ih]

/-- The entry that is selected at the end. -/
def newSelection (info : List Rib) : Option Rib :=
  select ribBeats (info.filter (·.counted env))

/-- What becomes of an entry, with the pointers to the old and the new selection. -/
def finalOf (fib select : Option Nat) (rib : Rib) : Rib :=
  let updated := nexthopActiveUpdate env false rib
  if select ≠ none ∧ select = fib then
    if select = some rib.ptr then refreshed env updated else updated
  else
    let left := if fib = some rib.ptr then withdrawn env updated else updated
    if select = some rib.ptr then added env left else left

@[simp] theorem ptr_withdrawn : (withdrawn env rib).ptr = rib.ptr :=
  ptr_uninstalled rib

theorem ptr_finalOf (fib select : Option Nat) (rib : Rib) :
    (finalOf env fib select rib).ptr = rib.ptr := by
  simp only [finalOf]
  split_ifs <;> simp [added]

theorem selected_finalOf {fib select : Option Nat} {rib : Rib}
    (old : rib.selected = decide (fib = some rib.ptr)) :
    (finalOf env fib select rib).selected = decide (select = some rib.ptr) := by
  simp only [finalOf]
  split_ifs <;> simp_all [nexthopActiveUpdate, withdrawn, added]

section Finish

variable {env : RibEnv} {info : List Rib} (distinct : (info.map (·.ptr)).Nodup)
  (single : (info.filter (·.selected)).length ≤ 1)

include single in
theorem eq_of_selected {one two : Rib} (first : one ∈ info) (second : two ∈ info)
    (selected : one.selected = true) (selected' : two.selected = true) : one = two := by
  have first := List.mem_filter.mpr ⟨first, selected⟩
  have second := List.mem_filter.mpr ⟨second, selected'⟩
  generalize info.filter (·.selected) = chosen at single first second
  match chosen, single with
  | [], _ => exact absurd first (by simp)
  | [only], _ => rw [List.mem_singleton.mp first, List.mem_singleton.mp second]

include distinct single in
/-- A pointer to the first one of the entries that are selected in some way is one to all of them. -/
theorem found_iff {p : Rib → Bool} (also : ∀ rib, p rib = true → rib.selected = true) {rib : Rib}
    (member : rib ∈ info) : p rib = decide ((info.find? p).map (·.ptr) = some rib.ptr) := by
  cases found : info.find? p with
  | none => simpa using List.find?_eq_none.mp found rib member
  | some first =>
    have there := List.mem_of_find?_eq_some found
    have holds : p first = true := List.find?_some found
    by_cases same : first.ptr = rib.ptr
    · simp [← List.inj_on_of_nodup_map distinct there member same, holds]
    · cases holds' : p rib with
      | false => simp [same]
      | true =>
        have equal := eq_of_selected single there member (also _ holds) (also _ holds')
        exact absurd (congrArg _ equal) same

theorem newSelection_mem {winner : Rib} (chosen : newSelection env info = some winner) :
    winner ∈ info ∧ winner.counted env = true :=
  List.mem_filter.mp (select_mem chosen)

/-- What is done after the loop, if an entry that was selected and is removed is the one to be
deleted. -/
theorem ribFinish_linked {scan : RibScan} (linked : scan.linked = info.filterMap (leftOf env))
    (stale : ∀ rib ∈ info, rib.removed = true → rib.selected = true →
      scan.del = some rib.ptr ∧ scan.select.map (·.ptr) ≠ scan.fib)
    (kept : ∀ rib ∈ info, rib.removed = false → scan.del ≠ some rib.ptr) :
    (ribFinish env scan).1 = (info.filter fun rib => !rib.removed).map
      (finalOf env scan.fib (scan.select.map (·.ptr))) := by
  rw [ribFinish, linked]
  generalize scan.select.map (·.ptr) = select at stale ⊢
  generalize scan.fib = fib at stale ⊢
  simp only [changeSome_eq]
  split_ifs with stays
  · rw [List.map_filterMap]
    refine filterMap_left fun rib member => ?_
    cases removed : rib.removed with
    | false =>
      have final : finalOf env fib select rib = _ := if_pos stays
      rw [final]
      by_cases new : select = some rib.ptr <;> simp [leftOf, removed, new]
    | true =>
      cases selected : rib.selected with
      | false => simp [leftOf, removed, selected]
      | true => exact absurd stays.2 (stale rib member removed selected).2
  · rw [List.map_filterMap, List.map_filterMap, List.filter_filterMap]
    refine filterMap_left fun rib member => ?_
    cases removed : rib.removed with
    | false =>
      have final : finalOf env fib select rib = _ := if_neg stays
      rw [final]
      by_cases old : fib = some rib.ptr <;> by_cases new : select = some rib.ptr
      all_goals simp [leftOf, removed, old, new, kept rib member removed, added]
    | true =>
      cases selected : rib.selected with
      | false => simp [leftOf, removed, selected]
      | true =>
        have del := (stale rib member removed selected).1
        by_cases old : fib = some rib.ptr <;> by_cases new : select = some rib.ptr
        all_goals simp [leftOf, removed, old, new, del, added]

include distinct single in
/-- **What `rib_process` leaves**: the entries that are not removed. -/
theorem ribFinish_scanned : (ribFinish env (scanned env info)).1 =
    (info.filter fun rib => !rib.removed).map
      (finalOf env ((info.find? (·.selected)).map (·.ptr)) ((newSelection env info).map (·.ptr))) := by
  have inFib : ∀ rib ∈ info, rib.selected = decide ((scanned env info).fib = some rib.ptr) :=
    fun rib member => found_iff distinct single (fun _ selected => selected) member
  have toDelete : ∀ rib ∈ info, (rib.removed && rib.selected) =
      decide ((scanned env info).del = some rib.ptr) := fun rib member =>
    found_iff distinct single (p := fun rib => rib.removed && rib.selected) (by simp) member
  refine ribFinish_linked rfl (fun rib member removed selected => ⟨?_, fun same => ?_⟩)
    fun rib member kept => ?_
  · simpa [removed, selected] using toDelete rib member
  · rw [inFib rib member, ← same, decide_eq_true_iff] at selected
    obtain ⟨winner, found, ptr⟩ := Option.map_eq_some_iff.mp selected
    obtain ⟨there, counted⟩ := newSelection_mem found
    rw [List.inj_on_of_nodup_map distinct there member ptr] at counted
    simp [Rib.counted, Rib.eligible, removed] at counted
  · simpa [kept] using toDelete rib member

end Finish

/-! ## The selection -/

section Selection

variable (env : RibEnv) (rn : RouteNode) {winner : Rib}

theorem counted_eq : rn.info.filter (·.counted env) =
    (rn.info.filter (·.eligible env)).filter fun rib =>
      decide (activeCount env false rib % 256 ≠ 0) := by
  rw [List.filter_filter]
  exact List.filter_congr fun rib _ => Bool.and_comm _ _

theorem exists_wins (nonempty : eligible ≠ []) :
    ∃ winner, LastLeast ribRank eligible winner ∧ Wins eligible winner := by
  obtain ⟨winner, -, chosen⟩ := exists_select ribBeats nonempty
  have lastLeast := lastLeast_of_select ribRank ribBeats_eq chosen
  exact ⟨winner, lastLeast, wins_of_lastLeast lastLeast⟩

theorem Wins.mem (wins : Wins eligible winner) : winner ∈ eligible := by
  unfold Wins at wins
  split_ifs at wins
  · exact List.mem_of_mem_filter wins.mem
  · exact wins.mem

variable {env rn}

/-- An entry that ought to win and is counted is selected. -/
theorem newSelection_eq (wins : Wins (rn.info.filter (·.eligible env)) winner)
    (counted : activeCount env false winner % 256 ≠ 0) :
    newSelection env rn.info = some winner := by
  obtain ⟨best, lastLeast, wins'⟩ := exists_wins (List.ne_nil_of_mem wins.mem)
  obtain rfl := wins'.unique wins
  have among : LastLeast ribRank (rn.info.filter (·.counted env)) best := by
    rw [counted_eq]
    exact lastLeast.filter (decide_eq_true counted)
  obtain ⟨chosen, -, result⟩ := exists_select ribBeats (List.ne_nil_of_mem among.mem)
  rw [newSelection, result, (lastLeast_of_select ribRank ribBeats_eq result).unique among]

/-- The one entry that is selected at the end. -/
theorem selected_ribFinish (single : (rn.info.filter (·.selected)).length ≤ 1) :
    ((ribFinish env (scanned env rn.info)).1.filter (·.selected)).map (·.ptr) =
      (newSelection env rn.info).toList.map (·.ptr) := by
  rw [ribFinish_scanned rn.distinct single, List.filter_map, List.map_map]
  have selected : ∀ rib ∈ rn.info.filter (fun rib => !rib.removed),
      ((·.selected) ∘ finalOf env ((rn.info.find? (·.selected)).map (·.ptr))
        ((newSelection env rn.info).map (·.ptr))) rib =
        decide ((newSelection env rn.info).map (·.ptr) = some rib.ptr) := by
    intro rib member
    exact selected_finalOf env
      (found_iff rn.distinct single (fun _ selected => selected) (List.mem_of_mem_filter member))
  have ptrs : (·.ptr) ∘ finalOf env ((rn.info.find? (·.selected)).map (·.ptr))
      ((newSelection env rn.info).map (·.ptr)) = Rib.ptr := funext fun rib => ptr_finalOf _ _ _ rib
  rw [List.filter_congr selected, ptrs]
  cases chosen : newSelection env rn.info with
  | none => simp
  | some winner =>
    obtain ⟨there, counted⟩ := newSelection_mem chosen
    have kept : winner ∈ rn.info.filter fun rib => !rib.removed := by
      simp [Rib.counted, Rib.eligible] at counted
      simp [there, counted]
    have distinct : ((rn.info.filter fun rib => !rib.removed).map Rib.ptr).Nodup :=
      rn.distinct.sublist (List.filter_sublist.map _)
    have only : ((rn.info.filter fun rib => !rib.removed).map Rib.ptr).filter
        (fun ptr => decide (ptr = winner.ptr)) = [winner.ptr] := by
      rw [List.filter_eq, List.count_eq_one_of_mem distinct (List.mem_map_of_mem kept)]
      rfl
    rw [List.filter_map] at only
    simpa [eq_comm] using only

theorem ribProcess_eq (env : RibEnv) (rn : RouteNode)
    (single : (rn.info.filter (·.selected)).length ≤ 1) :
    ribProcess env rn = .ok (ribFinish env (scanned env rn.info)) := by
  rw [ribProcess, foldlM_ribScanEntry env rn.distinct single]
  rfl

/-- **`rib_process` unlinks what is removed and selects the winner exactly if the winner does not
have a multiple of 256 active next hops.** -/
theorem selects_winner_iff (env : RibEnv) (rn : RouteNode)
    (single : (rn.info.filter (·.selected)).length ≤ 1) :
    (∃ result, ribProcess env rn = .ok result ∧ SelectsWinner env rn result) ↔
      ∀ winner, Wins (rn.info.filter (·.eligible env)) winner →
        activeCount env false winner % 256 ≠ 0 := by
  have returned := ribProcess_eq env rn single
  have selected := @selected_ribFinish env rn single
  constructor
  · rintro ⟨result, processed, -, winner', isWinner, marked, -⟩ winner wins
    obtain rfl := Except.ok.inj (returned.symm.trans processed)
    rw [selected] at marked
    cases winner' with
    | none =>
      have empty : rn.info.filter (·.eligible env) = [] := isWinner
      exact absurd wins.mem (by rw [empty]; exact List.not_mem_nil)
    | some winner' =>
      obtain rfl := Wins.unique isWinner wins
      cases chosen : newSelection env rn.info with
      | none => simp [chosen] at marked
      | some chosenRib =>
        obtain ⟨there, counted⟩ := newSelection_mem chosen
        have same : chosenRib.ptr = winner'.ptr := by simpa [chosen] using marked
        rw [← List.inj_on_of_nodup_map rn.distinct there (List.mem_of_mem_filter wins.mem) same]
        simp [Rib.counted] at counted
        exact counted.2
  · intro counted
    refine ⟨_, returned, ?_, newSelection env rn.info, ?_, selected, fun differs => ?_⟩
    · rw [ribFinish_scanned rn.distinct single, List.map_map]
      exact List.map_congr_left fun rib _ => ptr_finalOf _ _ _ rib
    · by_cases empty : rn.info.filter (·.eligible env) = []
      · have none : newSelection env rn.info = none := by rw [newSelection, counted_eq, empty]; rfl
        rw [none]
        exact empty
      · obtain ⟨winner, -, wins⟩ := exists_wins empty
        rw [newSelection_eq wins (counted winner wins)]
        exact wins
    · have changes : ¬ ((newSelection env rn.info).map (·.ptr) ≠ none ∧
          (newSelection env rn.info).map (·.ptr) = (rn.info.find? (·.selected)).map (·.ptr)) :=
        fun same => differs same.2.symm
      have finish : ribFinish env (scanned env rn.info) = _ := if_neg changes
      have fib : (scanned env rn.info).fib = (rn.info.find? (·.selected)).map (·.ptr) := rfl
      have select : (scanned env rn.info).select = newSelection env rn.info := rfl
      rw [finish, fib, select]
      cases rn.info.find? (·.selected) <;> cases newSelection env rn.info <;> rfl

end Selection

/-! ## Runs of a node -/

/-- What happens at a node: `rib_link` puts a new entry in front, `rib_process` runs, and other
functions change entries, none of which sets `ZEBRA_FLAG_SELECTED`. But `zread_ipv4_add` takes the
flags of a new entry from the message as they are: a client must not send this one while an entry is
selected. -/
inductive NodeStep (rn : RouteNode) : RouteNode → Prop where
  | ribLink {after : RouteNode} (rib : Rib)
      (sent : rib.selected = true → rn.info.filter (·.selected) = [])
      (linked : after.info = rib :: rn.info) : NodeStep rn after
  | change {after : RouteNode} (change : Rib → Rib)
      (unset : ∀ rib, (change rib).selected = true → rib.selected = true)
      (changed : after.info = rn.info.map change) : NodeStep rn after
  | process {after : RouteNode} (env : RibEnv) {calls : List RibCall}
      (returned : ribProcess env rn = .ok (after.info, calls)) : NodeStep rn after

/-- The nodes that zebra can come to. -/
def RouteNode.Reachable : RouteNode → Prop := Relation.ReflTransGen NodeStep ⟨[], .nil⟩

theorem NodeStep.single {rn after : RouteNode} (step : NodeStep rn after)
    (single : (rn.info.filter (·.selected)).length ≤ 1) :
    (after.info.filter (·.selected)).length ≤ 1 := by
  cases step with
  | ribLink rib sent linked =>
    cases flag : rib.selected with
    | false => simpa [linked, flag] using single
    | true => simp [linked, flag, sent flag]
  | change change unset changed =>
    rw [changed, List.filter_map, List.length_map]
    exact Nat.le_trans (List.monotone_filter_right rn.info unset).length_le single
  | process env returned =>
    rw [ribProcess_eq env rn single] at returned
    have chosen := congrArg List.length (@selected_ribFinish env rn single)
    rw [Except.ok.inj returned, List.length_map, List.length_map] at chosen
    rw [chosen, Option.length_toList]
    split_ifs <;> decide

/-- **The assertion in `rib_process` does not fail** in such runs: at most one entry is selected, so
that `rib_process` returns, and what it leaves has no removed entries and the new selection. -/
theorem ribProcess_returns {rn : RouteNode} (reached : rn.Reachable) (env : RibEnv) :
    (rn.info.filter (·.selected)).length ≤ 1 ∧ ∃ result, ribProcess env rn = .ok result ∧
      result.1.map (·.ptr) = (rn.info.filter fun rib => !rib.removed).map (·.ptr) ∧
      (result.1.filter (·.selected)).map (·.ptr) =
        (newSelection env rn.info).toList.map (·.ptr) := by
  have single : (rn.info.filter (·.selected)).length ≤ 1 := by
    induction reached with
    | refl => exact Nat.zero_le _
    | tail _ step ih => exact step.single ih
  refine ⟨single, _, ribProcess_eq env rn single, ?_, selected_ribFinish single⟩
  rw [ribFinish_scanned rn.distinct single, List.map_map]
  exact List.map_congr_left fun rib _ => ptr_finalOf _ _ _ rib

/-- Next hops that stay as they are. -/
def steadyEnv : RibEnv :=
  { nexthopActiveCheck := fun _ _ _ nexthop => nexthop, ribInstallKernel := fun _ nexthops => nexthops }

/-- A static route that is not selected yet, with so many active next hops. -/
def staticRib (ptr : Nat) (distance : UInt8) (nexthops : Nat) : Rib where
  ptr := ptr
  type := 3
  distance := distance
  metric := 0
  removed := false
  selected := false
  changed := false
  nexthopActiveNum := 0
  nexthops := List.replicate nexthops { active := true, fib := false, ifindex := 1 }

/-- A node with one static route. -/
def staticNode (nexthops : Nat) : RouteNode where
  info := [staticRib 1 1 nexthops]
  distinct := List.nodup_singleton _

/-- The route of the node after `rib_process`. -/
def staticSelected : Rib := { staticRib 1 1 1 with selected := true, nexthopActiveNum := 1 }

theorem nodup_two_ptrs : [2, 1].Nodup := by decide

theorem nodup_three_ptrs : [3, 2, 1].Nodup := by decide

/-- The selected route is removed, and two more routes are linked. -/
def replacedNode : RouteNode where
  info := [staticRib 3 5 1, staticRib 2 1 1, { staticSelected with removed := true }]
  distinct := nodup_three_ptrs

theorem activeCount_staticNode (nexthops : Nat) : ∀ rib ∈ (staticNode nexthops).info,
    activeCount steadyEnv false rib = nexthops := by
  intro rib member
  rw [List.mem_singleton.mp member, activeCount, checkedNexthops]
  simp [staticRib, steadyEnv, List.mapIdx_eq_zipIdx_map, List.countP_replicate]

/-- Each of the routes has one active next hop. -/
theorem replacedNode_selected :
    ∃ result, ribProcess steadyEnv replacedNode = .ok result ∧
      SelectsWinner steadyEnv replacedNode result := by
  have counts : ∀ rib ∈ replacedNode.info, activeCount steadyEnv false rib % 256 ≠ 0 := by decide
  exact (selects_winner_iff steadyEnv replacedNode (by decide)).mpr fun winner wins =>
    counts winner (List.mem_of_mem_filter wins.mem)

/-- A static route with 256 active next hops is not selected. -/
theorem staticNode_unselected :
    ¬ ∃ result, ribProcess steadyEnv (staticNode 256) = .ok result ∧
      SelectsWinner steadyEnv (staticNode 256) result := by
  rintro ⟨result, processed, -, winner, isWinner, marked, -⟩
  have single : ((staticNode 256).info.filter (·.selected)).length ≤ 1 := Nat.zero_le _
  obtain rfl := Except.ok.inj ((ribProcess_eq steadyEnv _ single).symm.trans processed)
  have uncounted : (staticNode 256).info.filter (·.counted steadyEnv) = [] :=
    List.filter_eq_nil_iff.mpr fun rib member => by
      simp [Rib.counted, activeCount_staticNode 256 rib member]
  rw [selected_ribFinish single, newSelection, uncounted] at marked
  cases winner with
  | some winner => exact absurd marked (by simp [select])
  | none =>
    obtain ⟨rib, member⟩ : ∃ rib, rib ∈ (staticNode 256).info := ⟨_, List.mem_singleton_self _⟩
    have eligible : rib.eligible steadyEnv = true := by
      rw [Rib.eligible, activeCount_staticNode 256 rib member, List.mem_singleton.mp member]
      decide
    exact absurd eligible (List.filter_eq_nil_iff.mp isWinner rib member)

/-- `rib_process` has selected the route before it is removed. -/
theorem ribProcess_returns_replaced :
    ∃ result, ribProcess steadyEnv replacedNode = .ok result ∧
      result.1.map (·.ptr) = [3, 2] ∧ (result.1.filter (·.selected)).map (·.ptr) = [2] := by
  have linked : (staticNode 1).Reachable := .single (.ribLink _ (fun _ => rfl) rfl)
  have processed : RouteNode.Reachable ⟨[staticSelected], List.nodup_singleton _⟩ :=
    linked.tail (.process steadyEnv rfl)
  have removed : RouteNode.Reachable
      ⟨[{ staticSelected with removed := true }], List.nodup_singleton _⟩ :=
    processed.tail (.change (fun rib => { rib with removed := true }) (fun _ set => set) rfl)
  have second : RouteNode.Reachable
      ⟨[staticRib 2 1 1, { staticSelected with removed := true }], nodup_two_ptrs⟩ :=
    removed.tail (.ribLink _ (fun set => by cases set) rfl)
  have reached : replacedNode.Reachable :=
    second.tail (.ribLink _ (fun set => by cases set) rfl)
  obtain ⟨-, result, returned, kept, selected⟩ := ribProcess_returns reached steadyEnv
  exact ⟨result, returned, kept, selected.trans (by decide)⟩

end Quagga.Zebra
