import Quagga.Library.GroupWinners
import Quagga.Library.Outcomes
import Quagga.Bgpd.BestSelection

/-!
# Deterministic MED

The MED of two routes is compared only when they enter through the same neighbour AS, so the
pairwise comparison is not transitive and a single pass over the routes depends on their order.
With deterministic MED `bgp_best_selection` first marks the best route of each group of routes
with one neighbour AS and then passes over the marked routes only.

Two keys describe this. Inside a group the comparison is one of decision keys
(`prefersNew_sameNeighbour`); between groups it is one of keys in which the MED counts only for
paths without hops (`prefersNew_otherNeighbour`). The two nested loops are those of
`Library.GroupWinners`, so they mark the champion of each group, and the main loop returns the
greatest champion, in every order of the list (`bgpBestSelection_deterministicMed`).
-/

set_option autoImplicit false

namespace Quagga.Bgpd

open Lib Library

/-! ## Neighbour ASes -/

/-- A path without confederation segments. -/
def Aspath.NoConfed (aspath : Aspath) : Prop :=
  ∀ seg ∈ aspath.segments, seg.type ≠ .asConfedSequence ∧ seg.type ≠ .asConfedSet

instance (aspath : Aspath) : Decidable aspath.NoConfed :=
  inferInstanceAs (Decidable (∀ _ ∈ _, _))

/-- The AS number that a path starts with. -/
def Aspath.leadingAs (aspath : Aspath) : Option Nat :=
  match aspath.segments with
  | [] => none
  | seg :: _ => if seg.type = .asSequence then seg.as.head? else none

section Paths

variable {aspath aspath1 aspath2 : Aspath}

theorem Aspath.NoConfed.skipConfed_eq (noConfed : aspath.NoConfed) :
    skipConfed aspath.segments = aspath.segments := by
  cases segments_eq : aspath.segments with
  | nil => rfl
  | cons seg rest =>
    have plain := noConfed seg (segments_eq ▸ List.mem_cons_self ..)
    simp [skipConfed, plain]

/-- Without confederations, two paths are compared by MED when they start with the same AS. -/
theorem aspathCmpLeft_iff (noConfed1 : aspath1.NoConfed) (noConfed2 : aspath2.NoConfed) :
    aspathCmpLeft aspath1 aspath2 = true ↔
      ∃ as, aspath1.leadingAs = some as ∧ aspath2.leadingAs = some as := by
  rw [aspathCmpLeft, noConfed1.skipConfed_eq, noConfed2.skipConfed_eq, Aspath.leadingAs,
    Aspath.leadingAs]
  cases aspath1.segments with
  | nil => simp
  | cons seg1 rest1 =>
    cases aspath2.segments with
    | nil => simp
    | cons seg2 rest2 =>
      by_cases sequence1 : seg1.type = .asSequence <;>
        by_cases sequence2 : seg2.type = .asSequence <;> simp [sequence1, sequence2]
      cases seg1.as <;> simp [eq_comm]

theorem aspathCmpLeftConfed_eq (noConfed : aspath1.NoConfed) :
    aspathCmpLeftConfed aspath1 aspath2 = false := by
  rw [aspathCmpLeftConfed]
  cases segments_eq : aspath1.segments with
  | nil => rfl
  | cons seg rest =>
    have plain := noConfed seg (segments_eq ▸ List.mem_cons_self ..)
    cases aspath2.segments <;> simp [plain]

theorem foldl_segmentCount_confed {segments : List Assegment}
    (plain : ∀ seg ∈ segments, seg.type ≠ .asConfedSequence ∧ seg.type ≠ .asConfedSet)
    (count : Nat) :
    segments.foldl (fun count seg => count + segmentCount .asConfedSequence .asConfedSet seg)
      count = count := by
  induction segments generalizing count with
  | nil => rfl
  | cons seg rest ih =>
    obtain ⟨notSequence, notSet⟩ := plain seg (List.mem_cons_self ..)
    rw [List.foldl_cons, segmentCount, if_neg notSequence, if_neg notSet]
    exact ih (fun other member => plain other (List.mem_cons_of_mem _ member)) count

theorem aspathCountConfeds_eq (noConfed : aspath.NoConfed) : aspathCountConfeds aspath = 0 :=
  foldl_segmentCount_confed noConfed 0

end Paths

/-- The test of the inner loop of deterministic MED. -/
def sameNeighbour (ri1 ri2 : BgpInfo) : Bool :=
  aspathCmpLeft ri1.attr.aspath ri2.attr.aspath ||
    aspathCmpLeftConfed ri1.attr.aspath ri2.attr.aspath

/-- A learned route whose path has no confederation segment. -/
structure BgpInfo.Plain (ri : BgpInfo) : Prop where
  learned : ri.Learned
  noConfed : ri.attr.aspath.NoConfed

variable {first second : BgpInfo}

theorem sameNeighbour_iff (plain1 : first.Plain) (plain2 : second.Plain) :
    sameNeighbour first second = true ↔
      ∃ as, first.attr.aspath.leadingAs = some as ∧ second.attr.aspath.leadingAs = some as := by
  rw [sameNeighbour, aspathCmpLeftConfed_eq plain1.noConfed, Bool.or_false,
    aspathCmpLeft_iff plain1.noConfed plain2.noConfed]

/-! ## The two keys -/

/-- The flags of the instance under which routes are compared in groups. -/
structure Bgp.Grouped (bgp : Bgp) : Prop where
  deterministicMed : bgp.deterministicMed = true
  compareRouterId : bgp.compareRouterId = true
  alwaysCompareMed : bgp.alwaysCompareMed = false
  aspathIgnore : bgp.aspathIgnore = false

/-- The MED between routes of different groups: only two paths without hops are compared
by it. -/
def outerMed (bgp : Bgp) (ri : BgpInfo) : Nat :=
  if aspathCountHops ri.attr.aspath = 0 then bgpMedValue bgp ri.attr else 0

/-- The key that decides between routes of different groups. -/
def outerKey (bgp : Bgp) (inTrust obsTrust : Table) (ri : BgpInfo) : ℕ ×ₗ AttributeKey :=
  toLex (trustSum inTrust obsTrust ri.peer.as, attributeKeyWith bgp (outerMed bgp ri) ri)

theorem suRemote_eq_of_outerKey {bgp : Bgp} {inTrust obsTrust : Table}
    (same : outerKey bgp inTrust obsTrust first = outerKey bgp inTrust obsTrust second) :
    first.peer.suRemote = second.peer.suRemote := by
  simp only [outerKey, attributeKeyWith, EmbeddingLike.apply_eq_iff_eq, Prod.mk.injEq] at same
  exact addressKey_injective same.2.2.2.2.2.2.2.2.2.2

section Keys

variable {files : Files} {bgp : Bgp} {inTrust obsTrust : Table} {new exist : BgpInfo}

section

variable (grouped : bgp.Grouped)

include grouped

/-- The MED step between routes of different groups whose paths are equally long. -/
theorem medStep_otherNeighbour (newPlain : new.Plain)
    (existPlain : exist.Plain) (other : sameNeighbour new exist = false)
    (sameLength : pathLength bgp exist.attr.aspath = pathLength bgp new.attr.aspath) :
    medStep bgp new exist = preferLower (outerMed bgp exist) (outerMed bgp new) := by
  have sameHops : aspathCountHops exist.attr.aspath = aspathCountHops new.attr.aspath := by
    simpa [pathLength, grouped.aspathIgnore, aspathCountConfeds_eq newPlain.noConfed,
      aspathCountConfeds_eq existPlain.noConfed] using sameLength
  have notConfed : confedAsRoute new exist = false := by
    simp [confedAsRoute, aspathCountConfeds_eq newPlain.noConfed]
  obtain ⟨notLeft, notLeftConfed⟩ := Bool.or_eq_false_iff.mp other
  rw [medStep, grouped.alwaysCompareMed, notConfed, notLeft, notLeftConfed, outerMed, outerMed]
  by_cases noHops : aspathCountHops new.attr.aspath = 0 <;>
    simp [internalAsRoute, sameHops, noHops]

/-- **Inside a group the comparison is one of decision keys.** -/
theorem prefersNew_sameNeighbour (unvoted : ∀ as, files.voteresult as = none)
    (newPlain : new.Plain) (existPlain : exist.Plain) (same : sameNeighbour new exist = true) :
    prefersNew files bgp inTrust obsTrust new exist =
      decide (decisionKey bgp inTrust obsTrust exist ≤ decisionKey bgp inTrust obsTrust new) := by
  have compared : medStep bgp new exist =
      preferLower (bgpMedValue bgp exist.attr) (bgpMedValue bgp new.attr) := by
    rw [medStep]
    rcases Bool.or_eq_true_iff.mp same with left | left <;> simp [left]
  exact prefersNew_eq_of_attributes (attributeSteps_eq_of_med grouped.compareRouterId
    newPlain.learned existPlain.learned fun _ => compared) (.inl (unvoted _))

/-- **Between groups it is one of keys without the MED of paths with hops.** -/
theorem prefersNew_otherNeighbour
    (unvoted : ∀ as, files.voteresult as = none) (newPlain : new.Plain)
    (existPlain : exist.Plain) (other : sameNeighbour new exist = false) :
    prefersNew files bgp inTrust obsTrust new exist =
      decide (outerKey bgp inTrust obsTrust exist ≤ outerKey bgp inTrust obsTrust new) :=
  prefersNew_eq_of_attributes (attributeSteps_eq_of_med grouped.compareRouterId newPlain.learned
    existPlain.learned (medStep_otherNeighbour grouped newPlain existPlain other))
    (.inl (unvoted _))

end

end Keys

/-! ## The nested loops mark the champions -/

/-- Neither `BGP_INFO_DMED_CHECK` nor `BGP_INFO_DMED_SELECTED` is set. -/
def BgpInfo.Unmarked (ri : BgpInfo) : Prop :=
  ri.flags.dmedCheck = false ∧ ri.flags.dmedSelected = false

instance (ri : BgpInfo) : Decidable ri.Unmarked := inferInstanceAs (Decidable (_ ∧ _))

/-- A route with the given marks. -/
def BgpInfo.withMarks (ri : BgpInfo) (check chosen : Bool) : BgpInfo :=
  { ri with flags := { ri.flags with dmedCheck := check, dmedSelected := chosen } }

/-- The routes of a node with the marks of the loops. -/
def withMarks (rn : List BgpInfo) (marks : Marks) : List BgpInfo :=
  rn.mapIdx fun k ri => ri.withMarks (marks.check k) (marks.chosen k)

/-- A test of two routes given by their positions. -/
def testAt (test : BgpInfo → BgpInfo → Bool) (rn : List BgpInfo) (i j : Nat) : Bool :=
  match rn[i]?, rn[j]? with
  | some ri1, some ri2 => test ri1 ri2
  | _, _ => false

/-- The routes of a node as candidates of the nested loops. -/
def dmedGroups (files : Files) (bgp : Bgp) (inTrust obsTrust : Table) (rn : List BgpInfo) :
    Groups where
  size := rn.length
  eligible k := testAt (fun ri _ => !ri.holddown) rn k k
  related := testAt sameNeighbour rn
  prefers := testAt (prefersNew files bgp inTrust obsTrust) rn

section Marking

variable {files : Files} {bgp : Bgp} {inTrust obsTrust : Table} {rn : List BgpInfo}
  {marks : Marks}

theorem getElem?_withMarks (k : Nat) :
    (withMarks rn marks)[k]? =
      rn[k]?.map fun ri => ri.withMarks (marks.check k) (marks.chosen k) := by
  rw [withMarks, List.getElem?_mapIdx]

@[simp] theorem length_withMarks : (withMarks rn marks).length = rn.length :=
  List.length_mapIdx

theorem modify_withMarks {change : BgpInfo → BgpInfo} {j : Nat} {marks' : Marks}
    (atJ : ∀ ri : BgpInfo, change (ri.withMarks (marks.check j) (marks.chosen j)) =
      ri.withMarks (marks'.check j) (marks'.chosen j))
    (elsewhere : ∀ k, k ≠ j → marks'.check k = marks.check k ∧ marks'.chosen k = marks.chosen k) :
    (withMarks rn marks).modify j change = withMarks rn marks' := by
  apply List.ext_getElem?
  intro k
  rw [List.getElem?_modify, getElem?_withMarks, getElem?_withMarks]
  by_cases same : j = k
  · subst same
    cases rn[j]? <;> simp [atJ]
  · obtain ⟨check_eq, chosen_eq⟩ := elsewhere k (Ne.symm same)
    simp [same, check_eq, chosen_eq]

@[simp] theorem modify_setDmedCheck (j : Nat) :
    (withMarks rn marks).modify j BgpInfo.setDmedCheck = withMarks rn (marks.setCheck j) := by
  apply modify_withMarks
  · simp [BgpInfo.setDmedCheck, BgpInfo.withMarks, Marks.setCheck]
  · intro k other
    simp [Marks.setCheck, other]

@[simp] theorem modify_unsetDmedSelected (j : Nat) :
    (withMarks rn marks).modify j BgpInfo.unsetDmedSelected =
      withMarks rn (marks.unsetChosen j) := by
  apply modify_withMarks
  · simp [BgpInfo.unsetDmedSelected, BgpInfo.withMarks, Marks.unsetChosen]
  · intro k other
    simp [Marks.unsetChosen, other]

@[simp] theorem modify_setDmed (j : Nat) :
    (withMarks rn marks).modify j BgpInfo.setDmed = withMarks rn (marks.setBoth j) := by
  apply modify_withMarks
  · simp [BgpInfo.setDmed, BgpInfo.withMarks, Marks.setBoth]
  · intro k other
    simp [Marks.setBoth, other]

theorem testAt_eq {test : BgpInfo → BgpInfo → Bool} {i j : Nat} {ri1 ri2 : BgpInfo}
    (atI : rn[i]? = some ri1) (atJ : rn[j]? = some ri2) : testAt test rn i j = test ri1 ri2 := by
  simp only [testAt, atI, atJ]

theorem dmedCompare_withMarks (trust : files.Trust inTrust obsTrust)
    (learned : ∀ ri ∈ rn, ri.Learned) {i j best : Nat} (iLt : i < rn.length)
    (jLt : j < rn.length) (bestLt : best < rn.length) :
    dmedCompare files bgp i (withMarks rn marks, best) j =
      .ok (withMarks rn
          ((dmedGroups files bgp inTrust obsTrust rn).compare i (marks, best) j).1,
        ((dmedGroups files bgp inTrust obsTrust rn).compare i (marks, best) j).2) := by
  have atI := List.getElem?_eq_getElem iLt
  have atJ := List.getElem?_eq_getElem jLt
  have atBest := List.getElem?_eq_getElem bestLt
  have compared : bgpInfoCmp files bgp (some (rn[j].withMarks (marks.check j) (marks.chosen j)))
      (some (rn[best].withMarks (marks.check best) (marks.chosen best))) =
        .ok (prefersNew files bgp inTrust obsTrust rn[j] rn[best]) :=
    bgpInfoCmp_eq_prefersNew trust (learned _ (List.getElem_mem _)).configured.inTables
      (learned _ (List.getElem_mem _)).configured.inTables
  rw [dmedCompare, getElem?_withMarks, getElem?_withMarks, getElem?_withMarks, atI, atJ, atBest,
    Groups.compare]
  simp only [dmedGroups, testAt_eq atJ atJ, testAt_eq atI atJ,
    testAt_eq atJ atBest, Bool.not_not]
  -- The marks are not read by the tests, so both sides split alike.
  change (if marks.check j || rn[j].holddown then _
    else if sameNeighbour rn[i] rn[j] then _ else _) = _
  by_cases skipped : (marks.check j || rn[j].holddown) = true
  · rw [if_pos skipped, if_pos skipped]
  · rw [if_neg skipped, if_neg skipped]
    cases sameNeighbour rn[i] rn[j] with
    | false => rfl
    | true =>
      rw [compared]
      cases prefersNew files bgp inTrust obsTrust rn[j] rn[best]
      · simp
      · simp

theorem dmedGroup_withMarks (trust : files.Trust inTrust obsTrust)
    (learned : ∀ ri ∈ rn, ri.Learned) {i : Nat} (iLt : i < rn.length) :
    dmedGroup files bgp (withMarks rn marks) i =
      .ok (withMarks rn ((dmedGroups files bgp inTrust obsTrust rn).group marks i)) := by
  have atI := List.getElem?_eq_getElem iLt
  let view : Marks × Nat → List BgpInfo × Nat := fun st => (withMarks rn st.1, st.2)
  let groups := dmedGroups files bgp inTrust obsTrust rn
  have step : ∀ j ∈ List.range' (i + 1) (rn.length - (i + 1)), ∀ st : Marks × Nat,
      st.2 < rn.length → dmedCompare files bgp i (view st) j = .ok (view (groups.compare i st j)) ∧
        (groups.compare i st j).2 < rn.length := by
    intro j member st bestLt
    have jLt : j < rn.length := by
      have := List.mem_range'_1.mp member
      omega
    refine ⟨dmedCompare_withMarks trust learned iLt jLt bestLt, ?_⟩
    rw [Groups.compare]
    split_ifs <;> assumption
  have inner := foldlM_eq_foldl (fun st => st.2 < rn.length) view step (marks, i) iLt
  rw [dmedGroup, getElem?_withMarks, atI, Groups.group]
  simp only [length_withMarks, dmedGroups, testAt_eq atI atI, Bool.not_not]
  change (if marks.check i || rn[i].holddown then _ else _) = _
  split_ifs with skipped
  · rfl
  · rw [inner, ok_bind, modify_setDmed]
    rfl

theorem withMarks_none (unmarked : ∀ ri ∈ rn, ri.Unmarked) : withMarks rn Marks.none = rn := by
  apply List.ext_getElem?
  intro k
  rw [getElem?_withMarks]
  cases atK : rn[k]? with
  | none => rfl
  | some ri =>
    obtain ⟨check, chosen⟩ := unmarked ri (List.mem_of_getElem? atK)
    have same : ri.withMarks ri.flags.dmedCheck ri.flags.dmedSelected = ri := rfl
    rw [check, chosen] at same
    exact congrArg some same

/-- **The nested loops are those of the library.** -/
theorem dmedPhase_withMarks (grouped : bgp.Grouped) (trust : files.Trust inTrust obsTrust)
    (learned : ∀ ri ∈ rn, ri.Learned) (unmarked : ∀ ri ∈ rn, ri.Unmarked) :
    dmedPhase files bgp rn =
      .ok (withMarks rn (dmedGroups files bgp inTrust obsTrust rn).markAll) := by
  have step : ∀ i ∈ List.range rn.length, ∀ marks : Marks, True →
      dmedGroup files bgp (withMarks rn marks) i =
        .ok (withMarks rn ((dmedGroups files bgp inTrust obsTrust rn).group marks i)) ∧ True :=
    fun i member _ _ => ⟨dmedGroup_withMarks trust learned (List.mem_range.mp member), trivial⟩
  have outer := foldlM_eq_foldl (fun _ => True) (withMarks rn) step Marks.none trivial
  rw [withMarks_none unmarked] at outer
  rw [dmedPhase, if_pos grouped.deterministicMed, outer]
  rfl

/-- The key of the route at a position. -/
def keyAt (bgp : Bgp) (inTrust obsTrust : Table) (rn : List BgpInfo) (k : Nat) :
    WithBot (ℕ ×ₗ AttributeKey) :=
  match rn[k]? with
  | some ri => (decisionKey bgp inTrust obsTrust ri : ℕ ×ₗ AttributeKey)
  | none => ⊥

theorem testAt_cases {test : BgpInfo → BgpInfo → Bool} {i j : Nat}
    (holds : testAt test rn i j = true) :
    ∃ ri1 ri2, rn[i]? = some ri1 ∧ rn[j]? = some ri2 ∧ test ri1 ri2 = true := by
  rw [testAt] at holds
  split at holds
  · exact ⟨_, _, ‹_›, ‹_›, holds⟩
  · cases holds

theorem position_eq (addresses : (rn.map fun ri => ri.peer.suRemote).Nodup) {i j : Nat}
    {ri1 ri2 : BgpInfo} (atI : rn[i]? = some ri1) (atJ : rn[j]? = some ri2)
    (same : ri1.peer.suRemote = ri2.peer.suRemote) : i = j := by
  have iLt := (List.getElem?_eq_some_iff.mp atI).1
  refine (List.getElem?_inj (by simpa using iLt) addresses).mp ?_
  simp [atI, atJ, same]

/-- **Routes without confederations form groups in which the decision key decides.** -/
theorem dmedGroups_keyed (grouped : bgp.Grouped) (unvoted : ∀ as, files.voteresult as = none)
    (plain : ∀ ri ∈ rn, ri.Plain) (addresses : (rn.map fun ri => ri.peer.suRemote).Nodup) :
    (dmedGroups files bgp inTrust obsTrust rn).Keyed (keyAt bgp inTrust obsTrust rn) where
  symm := by
    intro a b related
    obtain ⟨ri1, ri2, at1, at2, same⟩ := testAt_cases related
    have plain1 := plain ri1 (List.mem_of_getElem? at1)
    have plain2 := plain ri2 (List.mem_of_getElem? at2)
    obtain ⟨as, leads1, leads2⟩ := (sameNeighbour_iff plain1 plain2).mp same
    exact (testAt_eq at2 at1).trans ((sameNeighbour_iff plain2 plain1).mpr ⟨as, leads2, leads1⟩)
  trans := by
    intro a b c related1 related2
    obtain ⟨ri1, ri2, at1, at2, same1⟩ := testAt_cases related1
    obtain ⟨ri2', ri3, at2', at3, same2⟩ := testAt_cases related2
    obtain rfl : ri2 = ri2' := Option.mem_unique at2 at2'
    have plain1 := plain ri1 (List.mem_of_getElem? at1)
    have plain2 := plain ri2 (List.mem_of_getElem? at2)
    have plain3 := plain ri3 (List.mem_of_getElem? at3)
    obtain ⟨as, leads1, leads2⟩ := (sameNeighbour_iff plain1 plain2).mp same1
    obtain ⟨as', leads2', leads3⟩ := (sameNeighbour_iff plain2 plain3).mp same2
    obtain rfl : as = as' := Option.mem_unique leads2 leads2'
    exact (testAt_eq at1 at3).trans ((sameNeighbour_iff plain1 plain3).mpr ⟨as, leads1, leads3⟩)
  key_inj := by
    intro a b aLt bLt _ _ same
    have atA := List.getElem?_eq_getElem aLt
    have atB := List.getElem?_eq_getElem bLt
    simp only [keyAt, atA, atB, WithBot.coe_inj] at same
    exact position_eq addresses atA atB (suRemote_eq_of_decisionKey same)
  prefers_eq := by
    intro a b _ _ _ _ related
    obtain ⟨ri1, ri2, at1, at2, same⟩ := testAt_cases related
    simp only [keyAt, at1, at2, WithBot.coe_le_coe]
    exact (testAt_eq at1 at2).trans (prefersNew_sameNeighbour grouped unvoted
      (plain ri1 (List.mem_of_getElem? at1)) (plain ri2 (List.mem_of_getElem? at2)) same)

end Marking

/-! ## The greatest champion is returned -/

/-- An eligible route that no eligible route of its group exceeds. -/
structure GroupBest (bgp : Bgp) (inTrust obsTrust : Table) (rn : List BgpInfo) (ri : BgpInfo) :
    Prop where
  mem : ri ∈ rn
  eligible : ri.Eligible
  greatest : ∀ other ∈ rn, other.Eligible → sameNeighbour other ri = true →
    decisionKey bgp inTrust obsTrust other ≤ decisionKey bgp inTrust obsTrust ri

/-- The best of its group that the best of no other group exceeds. -/
structure GroupedWinner (bgp : Bgp) (inTrust obsTrust : Table) (rn : List BgpInfo)
    (ri : BgpInfo) : Prop where
  best : GroupBest bgp inTrust obsTrust rn ri
  greatest : ∀ other, GroupBest bgp inTrust obsTrust rn other →
    outerKey bgp inTrust obsTrust other ≤ outerKey bgp inTrust obsTrust ri

/-- What the routes of a node have to be like. -/
structure GroupedNode (rn : List BgpInfo) : Prop where
  plain : ∀ ri ∈ rn, ri.Plain
  addresses : (rn.map fun ri => ri.peer.suRemote).Nodup
  unmarked : ∀ ri ∈ rn, ri.Unmarked

section Winner

variable {files : Files} {bgp : Bgp} {inTrust obsTrust : Table} {rn : List BgpInfo}
  {order : List BgpInfo} {ri : BgpInfo}

theorem GroupBest.perm (perm : rn.Perm order) (best : GroupBest bgp inTrust obsTrust rn ri) :
    GroupBest bgp inTrust obsTrust order ri where
  mem := perm.mem_iff.mp best.mem
  eligible := best.eligible
  greatest other member := best.greatest other (perm.mem_iff.mpr member)

theorem GroupedWinner.perm (perm : rn.Perm order)
    (winner : GroupedWinner bgp inTrust obsTrust rn ri) :
    GroupedWinner bgp inTrust obsTrust order ri where
  best := winner.best.perm perm
  greatest other best := winner.greatest other (best.perm perm.symm)

theorem GroupedNode.perm (perm : rn.Perm order) (node : GroupedNode rn) :
    GroupedNode order where
  plain ri member := node.plain ri (perm.mem_iff.mpr member)
  addresses := (perm.map _).nodup node.addresses
  unmarked ri member := node.unmarked ri (perm.mem_iff.mpr member)

theorem eligible_dmedGroups {k : Nat} (atK : rn[k]? = some ri) :
    (dmedGroups files bgp inTrust obsTrust rn).eligible k = true ↔ ri.Eligible := by
  have tested : (dmedGroups files bgp inTrust obsTrust rn).eligible k = !ri.holddown :=
    testAt_eq atK atK
  rw [tested, Bool.not_eq_true', BgpInfo.Eligible]

/-- A champion of the loops is the best route of its group. -/
theorem champion_iff {k : Nat} (atK : rn[k]? = some ri) :
    (dmedGroups files bgp inTrust obsTrust rn).Champion (keyAt bgp inTrust obsTrust rn) k ↔
      GroupBest bgp inTrust obsTrust rn ri := by
  constructor
  · intro champion
    refine ⟨List.mem_of_getElem? atK, (eligible_dmedGroups atK).mp champion.eligible, ?_⟩
    intro other member eligible same
    obtain ⟨m, atM⟩ := List.getElem?_of_mem member
    have below := champion.greatest m (List.getElem?_eq_some_iff.mp atM).1
      ((eligible_dmedGroups atM).mpr eligible) ((testAt_eq atM atK).trans same)
    simpa only [keyAt, atM, atK, WithBot.coe_le_coe] using below
  · intro best
    refine ⟨(List.getElem?_eq_some_iff.mp atK).1, (eligible_dmedGroups atK).mpr best.eligible, ?_⟩
    intro m mLt eligible related
    have atM := List.getElem?_eq_getElem mLt
    have same : sameNeighbour rn[m] ri = true := (testAt_eq atM atK).symm.trans related
    simp only [keyAt, atM, atK, WithBot.coe_le_coe]
    exact best.greatest _ (List.getElem_mem _) ((eligible_dmedGroups atM).mp eligible) same

theorem GroupBest.unique (node : GroupedNode rn)
    (best1 : GroupBest bgp inTrust obsTrust rn first)
    (best2 : GroupBest bgp inTrust obsTrust rn second)
    (same : sameNeighbour first second = true) : first = second := by
  have plain1 := node.plain first best1.mem
  have plain2 := node.plain second best2.mem
  obtain ⟨as, leads1, leads2⟩ := (sameNeighbour_iff plain1 plain2).mp same
  have same' := (sameNeighbour_iff plain2 plain1).mpr ⟨as, leads2, leads1⟩
  have keys : decisionKey bgp inTrust obsTrust first = decisionKey bgp inTrust obsTrust second :=
    le_antisymm (best2.greatest first best1.mem best1.eligible same)
      (best1.greatest second best2.mem best2.eligible same')
  exact List.inj_on_of_nodup_map node.addresses best1.mem best2.mem
    (suRemote_eq_of_decisionKey keys)

section

variable (grouped : bgp.Grouped) (unvoted : ∀ as, files.voteresult as = none)
  (node : GroupedNode rn)
include grouped unvoted node

/-- Every eligible route has a best route of its group that it does not exceed. -/
theorem exists_groupBest (member : ri ∈ rn) (eligible : ri.Eligible) :
    ∃ best, GroupBest bgp inTrust obsTrust rn best ∧
      decisionKey bgp inTrust obsTrust ri ≤ decisionKey bgp inTrust obsTrust best := by
  have keyed : (dmedGroups files bgp inTrust obsTrust rn).Keyed _ :=
    dmedGroups_keyed grouped unvoted node.plain node.addresses
  obtain ⟨k, atK⟩ := List.getElem?_of_mem member
  obtain ⟨m, champion, le⟩ := Groups.exists_champion keyed
    (List.getElem?_eq_some_iff.mp atK).1 ((eligible_dmedGroups atK).mpr eligible)
  have mLt : m < rn.length := champion.lt
  have atM := List.getElem?_eq_getElem mLt
  refine ⟨rn[m], (champion_iff atM).mp champion, ?_⟩
  simpa only [keyAt, atM, atK, WithBot.coe_le_coe] using le

theorem prefersNew_groupBest (best1 : GroupBest bgp inTrust obsTrust rn first)
    (best2 : GroupBest bgp inTrust obsTrust rn second) :
    prefersNew files bgp inTrust obsTrust first second =
      decide (outerKey bgp inTrust obsTrust second ≤ outerKey bgp inTrust obsTrust first) := by
  have plain1 := node.plain first best1.mem
  have plain2 := node.plain second best2.mem
  cases same : sameNeighbour first second with
  | false => exact prefersNew_otherNeighbour grouped unvoted plain1 plain2 same
  | true =>
    -- Then it is one route, and either key says so.
    obtain rfl := best1.unique node best2 same
    rw [prefersNew_sameNeighbour grouped unvoted plain1 plain1 same]
    simp

end

theorem exists_groupedWinner (best : GroupBest bgp inTrust obsTrust rn ri) :
    ∃ winner, GroupedWinner bgp inTrust obsTrust rn winner := by
  classical
  let bests := rn.filter fun ri => GroupBest bgp inTrust obsTrust rn ri
  have nonempty : (bests : Multiset BgpInfo) ≠ 0 := by
    rw [Ne, Multiset.coe_eq_zero]
    exact List.ne_nil_of_mem (List.mem_filter.mpr ⟨best.mem, decide_eq_true best⟩)
  obtain ⟨winner, member, greatest⟩ :=
    Multiset.exists_max_image (outerKey bgp inTrust obsTrust) nonempty
  obtain ⟨-, winnerBest⟩ := List.mem_filter.mp (Multiset.mem_coe.mp member)
  refine ⟨winner, of_decide_eq_true winnerBest, fun other otherBest => greatest other ?_⟩
  exact Multiset.mem_coe.mpr (List.mem_filter.mpr ⟨otherBest.mem, decide_eq_true otherBest⟩)

theorem GroupedWinner.trustSum_le (grouped : bgp.Grouped)
    (unvoted : ∀ as, files.voteresult as = none) (node : GroupedNode rn) {winner : BgpInfo}
    (wins : GroupedWinner bgp inTrust obsTrust rn winner) {other : BgpInfo} (member : other ∈ rn)
    (eligible : other.Eligible) :
    trustSum inTrust obsTrust other.peer.as ≤ trustSum inTrust obsTrust winner.peer.as := by
  have first_le : ∀ {a b : Nat} {k l : AttributeKey}, toLex (a, k) ≤ toLex (b, l) → a ≤ b := by
    intro a b k l le
    rcases Prod.Lex.toLex_le_toLex.mp le with less | ⟨same, -⟩
    · exact le_of_lt less
    · exact le_of_eq same
  obtain ⟨best, isBest, le⟩ := exists_groupBest grouped unvoted node member eligible
  exact (first_le le).trans (first_le (wins.greatest best isBest))

/-! ## The main loop over the marked routes -/

theorem mem_withMarks {marks : Marks} :
    ri ∈ withMarks rn marks ↔
      ∃ k, ∃ base : BgpInfo, rn[k]? = some base ∧
        ri = base.withMarks (marks.check k) (marks.chosen k) := by
  rw [List.mem_iff_getElem?]
  simp only [getElem?_withMarks, Option.map_eq_some_iff]
  exact exists_congr fun k => exists_congr fun base => and_congr_right fun _ => eq_comm

theorem mem_considered (grouped : bgp.Grouped) (unvoted : ∀ as, files.voteresult as = none)
    (node : GroupedNode rn) {ri : BgpInfo} :
    ri ∈ (withMarks rn (dmedGroups files bgp inTrust obsTrust rn).markAll).filter
        (BgpInfo.Considered bgp ·) ↔
      ∃ k base, rn[k]? = some base ∧ GroupBest bgp inTrust obsTrust rn base ∧
        ri = base.withMarks ((dmedGroups files bgp inTrust obsTrust rn).markAll.check k) true := by
  have keyed : (dmedGroups files bgp inTrust obsTrust rn).Keyed _ :=
    dmedGroups_keyed grouped unvoted node.plain node.addresses
  rw [List.mem_filter, decide_eq_true_eq, mem_withMarks]
  constructor
  · rintro ⟨⟨k, base, atK, rfl⟩, -, marked⟩
    have chosen := marked grouped.deterministicMed
    have best := (champion_iff atK).mp ((Groups.markAll_chosen keyed k).mp chosen)
    exact ⟨k, base, atK, best, congrArg _ chosen⟩
  · rintro ⟨k, base, atK, best, rfl⟩
    have chosen := (Groups.markAll_chosen keyed k).mpr ((champion_iff atK).mpr best)
    exact ⟨⟨k, base, atK, congrArg _ chosen.symm⟩, best.eligible, fun _ => rfl⟩

section

variable (grouped : bgp.Grouped)

include grouped

theorem selectRoute_unmarked {st : SelectState}
    (held : ri.holddown = true → ri.Unmarked) (kept : ∀ passed ∈ st.rn, passed.Unmarked) :
    Ensures (fun _ => True) (fun st' => ∀ passed ∈ st'.rn, passed.Unmarked)
      (selectRoute files bgp st ri) := by
  have appended : ∀ {last : BgpInfo}, last.Unmarked →
      ∀ passed ∈ st.rn ++ [last], passed.Unmarked := by
    intro last unmarked passed member
    rcases List.mem_append.mp member with earlier | atEnd
    · exact kept passed earlier
    · exact List.mem_singleton.mp atEnd ▸ unmarked
  rw [selectRoute]
  generalize (if ri.flags.selected then some ri.ptr else st.old) = old
  split_ifs with holddown reaped unchosen
  · exact kept
  · exact appended (held holddown)
  · have notSelected : ri.flags.dmedSelected = false := by
      simpa [grouped.deterministicMed] using unchosen
    exact appended ⟨rfl, notSelected⟩
  · cases bgpInfoCmp files bgp (some ri.clearDmed) st.new with
    | error fault => trivial
    | ok better => exact appended ⟨rfl, rfl⟩

/-- **After the main loop no route has a mark**, when none in holddown had one before. -/
theorem foldlM_selectRoute_unmarked {marked : List BgpInfo}
    (held : ∀ ri ∈ marked, ri.holddown = true → ri.Unmarked) {st : SelectState}
    (walked : marked.foldlM (selectRoute files bgp) ⟨[], none, none⟩ = .ok st) :
    ∀ ri ∈ st.rn, ri.Unmarked := by
  let Inv : List BgpInfo → SelectState → Prop := fun rest st =>
    (∀ ri ∈ rest, ri.holddown = true → ri.Unmarked) ∧ ∀ passed ∈ st.rn, passed.Unmarked
  have step : ∀ {ri : BgpInfo} {rest : List BgpInfo} {st : SelectState}, Inv (ri :: rest) st →
      Ensures (fun _ => True) (Inv rest) (selectRoute files bgp st ri) := by
    intro ri rest st inv
    refine (selectRoute_unmarked grouped (inv.1 _ (List.mem_cons_self ..)) inv.2).mono ?_
    exact fun _ unmarked => ⟨fun later member => inv.1 later (List.mem_cons_of_mem _ member), unmarked⟩
  have walk := Ensures.foldlM Inv step marked ⟨[], none, none⟩
    ⟨held, fun _ absent => by cases absent⟩
  rw [walked] at walk
  exact walk.2

variable (trust : files.Trust inTrust obsTrust) (unvoted : ∀ as, files.voteresult as = none)
  (node : GroupedNode rn)

include trust unvoted node

theorem bgpBestSelection_marked :
    ∃ rn' old, bgpBestSelection files bgp rn = .ok (rn', ⟨old,
        (select (prefersNew files bgp inTrust obsTrust)
          ((withMarks rn (dmedGroups files bgp inTrust obsTrust rn).markAll).filter
            (BgpInfo.Considered bgp ·))).map BgpInfo.ptr⟩) ∧
      ∀ ri ∈ rn', ri.Unmarked := by
  have keyed : (dmedGroups files bgp inTrust obsTrust rn).Keyed _ :=
    dmedGroups_keyed grouped unvoted node.plain node.addresses
  have learned : ∀ ri ∈ rn, ri.Learned := fun ri member => (node.plain ri member).learned
  have phase := dmedPhase_withMarks grouped trust learned node.unmarked
  have markedLearned : ∀ ri ∈ withMarks rn (dmedGroups files bgp inTrust obsTrust rn).markAll,
      ri.Learned := by
    intro ri member
    obtain ⟨k, base, atK, rfl⟩ := mem_withMarks.mp member
    exact ⟨(learned base (List.mem_of_getElem? atK)).subType_eq,
      (learned base (List.mem_of_getElem? atK)).configured⟩
  obtain ⟨st, walked, selected⟩ := bgpBestSelection_of_dmedPhase trust phase markedLearned
  refine ⟨st.rn, st.old, selected, foldlM_selectRoute_unmarked grouped ?_ walked⟩
  -- The nested loops mark eligible routes only.
  intro ri member held
  obtain ⟨k, base, atK, rfl⟩ := mem_withMarks.mp member
  have ineligible : ¬ (dmedGroups files bgp inTrust obsTrust rn).eligible k = true := by
    intro eligible
    have notHeld : base.holddown = false := (eligible_dmedGroups atK).mp eligible
    have baseHeld : base.holddown = true := held
    rw [baseHeld] at notHeld
    cases notHeld
  exact ⟨Bool.eq_false_iff.mpr (mt (Groups.markAll_check keyed) ineligible),
    Bool.eq_false_iff.mpr fun chosen =>
      ineligible ((Groups.markAll_chosen keyed k).mp chosen).eligible⟩

theorem bgpBestSelection_of_groupedWinner {winner : BgpInfo}
    (wins : GroupedWinner bgp inTrust obsTrust rn winner) :
    ∃ rn' old, bgpBestSelection files bgp rn = .ok (rn', ⟨old, some winner.ptr⟩) ∧
      ∀ ri ∈ rn', ri.Unmarked := by
  have member_iff := @mem_considered files bgp inTrust obsTrust rn grouped unvoted node
  obtain ⟨k, atK⟩ := List.getElem?_of_mem wins.best.mem
  have strict : StrictWinner (prefersNew files bgp inTrust obsTrust)
      ((withMarks rn (dmedGroups files bgp inTrust obsTrust rn).markAll).filter
        (BgpInfo.Considered bgp ·))
      (winner.withMarks ((dmedGroups files bgp inTrust obsTrust rn).markAll.check k) true) := by
    apply strictWinner_of_key (outerKey bgp inTrust obsTrust)
    · intro first member1 second member2
      obtain ⟨_, base1, -, best1, rfl⟩ := member_iff.mp member1
      obtain ⟨_, base2, -, best2, rfl⟩ := member_iff.mp member2
      -- Neither the comparison nor the key reads the marks.
      have compared : prefersNew files bgp inTrust obsTrust base1 base2 = _ :=
        prefersNew_groupBest grouped unvoted node best1 best2
      exact compared
    · intro first member1 second member2 same
      obtain ⟨k1, base1, at1, -, rfl⟩ := member_iff.mp member1
      obtain ⟨k2, base2, at2, -, rfl⟩ := member_iff.mp member2
      obtain rfl := position_eq node.addresses at1 at2 (suRemote_eq_of_outerKey same)
      obtain rfl := Option.mem_unique at1 at2
      rfl
    · exact member_iff.mpr ⟨k, winner, atK, wins.best, rfl⟩
    · intro other member
      obtain ⟨_, base, -, best, rfl⟩ := member_iff.mp member
      exact wins.greatest base best
  obtain ⟨rn', old, selected, unmarked⟩ := bgpBestSelection_marked grouped trust unvoted node
  rw [select_eq_of_strictWinner strict] at selected
  exact ⟨rn', old, selected, unmarked⟩

theorem bgpBestSelection_grouped_of_holddown (held : ∀ ri ∈ rn, ri.holddown = true) :
    ∃ rn' old, bgpBestSelection files bgp rn = .ok (rn', ⟨old, none⟩) ∧
      ∀ ri ∈ rn', ri.Unmarked := by
  obtain ⟨rn', old, selected, unmarked⟩ := bgpBestSelection_marked grouped trust unvoted node
  have nothing : (withMarks rn (dmedGroups files bgp inTrust obsTrust rn).markAll).filter
      (BgpInfo.Considered bgp ·) = [] := by
    rw [List.eq_nil_iff_forall_not_mem]
    intro ri member
    obtain ⟨k, base, -, best, -⟩ := (mem_considered grouped unvoted node).mp member
    have notHeld : base.holddown = false := best.eligible
    rw [held base best.mem] at notHeld
    cases notHeld
  rw [nothing] at selected
  exact ⟨rn', old, selected, unmarked⟩

end

/-- **With deterministic MED the route returned does not depend on the order of the list.** It
is an eligible route with the greatest trust sum, nothing is returned only when every route is
in holddown, and no route keeps a mark. -/
theorem bgpBestSelection_deterministicMed (grouped : bgp.Grouped)
    (trust : files.Trust inTrust obsTrust) (unvoted : ∀ as, files.voteresult as = none)
    (node : GroupedNode rn) :
    ∃ new : Option Nat,
      (∀ order, rn.Perm order →
        ∃ rn' old, bgpBestSelection files bgp order = .ok (rn', ⟨old, new⟩) ∧
          ∀ ri ∈ rn', ri.flags.dmedCheck = false ∧ ri.flags.dmedSelected = false) ∧
      (new = none ↔ ∀ ri ∈ rn, ri.holddown = true) ∧
      (∀ ptr, new = some ptr → ∃ ri ∈ rn, ri.ptr = ptr ∧ ri.Eligible ∧
        ∀ other ∈ rn, other.Eligible →
          trustSum inTrust obsTrust other.peer.as ≤ trustSum inTrust obsTrust ri.peer.as) := by
  by_cases held : ∀ ri ∈ rn, ri.holddown = true
  · refine ⟨none, ?_, ⟨fun _ => held, fun _ => rfl⟩, nofun⟩
    intro order perm
    exact bgpBestSelection_grouped_of_holddown grouped trust unvoted (node.perm perm)
      fun ri member => held ri (perm.mem_iff.mpr member)
  · obtain ⟨ri, member, eligible⟩ : ∃ ri ∈ rn, ri.Eligible := by
      simpa [BgpInfo.Eligible] using held
    obtain ⟨best, isBest, -⟩ : ∃ best, GroupBest bgp inTrust obsTrust rn best ∧ _ :=
      exists_groupBest grouped unvoted node member eligible
    obtain ⟨winner, wins⟩ := exists_groupedWinner isBest
    refine ⟨some winner.ptr, ?_, ⟨nofun, fun all => absurd all held⟩, ?_⟩
    · intro order perm
      exact bgpBestSelection_of_groupedWinner grouped trust unvoted (node.perm perm)
        (wins.perm perm)
    · intro ptr same
      exact ⟨winner, wins.best.mem, Option.some.inj same, wins.best.eligible,
        fun other otherMem otherEligible =>
          wins.trustSum_le grouped unvoted node otherMem otherEligible⟩

end Winner

/-- The instance of AS 1 with deterministic MED. -/
def groupedBgp : Bgp :=
  { plainBgp with alwaysCompareMed := false, deterministicMed := true }

/-- A route with the given MED, learned from the neighbour in the given AS, that entered through
AS 7. -/
def routeThrough (as med : Nat) : BgpInfo :=
  { learnedRoute as with
    attr := { plainAttr with aspath := ⟨[⟨.asSequence, [7], by simp⟩]⟩, med := some med } }

/-- Two routes through AS 7 and one route without hops: one of them is returned in every order. -/
theorem bgpBestSelection_deterministicMed_three :
    ∃ new : Nat, ∀ order,
      [routeThrough 2 20, routeThrough 3 10, learnedRoute 4].Perm order →
        ∃ rn' old, bgpBestSelection (filesOf (fun _ => 50) fun _ => none) groupedBgp order =
          .ok (rn', ⟨old, some new⟩) := by
  have node : GroupedNode [routeThrough 2 20, routeThrough 3 10, learnedRoute 4] := by
    refine ⟨?_, by decide, ?_⟩
    · intro ri member
      have learned : ri.Learned := by revert ri; decide
      have noConfed : ri.attr.aspath.NoConfed := by revert ri; decide
      exact ⟨learned, noConfed⟩
    · decide
  have grouped : groupedBgp.Grouped := ⟨rfl, rfl, rfl, rfl⟩
  obtain ⟨new, selected, none_iff, -⟩ := bgpBestSelection_deterministicMed
    grouped (filesOf_trust (fun _ => 50) fun _ => none) (fun _ => rfl) node
  cases new with
  | none => exact absurd (none_iff.mp rfl) (by decide)
  | some ptr =>
    refine ⟨ptr, fun order perm => ?_⟩
    obtain ⟨rn', old, returned, -⟩ := selected order perm
    exact ⟨rn', old, returned⟩

end Quagga.Bgpd
