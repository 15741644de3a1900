import Mathlib.Order.Lattice.Nat

/-!
# Marking the winner of each group

Candidates are numbered `0, …, n - 1`, some of them are eligible, and a relation that is
symmetric and transitive puts them into groups. Two nested loops mark one candidate of each
group: the outer loop takes the next candidate that has no mark yet, the inner loop compares
the later candidates of its group with the best one so far and marks each of them as seen.

When candidates of one group are preferred by a key, the loops mark exactly the champions: the
eligible candidates that no candidate of their group exceeds (`markAll_chosen`). So which
candidates are marked does not depend on how they are numbered.

A candidate need not be related to itself; then it is a group of its own.
-/

set_option autoImplicit false

namespace Quagga.Library

universe u

/-- Which candidates have been seen, and which have been chosen. -/
structure Marks where
  check : Nat → Bool
  chosen : Nat → Bool

namespace Marks

/-- No marks. -/
def none : Marks := { check := fun _ => false, chosen := fun _ => false }

/-- Mark an entry as looked at. -/
def setCheck (marks : Marks) (j : Nat) : Marks :=
  { marks with check := Function.update marks.check j true }

/-- An entry is no longer chosen. -/
def unsetChosen (marks : Marks) (j : Nat) : Marks :=
  { marks with chosen := Function.update marks.chosen j false }

/-- An entry is looked at and chosen. -/
def setBoth (marks : Marks) (j : Nat) : Marks :=
  { check := Function.update marks.check j true, chosen := Function.update marks.chosen j true }

end Marks

/-- What the loops look at. -/
structure Groups where
  size : Nat
  eligible : Nat → Bool
  related : Nat → Nat → Bool
  prefers : Nat → Nat → Bool

namespace Groups

variable (groups : Groups)

/-- One candidate of the inner loop, with the best one so far. -/
def compare (i : Nat) (st : Marks × Nat) (j : Nat) : Marks × Nat :=
  if st.1.check j || !groups.eligible j then st
  else if groups.related i j then
    if groups.prefers j st.2 then ((st.1.unsetChosen st.2).setCheck j, j)
    else (st.1.setCheck j, st.2)
  else st

/-- One candidate of the outer loop. -/
def group (marks : Marks) (i : Nat) : Marks :=
  if marks.check i || !groups.eligible i then marks
  else
    let st := (List.range' (i + 1) (groups.size - (i + 1))).foldl (groups.compare i) (marks, i)
    st.1.setBoth st.2

/-- Both loops. -/
def markAll : Marks := (List.range groups.size).foldl groups.group Marks.none

variable {κ : Type u} [LinearOrder κ]

/-- The relation makes groups, and in a group a key decides. -/
structure Keyed (key : Nat → κ) : Prop where
  symm : ∀ {a b}, groups.related a b = true → groups.related b a = true
  trans : ∀ {a b c}, groups.related a b = true → groups.related b c = true →
    groups.related a c = true
  key_inj : ∀ {a b}, a < groups.size → b < groups.size → groups.eligible a = true →
    groups.eligible b = true → key a = key b → a = b
  prefers_eq : ∀ {a b}, a < groups.size → b < groups.size → groups.eligible a = true →
    groups.eligible b = true → groups.related a b = true →
    groups.prefers a b = decide (key b ≤ key a)

/-- An eligible candidate that no candidate of its group exceeds. -/
structure Champion (key : Nat → κ) (k : Nat) : Prop where
  lt : k < groups.size
  eligible : groups.eligible k = true
  greatest : ∀ m, m < groups.size → groups.eligible m = true → groups.related m k = true →
    key m ≤ key k

variable {groups} {key : Nat → κ}

/-! ## The inner loop -/

variable {marks : Marks} {i : Nat} {st : Marks × Nat}

/-- The state of the inner loop before candidate `j`: the best candidate is one of the group
and no earlier one exceeds it, and the candidates passed have been seen. -/
structure GroupState (groups : Groups) (key : Nat → κ) (marks : Marks) (i j : Nat)
    (st : Marks × Nat) : Prop where
  best_lt : st.2 < groups.size
  best_eligible : groups.eligible st.2 = true
  best_group : st.2 = i ∨ (i < st.2 ∧ groups.related i st.2 = true)
  first_le : key i ≤ key st.2
  passed_le : ∀ k, i < k → k < j → k < groups.size → groups.eligible k = true →
    groups.related i k = true → key k ≤ key st.2
  chosen_eq : st.1.chosen = marks.chosen
  check_iff : ∀ k, st.1.check k = true ↔ marks.check k = true ∨
    (i < k ∧ k < j ∧ groups.eligible k = true ∧ groups.related i k = true)

/-- Nothing of the group of `i` has been marked before. -/
structure Untouched (groups : Groups) (marks : Marks) (i : Nat) : Prop where
  first : marks.chosen i = false
  chosen : ∀ k, groups.related i k = true → marks.chosen k = false
  check : ∀ k, i < k → k < groups.size → groups.eligible k = true → groups.related i k = true →
    marks.check k = false

theorem unsetChosen_of_false {j : Nat} (unchosen : marks.chosen j = false) :
    (marks.unsetChosen j).chosen = marks.chosen := by
  rw [Marks.unsetChosen, ← unchosen, Function.update_eq_self]

theorem setCheck_iff {j k : Nat} :
    (marks.setCheck j).check k = true ↔ marks.check k = true ∨ k = j := by
  by_cases same : k = j <;> simp [Marks.setCheck, same]

/-- A candidate of the group has been compared, and the better one of the two is kept. -/
theorem GroupState.compared {marks' : Marks} {j best : Nat}
    (state : GroupState groups key marks i j st) (less : i < j)
    (eligible : groups.eligible j = true) (related : groups.related i j = true)
    (best_eq : best = st.2 ∨ (best = j ∧ j < groups.size)) (best_le : key st.2 ≤ key best)
    (new_le : key j ≤ key best) (chosen_eq : marks'.chosen = marks.chosen)
    (check_eq : marks'.check = st.1.check) :
    GroupState groups key marks i (j + 1) (marks'.setCheck j, best) where
  best_lt := by
    rcases best_eq with rfl | ⟨rfl, below⟩
    · exact state.best_lt
    · exact below
  best_eligible := by
    rcases best_eq with rfl | ⟨rfl, -⟩
    · exact state.best_eligible
    · exact eligible
  best_group := by
    rcases best_eq with rfl | ⟨rfl, -⟩
    · exact state.best_group
    · exact .inr ⟨less, related⟩
  first_le := state.first_le.trans best_le
  passed_le k after before lt eligible' related' := by
    by_cases same : k = j
    · rw [same]
      exact new_le
    · exact (state.passed_le k after (by omega) lt eligible' related').trans best_le
  chosen_eq := chosen_eq
  check_iff k := by
    rw [setCheck_iff, check_eq, state.check_iff k, or_assoc]
    refine or_congr_right ⟨?_, ?_⟩
    · rintro (inside | rfl)
      · exact ⟨inside.1, by omega, inside.2.2⟩
      · exact ⟨less, by omega, eligible, related⟩
    · intro inside
      by_cases same : k = j
      · exact .inr same
      · exact .inl ⟨inside.1, by omega, inside.2.2⟩

theorem GroupState.step (keyed : groups.Keyed key) {j : Nat} (untouched : Untouched groups marks i)
    (less : i < j) (below : j < groups.size) (state : GroupState groups key marks i j st) :
    GroupState groups key marks i (j + 1) (groups.compare i st j) := by
  -- A candidate that is not compared is none of the group.
  have skip : ¬ (groups.eligible j = true ∧ groups.related i j = true) →
      GroupState groups key marks i (j + 1) st := by
    intro outside
    refine { state with passed_le := ?_, check_iff := ?_ }
    · intro k after before lt eligible related
      have notJ : k ≠ j := by
        rintro rfl
        exact outside ⟨eligible, related⟩
      exact state.passed_le k after (by omega) lt eligible related
    · intro k
      rw [state.check_iff k]
      refine or_congr_right ⟨fun inside => ⟨inside.1, by omega, inside.2.2⟩, fun inside => ?_⟩
      have notJ : k ≠ j := by
        rintro rfl
        exact outside inside.2.2
      exact ⟨inside.1, by omega, inside.2.2⟩
  rw [compare]
  by_cases seen : st.1.check j = true
  · rw [if_pos (by simp [seen])]
    apply skip
    rintro ⟨eligible, related⟩
    rcases (state.check_iff j).mp seen with before | ⟨-, self, -⟩
    · rw [untouched.check j less below eligible related] at before
      cases before
    · omega
  · by_cases eligible : groups.eligible j = true
    · rw [if_neg (by simp [seen, eligible])]
      by_cases related : groups.related i j = true
      · have toBest : groups.related j st.2 = true := by
          rcases state.best_group with same | ⟨-, inGroup⟩
          · rw [same]
            exact keyed.symm related
          · exact keyed.trans (keyed.symm related) inGroup
        have unchosen : st.1.chosen st.2 = false := by
          rw [state.chosen_eq]
          rcases state.best_group with same | ⟨-, inGroup⟩
          · rw [same]
            exact untouched.first
          · exact untouched.chosen _ inGroup
        rw [if_pos related,
          keyed.prefers_eq below state.best_lt eligible state.best_eligible toBest]
        by_cases better : key st.2 ≤ key j
        · rw [if_pos (by simpa using better)]
          exact state.compared less eligible related (.inr ⟨rfl, below⟩) better le_rfl
            ((unsetChosen_of_false unchosen).trans state.chosen_eq) rfl
        · rw [if_neg (by simpa using better)]
          exact state.compared less eligible related (.inl rfl) le_rfl (le_of_not_ge better)
            state.chosen_eq rfl
      · rw [if_neg related]
        exact skip fun both => related both.2
    · rw [if_pos (by simp [eligible])]
      exact skip fun both => eligible both.1

/-- **The inner loop finds the best candidate of the group.** -/
theorem groupState_foldl (keyed : groups.Keyed key) (below : i < groups.size)
    (eligible : groups.eligible i = true) (untouched : Untouched groups marks i) (t : Nat)
    (within : i + 1 + t ≤ groups.size) :
    GroupState groups key marks i (i + 1 + t)
      ((List.range' (i + 1) t).foldl (groups.compare i) (marks, i)) := by
  induction t with
  | zero =>
    refine ⟨below, eligible, .inl rfl, le_rfl, ?_, rfl, ?_⟩
    · omega
    · intro k
      exact ⟨.inl, fun either => either.resolve_right fun inside => by omega⟩
  | succ t ih =>
    have less : i < i + 1 + t := by omega
    have inside : i + 1 + t < groups.size := by omega
    rw [List.range'_1_concat, List.foldl_append]
    exact (ih (by omega)).step keyed untouched less inside

/-! ## The outer loop -/

/-- The marks before candidate `i`: the champions of the groups met so far are chosen, and of
the later candidates those of a group met so far have been seen. -/
structure MarkState (groups : Groups) (key : Nat → κ) (i : Nat) (marks : Marks) : Prop where
  chosen_iff : ∀ k, marks.chosen k = true ↔ groups.Champion key k ∧
    ∃ f, f < i ∧ groups.eligible f = true ∧ (f = k ∨ groups.related f k = true)
  check_iff : ∀ k, i ≤ k → k < groups.size → (marks.check k = true ↔ groups.eligible k = true ∧
    ∃ f, f < i ∧ groups.eligible f = true ∧ groups.related f k = true)
  check_eligible : ∀ k, marks.check k = true → groups.eligible k = true

section

variable (keyed : groups.Keyed key)

include keyed

theorem MarkState.skip (state : MarkState groups key i marks) (met :
    groups.eligible i = true → ∃ f, f < i ∧ groups.eligible f = true ∧ groups.related f i = true) :
    MarkState groups key (i + 1) marks where
  chosen_iff k := by
    rw [state.chosen_iff k, Nat.exists_lt_succ_right]
    refine and_congr_right fun _ => (or_iff_left_of_imp ?_).symm
    rintro ⟨eligible, inGroup⟩
    obtain ⟨f', less', eligible', related'⟩ := met eligible
    refine ⟨f', less', eligible', .inr ?_⟩
    rcases inGroup with rfl | related
    · exact related'
    · exact keyed.trans related' related
  check_iff k after lt := by
    rw [state.check_iff k (by omega) lt, Nat.exists_lt_succ_right]
    refine and_congr_right fun _ => (or_iff_left_of_imp ?_).symm
    rintro ⟨eligible, related⟩
    obtain ⟨f', less', eligible', related'⟩ := met eligible
    exact ⟨f', less', eligible', keyed.trans related' related⟩
  check_eligible := state.check_eligible

theorem MarkState.untouched (state : MarkState groups key i marks)
    (unmet : ∀ f, f < i → groups.eligible f = true → groups.related f i = false) :
    Untouched groups marks i where
  first := by
    by_contra chosen
    obtain ⟨champion, f, less, eligible, inGroup⟩ :=
      (state.chosen_iff i).mp (Bool.not_eq_false _ ▸ chosen)
    rcases inGroup with rfl | related
    · omega
    · rw [unmet f less eligible] at related
      cases related
  chosen k related := by
    by_contra chosen
    obtain ⟨champion, f, less, eligible, inGroup⟩ :=
      (state.chosen_iff k).mp (Bool.not_eq_false _ ▸ chosen)
    have toFirst : groups.related f i = true := by
      rcases inGroup with rfl | related'
      · exact keyed.symm related
      · exact keyed.trans related' (keyed.symm related)
    rw [unmet f less eligible] at toFirst
    cases toFirst
  check k after lt eligible related := by
    by_contra seen
    obtain ⟨-, f, less, eligible', related'⟩ :=
      (state.check_iff k (by omega) lt).mp (Bool.not_eq_false _ ▸ seen)
    have toFirst := keyed.trans related' (keyed.symm related)
    rw [unmet f less eligible'] at toFirst
    cases toFirst

theorem GroupState.champion
    (unmet : ∀ f, f < i → groups.eligible f = true → groups.related f i = false)
    (state : GroupState groups key marks i groups.size st) : groups.Champion key st.2 := by
  refine ⟨state.best_lt, state.best_eligible, fun m lt eligible related => ?_⟩
  rcases Nat.lt_trichotomy m i with before | rfl | after
  · -- An earlier candidate of the group would have been met.
    have toFirst : groups.related m i = true := by
      rcases state.best_group with same | ⟨-, inGroup⟩
      · exact same ▸ related
      · exact keyed.trans related (keyed.symm inGroup)
    rw [unmet m before eligible] at toFirst
    cases toFirst
  · exact state.first_le
  · have fromFirst : groups.related i m = true := by
      rcases state.best_group with same | ⟨-, inGroup⟩
      · exact keyed.symm (same ▸ related)
      · exact keyed.trans inGroup (keyed.symm related)
    exact state.passed_le m after lt lt eligible fromFirst

theorem Champion.unique {first second : Nat}
    (champion : groups.Champion key first) (champion' : groups.Champion key second)
    (inGroup : i = first ∨ groups.related i first = true)
    (inGroup' : i = second ∨ groups.related i second = true) : first = second := by
  by_cases same : first = second
  · exact same
  · have related : groups.related first second = true := by
      rcases inGroup with rfl | related
      · rcases inGroup' with rfl | related'
        · exact absurd rfl same
        · exact related'
      · rcases inGroup' with rfl | related'
        · exact keyed.symm related
        · exact keyed.trans (keyed.symm related) related'
    have key_eq : key first = key second :=
      le_antisymm (champion'.greatest first champion.lt champion.eligible related)
        (champion.greatest second champion'.lt champion'.eligible (keyed.symm related))
    exact keyed.key_inj champion.lt champion'.lt champion.eligible champion'.eligible key_eq

theorem MarkState.process (state : MarkState groups key i marks)
    (eligible : groups.eligible i = true)
    (unmet : ∀ f, f < i → groups.eligible f = true → groups.related f i = false)
    (looped : GroupState groups key marks i groups.size st) :
    MarkState groups key (i + 1) (st.1.setBoth st.2) := by
  have champion := looped.champion keyed unmet
  have inGroup : i = st.2 ∨ groups.related i st.2 = true :=
    looped.best_group.imp Eq.symm And.right
  have split : ∀ k, (st.1.setBoth st.2).check k = true ↔ k = st.2 ∨ st.1.check k = true := by
    intro k
    by_cases same : k = st.2 <;> simp [Marks.setBoth, same]
  refine ⟨fun k => ?_, fun k after lt => ?_, fun k seen => ?_⟩
  · have chosen : (st.1.setBoth st.2).chosen k = true ↔ k = st.2 ∨ marks.chosen k = true := by
      by_cases same : k = st.2 <;> simp [Marks.setBoth, same, looped.chosen_eq]
    rw [chosen, state.chosen_iff k, Nat.exists_lt_succ_right]
    constructor
    · rintro (rfl | ⟨champion', before⟩)
      · exact ⟨champion, .inr ⟨eligible, inGroup⟩⟩
      · exact ⟨champion', .inl before⟩
    · rintro ⟨champion', before | ⟨-, inGroup'⟩⟩
      · exact .inr ⟨champion', before⟩
      · exact .inl (champion'.unique keyed champion inGroup' inGroup)
  · rw [split k, looped.check_iff k, state.check_iff k (by omega) lt, Nat.exists_lt_succ_right]
    constructor
    · rintro (rfl | ⟨eligible', before⟩ | ⟨-, -, eligible', related⟩)
      · have related := (looped.best_group.resolve_left (by omega)).2
        exact ⟨looped.best_eligible, .inr ⟨eligible, related⟩⟩
      · exact ⟨eligible', .inl before⟩
      · exact ⟨eligible', .inr ⟨eligible, related⟩⟩
    · rintro ⟨eligible', before | ⟨-, related⟩⟩
      · exact .inr (.inl ⟨eligible', before⟩)
      · exact .inr (.inr ⟨by omega, lt, eligible', related⟩)
  · rcases (split k).mp seen with rfl | before
    · exact looped.best_eligible
    · rcases (looped.check_iff k).mp before with before | inside
      · exact state.check_eligible k before
      · exact inside.2.2.1

theorem MarkState.step (state : MarkState groups key i marks)
    (below : i < groups.size) : MarkState groups key (i + 1) (groups.group marks i) := by
  rw [group]
  by_cases eligible : groups.eligible i = true
  · by_cases seen : marks.check i = true
    · rw [if_pos (by simp [seen])]
      exact state.skip keyed fun _ => ((state.check_iff i le_rfl below).mp seen).2
    · rw [if_neg (by simp [seen, eligible])]
      have unmet : ∀ f, f < i → groups.eligible f = true → groups.related f i = false := by
        intro f less eligible'
        by_contra related
        exact seen ((state.check_iff i le_rfl below).mpr
          ⟨eligible, f, less, eligible', Bool.not_eq_false _ ▸ related⟩)
      have looped := groupState_foldl keyed below eligible (state.untouched keyed unmet)
        (groups.size - (i + 1)) (by omega)
      rw [show i + 1 + (groups.size - (i + 1)) = groups.size by omega] at looped
      exact state.process keyed eligible unmet looped
  · rw [if_pos (by simp [eligible])]
    exact state.skip keyed fun here => absurd here eligible

theorem markState_foldl (t : Nat) (within : t ≤ groups.size) :
    MarkState groups key t ((List.range t).foldl groups.group Marks.none) := by
  induction t with
  | zero =>
    refine ⟨fun k => ?_, fun k _ _ => ?_, fun k seen => ?_⟩
    · simp [Marks.none]
    · simp [Marks.none]
    · cases seen
  | succ t ih =>
    rw [List.range_succ, List.foldl_append]
    exact (ih (by omega)).step keyed (by omega)

/-- **The loops choose exactly the champions.** -/
theorem markAll_chosen (k : Nat) : groups.markAll.chosen k = true ↔ groups.Champion key k := by
  rw [markAll, (markState_foldl keyed groups.size le_rfl).chosen_iff k]
  exact ⟨And.left, fun champion => ⟨champion, k, champion.lt, champion.eligible, .inl rfl⟩⟩

theorem markAll_check {k : Nat} (seen : groups.markAll.check k = true) : groups.eligible k = true :=
  (markState_foldl keyed groups.size le_rfl).check_eligible k seen

/-- Every eligible candidate has a champion in its group that it does not exceed. -/
theorem exists_champion {k : Nat} (lt : k < groups.size) (eligible : groups.eligible k = true) :
    ∃ m, groups.Champion key m ∧ key k ≤ key m := by
  let inGroup : Finset Nat := (Finset.range groups.size).filter fun m =>
    groups.eligible m = true ∧ (m = k ∨ groups.related m k = true)
  have nonempty : inGroup.Nonempty :=
    ⟨k, Finset.mem_filter.mpr ⟨Finset.mem_range.mpr lt, eligible, .inl rfl⟩⟩
  obtain ⟨m, member, greatest⟩ := inGroup.exists_max_image key nonempty
  obtain ⟨inRange, eligibleM, group⟩ := Finset.mem_filter.mp member
  refine ⟨m, ⟨Finset.mem_range.mp inRange, eligibleM, fun other otherLt otherEligible related => ?_⟩,
    greatest k (Finset.mem_filter.mpr ⟨Finset.mem_range.mpr lt, eligible, .inl rfl⟩)⟩
  refine greatest other (Finset.mem_filter.mpr ⟨Finset.mem_range.mpr otherLt, otherEligible, ?_⟩)
  rcases group with rfl | toK
  · exact .inr related
  · exact .inr (keyed.trans related toK)

end

end Groups

end Quagga.Library
