import Mathlib.Data.List.Dedup
import Quagga.Bgpd.AspathCodec

/-!
# Operations on AS paths

Paths are prepended, filtered, aggregated and put together from the parts that old speakers have
sent. Only aggregation and reconciliation call `assegment_normalise`; the other operations keep the
normal form by construction, or do not.

* `aspath_filter_exclude` drops a segment that has lost all its numbers, and the sequences on both
  sides of it become neighbours. `aspath_prepend` deletes the confederation segments at the head of
  the second path, but then looks at the deleted segment to see whether the two paths join. These
  are the only ways out of the normal form (`operationsNormal_iff`).
* `aspath_reconcile_as4` recovers the path that old speakers have mapped, unless the numbers that
  they have prepended and the first sequence are together too many for one segment
  (`aspathReconcileAs4_prepended`).
* `aspath_aggregate` collects in a set what the two paths do not have in common. When the common
  part ends with a segment, it starts at the index at which the comparison of that segment has
  ended, though in the next one; so numbers are lost. And when there are 65536 numbers to collect,
  the length of the set wraps around and the daemon stops (`aspathAggregate_keeps_iff`).
-/

set_option autoImplicit false

namespace Quagga.Bgpd

open Lib Library List

/-! ## The operations -/

variable (as1 as2 : Aspath)

/-- `aspath_merge`. -/
def aspathMerge : Aspath := ⟨as1.segments ++ as2.segments⟩

/-- `aspath_prepend`. After `aspath_delete_confed_seq` the type of the first segment of `as2` is
read although that segment has been freed, and filled with a byte that is no segment type. -/
def aspathPrepend : Aspath :=
  match as1.segments.getLast?, as2.segments with
  | _, [] => as1
  | none, _ :: _ => as2
  | some seg1, seg2 :: rest =>
    if seg1.type = .asSequence ∧ seg2.type = .asConfedSequence then
      aspathMerge as1 (aspathDeleteConfedSeq as2)
    else if seg1.type ≠ seg2.type then aspathMerge as1 as2
    else if seg1.type = .asSequence then
      ⟨as1.segments.dropLast ++ seg1.append seg2 :: rest⟩
    else aspathMerge as1 as2

/-- The number is in the list of those to exclude. -/
def excluded (exclude : Aspath) (as : Nat) : Bool :=
  exclude.segments.any fun seg => seg.as.any fun value => as = value

theorem length_filter_lt (p : Nat → Bool) {as : List Nat} (lt : as.length < 65536) :
    (as.filter p).length < 65536 := Nat.lt_of_le_of_lt (length_filter_le _ _) lt

/-- What is left of a segment, unless that is nothing. -/
def Assegment.exclude (seg : Assegment) (exclude : Aspath) : Option Assegment :=
  if seg.as.filter (fun as => ¬ excluded exclude as) ≠ [] then
    some
      { seg with
        as := seg.as.filter fun as => ¬ excluded exclude as
        length_lt := length_filter_lt (fun as => ¬ excluded exclude as) seg.length_lt }
  else none

/-- `aspath_filter_exclude`. -/
def aspathFilterExclude (source exclude : Aspath) : Aspath :=
  ⟨source.segments.filterMap fun seg => seg.exclude exclude⟩

/-- How many numbers two segments have in common at their beginning. -/
def matchLength : List Nat → List Nat → Nat
  | first :: rest, first' :: rest' => if first = first' then matchLength rest rest' + 1 else 0
  | _, _ => 0

/-- The first numbers of a segment, if there are any. -/
def Assegment.leading (seg : Assegment) : Nat → List Assegment
  | 0 => []
  | n + 1 => [seg.take (n + 1)]

/-- What the loop of `aspath_aggregate` over the common part leaves behind. -/
structure Aggregating where
  /-- The segments of the new path. -/
  common : List Assegment
  /-- The index at which the last comparison has ended. -/
  ended : Nat
  seg1 : List Assegment
  seg2 : List Assegment

/-- The loop of `aspath_aggregate` over the common part. -/
def aggregateLoop (ended : Nat) : List Assegment → List Assegment → Aggregating
  | seg1 :: rest1, seg2 :: rest2 =>
    if seg1.type ≠ seg2.type then ⟨[], ended, seg1 :: rest1, seg2 :: rest2⟩
    else
      let minlen := min seg1.as.length seg2.as.length
      let ended := matchLength seg1.as seg2.as
      if ended ≠ minlen ∨ ended ≠ seg1.as.length ∨ seg1.as.length ≠ seg2.as.length then
        ⟨seg1.leading ended, ended, seg1 :: rest1, seg2 :: rest2⟩
      else
        let more := aggregateLoop ended rest1 rest2
        { more with common := seg1.leading ended ++ more.common }
  | rest1, rest2 => ⟨[], ended, rest1, rest2⟩

/-- `aspath_aggregate_as_set_add`, on the numbers of the set. When the length of the set wraps around
to zero, `realloc` returns no memory and `zerror` stops the daemon. -/
def aspathAggregateAsSetAdd (asset : List Nat) (as : Nat) : Except Fault (List Nat) :=
  if as ∈ asset then .ok asset
  else if (asset.length + 1) % 65536 = 0 then .error .assertion
  else .ok (asset ++ [as])

/-- The numbers of the segments that are left, from an index of the first one on. -/
def leftover (from' : Nat) : List Assegment → List Nat
  | [] => []
  | seg :: rest => seg.as.drop from' ++ rest.flatMap Assegment.as

/-- The set with these numbers, if there are any. -/
def assetSegment : List Nat → List Assegment
  | [] => []
  | as :: rest => [assegmentNew .asSet (as :: rest)]

/-- The numbers that `aspath_aggregate` adds to the set. -/
def collected : List Nat :=
  let found := aggregateLoop 0 as1.segments as2.segments
  leftover found.ended found.seg1 ++ leftover found.ended found.seg2

/-- `aspath_aggregate`. -/
def aspathAggregate : Except Fault Aspath := do
  let asset ← (collected as1 as2).foldlM aspathAggregateAsSetAdd []
  return ⟨assegmentNormalise
    ((aggregateLoop 0 as1.segments as2.segments).common ++ assetSegment asset)⟩

/-! ## The normal form is kept -/

variable {first second : List Assegment} {aspath : Aspath} {seg : Assegment}

theorem normalForm_aspathAddOneAs (normal : NormalForm aspath.segments) (asno : Nat)
    {type : SegmentType} (ordered : type ≠ .asSet ∧ type ≠ .asConfedSet) :
    NormalForm (aspathAddOneAs aspath asno type).segments := by
  have sorted : ∀ as, (assegmentNew type as).Sorted := fun as set => by
    simp [ordered] at set
  have alone : NormalForm [assegmentNew type [asno]] :=
    normalForm_cons.mpr ⟨sorted _, normalForm_nil, by simp⟩
  unfold aspathAddOneAs
  split
  · exact alone
  · rename_i seg rest listed
    rw [listed] at normal
    obtain ⟨-, normalRest, apart⟩ := normalForm_cons.mp normal
    split_ifs with empty same
    · exact alone
    · refine normalForm_cons.mpr ⟨sorted _, normalRest, ?_⟩
      exact fun both => apart ⟨same.trans both.1, both.2⟩
    · refine normalForm_cons.mpr ⟨sorted _, normal, ?_⟩
      exact fun both => same ((startsWith_cons.mp both.2).trans both.1.symm)

theorem NormalForm.of_suffix (normal : NormalForm second) (suffix : first <:+ second) :
    NormalForm first := by
  obtain ⟨front, rfl⟩ := suffix
  exact (normalForm_append.mp normal).2.1

theorem normalForm_aspathDeleteConfedSeq (normal : NormalForm aspath.segments) :
    NormalForm (aspathDeleteConfedSeq aspath).segments := by
  unfold aspathDeleteConfedSeq
  split
  · exact normal
  · split_ifs
    · exact normal
    · exact normal.of_suffix (dropWhile_suffix _)

/-- The first path ends with a sequence, and the second one goes on with a sequence behind
confederation segments. -/
def prependSplits : Prop :=
  (∃ seg ∈ as1.segments.getLast?, seg.type = .asSequence) ∧
    startsWith as2.segments .asConfedSequence ∧
    startsWith (skipConfed as2.segments) .asSequence

/-- **When `aspath_prepend` keeps the normal form.** -/
theorem normalForm_aspathPrepend_iff {as1 as2 : Aspath} (normal1 : NormalForm as1.segments)
    (normal2 : NormalForm as2.segments) :
    NormalForm (aspathPrepend as1 as2).segments ↔ ¬ prependSplits as1 as2 := by
  obtain ⟨segments2⟩ := as2
  unfold aspathPrepend prependSplits
  cases segments2 with
  | nil => simpa using normal1
  | cons seg2 rest =>
    cases last : as1.segments.getLast? with
    | none => simpa using normal2
    | some seg1 =>
      have seam : ∀ {second}, NormalForm (as1.segments ++ second) ↔ NormalForm second ∧
          ¬ (seg1.type = .asSequence ∧ startsWith second .asSequence) := by
        simp [normalForm_append, last, normal1]
      simp only [startsWith_cons, Option.mem_some_iff, exists_eq_left']
      split_ifs with deletes differs sequence
      · -- the deleted segment is compared with the end of the first path
        have deleted : aspathDeleteConfedSeq ⟨seg2 :: rest⟩ = ⟨skipConfed (seg2 :: rest)⟩ := by
          simp [aspathDeleteConfedSeq, deletes.2]
        have suffix : NormalForm (skipConfed (seg2 :: rest)) :=
          normal2.of_suffix (dropWhile_suffix _)
        rw [deleted, aspathMerge, seam]
        simp [deletes, suffix]
      · rw [aspathMerge, seam, startsWith_cons]
        exact iff_of_true ⟨normal2, fun both => differs (both.1.trans both.2.symm)⟩
          fun both => deletes ⟨both.1, both.2.1⟩
      · have same : seg1.type = seg2.type := not_not.mp differs
        refine iff_of_true ?_ ?_
        · have split : as1.segments = as1.segments.dropLast ++ [seg1] :=
            (dropLast_append_getLast? seg1 last).symm
          rw [split] at normal1
          obtain ⟨front, -, seam⟩ := normalForm_append.mp normal1
          obtain ⟨-, normalRest, apart⟩ := normalForm_cons.mp normal2
          refine normalForm_append.mpr ⟨front, normalForm_cons.mpr
            ⟨Assegment.sorted_of_sequence sequence, normalRest, ?_⟩, ?_⟩
          · exact fun both => apart ⟨same.symm.trans sequence, both.2⟩
          · intro seg inside both
            exact seam seg inside ⟨both.1, startsWith_cons.mpr sequence⟩
        · rintro ⟨-, confed, -⟩
          rw [← same, sequence] at confed
          cases confed
      · rw [aspathMerge, seam]
        exact iff_of_true ⟨normal2, fun both => sequence both.1⟩ fun both => sequence both.1

theorem Assegment.exclude_some {left : Assegment} {exclude : Aspath}
    (some_left : seg.exclude exclude = some left) :
    left.type = seg.type ∧ left.as.Sublist seg.as := by
  unfold Assegment.exclude at some_left
  split_ifs at some_left with kept
  rw [← Option.some.inj some_left]
  exact ⟨rfl, filter_sublist⟩

/-- Not all numbers of the segment are excluded. -/
def Assegment.stays (seg : Assegment) (exclude : Aspath) : Prop :=
  ∃ as ∈ seg.as, excluded exclude as = false

theorem Assegment.exclude_isSome {exclude : Aspath} :
    (∃ left, seg.exclude exclude = some left) ↔ seg.stays exclude := by
  unfold Assegment.exclude Assegment.stays
  split_ifs with kept
  · obtain ⟨as, inside⟩ := exists_mem_of_ne_nil _ kept
    have both := mem_filter.mp inside
    exact iff_of_true ⟨_, rfl⟩ ⟨as, both.1, by simpa using both.2⟩
  · refine iff_of_false (by simp) ?_
    rintro ⟨as, inside, stays⟩
    exact kept (ne_nil_of_mem (mem_filter.mpr ⟨inside, by simp [stays]⟩))

theorem Assegment.exclude_eq_none {exclude : Aspath} :
    seg.exclude exclude = none ↔ ¬ seg.stays exclude := by
  rw [← exclude_isSome]
  cases seg.exclude exclude <;> simp

/-- Two sequences of the path keep numbers, and all segments between them lose theirs. -/
def excludeSplits (source exclude : Aspath) : Prop :=
  ∃ before first between second after,
    source.segments = before ++ first :: (between ++ second :: after) ∧
    (first.type = .asSequence ∧ first.stays exclude) ∧
    (second.type = .asSequence ∧ second.stays exclude) ∧
    ∀ seg ∈ between, ¬ seg.stays exclude

/-- **When `aspath_filter_exclude` keeps the normal form.** -/
theorem normalForm_aspathFilterExclude_iff {source : Aspath} (normal : NormalForm source.segments)
    (exclude : Aspath) :
    NormalForm (aspathFilterExclude source exclude).segments ↔ ¬ excludeSplits source exclude := by
  constructor
  · rintro kept ⟨before, first, between, second, after, split, ⟨typed, stays⟩, ⟨typed', stays'⟩, lost⟩
    obtain ⟨left, some_left⟩ := Assegment.exclude_isSome.mpr stays
    obtain ⟨left', some_left'⟩ := Assegment.exclude_isSome.mpr stays'
    have nothing : between.filterMap (fun seg => seg.exclude exclude) = [] :=
      filterMap_eq_nil_iff.mpr fun seg inside => Assegment.exclude_eq_none.mpr (lost seg inside)
    have apart := kept.apart
    rw [aspathFilterExclude, split] at apart
    simp only [filterMap_append, filterMap_cons, some_left, some_left', nothing] at apart
    refine isChain_iff_forall_rel_of_append_cons_cons.mp apart rfl
      (Assegment.packable_iff.mpr ⟨?_, ?_⟩)
    · rw [(Assegment.exclude_some some_left).1, typed]
    · rw [(Assegment.exclude_some some_left').1, typed']
  · intro apart
    refine ⟨fun left inside => ?_, isChain_iff_forall_rel_of_append_cons_cons.mpr ?_⟩
    · obtain ⟨seg, old, some_left⟩ := mem_filterMap.mp inside
      obtain ⟨typed, fewer⟩ := Assegment.exclude_some some_left
      intro set
      rw [typed] at set
      exact (normal.sorted seg old set).sublist fewer
    · intro left left' front back split packable
      obtain ⟨before, rest, source_eq, -, tail⟩ := filterMap_eq_append_iff.mp split
      obtain ⟨skipped, first, rest', rest_eq, -, some_left, tail'⟩ :=
        filterMap_eq_cons_iff.mp tail
      obtain ⟨between, second, after, rest_eq', none, some_left', -⟩ :=
        filterMap_eq_cons_iff.mp tail'
      have both := Assegment.packable_iff.mp packable
      refine apart ⟨before ++ skipped, first, between, second, after, ?_, ⟨?_, ?_⟩, ⟨?_, ?_⟩, ?_⟩
      · rw [source_eq, rest_eq, rest_eq', append_assoc]
      · rw [← (Assegment.exclude_some some_left).1, both.1]
      · exact Assegment.exclude_isSome.mp ⟨left, some_left⟩
      · rw [← (Assegment.exclude_some some_left').1, both.2]
      · exact Assegment.exclude_isSome.mp ⟨left', some_left'⟩
      · exact fun seg inside => Assegment.exclude_eq_none.mp (none seg inside)

theorem normalForm_aspathAggregate {as1 as2 path : Aspath}
    (aggregated : aspathAggregate as1 as2 = .ok path) : NormalForm path.segments := by
  obtain ⟨asset, -, aggregated⟩ := bind_eq_ok aggregated
  cases aggregated
  exact normalForm_assegmentNormalise _

theorem normalForm_aspathReconcileAs4 {as4path : Aspath} (normal : NormalForm as4path.segments) :
    NormalForm (aspathReconcileAs4 aspath as4path).segments := by
  rw [aspathReconcileAs4]
  split_ifs
  · exact normal
  · exact normalForm_assegmentNormalise _
  · exact normal
  · exact normalForm_assegmentNormalise _

/-- The results of the operations on paths are normal. -/
structure OperationsNormal (as1 as2 exclude : Aspath) (asno : Nat) : Prop where
  prepend : NormalForm (aspathPrepend as1 as2).segments
  addSeq : NormalForm (aspathAddSeq as1 asno).segments
  addConfedSeq : NormalForm (aspathAddConfedSeq as1 asno).segments
  deleteConfedSeq : NormalForm (aspathDeleteConfedSeq as1).segments
  filterExclude : NormalForm (aspathFilterExclude as1 exclude).segments
  aggregate : ∀ path, aspathAggregate as1 as2 = .ok path → NormalForm path.segments
  reconcileAs4 : NormalForm (aspathReconcileAs4 as1 as2).segments

/-- **When the operations keep the normal form.** -/
theorem operationsNormal_iff {as1 as2 : Aspath} (normal1 : NormalForm as1.segments)
    (normal2 : NormalForm as2.segments) (exclude : Aspath) (asno : Nat) :
    OperationsNormal as1 as2 exclude asno ↔
      ¬ prependSplits as1 as2 ∧ ¬ excludeSplits as1 exclude := by
  constructor
  · intro kept
    exact ⟨(normalForm_aspathPrepend_iff normal1 normal2).mp kept.prepend,
      (normalForm_aspathFilterExclude_iff normal1 exclude).mp kept.filterExclude⟩
  · rintro ⟨joins, stays⟩
    exact
      { prepend := (normalForm_aspathPrepend_iff normal1 normal2).mpr joins
        addSeq := normalForm_aspathAddOneAs normal1 asno (by decide)
        addConfedSeq := normalForm_aspathAddOneAs normal1 asno (by decide)
        deleteConfedSeq := normalForm_aspathDeleteConfedSeq normal1
        filterExclude := (normalForm_aspathFilterExclude_iff normal1 exclude).mpr stays
        aggregate := fun path => normalForm_aspathAggregate
        reconcileAs4 := normalForm_aspathReconcileAs4 normal2 }

/-- Two sequences with a set between them, and a path of the confederation. -/
theorem operationsNormal_iff_confed :
    OperationsNormal
        ⟨[⟨.asSequence, [1], by decide⟩, ⟨.asSet, [2], by decide⟩, ⟨.asSequence, [3], by decide⟩]⟩
        ⟨[⟨.asConfedSequence, [4], by decide⟩]⟩ ⟨[⟨.asSequence, [3], by decide⟩]⟩ 5 ↔
      ¬ prependSplits
        ⟨[⟨.asSequence, [1], by decide⟩, ⟨.asSet, [2], by decide⟩, ⟨.asSequence, [3], by decide⟩]⟩
        ⟨[⟨.asConfedSequence, [4], by decide⟩]⟩ ∧
      ¬ excludeSplits
        ⟨[⟨.asSequence, [1], by decide⟩, ⟨.asSet, [2], by decide⟩, ⟨.asSequence, [3], by decide⟩]⟩
        ⟨[⟨.asSequence, [3], by decide⟩]⟩ :=
  operationsNormal_iff (by decide) (by decide) _ _

/-- Excluding the set between two sequences, and prepending a sequence to a sequence behind a path
of the confederation. -/
theorem not_operationsNormal :
    (NormalForm
        [⟨.asSequence, [1], by decide⟩, ⟨.asSet, [2], by decide⟩, ⟨.asSequence, [3], by decide⟩] ∧
      ¬ NormalForm (aspathFilterExclude
        ⟨[⟨.asSequence, [1], by decide⟩, ⟨.asSet, [2], by decide⟩, ⟨.asSequence, [3], by decide⟩]⟩
        ⟨[⟨.asSequence, [2], by decide⟩]⟩).segments) ∧
    NormalForm [⟨.asConfedSequence, [2], by decide⟩, ⟨.asSequence, [3], by decide⟩] ∧
      ¬ NormalForm (aspathPrepend ⟨[⟨.asSequence, [1], by decide⟩]⟩
        ⟨[⟨.asConfedSequence, [2], by decide⟩, ⟨.asSequence, [3], by decide⟩]⟩).segments := by
  decide

/-! ## Reconciliation -/

/-- A path of one sequence, or of none. -/
def sequenceOf : List Nat → List Assegment
  | [] => []
  | as :: rest => [assegmentNew .asSequence (as :: rest)]

/-- The path that is received if old speakers have mapped a path and prepended numbers to it. -/
def receivedPath (path : Aspath) (q : List Nat) : Aspath :=
  ⟨assegmentNormalise (sequenceOf q ++ path.segments.map fun seg => seg.sent false)⟩

/-- The true path comes back, with as many hops as the received one. -/
def Recovered (path : Aspath) (q : List Nat) : Prop :=
  aspathReconcileAs4 (receivedPath path q) path =
      ⟨assegmentNormalise (sequenceOf q ++ path.segments)⟩ ∧
    aspathCountHops (aspathReconcileAs4 (receivedPath path q) path) =
      aspathCountHops (receivedPath path q)

section Counting

variable (byLength once : SegmentType)

theorem pathCount_append (first second : List Assegment) :
    pathCount byLength once (first ++ second) =
      pathCount byLength once first + pathCount byLength once second := by
  rw [pathCount, map_append, sum_append]
  rfl

theorem pathCount_sent (segments : List Assegment) (use32bit : Bool) :
    pathCount byLength once (segments.map fun seg => seg.sent use32bit) =
      pathCount byLength once segments := by
  rw [pathCount, map_map]
  refine congrArg List.sum (map_congr_left fun seg _ => ?_)
  rw [Function.comp_apply, segmentCount, Assegment.length_sent]
  rfl

theorem pathCount_map_sortSet {byLength once : SegmentType}
    (ordered : byLength ≠ .asSet ∧ byLength ≠ .asConfedSet) (segments : List Assegment) :
    pathCount byLength once (segments.map Assegment.sortSet) =
      pathCount byLength once segments := by
  rw [pathCount, map_map]
  exact congrArg List.sum (map_congr_left fun seg _ => segmentCount_sortSet ordered seg)

theorem pathCount_confedFree (free : aspathConfedCheck aspath = false) :
    pathCount .asConfedSequence .asConfedSet aspath.segments = 0 := by
  have none : ∀ seg ∈ aspath.segments, segmentCount .asConfedSequence .asConfedSet seg = 0 := by
    intro seg inside
    have check := any_eq_false.mp free seg inside
    simp only [decide_eq_true_eq, not_or] at check
    simp [segmentCount, check.1, check.2]
  rw [pathCount, map_congr_left none]
  simp

end Counting

theorem sequenceOf_eq {first : Nat} {q : List Nat} (few : (first :: q).length < 65536) :
    sequenceOf (first :: q) = [⟨.asSequence, first :: q, few⟩] := by
  rw [sequenceOf, assegmentNew_of_lt _ few]

theorem NormalForm.shortRuns {segments : List Assegment} (normal : NormalForm segments) :
    ShortRuns segments := by
  induction segments with
  | nil => exact shortRuns_nil
  | cons seg rest ih =>
    obtain ⟨-, normalRest, apart⟩ := normalForm_cons.mp normal
    refine shortRuns_cons.mpr ⟨fun sequence => ?_, ih normalRest⟩
    have ends : leading rest = 0 := by
      cases rest with
      | nil => rfl
      | cons next rest =>
        rw [leading_cons, if_neg fun typed => apart ⟨sequence, startsWith_cons.mpr typed⟩]
    rw [ends]
    exact seg.length_lt

/-- The loop of the reconciliation takes the numbers that were prepended. -/
theorem copyHops_prepended {first : Nat} {q : List Nat} (few : (first :: q).length < 65536)
    (segments : List Assegment) : ∀ {pin : Assegment} {more : List Nat}, pin.type = .asSequence →
      pin.as = first :: q ++ more → ShortRuns (pin :: segments) →
        copyHops (assegmentNormaliseFrom pin segments) (q.length + 1) =
          [⟨.asSequence, first :: q, few⟩] := by
  have cut : ∀ {pin : Assegment} {more : List Nat} (rest : List Assegment),
      pin.type = .asSequence → pin.as = first :: q ++ more →
        copyHops (pin :: rest) (q.length + 1) = [⟨.asSequence, first :: q, few⟩] := by
    rintro pin more rest typed listed
    have through : q.length + 1 - pin.as.length = 0 := by simp [listed]
    have nothing : ∀ rest, copyHops rest 0 = [] := by
      intro rest
      cases rest <;> rfl
    have taken : pin.take (q.length + 1) = ⟨.asSequence, first :: q, few⟩ := by
      refine Assegment.ext typed ?_
      change pin.as.take (q.length + 1) = first :: q
      rw [listed]
      exact take_left' rfl
    simp only [copyHops, typed, through, nothing, taken]
  induction segments with
  | nil =>
    intro pin more typed listed _
    exact cut [] typed listed
  | cons next rest ih =>
    intro pin more typed listed short
    rw [assegmentNormaliseFrom]
    split_ifs with packable
    · have fits := short.fits packable
      refine @ih (pin.append next) (more ++ next.as) typed ?_ ?_
      · rw [Assegment.append_as fits, listed, append_assoc]
      · rwa [ShortRuns, pathTokens_join packable fits]
    · exact cut _ typed listed

section Recovery

variable {path : Aspath} {q : List Nat} (few : q.length < 65536) (normal : NormalForm path.segments)
  (free : aspathConfedCheck path = false)

include few normal free

/-- With so few numbers the path is recovered. -/
theorem recovered_of_short (short : q.length + leading path.segments < 65536) :
    Recovered path q := by
  have shortPath : ShortRuns (sequenceOf q ++ path.segments) := by
    cases q with
    | nil => exact normal.shortRuns
    | cons first rest =>
      rw [sequenceOf_eq few]
      exact shortRuns_cons.mpr ⟨fun _ => short, normal.shortRuns⟩
  have shortReceived :
      ShortRuns (sequenceOf q ++ path.segments.map fun seg => seg.sent false) := by
    cases q with
    | nil => exact normal.shortRuns.sent false
    | cons first rest =>
      rw [sequenceOf_eq few]
      refine shortRuns_cons.mpr ⟨fun _ => ?_, normal.shortRuns.sent false⟩
      rw [← leading_sent false] at short
      exact short
  have own : pathCount .asSequence .asSet (sequenceOf q) = q.length ∧
      pathCount .asConfedSequence .asConfedSet (sequenceOf q) = 0 := by
    cases q with
    | nil => exact ⟨rfl, rfl⟩
    | cons first rest => simp [sequenceOf_eq few, pathCount, segmentCount]
  have hops : aspathCountHops (receivedPath path q) = q.length + aspathCountHops path := by
    rw [receivedPath, aspathCountHops_pathCount,
      pathCount_assegmentNormalise (by decide) (by decide) shortReceived, pathCount_append,
      pathCount_sent, own.1, ← aspathCountHops_pathCount]
  have confeds : aspathCountConfeds (receivedPath path q) = 0 := by
    rw [receivedPath, aspathCountConfeds_pathCount,
      pathCount_assegmentNormalise (by decide) (by decide) shortReceived, pathCount_append,
      pathCount_sent, own.2, pathCount_confedFree free]
  have recovered : aspathReconcileAs4 (receivedPath path q) path =
      ⟨assegmentNormalise (sequenceOf q ++ path.segments)⟩ := by
    have enough : ¬ q.length + aspathCountHops path + 0 < aspathCountHops path := by omega
    have number : q.length + aspathCountHops path + 0 - aspathCountHops path = q.length := by omega
    simp only [aspathReconcileAs4, hops, confeds, if_neg enough, number]
    cases q with
    | nil =>
      rw [length_nil, if_pos rfl, sequenceOf, nil_append,
        normal.assegmentNormalise_eq]
    | cons first rest =>
      have sorted : (⟨.asSequence, first :: rest, few⟩ : Assegment).sortSet =
          ⟨.asSequence, first :: rest, few⟩ :=
        (Assegment.sorted_of_sequence rfl).sortSet_eq
      have copied : copyHops (receivedPath path (first :: rest)).segments (rest.length + 1) =
          sequenceOf (first :: rest) := by
        rw [receivedPath, sequenceOf_eq few] at *
        rw [singleton_append, assegmentNormalise, sorted]
        exact copyHops_prepended few _ rfl (append_nil _).symm shortReceived
      rw [length_cons, if_neg (Nat.succ_ne_zero _), copied]
  refine ⟨recovered, ?_⟩
  rw [recovered, hops, aspathCountHops_pathCount,
    pathCount_assegmentNormalise (by decide) (by decide) shortPath, pathCount_append, own.1,
    ← aspathCountHops_pathCount]

end Recovery

/-- How many segments are no sequences. -/
def wholes (segments : List Assegment) : Nat :=
  segments.countP fun seg => seg.type ≠ .asSequence

theorem wholes_assegmentNormaliseFrom (segments : List Assegment) : ∀ pin : Assegment,
    wholes (assegmentNormaliseFrom pin segments) = wholes (pin :: segments) := by
  induction segments with
  | nil => exact fun _ => rfl
  | cons next rest ih =>
    intro pin
    rw [assegmentNormaliseFrom]
    split_ifs with packable
    · have both := Assegment.packable_iff.mp packable
      rw [ih]
      simp [wholes, both]
    · have behind := ih next.sortSet
      simp only [wholes, countP_cons, Assegment.sortSet_type] at behind ⊢
      rw [behind]

/-- Normalising keeps the segments that are no sequences, whatever it does to the lengths. -/
theorem wholes_assegmentNormalise (segments : List Assegment) :
    wholes (assegmentNormalise segments) = wholes segments := by
  cases segments with
  | nil => rfl
  | cons head rest =>
    rw [assegmentNormalise, wholes_assegmentNormaliseFrom]
    simp only [wholes, countP_cons, Assegment.sortSet_type]

theorem assegmentNormalise_prepended {q : List Nat} (few : q.length < 65536) {seg : Assegment}
    {rest : List Assegment} (sequence : seg.type = .asSequence)
    (apart : (seg :: rest).IsChain fun seg next => ¬ seg.packable next) :
    assegmentNormalise (⟨.asSequence, q, few⟩ :: seg :: rest) =
      Assegment.append ⟨.asSequence, q, few⟩ seg :: rest.map Assegment.sortSet := by
  have packable : Assegment.packable ⟨.asSequence, q, few⟩ seg = true :=
    Assegment.packable_iff.mpr ⟨rfl, sequence⟩
  have joined : (Assegment.append ⟨.asSequence, q, few⟩ seg :: rest).IsChain
      fun seg next => ¬ seg.packable next := by
    cases rest with
    | nil => exact .singleton _
    | cons next rest =>
      obtain ⟨here, behind⟩ := isChain_cons_cons.mp apart
      refine isChain_cons_cons.mpr ⟨fun packable => here ?_, behind⟩
      exact Assegment.packable_iff.mpr ⟨sequence, (Assegment.packable_iff.mp packable).2⟩
  rw [assegmentNormalise, (Assegment.sorted_of_sequence rfl).sortSet_eq, assegmentNormaliseFrom,
    if_pos packable, assegmentNormaliseFrom_of_apart _ joined]

theorem Assegment.length_append (seg next : Assegment) :
    (seg.append next).as.length = (seg.as.length + next.as.length) % 65536 := by
  rw [Assegment.append, assegmentNew, length_take, List.length_append]
  exact Nat.min_eq_left (Nat.mod_le _ _)

/-- Copying goes on to a set behind the first sequence. -/
theorem wholes_copyHops_pos {pin next : Assegment} {more : List Assegment} {hops : Nat}
    (sequence : pin.type = .asSequence) (set : next.type = .asSet) (enough : pin.as.length < hops) :
    0 < wholes (copyHops (pin :: next :: more) hops) := by
  obtain ⟨count, some⟩ := Nat.exists_eq_succ_of_ne_zero (show hops ≠ 0 by omega)
  obtain ⟨left, some_left⟩ :=
    Nat.exists_eq_succ_of_ne_zero (show count + 1 - pin.as.length ≠ 0 by omega)
  rw [some, Nat.succ_eq_add_one]
  simp only [copyHops, sequence, some_left, set]
  simp [wholes, set]

section Wrapping

variable {q : List Nat} (few : q.length < 65536) {seg : Assegment} {rest : List Assegment}
  (normal : NormalForm (seg :: rest)) (free : aspathConfedCheck ⟨seg :: rest⟩ = false)
  (sequence : seg.type = .asSequence)

theorem sequenceOf_of_long (long : 65536 ≤ q.length + seg.as.length) :
    sequenceOf q = [⟨.asSequence, q, few⟩] := by
  cases q with
  | nil =>
    have below := seg.length_lt
    rw [length_nil] at long
    omega
  | cons first rest => exact sequenceOf_eq few

include normal sequence

theorem receivedPath_of_long (long : 65536 ≤ q.length + seg.as.length) :
    receivedPath ⟨seg :: rest⟩ q =
      ⟨Assegment.append ⟨.asSequence, q, few⟩ (seg.sent false) ::
        (rest.map fun seg => seg.sent false).map Assegment.sortSet⟩ := by
  have apart : ((seg :: rest).map fun seg => seg.sent false).IsChain
      fun seg next => ¬ seg.packable next :=
    (isChain_map fun seg : Assegment => seg.sent false).mpr normal.apart
  rw [receivedPath, sequenceOf_of_long few long, singleton_append, map_cons,
    assegmentNormalise_prepended few (by exact sequence) apart]

include few free

theorem counts_of_long (long : 65536 ≤ q.length + seg.as.length) :
    aspathCountHops (receivedPath ⟨seg :: rest⟩ q) =
        q.length + seg.as.length - 65536 + pathCount .asSequence .asSet rest ∧
      aspathCountConfeds (receivedPath ⟨seg :: rest⟩ q) = 0 ∧
      aspathCountHops ⟨seg :: rest⟩ = seg.as.length + pathCount .asSequence .asSet rest := by
  have below := seg.length_lt
  have wraps : (q.length + seg.as.length) % 65536 = q.length + seg.as.length - 65536 := by omega
  rw [receivedPath_of_long few normal sequence long, aspathCountHops_pathCount,
    aspathCountConfeds_pathCount, aspathCountHops_pathCount]
  have none := pathCount_confedFree free
  have hops := @pathCount_map_sortSet .asSequence .asSet (by decide)
  have confeds := @pathCount_map_sortSet .asConfedSequence .asConfedSet (by decide)
  simp only [pathCount_cons, hops, confeds, pathCount_sent, segmentCount, Assegment.append_type,
    Assegment.length_append, Assegment.length_sent, sequence, wraps] at none ⊢
  simpa using none

/-- When the first sequence has wrapped around, the received path has too few hops. It is put in
front of the true one as a whole, or the true one is taken without what was prepended. -/
theorem not_recovered_of_long (long : 65536 ≤ q.length + seg.as.length) :
    ¬ Recovered ⟨seg :: rest⟩ q := by
  have below := seg.length_lt
  obtain ⟨hops, confeds, hops'⟩ := counts_of_long few normal free sequence long
  have wraps : (q.length + seg.as.length) % 65536 = q.length + seg.as.length - 65536 := by omega
  have expected : assegmentNormalise (sequenceOf q ++ seg :: rest) =
      Assegment.append ⟨.asSequence, q, few⟩ seg :: rest := by
    rw [sequenceOf_of_long few long, singleton_append,
      assegmentNormalise_prepended few sequence normal.apart,
      (normalForm_cons.mp normal).2.1.map_sortSet]
  rintro ⟨recovered, -⟩
  -- All of the received path is put in front of the true one.
  have fewer : q.length + seg.as.length - 65536 + pathCount .asSequence .asSet rest + 0 <
      aspathCountHops ⟨seg :: rest⟩ := by omega
  simp only [aspathReconcileAs4, confeds, expected, hops, if_pos fewer] at recovered
  split_ifs at recovered with none
  · have same := (List.cons.inj (congrArg Aspath.segments recovered)).1
    have lengths := congrArg (fun seg : Assegment => seg.as.length) same
    simp only [Assegment.length_append, wraps] at lengths
    omega
  rw [receivedPath_of_long few normal sequence long] at recovered
  have copied := congrArg Aspath.segments recovered
  cases rest with
  | nil =>
    -- the sequence is put behind itself
    obtain ⟨count, some⟩ := Nat.exists_eq_succ_of_ne_zero none
    rw [some, Nat.succ_eq_add_one] at copied
    simp only [map_nil, copyHops, Assegment.append_type] at copied
    have joined : ∀ first second : Assegment, first.type = .asSequence →
        second.type = .asSequence → assegmentNormalise [first, second] = [first.append second] := by
      intro first second typed typed'
      rw [assegmentNormalise, (Assegment.sorted_of_sequence typed).sortSet_eq,
        assegmentNormaliseFrom, if_pos (Assegment.packable_iff.mpr ⟨typed, typed'⟩),
        assegmentNormaliseFrom]
    rw [singleton_append, joined _ _ rfl sequence] at copied
    have lengths := congrArg (fun seg : Assegment => seg.as.length) (List.cons.inj copied).1
    simp only [Assegment.length_append, Assegment.take, length_take, Assegment.length_sent,
      wraps] at lengths
    omega
  | cons next more =>
    -- the first set is there twice
    have set : next.type = .asSet := by
      have apart := (normalForm_cons.mp normal).2.2
      rw [startsWith_cons] at apart
      have check := any_eq_false.mp free next (by simp)
      simp only [decide_eq_true_eq, not_or] at check
      cases kind : next.type with
      | asSet => rfl
      | asSequence => exact absurd ⟨sequence, kind⟩ apart
      | asConfedSequence => exact absurd kind check.2
      | asConfedSet => exact absurd kind check.1
    have counts := congrArg wholes copied
    have twice := @wholes_copyHops_pos
      (Assegment.append ⟨.asSequence, q, few⟩ (seg.sent false)) (next.sent false).sortSet
      ((more.map fun seg => seg.sent false).map Assegment.sortSet)
      (q.length + seg.as.length - 65536 + pathCount .asSequence .asSet (next :: more)) rfl
      (by rw [Assegment.sortSet_type]; exact set) (by
        rw [Assegment.length_append, Assegment.length_sent, wraps, pathCount_cons, segmentCount,
          set]
        simp only [reduceCtorEq, if_false, if_true]
        omega)
    have split : ∀ first second, wholes (first ++ second) = wholes first + wholes second :=
      fun first second => countP_append
    have behind : wholes (seg :: next :: more) =
        wholes (Assegment.append ⟨.asSequence, q, few⟩ seg :: next :: more) := by
      simp [wholes, countP_cons, sequence]
    rw [wholes_assegmentNormalise, split, behind] at counts
    simp only [map_cons] at counts
    omega

end Wrapping

/-- **Reconciliation recovers the path that old speakers have mapped and prepended to, exactly if the
numbers prepended and the first sequence fit into one segment.** -/
theorem aspathReconcileAs4_prepended (path : Aspath) (q : List Nat) (few : q.length < 65536)
    (normal : NormalForm path.segments) (free : aspathConfedCheck path = false) :
    Recovered path q ↔ q.length + leading path.segments < 65536 := by
  refine ⟨fun recovered => ?_, recovered_of_short few normal free⟩
  by_contra long
  obtain ⟨segments⟩ := path
  cases segments with
  | nil => exact long few
  | cons seg rest =>
    rw [leading_cons] at long
    split_ifs at long with sequence
    · have ends : leading rest = 0 := by
        have apart := (normalForm_cons.mp normal).2.2
        cases rest with
        | nil => rfl
        | cons next rest =>
          rw [leading_cons, if_neg fun typed => apart ⟨sequence, startsWith_cons.mpr typed⟩]
      exact not_recovered_of_long few normal free sequence (by omega) recovered
    · exact long few

/-- A sequence with a number of four bytes, and a set with two of them. -/
theorem aspathReconcileAs4_prepended_once :
    Recovered ⟨[⟨.asSequence, [70000, 5], by decide⟩, ⟨.asSet, [7, 80000, 80001], by decide⟩]⟩ [3] :=
  (aspathReconcileAs4_prepended _ [3] (by decide) (by decide) (by decide)).mpr (by decide)

/-- A number is prepended to a sequence of 65535. -/
theorem not_recovered_longSequence :
    NormalForm [longSequence] ∧ aspathConfedCheck ⟨[longSequence]⟩ = false ∧
      ¬ Recovered ⟨[longSequence]⟩ [1] := by
  have normal : NormalForm [longSequence] :=
    normalForm_cons.mpr ⟨Assegment.sorted_of_sequence rfl, normalForm_nil, by simp⟩
  have length : longSequence.as.length = 65535 := length_replicate
  refine ⟨normal, rfl, not_recovered_of_long (by decide) normal rfl rfl ?_⟩
  rw [length]
  decide

/-! ## Aggregation -/

variable (segments : List Assegment) {as : Nat}

/-- The numbers of a path. -/
def pathNumbers : List Nat := segments.flatMap Assegment.as

@[simp] theorem mem_pathNumbers_cons {rest : List Assegment} :
    as ∈ pathNumbers (seg :: rest) ↔ as ∈ seg.as ∨ as ∈ pathNumbers rest := by
  simp [pathNumbers]

@[simp] theorem mem_pathNumbers_append :
    as ∈ pathNumbers (first ++ second) ↔ as ∈ pathNumbers first ∨ as ∈ pathNumbers second := by
  simp [pathNumbers]

theorem Assegment.mem_sortSet : as ∈ seg.sortSet.as ↔ as ∈ seg.as := by
  rw [sortSet]
  split_ifs
  · exact mem_setValues
  · rfl

@[simp] theorem mem_pathNumbers_map_sortSet {segments : List Assegment} :
    as ∈ pathNumbers (segments.map Assegment.sortSet) ↔ as ∈ pathNumbers segments := by
  simp [pathNumbers, Assegment.mem_sortSet]

theorem length_dedup_congr {numbers numbers' : List Nat}
    (same : ∀ as, as ∈ numbers ↔ as ∈ numbers') :
    numbers.dedup.length = numbers'.dedup.length :=
  ((perm_ext_iff_of_nodup numbers.nodup_dedup numbers'.nodup_dedup).mpr fun as => by
    rw [mem_dedup, mem_dedup, same]).length_eq

/-- The set is made, unless 65536 different numbers are added. -/
theorem foldlM_asSetAdd (more : List Nat) : ∀ {asset : List Nat}, asset.Nodup →
    asset.length < 65536 →
    if (asset ++ more).dedup.length < 65536 then
      ∃ result, more.foldlM aspathAggregateAsSetAdd asset = .ok result ∧ result.length < 65536 ∧
        ∀ as, as ∈ result ↔ as ∈ asset ∨ as ∈ more
    else more.foldlM aspathAggregateAsSetAdd asset = .error .assertion := by
  induction more with
  | nil =>
    intro asset distinct few
    rw [append_nil, distinct.dedup, if_pos few]
    exact ⟨asset, rfl, few, by simp⟩
  | cons first rest ih =>
    intro asset distinct few
    rw [foldlM_cons, aspathAggregateAsSetAdd]
    by_cases old : first ∈ asset
    · have same : ∀ as, as ∈ asset ++ first :: rest ↔ as ∈ asset ++ rest := by
        intro as
        have here : as = first → as ∈ asset := fun eq => eq ▸ old
        simp only [mem_append, mem_cons]
        tauto
      have next := ih distinct few
      simp only [← mem_append] at next ⊢
      simpa only [if_pos old, ok_bind, length_dedup_congr same, same] using next
    · have distinct' : (asset ++ [first]).Nodup := nodup_append.mpr
        ⟨distinct, nodup_singleton first, fun as inside other single => by
          rw [mem_singleton.mp single]
          exact fun same => old (same ▸ inside)⟩
      have shift : asset ++ first :: rest = (asset ++ [first]) ++ rest := by simp
      rw [if_neg old, shift]
      by_cases wraps : (asset.length + 1) % 65536 = 0
      · have inside : asset ++ [first] ⊆ ((asset ++ [first]) ++ rest).dedup := fun as mem =>
          mem_dedup.mpr (mem_append_left _ mem)
        have grows := (distinct'.subperm inside).length_le
        rw [length_append, length_singleton] at grows
        rw [if_pos wraps, error_bind, if_neg (by omega)]
      · have next := ih distinct' (by rw [length_append, length_singleton]; omega)
        simp only [← mem_append, shift] at next ⊢
        rwa [if_neg wraps, ok_bind]

theorem assetSegment_type (asset : List Nat) : ∀ seg ∈ assetSegment asset, seg.type = .asSet := by
  cases asset <;> simp [assetSegment]

theorem mem_pathNumbers_assetSegment {asset : List Nat} (few : asset.length < 65536) :
    as ∈ pathNumbers (assetSegment asset) ↔ as ∈ asset := by
  cases asset with
  | nil => simp [assetSegment, pathNumbers]
  | cons first rest => simp [assetSegment, assegmentNew_of_lt _ few, pathNumbers]

/-- The numbers before an index of the first segment. -/
def skipped (upto : Nat) : List Assegment → List Nat
  | [] => []
  | seg :: _ => seg.as.take upto

theorem mem_pathNumbers_cut (upto : Nat) (segments : List Assegment) :
    as ∈ pathNumbers segments ↔ as ∈ skipped upto segments ∨ as ∈ leftover upto segments := by
  cases segments with
  | nil => simp [skipped, leftover, pathNumbers]
  | cons seg rest =>
    have cut : as ∈ seg.as ↔ as ∈ seg.as.take upto ∨ as ∈ seg.as.drop upto := by
      rw [← mem_append, take_append_drop]
    rw [mem_pathNumbers_cons, leftover, mem_append, cut, or_assoc]
    rfl

/-- The segments that two paths have in common at their beginning. -/
def sharedSegments : List Assegment → List Assegment → List Assegment
  | seg1 :: rest1, seg2 :: rest2 =>
    if seg1 = seg2 then seg1 :: sharedSegments rest1 rest2 else []
  | _, _ => []

/-- What is left of a path behind its common segments. -/
def behindShared (segments other : List Assegment) : List Assegment :=
  segments.drop (sharedSegments segments other).length

/-- One of the paths has ended, or they go on with segments of different types. -/
def incomparable : List Assegment → List Assegment → Bool
  | seg1 :: _, seg2 :: _ => seg1.type ≠ seg2.type
  | _, _ => true

theorem matchLength_take (first : List Nat) : ∀ second : List Nat,
    first.take (matchLength first second) = second.take (matchLength first second) ∧
      matchLength first second ≤ first.length ∧ matchLength first second ≤ second.length := by
  induction first with
  | nil => simp [matchLength]
  | cons value rest ih =>
    intro second
    cases second with
    | nil => simp [matchLength]
    | cons value' rest' =>
      rw [matchLength]
      split_ifs with same
      · obtain ⟨taken, le, le'⟩ := ih rest'
        exact ⟨by simp [same, taken], Nat.succ_le_succ le, Nat.succ_le_succ le'⟩
      · simp

theorem matchLength_self (as : List Nat) : matchLength as as = as.length := by
  induction as with
  | nil => rfl
  | cons first rest ih => simp [matchLength, ih]

theorem Assegment.leading_length (filled : seg.as ≠ []) : seg.leading seg.as.length = [seg] := by
  obtain ⟨type, as, lt⟩ := seg
  cases as with
  | nil => exact absurd rfl filled
  | cons first rest => simp [leading, Assegment.take]

theorem Assegment.mem_leading {n : Nat} :
    as ∈ pathNumbers (seg.leading n) ↔ as ∈ seg.as.take n := by
  cases n <;> simp [leading, Assegment.take, pathNumbers]

theorem Assegment.eq_of_matchLength {seg1 seg2 : Assegment} (typed : seg1.type = seg2.type)
    (whole : matchLength seg1.as seg2.as = seg1.as.length)
    (lengths : seg1.as.length = seg2.as.length) : seg1 = seg2 := by
  have taken := (matchLength_take seg1.as seg2.as).1
  rw [whole, take_length, lengths, take_length] at taken
  exact Assegment.ext typed taken

theorem aggregateLoop_spec (segs1 : List Assegment) : ∀ (segs2 : List Assegment) (ended : Nat),
    Filled segs1 →
    let found := aggregateLoop ended segs1 segs2
    let shared := sharedSegments segs1 segs2
    found.seg1 = behindShared segs1 segs2 ∧ found.seg2 = segs2.drop shared.length ∧
      segs1 = shared ++ found.seg1 ∧ segs2 = shared ++ found.seg2 ∧
      if incomparable found.seg1 found.seg2 then
        found.common = shared ∧
          found.ended = (shared.getLast?.map fun seg => seg.as.length).getD ended
      else ∃ seg1 rest1 seg2 rest2, found.seg1 = seg1 :: rest1 ∧ found.seg2 = seg2 :: rest2 ∧
        found.ended = matchLength seg1.as seg2.as ∧
        found.common = shared ++ seg1.leading found.ended := by
  induction segs1 with
  | nil =>
    simp [aggregateLoop, sharedSegments, behindShared, incomparable]
  | cons seg1 rest1 ih =>
    intro segs2 ended filled
    obtain ⟨some_number, filledRest⟩ := filled_cons.mp filled
    cases segs2 with
    | nil => simp [aggregateLoop, sharedSegments, behindShared, incomparable]
    | cons seg2 rest2 =>
      rw [aggregateLoop]
      by_cases typed : seg1.type = seg2.type
      · rw [if_neg (not_not.mpr typed)]
        by_cases same : seg1 = seg2
        · subst same
          rw [matchLength_self, if_neg (by simp)]
          have next := ih rest2 seg1.as.length filledRest
          simp only [sharedSegments, behindShared,
            Assegment.leading_length some_number] at next ⊢
          obtain ⟨left, right, split1, split2, rest⟩ := next
          refine ⟨left, right, congrArg _ split1, congrArg _ split2, ?_⟩
          split_ifs with ends
          · rw [if_pos ends] at rest
            refine ⟨congrArg _ rest.1, ?_⟩
            rw [rest.2, getLast?_cons]
            cases (sharedSegments rest1 rest2).getLast? <;> rfl
          · rw [if_neg ends] at rest
            obtain ⟨first1, more1, first2, more2, eq1, eq2, count, common⟩ := rest
            exact ⟨first1, more1, first2, more2, eq1, eq2, count, congrArg _ common⟩
        · have differs : matchLength seg1.as seg2.as ≠ min seg1.as.length seg2.as.length ∨
              matchLength seg1.as seg2.as ≠ seg1.as.length ∨
                seg1.as.length ≠ seg2.as.length := by
            by_contra equal
            simp only [not_or, not_not] at equal
            exact same (Assegment.eq_of_matchLength typed equal.2.1 equal.2.2)
          rw [if_pos differs]
          simp [sharedSegments, behindShared, same, incomparable, typed]
      · have same : seg1 ≠ seg2 := fun equal => typed (congrArg Assegment.type equal)
        simp [sharedSegments, behindShared, same, incomparable, typed]

/-- What the two paths lose is found elsewhere in them: the numbers of the next segments, as many
as the last common segment has. -/
def AggregateKeeps : Prop :=
  let shared := sharedSegments as1.segments as2.segments
  let rest1 := as1.segments.drop shared.length
  let rest2 := as2.segments.drop shared.length
  incomparable rest1 rest2 → ∀ last ∈ shared.getLast?, ∀ as,
    as ∈ skipped last.as.length rest1 ∨ as ∈ skipped last.as.length rest2 →
      as ∈ pathNumbers shared ∨
        as ∈ leftover last.as.length rest1 ∨ as ∈ leftover last.as.length rest2

/-- Every number of the two paths is in the aggregated one. -/
def NumbersKept (path : Aspath) : Prop :=
  ∀ as, as ∈ pathNumbers as1.segments ∨ as ∈ pathNumbers as2.segments → as ∈ pathNumbers path.segments

/-- Every number of the two paths is among those that the loop has taken or that are collected. -/
def NumbersTaken : Prop :=
  ∀ as, as ∈ pathNumbers as1.segments ∨ as ∈ pathNumbers as2.segments →
    as ∈ pathNumbers (aggregateLoop 0 as1.segments as2.segments).common ∨ as ∈ collected as1 as2

theorem numbersTaken_iff (filled : Filled as1.segments) :
    NumbersTaken as1 as2 ↔ AggregateKeeps as1 as2 := by
  obtain ⟨left, right, split1, split2, rest⟩ :=
    aggregateLoop_spec as1.segments as2.segments 0 filled
  rw [behindShared] at left
  rw [NumbersTaken, AggregateKeeps]
  simp only [collected, mem_append, ← left, ← right]
  generalize aggregateLoop 0 as1.segments as2.segments = found at split1 split2 rest
  generalize sharedSegments as1.segments as2.segments = shared at split1 split2 rest
  rw [split1, split2]
  simp only [mem_pathNumbers_append]
  by_cases ends : incomparable found.seg1 found.seg2 = true
  · -- the common part ends with a segment, or is empty
    rw [if_pos ends] at rest
    obtain ⟨common, ended⟩ := rest
    cases last : shared.getLast? with
    | none =>
      have zero : found.ended = 0 := by simpa [last] using ended
      have none : ∀ segments, skipped found.ended segments = [] := by
        intro segments
        cases segments <;> simp [skipped, zero]
      refine iff_of_true (fun as inside => ?_) (by simp)
      simp only [mem_pathNumbers_cut found.ended found.seg1,
        mem_pathNumbers_cut found.ended found.seg2, none] at inside
      rw [common]
      tauto
    | some seg =>
      have count : found.ended = seg.as.length := by simpa [last] using ended
      simp only [mem_pathNumbers_cut found.ended found.seg1,
        mem_pathNumbers_cut found.ended found.seg2, common, ends, Option.mem_def,
        Option.some.injEq, forall_true_left]
      constructor
      · rintro kept _ rfl as lost
        rw [← count] at lost ⊢
        exact kept as (by tauto)
      · intro keeps as inside
        have found := keeps seg rfl as
        rw [← count] at found
        tauto
  · -- the common part ends inside a segment
    rw [if_neg ends] at rest
    obtain ⟨seg1, rest1, seg2, rest2, eq1, eq2, count, common⟩ := rest
    have taken := (matchLength_take seg1.as seg2.as).1
    rw [← count] at taken
    refine iff_of_true (fun as inside => ?_) (fun at_end => absurd at_end ends)
    have cut : ∀ {segments}, as ∈ pathNumbers segments ↔
        as ∈ skipped found.ended segments ∨ as ∈ leftover found.ended segments :=
      mem_pathNumbers_cut found.ended _
    have first : as ∈ pathNumbers (seg1.leading found.ended) ↔ as ∈ seg1.as.take found.ended :=
      Assegment.mem_leading
    have second : skipped found.ended found.seg2 = seg1.as.take found.ended := by
      rw [eq2, taken]
      rfl
    have third : skipped found.ended found.seg1 = seg1.as.take found.ended := by
      rw [eq1]
      rfl
    rw [@cut found.seg1, @cut found.seg2, second, third] at inside
    rw [common, mem_pathNumbers_append]
    tauto

/-- The numbers of a path with the types of their segments. -/
def typedNumbers : List (SegmentType × Nat) :=
  segments.flatMap fun seg => seg.as.map fun as => (seg.type, as)

/-- The segments before the first set. -/
def leadingPart : List Assegment :=
  segments.takeWhile fun seg => seg.type ≠ .asSet ∧ seg.type ≠ .asConfedSet

/-- The part before the first set is at the beginning of both paths. -/
def LeadingCommon (path : Aspath) : Prop :=
  typedNumbers (leadingPart path.segments) <+: typedNumbers as1.segments ∧
    typedNumbers (leadingPart path.segments) <+: typedNumbers as2.segments

theorem typedNumbers_append (first second : List Assegment) :
    typedNumbers (first ++ second) = typedNumbers first ++ typedNumbers second :=
  flatMap_append

theorem typedNumbers_begins (pre : first <+: second) :
    typedNumbers first <+: typedNumbers second := by
  obtain ⟨rest, rfl⟩ := pre
  rw [typedNumbers_append]
  exact prefix_append _ _

theorem Assegment.typedNumbers_leading (seg : Assegment) (n : Nat) :
    typedNumbers (seg.leading n) = (seg.as.take n).map fun as => (seg.type, as) := by
  cases n <;> simp [leading, Assegment.take, typedNumbers]

theorem Assegment.Sorted.normalForm_leading (sorted : seg.Sorted) (n : Nat) :
    NormalForm (seg.leading n) ∧
      (startsWith (seg.leading n) .asSequence → seg.type = .asSequence) := by
  cases n with
  | zero => exact ⟨normalForm_nil, fun starts => absurd starts startsWith_nil⟩
  | succ n =>
    refine ⟨normalForm_cons.mpr ⟨fun set => ?_, normalForm_nil, by simp⟩, startsWith_cons.mp⟩
    exact (sorted set).sublist (take_sublist _ _)

/-- The common part is normal, and at the beginning of both paths. -/
theorem aggregateLoop_common {as1 as2 : Aspath} (normal : NormalForm as1.segments)
    (filled : Filled as1.segments) :
    let found := aggregateLoop 0 as1.segments as2.segments
    NormalForm found.common ∧ typedNumbers found.common <+: typedNumbers as1.segments ∧
      typedNumbers found.common <+: typedNumbers as2.segments := by
  obtain ⟨-, -, split1, split2, rest⟩ := aggregateLoop_spec as1.segments as2.segments 0 filled
  generalize aggregateLoop 0 as1.segments as2.segments = found at split1 split2 rest
  generalize sharedSegments as1.segments as2.segments = shared at split1 split2 rest
  rw [split1] at normal
  rw [split1, split2]
  obtain ⟨normalShared, normalRest, seam⟩ := normalForm_append.mp normal
  dsimp only
  split_ifs at rest with ends
  · rw [rest.1]
    exact ⟨normalShared, typedNumbers_begins (prefix_append _ _),
      typedNumbers_begins (prefix_append _ _)⟩
  · obtain ⟨seg1, rest1, seg2, rest2, eq1, eq2, count, common⟩ := rest
    have taken := (matchLength_take seg1.as seg2.as).1
    rw [← count] at taken
    rw [eq1] at normalRest seam ends ⊢
    rw [eq2] at ends ⊢
    have typed : seg1.type = seg2.type := by simpa [incomparable] using ends
    obtain ⟨normalLeading, starts⟩ :=
      (normalForm_cons.mp normalRest).1.normalForm_leading found.ended
    have here : typedNumbers (seg1.leading found.ended) =
        (seg1.as.take found.ended).map fun as => (seg1.type, as) :=
      seg1.typedNumbers_leading found.ended
    have cut : ∀ (seg : Assegment) (rest : List Assegment),
        (seg.as.take found.ended).map (fun as => (seg.type, as)) <+: typedNumbers (seg :: rest) :=
      fun seg rest => ((List.take_prefix _ _).map _).trans (prefix_append _ _)
    rw [common]
    refine ⟨normalForm_append.mpr ⟨normalShared, normalLeading, ?_⟩, ?_, ?_⟩
    · rintro seg last ⟨sequence, begins⟩
      exact seam seg last ⟨sequence, startsWith_cons.mpr (starts begins)⟩
    · rw [typedNumbers_append, typedNumbers_append, prefix_append_right_inj, here]
      exact cut seg1 rest1
    · rw [typedNumbers_append, typedNumbers_append, prefix_append_right_inj, here, taken, typed]
      exact cut seg2 rest2

theorem leadingPart_append {sets : List Assegment} (all : ∀ seg ∈ sets, seg.type = .asSet) :
    leadingPart (first ++ sets) <+: first := by
  induction first with
  | nil =>
    cases sets with
    | nil => exact prefix_refl _
    | cons seg rest => simp [leadingPart, all seg mem_cons_self]
  | cons seg rest ih =>
    rw [leadingPart, cons_append, takeWhile_cons]
    split_ifs
    · exact (prefix_cons_inj seg).mpr ih
    · exact nil_prefix

/-- **What `aspath_aggregate` returns for a path without empty segments.** -/
theorem aspathAggregate_spec {as1 as2 : Aspath} (normal : NormalForm as1.segments)
    (filled : Filled as1.segments) :
    if (collected as1 as2).dedup.length < 65536 then
      ∃ asset, aspathAggregate as1 as2 =
          .ok ⟨(aggregateLoop 0 as1.segments as2.segments).common ++
            (assetSegment asset).map Assegment.sortSet⟩ ∧
        asset.length < 65536 ∧ ∀ as, as ∈ asset ↔ as ∈ collected as1 as2
    else aspathAggregate as1 as2 = .error .assertion := by
  have normalCommon := (@aggregateLoop_common as1 as2 normal filled).1
  have added := foldlM_asSetAdd (collected as1 as2) nodup_nil (by decide)
  rw [nil_append] at added
  rw [aspathAggregate]
  split_ifs at added ⊢
  · obtain ⟨asset, made, few, mem⟩ := added
    refine ⟨asset, ?_, few, by simpa using mem⟩
    rw [made]
    refine congrArg (fun segments => Except.ok (Aspath.mk segments)) ?_
    rw [assegmentNormalise_of_apart, map_append, normalCommon.map_sortSet]
    refine isChain_append.mpr ⟨normalCommon.apart, ?_, fun seg _ next first packable => ?_⟩
    · cases asset
      · exact .nil
      · exact .singleton _
    · have set := assetSegment_type _ next (mem_of_mem_head? first)
      rw [(Assegment.packable_iff.mp packable).2] at set
      cases set
  · rw [added]
    rfl

/-- **When aggregation keeps what is needed to detect loops.** The daemon must not stop, and the
numbers that the common part leaves out must be found elsewhere. -/
theorem aspathAggregate_keeps_iff {as1 as2 : Aspath} (normal : NormalForm as1.segments)
    (filled : Filled as1.segments) :
    (∃ path, aspathAggregate as1 as2 = .ok path ∧ NumbersKept as1 as2 path ∧
        LeadingCommon as1 as2 path) ↔
      AggregateKeeps as1 as2 ∧ (collected as1 as2).dedup.length < 65536 := by
  obtain ⟨-, begins1, begins2⟩ := @aggregateLoop_common as1 as2 normal filled
  have returns := @aspathAggregate_spec as1 as2 normal filled
  rw [← numbersTaken_iff as1 as2 filled]
  split_ifs at returns with fits
  · obtain ⟨asset, returned, few, mem⟩ := returns
    rw [returned, and_iff_left fits]
    have numbers : ∀ as, as ∈ pathNumbers
        ((aggregateLoop 0 as1.segments as2.segments).common ++
          (assetSegment asset).map Assegment.sortSet) ↔
        as ∈ pathNumbers (aggregateLoop 0 as1.segments as2.segments).common ∨
          as ∈ collected as1 as2 := by
      intro as
      rw [mem_pathNumbers_append, mem_pathNumbers_map_sortSet, mem_pathNumbers_assetSegment few, mem]
    have sets : ∀ seg ∈ (assetSegment asset).map Assegment.sortSet, seg.type = .asSet := by
      intro seg inside
      obtain ⟨seg, old, rfl⟩ := mem_map.mp inside
      rw [Assegment.sortSet_type]
      exact assetSegment_type asset seg old
    constructor
    · rintro ⟨path, returned, kept, -⟩
      cases returned
      exact fun as inside => (numbers as).mp (kept as inside)
    · intro taken
      refine ⟨_, rfl, fun as inside => (numbers as).mpr (taken as inside), ?_⟩
      have early := typedNumbers_begins
        (@leadingPart_append (aggregateLoop 0 as1.segments as2.segments).common _ sets)
      exact ⟨early.trans begins1, early.trans begins2⟩
  · rw [returns]
    exact iff_of_false (by simp) fun both => fits both.2

/-- Two paths that differ inside a sequence. -/
theorem aspathAggregate_keeps_iff_inside :
    ∃ path, aspathAggregate ⟨[⟨.asSequence, [1, 2, 3], by decide⟩]⟩
          ⟨[⟨.asSequence, [1, 2, 4], by decide⟩]⟩ = .ok path ∧
        NumbersKept ⟨[⟨.asSequence, [1, 2, 3], by decide⟩]⟩
          ⟨[⟨.asSequence, [1, 2, 4], by decide⟩]⟩ path ∧
        LeadingCommon ⟨[⟨.asSequence, [1, 2, 3], by decide⟩]⟩
          ⟨[⟨.asSequence, [1, 2, 4], by decide⟩]⟩ path :=
  (aspathAggregate_keeps_iff (by decide) (by simp [Filled])).mpr
    ⟨fun ends => absurd ends (by decide), by decide⟩

/-- The set of the second path is lost. -/
theorem not_numbersKept :
    NormalForm [⟨.asSequence, [1, 2], by decide⟩] ∧
      NormalForm [⟨.asSequence, [1, 2], by decide⟩, ⟨.asSet, [3, 4], by decide⟩] ∧
      ∃ path, aspathAggregate ⟨[⟨.asSequence, [1, 2], by decide⟩]⟩
          ⟨[⟨.asSequence, [1, 2], by decide⟩, ⟨.asSet, [3, 4], by decide⟩]⟩ = .ok path ∧
        ¬ NumbersKept ⟨[⟨.asSequence, [1, 2], by decide⟩]⟩
          ⟨[⟨.asSequence, [1, 2], by decide⟩, ⟨.asSet, [3, 4], by decide⟩]⟩ path := by
  refine ⟨by decide, by decide, ⟨[⟨.asSequence, [1, 2], by decide⟩]⟩, rfl, fun kept => ?_⟩
  exact absurd (kept 3 (by decide)) (by decide)

end Quagga.Bgpd
