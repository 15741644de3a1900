import Quagga.Bgpd.AttrParse

/-!
# Extended communities

`ecommunity_match` says whether every value of one extended community occurs in another. Both are
sorted, so one pass over the two would do. But the indices of the pass, which count values, are
added to pointers to bytes: the eight bytes from the `i`-th byte on are compared with those from the
`j`-th byte on. So the answer is yes exactly if the first windows of eight bytes of the one community
are among those of the other, in order (`ecommunityMatch_windows`).

The answer is right if too many values are looked for, if they are there and their first windows
stand one behind the other within reach, or if one of them is missing and one of the first windows
is as well (`ecommunityMatch_iff`). A second value is not found (`not_ecommunityMatch_second`).

Values are inserted by `ecommunity_add_val`, which moves bytes in an array that grows. Here the
offsets are right: what `ecommunity_uniq_sort` makes is sorted and has each value once
(`ecommunityUniqSort_sorts`).
-/

set_option autoImplicit false

namespace Quagga.Bgpd

open Lib Library List

/-- Values of eight bytes. In `val` they stand one behind the other. -/
structure Ecommunity where
  values : List (List UInt8)
  eight : ∀ value ∈ values, value.length = 8

variable (ecom ecom1 ecom2 : Ecommunity)

namespace Ecommunity

/-- `ecom->size`. -/
def size : Nat := ecom.values.length

/-- `ecom->val`. -/
def val : List UInt8 := ecom.values.flatten

/-- What `memcmp` looks at from a byte of `val` on. -/
def window (i : Nat) : List UInt8 := (ecom.val.drop i).take 8

/-- In the order in which `ecommunity_uniq_sort` leaves them. -/
def UniqSorted : Prop := ecom.values.Pairwise fun value next => memcmp value next < 0

end Ecommunity

/-- The loop of `ecommunity_match`: the index `i` has so far to go, and `j` is returned. -/
def matchLoop : Nat → Nat → Nat → Nat
  | 0, _, j => j
  | left + 1, i, j =>
    if j < ecom2.size then
      matchLoop left (i + 1) (if ecom1.window i = ecom2.window j then j + 1 else j)
    else j

/-- `ecommunity_match`. -/
def ecommunityMatch : Option Ecommunity → Option Ecommunity → Bool
  | none, none => true
  | some ecom1, some ecom2 =>
    if ecom1.size < ecom2.size then false
    else matchLoop ecom1 ecom2 ecom1.size 0 0 = ecom2.size
  | _, _ => false

/-- The windows from the bytes on that the loop gets to. -/
def Ecommunity.windows : List (List UInt8) := (List.range ecom.size).map ecom.window

/-- **The communities for which the answer is right.** The second one has too many values; or its
values are in the first one, and its windows stand there one behind the other; or a value is
missing, and so is a window. -/
def Answered : Prop :=
  ecom1.size < ecom2.size ∨
    (∀ value ∈ ecom2.values, value ∈ ecom1.values) ∧ ecom2.windows <:+: ecom1.windows ∨
    (∃ value ∈ ecom2.values, value ∉ ecom1.values) ∧
      ∃ window ∈ ecom2.windows, window ∉ ecom1.windows

variable {ecom ecom1 ecom2}

theorem Ecommunity.UniqSorted.nodup (sorted : ecom.UniqSorted) : ecom.values.Nodup :=
  sorted.imp fun less same => by simp [same, memcmp_eq, orderSign] at less

theorem length_flatten_eight {values : List (List UInt8)}
    (eights : ∀ value ∈ values, value.length = 8) :
    values.flatten.length = values.length * 8 := by
  rw [length_flatten, map_congr_left eights, map_const', sum_replicate]
  rfl

/-- The loop looks for the windows that are left, in order, among those that it still gets to. -/
theorem matchLoop_eq_size_iff (left : Nat) : ∀ {i j : Nat}, j ≤ ecom2.size →
    (matchLoop ecom1 ecom2 left i j = ecom2.size ↔
      ((List.range' j (ecom2.size - j)).map ecom2.window).Sublist
        ((List.range' i left).map ecom1.window)) := by
  induction left with
  | zero =>
    intro i j below
    simp only [matchLoop, range'_zero, map_nil, sublist_nil, map_eq_nil_iff,
      range'_eq_nil_iff]
    omega
  | succ left ih =>
    intro i j below
    rw [matchLoop]
    by_cases inside : j < ecom2.size
    · obtain ⟨more, size⟩ : ∃ more, ecom2.size - j = more + 1 := ⟨ecom2.size - j - 1, by omega⟩
      rw [if_pos inside, range'_succ, map_cons, size, range'_succ, map_cons]
      by_cases same : ecom1.window i = ecom2.window j
      · have next : ecom2.size - (j + 1) = more := by omega
        rw [if_pos same, ih inside, same, cons_sublist_cons, Nat.succ_eq_add_one, next]
      · rw [if_neg same, ih below, size, range'_succ, map_cons]
        refine ⟨fun later => later.cons _, fun found => ?_⟩
        exact (sublist_cons_iff.mp found).resolve_right fun ⟨_, first, _⟩ =>
          same (List.cons.inj first).1.symm
    · have all : ecom2.size - j = 0 := by omega
      rw [if_neg inside, all]
      exact iff_of_true (by omega) (nil_sublist _)

/-- **What `ecommunity_match` decides.** -/
theorem ecommunityMatch_windows :
    ecommunityMatch (some ecom1) (some ecom2) = true ↔
      ecom2.windows.Sublist ecom1.windows := by
  have loop : matchLoop ecom1 ecom2 ecom1.size 0 0 = ecom2.size ↔
      ecom2.windows.Sublist ecom1.windows := by
    rw [matchLoop_eq_size_iff _ (Nat.zero_le _), Ecommunity.windows, Ecommunity.windows,
      range_eq_range', range_eq_range', Nat.sub_zero]
  rw [ecommunityMatch]
  by_cases more : ecom1.size < ecom2.size
  · rw [if_pos more]
    refine iff_of_false Bool.false_ne_true fun found => ?_
    have length := found.length_le
    simp only [Ecommunity.windows, length_map, length_range] at length
    omega
  · rw [if_neg more, decide_eq_true_iff, loop]

/-- **When `ecommunity_match` says that every value of a community occurs in another one.** -/
theorem ecommunityMatch_iff (sorted : ecom2.UniqSorted) (answered : Answered ecom1 ecom2) :
    ecommunityMatch (some ecom1) (some ecom2) = true ↔
      ∀ value ∈ ecom2.values, value ∈ ecom1.values := by
  rcases answered with more | ⟨all, found⟩ | ⟨⟨value, among, missing⟩, window, sought, absent⟩
  · rw [ecommunityMatch, if_pos more]
    refine iff_of_false Bool.false_ne_true fun all => ?_
    exact absurd (subperm_of_subset sorted.nodup all).length_le (Nat.not_le.mpr more)
  · exact iff_of_true (ecommunityMatch_windows.mpr found.sublist) all
  · refine iff_of_false (fun matches' => ?_) fun all => missing (all value among)
    exact absent ((ecommunityMatch_windows.mp matches').subset sought)

/-- Two route targets, of which the second one is looked for. -/
def twoTargets : Ecommunity :=
  ⟨[[0, 2, 0, 1, 0, 0, 0, 1], [0, 2, 0, 1, 0, 0, 0, 2]], by decide⟩

/-- A target that is not there. -/
def otherTarget : Ecommunity := ⟨[[0, 2, 0, 9, 0, 0, 0, 9]], by decide⟩

theorem ecommunityMatch_iff_twoTargets :
    (ecommunityMatch (some twoTargets) (some twoTargets) = true ↔
      ∀ value ∈ twoTargets.values, value ∈ twoTargets.values) ∧
    (ecommunityMatch (some twoTargets) (some otherTarget) = true ↔
      ∀ value ∈ otherTarget.values, value ∈ twoTargets.values) := by
  have missing : Answered twoTargets otherTarget := .inr (.inr ⟨by decide, by decide⟩)
  refine ⟨ecommunityMatch_iff ?_ (.inr (.inl ⟨fun _ among => among, infix_refl _⟩)),
    ecommunityMatch_iff ?_ missing⟩
  · unfold Ecommunity.UniqSorted
    decide
  · unfold Ecommunity.UniqSorted
    decide

/-- The second target occurs in the community, and the answer is no. -/
theorem not_ecommunityMatch_second :
    ecommunityMatch (some twoTargets) (some ⟨[[0, 2, 0, 1, 0, 0, 0, 2]], by decide⟩) = false ∧
      [0, 2, 0, 1, 0, 0, 0, 2] ∈ twoTargets.values := by
  decide

/-! ## Inserting values -/

/-- `struct ecommunity`: `val` is null or points to the bytes of the values. -/
structure FlatEcommunity where
  size : Nat
  val : Option (List UInt8)

/-- `XREALLOC`: behind the old bytes stands what the allocator finds there. -/
def xrealloc (fresh : Nat → UInt8) (bytes : List UInt8) (length : Nat) : List UInt8 :=
  bytes.take length ++ (List.range (length - bytes.length)).map fresh

/-- `memcpy` to an offset of a buffer. Behind its end nothing may be written. -/
def memcpyAt (buffer : List UInt8) (dest : Nat) (bytes : List UInt8) :
    Except Fault (List UInt8) :=
  if dest + bytes.length ≤ buffer.length then
    .ok (buffer.take dest ++ bytes ++ buffer.drop (dest + bytes.length))
  else .error (.arrayIndex (dest + bytes.length))

/-- `memmove` inside a buffer. -/
def memmoveAt (buffer : List UInt8) (dest src length : Nat) : Except Fault (List UInt8) :=
  if src + length ≤ buffer.length then memcpyAt buffer dest ((buffer.drop src).take length)
  else .error (.arrayIndex (src + length))

/-- The search of `ecommunity_add_val` from the bytes at `p` on: the index at which it stops, unless
the value is found. -/
def searchVal (eval p : List UInt8) (c : Nat) : Nat → Option Nat
  | 0 => some c
  | left + 1 =>
    let ret := memcmp (p.take 8) eval
    if ret = 0 then none
    else if ret > 0 then some c
    else searchVal eval (p.drop 8) (c + 1) left

namespace FlatEcommunity

/-- `ecommunity_add_val` on the bytes. It returns whether the value was added. -/
def ecommunityAddVal (fresh : Nat → UInt8) (ecom : FlatEcommunity) (eval : List UInt8) :
    Except Fault (FlatEcommunity × Bool) :=
  let size := ecom.size + 1
  match ecom.val with
  | none => do
    let val ← memcpyAt (xrealloc fresh [] (size * 8)) 0 eval
    return (⟨size, some val⟩, true)
  | some val =>
    match searchVal eval val 0 ecom.size with
    | none => return (ecom, false)
    | some c => do
      let val := xrealloc fresh val (size * 8)
      let val ← memmoveAt val ((c + 1) * 8) (c * 8) ((size - 1 - c) * 8)
      let val ← memcpyAt val (c * 8) eval
      return (⟨size, some val⟩, true)

/-- Values that are inserted one by one into a new structure. -/
def addVals (fresh : Nat → Nat → UInt8) (values : List (List UInt8)) :
    Except Fault FlatEcommunity :=
  values.foldlM (fun new eval => Prod.fst <$> new.ecommunityAddVal (fresh new.size) eval) ⟨0, none⟩

/-- `ecommunity_uniq_sort`. -/
def ecommunityUniqSort (fresh : Nat → Nat → UInt8) (ecom : Ecommunity) :
    Except Fault FlatEcommunity :=
  addVals fresh (pieces 8 ecom.size ecom.val)

end FlatEcommunity

/-- The bytes of values that stand one behind the other. -/
def Ecommunity.flat (ecom : Ecommunity) : FlatEcommunity :=
  ⟨ecom.size, if ecom.values = [] then none else some ecom.val⟩

variable {values : List (List UInt8)} {value eval : List UInt8}

theorem memcmp_neg_iff (same : value.length = eval.length) :
    memcmp value eval < 0 ↔ value.map UInt8.toNat < eval.map UInt8.toNat := by
  rw [memcmp_eq same, orderSign_neg_iff]

/-- What the search finds in values that are sorted: the value, or the place behind the smaller
ones, where it can be put. There it is put in the list of the values, too. -/
theorem searchVal_cases (eight : eval.length = 8)
    (eights : ∀ value ∈ values, value.length = 8)
    (sorted : values.Pairwise (memcmp · · < 0)) (c : Nat) :
    eval ∈ values ∧ ecommunityAddVal values eval = values ∧
        searchVal eval values.flatten c values.length = none ∨
      ∃ before after, values = before ++ after ∧
        ecommunityAddVal values eval = before ++ eval :: after ∧
        (before ++ eval :: after).Pairwise (memcmp · · < 0) ∧
        searchVal eval values.flatten c values.length = some (c + before.length) := by
  induction values generalizing c with
  | nil => exact .inr ⟨[], [], rfl, rfl, pairwise_singleton _ _, rfl⟩
  | cons p rest ih =>
    obtain ⟨below, sortedRest⟩ := pairwise_cons.mp sorted
    obtain ⟨first, eights⟩ := forall_mem_cons.mp eights
    have same : p.length = eval.length := first.trans eight.symm
    rw [length_cons, searchVal, ecommunityAddVal, flatten_cons, ← first, take_left,
      drop_left]
    rcases lt_trichotomy (memcmp p eval) 0 with less | equal | greater
    · simp only [if_neg less.ne, if_neg less.not_gt]
      rcases ih eights sortedRest (c + 1) with
        ⟨there, stays, search⟩ | ⟨before, after, rfl, added, sorted', search⟩
      · exact .inl ⟨.tail _ there, by rw [stays], search⟩
      · refine .inr ⟨p :: before, after, rfl, by rw [added, cons_append],
          pairwise_cons.mpr ⟨fun v among => ?_, sorted'⟩, ?_⟩
        · rcases mem_cons.mp (perm_middle.subset among) with rfl | among
          · exact less
          · exact below v among
        · rw [search, length_cons, Nat.add_right_comm, Nat.add_assoc]
    · obtain rfl : p = eval := map_injective_iff.mpr (fun _ _ => UInt8.toNat_inj.mp)
        (orderSign_eq_zero_iff.mp ((memcmp_eq same).symm.trans equal))
      exact .inl ⟨.head _, if_pos equal, if_pos equal⟩
    · simp only [if_neg greater.ne', if_pos greater]
      refine .inr ⟨[], p :: rest, rfl, rfl, pairwise_cons.mpr ⟨?_, sorted⟩, rfl⟩
      have less : eval.map UInt8.toNat < p.map UInt8.toNat := by
        rwa [memcmp_eq same, orderSign_pos_iff] at greater
      refine forall_mem_cons.mpr ⟨(memcmp_neg_iff same.symm).mpr less, fun v among => ?_⟩
      have same' : v.length = eval.length := (eights v among).trans eight.symm
      rw [memcmp_neg_iff same'.symm]
      exact less.trans ((memcmp_neg_iff (same.trans same'.symm)).mp (below v among))

/-- The bytes behind a place are moved on and the value is copied to it. -/
theorem memmoveAt_memcpyAt (fresh : Nat → UInt8) (front moved : List UInt8)
    (eight : eval.length = 8) :
    ∃ val, memmoveAt (xrealloc fresh (front ++ moved) ((front ++ moved).length + 8))
        (front.length + 8) front.length moved.length = .ok val ∧
      memcpyAt val front.length eval = .ok (front ++ (eval ++ moved)) := by
  rw [xrealloc, take_of_length_le (Nat.le_add_right _ _), Nat.add_sub_cancel_left,
    append_assoc]
  have length : ((List.range 8).map fresh).length = 8 := by simp
  generalize (List.range 8).map fresh = room at length ⊢
  have kept : ((front ++ (moved ++ room)).take (front.length + 8)).length = front.length + 8 := by
    simp [length]
  refine ⟨(front ++ (moved ++ room)).take (front.length + 8) ++ moved, ?_, ?_⟩
  · rw [memmoveAt, if_pos (by simp), drop_left, take_left, memcpyAt,
      if_pos (by simp; omega), drop_of_length_le (by simp; omega), append_nil]
  · rw [memcpyAt, if_pos (by rw [length_append]; omega), eight,
      take_append_of_le_length (by omega), take_take, Nat.min_eq_left (by omega),
      take_left, drop_left' kept, append_assoc]

/-- **One insertion**: the bytes become those of the list with the value in its place, and failure
is reported for a value that is there. -/
theorem ecommunityAddVal_flat (fresh : Nat → UInt8) (sorted : ecom.UniqSorted)
    (eight : eval.length = 8) : ∃ new : Ecommunity, new.UniqSorted ∧
      new.values = ecommunityAddVal ecom.values eval ∧
      (∀ value, value ∈ new.values ↔ value = eval ∨ value ∈ ecom.values) ∧
      ecom.flat.ecommunityAddVal fresh eval = .ok (new.flat, decide (eval ∉ ecom.values)) := by
  have eights := ecom.eight
  rcases searchVal_cases eight eights sorted 0 with
    ⟨there, stays, search⟩ | ⟨before, after, split, added, sorted', search⟩
  · refine ⟨ecom, sorted, stays.symm, fun value => (or_iff_right_of_imp ?_).symm, ?_⟩
    · rintro rfl
      exact there
    simp only [FlatEcommunity.ecommunityAddVal, Ecommunity.flat, if_neg (ne_nil_of_mem there),
      Ecommunity.size, Ecommunity.val, search, there]
    rfl
  · rw [split, forall_mem_append] at eights
    let new : Ecommunity := ⟨before ++ eval :: after,
      forall_mem_append.mpr ⟨eights.1, forall_mem_cons.mpr ⟨eight, eights.2⟩⟩⟩
    have free : eval ∉ ecom.values := by
      rw [split]
      exact (nodup_middle.mp (@Ecommunity.UniqSorted.nodup new sorted')).notMem
    refine ⟨new, sorted', added.symm, fun value => by simp [new, split, or_left_comm], ?_⟩
    rw [decide_eq_true free]
    by_cases empty : ecom.values = []
    · obtain ⟨rfl, rfl⟩ := append_eq_nil_iff.mp (split.symm.trans empty)
      have copied : memcpyAt (xrealloc fresh [] 8) 0 eval = .ok (eval ++ []) := by
        simp [memcpyAt, xrealloc, eight]
      rw [Ecommunity.flat, Ecommunity.size, empty]
      exact congrArg (Functor.map fun val => (FlatEcommunity.mk 1 (some val), true)) copied
    · obtain ⟨val, moved, copied⟩ := memmoveAt_memcpyAt fresh before.flatten after.flatten eight
      have behind : (before ++ after).length + 1 - 1 - before.length = after.length := by simp
      rw [← flatten_append, length_flatten_eight (split ▸ ecom.eight), ← Nat.succ_mul,
        length_flatten_eight eights.2] at moved
      rw [length_flatten_eight eights.1] at moved copied
      rw [← Nat.succ_mul] at moved
      rw [split, Nat.zero_add] at search
      rw [Ecommunity.flat, if_neg empty, Ecommunity.size, Ecommunity.val, split]
      simp only [FlatEcommunity.ecommunityAddVal, search, behind, moved, copied, ok_bind]
      simp [new, Ecommunity.flat, Ecommunity.size, Ecommunity.val, Nat.add_assoc, pure, Except.pure]

theorem pieces_flatten (eights : ∀ value ∈ values, value.length = 8) :
    pieces 8 values.length values.flatten = values := by
  induction values with
  | nil => rfl
  | cons value rest ih =>
    obtain ⟨eight, eights⟩ := forall_mem_cons.mp eights
    rw [length_cons, pieces, flatten_cons, ← eight, take_left, drop_left, eight,
      ih eights]

/-- The values that have been inserted stand in order, each once. -/
theorem addVals_flat (fresh : Nat → Nat → UInt8) (eights : ∀ value ∈ values, value.length = 8) :
    ∃ new : Ecommunity, new.UniqSorted ∧ (∀ value, value ∈ new.values ↔ value ∈ values) ∧
      FlatEcommunity.addVals fresh values = .ok new.flat := by
  induction values using List.reverseRecOn with
  | nil => exact ⟨⟨[], by simp⟩, .nil, by simp, rfl⟩
  | append_singleton values eval ih =>
    obtain ⟨ecom, sorted, members, inserted⟩ := ih (forall_mem_append.mp eights).1
    obtain ⟨new, sorted', -, members', added⟩ :=
      ecommunityAddVal_flat (fresh ecom.flat.size) sorted (eights eval (by simp))
    refine ⟨new, sorted', fun value => ?_, ?_⟩
    · rw [members', members, mem_append, mem_singleton, or_comm]
    · rw [FlatEcommunity.addVals] at inserted ⊢
      rw [foldlM_append, inserted, ok_bind, foldlM_cons, added]
      rfl

theorem Ecommunity.UniqSorted.unique (first : ecom1.UniqSorted) (second : ecom2.UniqSorted)
    (same : ∀ value, value ∈ ecom1.values ↔ value ∈ ecom2.values) : ecom1 = ecom2 := by
  have perm := (perm_ext_iff_of_nodup first.nodup second.nodup).mpr same
  have values : ecom1.values = ecom2.values := by
    refine perm.eq_of_pairwise (fun value next mem mem' less more => ?_) first second
    have eight := (ecom1.eight value mem).trans (ecom2.eight next mem').symm
    rw [memcmp_neg_iff eight] at less
    rw [memcmp_neg_iff eight.symm] at more
    exact absurd less more.not_gt
  cases ecom2
  cases values
  rfl

/-- **Values that are inserted one by one stand in order, each once, in whatever order they come,
and an insertion reports failure exactly for a value that has been inserted.** -/
theorem ecommunityUniqSort_sorts (ecom : Ecommunity) :
    ∃ new : Ecommunity, new.UniqSorted ∧ (∀ value, value ∈ new.values ↔ value ∈ ecom.values) ∧
      ∀ fresh, (∀ other : Ecommunity, other.values.Perm ecom.values →
          FlatEcommunity.ecommunityUniqSort fresh other = .ok new.flat) ∧
        ∀ before value after, ecom.values = before ++ value :: after →
          ∃ made next, FlatEcommunity.addVals fresh before = .ok made ∧
            made.ecommunityAddVal (fresh made.size) value =
              .ok (next, decide (value ∉ before)) := by
  obtain ⟨new, sorted, members, -⟩ := addVals_flat (fun _ _ => 0) ecom.eight
  refine ⟨new, sorted, members, fun fresh =>
    ⟨fun other perm => ?_, fun before value after split => ?_⟩⟩
  · obtain ⟨new', sorted', members', inserted⟩ := addVals_flat fresh other.eight
    have same : new' = new := sorted'.unique sorted fun value => by
      rw [members', members, perm.mem_iff]
    rw [FlatEcommunity.ecommunityUniqSort, Ecommunity.val, Ecommunity.size,
      pieces_flatten other.eight, inserted, same]
  · have eights := ecom.eight
    rw [split, forall_mem_append, forall_mem_cons] at eights
    obtain ⟨made, sorted, members, inserted⟩ := addVals_flat fresh eights.1
    obtain ⟨next, -, -, -, added⟩ :=
      ecommunityAddVal_flat (fresh made.flat.size) sorted eights.2.1
    simp only [members] at added
    exact ⟨_, _, inserted, added⟩

end Quagga.Bgpd
