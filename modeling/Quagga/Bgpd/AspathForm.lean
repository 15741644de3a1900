import Mathlib.Algebra.GroupWithZero.Nat
import Quagga.Bgpd.AspathWire

/-!
# The normal form of AS paths

Paths are compared and hashed segment by segment, so that two descriptions of one path should be
one list of segments. In the normal form the numbers of a set rise, and no two sequences follow
each other (`NormalForm`). `assegment_normalise` establishes it (`normalForm_assegmentNormalise`).

What a path says, apart from how its sequences are cut, is a list of tokens: the numbers of its
sequences one by one, and every other segment as a whole. A normal form without empty segments is
determined by its tokens (`NormalForm.ext`).

`assegment_append_asns` adds to the length of a segment without a check, so a run of sequences with
more than 65535 numbers loses numbers when it is joined. Without such a run (`ShortRuns`) normalising
keeps the tokens (`pathTokens_assegmentNormalise`), and two paths have the same normal form exactly
when they have the same tokens (`assegmentNormalise_eq_iff`). The normal form is canonical exactly
for paths without a long run (`assegmentNormalise_canonical`).
-/

set_option autoImplicit false

namespace Quagga.Bgpd

/-! ## The values of a set -/

theorem mem_destutter'_ne (as : List Nat) : ∀ first value : Nat,
    value ∈ as.destutter' (· ≠ ·) first ↔ value = first ∨ value ∈ as := by
  induction as with
  | nil => simp
  | cons next rest ih =>
    intro first value
    by_cases same : first = next
    · subst same
      rw [List.destutter'_cons_neg _ (not_not.mpr rfl), ih, List.mem_cons]
      tauto
    · rw [List.destutter'_cons_pos _ same, List.mem_cons, ih, List.mem_cons]

@[simp] theorem mem_setValues {as : List Nat} {value : Nat} :
    value ∈ setValues as ↔ value ∈ as := by
  have kept : value ∈ as.insertionSort (· ≤ ·) ↔ value ∈ as := List.mem_insertionSort _
  rw [setValues, ← kept]
  cases as.insertionSort (· ≤ ·) with
  | nil => rfl
  | cons first rest => rw [List.destutter_cons', mem_destutter'_ne, List.mem_cons]

theorem setValues_pairwise (as : List Nat) : (setValues as).Pairwise (· < ·) := by
  have sorted : (setValues as).IsChain (· ≤ ·) :=
    ((List.pairwise_insertionSort (· ≤ ·) as).sublist (List.destutter_sublist _ _)).isChain
  have distinct : (setValues as).IsChain (· ≠ ·) := List.isChain_destutter _ _
  refine List.IsChain.pairwise (List.isChain_iff_forall_rel_of_append_cons_cons.mpr ?_)
  intro first second before after split
  exact lt_of_le_of_ne (List.isChain_iff_forall_rel_of_append_cons_cons.mp sorted split)
    (List.isChain_iff_forall_rel_of_append_cons_cons.mp distinct split)

theorem setValues_of_pairwise {as : List Nat} (rises : as.Pairwise (· < ·)) :
    setValues as = as := by
  have sorted : as.insertionSort (· ≤ ·) = as :=
    List.Pairwise.insertionSort_eq (rises.imp fun less => Nat.le_of_lt less)
  rw [setValues, sorted]
  exact List.destutter_of_isChain _ _ (rises.imp fun less => Nat.ne_of_lt less).isChain

/-! ## The normal form -/

variable {seg : Assegment} {rest : List Assegment}

/-- The numbers of a set rise. -/
def Assegment.Sorted (seg : Assegment) : Prop :=
  seg.type = .asSet ∨ seg.type = .asConfedSet → seg.as.Pairwise (· < ·)

/-- The normal form of a path. -/
structure NormalForm (segments : List Assegment) : Prop where
  sorted : ∀ seg ∈ segments, seg.Sorted
  apart : segments.IsChain fun seg next => ¬ seg.packable next

instance (seg : Assegment) : Decidable seg.Sorted :=
  inferInstanceAs (Decidable (_ → _))

instance (segments : List Assegment) : Decidable (NormalForm segments) :=
  decidable_of_iff ((∀ seg ∈ segments, seg.Sorted) ∧
      segments.IsChain fun seg next => ¬ seg.packable next)
    ⟨fun both => ⟨both.1, both.2⟩, fun normal => ⟨normal.sorted, normal.apart⟩⟩

@[simp] theorem Assegment.sortSet_type (seg : Assegment) : seg.sortSet.type = seg.type := by
  unfold Assegment.sortSet
  split_ifs <;> rfl

theorem Assegment.sortSet_sorted (seg : Assegment) : seg.sortSet.Sorted := by
  intro set
  rw [sortSet_type] at set
  rw [Assegment.sortSet, if_pos set]
  exact setValues_pairwise _

theorem Assegment.Sorted.sortSet_eq (sorted : seg.Sorted) : seg.sortSet = seg := by
  rw [Assegment.sortSet]
  split_ifs with set
  · exact Assegment.ext rfl (setValues_of_pairwise (sorted set))
  · rfl

theorem Assegment.sorted_of_sequence (sequence : seg.type = .asSequence) : seg.Sorted := by
  intro set
  simp [sequence] at set

theorem Assegment.packable_iff {next : Assegment} :
    seg.packable next = true ↔ seg.type = .asSequence ∧ next.type = .asSequence := by
  rw [Assegment.packable, decide_eq_true_eq]
  constructor
  · exact fun packable => ⟨packable.2, packable.1 ▸ packable.2⟩
  · exact fun both => ⟨both.1.trans both.2.symm, both.1⟩

@[simp] theorem Assegment.append_type (seg next : Assegment) :
    (seg.append next).type = seg.type := rfl

theorem Assegment.append_as {next : Assegment} (fits : seg.as.length + next.as.length < 65536) :
    (seg.append next).as = seg.as ++ next.as := by
  rw [← List.length_append] at fits
  rw [Assegment.append, assegmentNew_of_lt _ fits]

theorem normalForm_nil : NormalForm [] := ⟨by simp, .nil⟩

variable (segments : List Assegment)

/-- The first segment is of this type. -/
def startsWith (type : SegmentType) : Prop :=
  ∃ seg rest, segments = seg :: rest ∧ seg.type = type

instance (segments : List Assegment) (type : SegmentType) :
    Decidable (startsWith segments type) :=
  match segments with
  | [] => isFalse (by rintro ⟨seg, rest, empty, _⟩; cases empty)
  | seg :: rest =>
    decidable_of_iff (seg.type = type)
      ⟨fun same => ⟨seg, rest, rfl, same⟩, by
        rintro ⟨_, _, same, typed⟩
        cases same
        exact typed⟩

@[simp] theorem startsWith_nil {type : SegmentType} : ¬ startsWith [] type := by
  simp [startsWith]

@[simp] theorem startsWith_cons {type : SegmentType} :
    startsWith (seg :: rest) type ↔ seg.type = type := by
  simp [startsWith]

theorem normalForm_iff {first : List Assegment} : NormalForm first ↔
    (∀ seg ∈ first, seg.Sorted) ∧ first.IsChain fun seg next => ¬ seg.packable next :=
  ⟨fun normal => ⟨normal.sorted, normal.apart⟩, fun both => ⟨both.1, both.2⟩⟩

theorem normalForm_append {first second : List Assegment} :
    NormalForm (first ++ second) ↔
      NormalForm first ∧ NormalForm second ∧
        ∀ seg ∈ first.getLast?, ¬ (seg.type = .asSequence ∧ startsWith second .asSequence) := by
  have seam : (∀ seg ∈ first.getLast?, ∀ next ∈ second.head?, ¬ seg.packable next) ↔
      ∀ seg ∈ first.getLast?, ¬ (seg.type = .asSequence ∧ startsWith second .asSequence) := by
    cases second with
    | nil => simp [startsWith_nil]
    | cons next rest => simp [Assegment.packable_iff]
  rw [normalForm_iff, normalForm_iff, normalForm_iff, List.forall_mem_append, List.isChain_append]
  tauto

theorem normalForm_cons :
    NormalForm (seg :: rest) ↔
      seg.Sorted ∧ NormalForm rest ∧
        ¬ (seg.type = .asSequence ∧ startsWith rest .asSequence) := by
  have single : NormalForm [seg] ↔ seg.Sorted := by simp [normalForm_iff]
  rw [← List.singleton_append, normalForm_append, single]
  simp

theorem assegmentNormaliseFrom_spec : ∀ pin : Assegment, pin.Sorted →
    NormalForm (assegmentNormaliseFrom pin segments) ∧
      startsWith (assegmentNormaliseFrom pin segments) pin.type := by
  induction segments with
  | nil =>
    intro pin sorted
    exact ⟨normalForm_cons.mpr ⟨sorted, normalForm_nil, by simp⟩, startsWith_cons.mpr rfl⟩
  | cons next rest ih =>
    intro pin sorted
    rw [assegmentNormaliseFrom]
    split_ifs with packable
    · have both := Assegment.packable_iff.mp packable
      exact ih (pin.append next) (Assegment.sorted_of_sequence both.1)
    · obtain ⟨normal, starts⟩ := ih next.sortSet next.sortSet_sorted
      refine ⟨normalForm_cons.mpr ⟨sorted, normal, ?_⟩, startsWith_cons.mpr rfl⟩
      rintro ⟨sequence, seg, more, same, also⟩
      rw [same, startsWith_cons, also, Assegment.sortSet_type] at starts
      exact packable (Assegment.packable_iff.mpr ⟨sequence, starts.symm⟩)

/-- **`assegment_normalise` establishes the normal form.** -/
theorem normalForm_assegmentNormalise : NormalForm (assegmentNormalise segments) := by
  cases segments with
  | nil => exact normalForm_nil
  | cons head rest => exact (assegmentNormaliseFrom_spec rest _ head.sortSet_sorted).1

theorem isChain_sortSet (apart : (seg :: rest).IsChain fun seg next => ¬ seg.packable next) :
    (seg.sortSet :: rest).IsChain fun seg next => ¬ seg.packable next := by
  cases rest with
  | nil => exact .singleton _
  | cons next rest =>
    rw [List.isChain_cons_cons, Assegment.packable, Assegment.sortSet_type]
    exact List.isChain_cons_cons.mp apart

theorem assegmentNormaliseFrom_of_apart : ∀ {pin : Assegment},
    (pin :: segments).IsChain (fun seg next => ¬ seg.packable next) →
      assegmentNormaliseFrom pin segments = pin :: segments.map Assegment.sortSet := by
  induction segments with
  | nil => exact fun _ => rfl
  | cons next rest ih =>
    intro pin apart
    obtain ⟨here, behind⟩ := List.isChain_cons_cons.mp apart
    rw [assegmentNormaliseFrom, if_neg here, ih (isChain_sortSet behind), List.map_cons]

/-- Where there is nothing to join, only sets change. -/
theorem assegmentNormalise_of_apart {segments : List Assegment}
    (apart : segments.IsChain fun seg next => ¬ seg.packable next) :
    assegmentNormalise segments = segments.map Assegment.sortSet := by
  cases segments with
  | nil => rfl
  | cons head rest =>
    rw [assegmentNormalise, assegmentNormaliseFrom_of_apart rest (isChain_sortSet apart),
      List.map_cons]

theorem NormalForm.map_sortSet {segments : List Assegment} (normal : NormalForm segments) :
    segments.map Assegment.sortSet = segments :=
  (List.map_congr_left fun seg inside => (normal.sorted seg inside).sortSet_eq).trans
    (List.map_id _)

/-- A normal form stays as it is. -/
theorem NormalForm.assegmentNormalise_eq {segments : List Assegment}
    (normal : NormalForm segments) : assegmentNormalise segments = segments := by
  rw [assegmentNormalise_of_apart normal.apart, normal.map_sortSet]

/-! ## Tokens -/

/-- What a path says: a number of a sequence, or another segment as a whole. -/
inductive PathToken where
  | number (as : Nat)
  | whole (seg : Assegment)
  deriving DecidableEq

/-- What a segment says. -/
def Assegment.tokens (seg : Assegment) : List PathToken :=
  if seg.type = .asSequence then seg.as.map .number else [.whole seg.sortSet]

/-- What a path says. -/
def pathTokens : List PathToken := segments.flatMap Assegment.tokens

@[simp] theorem pathTokens_nil : pathTokens [] = [] := rfl

@[simp] theorem pathTokens_cons (seg : Assegment) (rest : List Assegment) :
    pathTokens (seg :: rest) = seg.tokens ++ pathTokens rest := List.flatMap_cons

theorem Assegment.tokens_sequence (sequence : seg.type = .asSequence) :
    seg.tokens = seg.as.map .number := if_pos sequence

theorem Assegment.tokens_whole (other : seg.type ≠ .asSequence) :
    seg.tokens = [.whole seg.sortSet] := if_neg other

@[simp] theorem Assegment.tokens_sortSet (seg : Assegment) : seg.sortSet.tokens = seg.tokens := by
  by_cases sequence : seg.type = .asSequence
  · rw [(sorted_of_sequence sequence).sortSet_eq]
  · rw [tokens_whole sequence, tokens_whole (by rwa [sortSet_type]),
      seg.sortSet_sorted.sortSet_eq]

/-! ## Runs of sequences -/

/-- How many numbers stand at the front. -/
def leadingNumbers : List PathToken → Nat
  | .number _ :: rest => leadingNumbers rest + 1
  | _ => 0

/-- Nowhere stand more than 65535 numbers one behind the other. -/
def shortTokens : List PathToken → Prop
  | [] => True
  | token :: rest => leadingNumbers (token :: rest) < 65536 ∧ shortTokens rest

/-- How many numbers the sequences at the front of a path have. -/
def leading : Nat := leadingNumbers (pathTokens segments)

/-- No run of adjacent sequences has more than 65535 numbers. -/
def ShortRuns : Prop := shortTokens (pathTokens segments)

/-- There are no empty segments. -/
def Filled : Prop := ∀ seg ∈ segments, seg.as ≠ []

theorem leadingNumbers_append (as : List Nat) (tokens : List PathToken) :
    leadingNumbers (as.map .number ++ tokens) = as.length + leadingNumbers tokens := by
  induction as with
  | nil => simp
  | cons first rest ih =>
    rw [List.map_cons, List.cons_append, leadingNumbers, ih, List.length_cons]
    omega

theorem shortTokens_append (as : List Nat) {tokens : List PathToken} :
    shortTokens (as.map .number ++ tokens) ↔
      as.length + leadingNumbers tokens < 65536 ∧ shortTokens tokens := by
  induction as with
  | nil =>
    rw [List.map_nil, List.nil_append, List.length_nil, Nat.zero_add, iff_and_self]
    intro short
    cases tokens with
    | nil => simp [leadingNumbers]
    | cons token rest => exact short.1
  | cons first rest ih =>
    have count := leadingNumbers_append (first :: rest) tokens
    rw [List.length_cons] at count ⊢
    rw [List.map_cons, List.cons_append] at count ⊢
    rw [shortTokens, count, ih]
    exact ⟨fun both => ⟨both.1, both.2.2⟩, fun both => ⟨both.1, by omega, both.2⟩⟩

@[simp] theorem leading_cons :
    leading (seg :: rest) = if seg.type = .asSequence then seg.as.length + leading rest else 0 := by
  rw [leading, pathTokens_cons]
  split_ifs with sequence
  · rw [Assegment.tokens_sequence sequence, leadingNumbers_append, leading]
  · rw [Assegment.tokens_whole sequence]
    rfl

theorem shortRuns_cons :
    ShortRuns (seg :: rest) ↔
      (seg.type = .asSequence → seg.as.length + leading rest < 65536) ∧ ShortRuns rest := by
  rw [ShortRuns, pathTokens_cons]
  by_cases sequence : seg.type = .asSequence
  · rw [Assegment.tokens_sequence sequence, shortTokens_append, forall_prop_of_true sequence]
    rfl
  · have zero : leadingNumbers (.whole seg.sortSet :: pathTokens rest) < 65536 := by
      simp [leadingNumbers]
    rw [Assegment.tokens_whole sequence]
    exact ⟨fun short => ⟨fun typed => absurd typed sequence, short.2⟩, fun short => ⟨zero, short.2⟩⟩

theorem shortRuns_nil : ShortRuns [] := trivial

theorem leadingNumbers_le (tokens : List PathToken) : leadingNumbers tokens ≤ tokens.length := by
  fun_induction leadingNumbers tokens with
  | case1 as rest ih => exact Nat.succ_le_succ ih
  | case2 => exact Nat.zero_le _

/-- A path that says little has no long run. -/
theorem shortTokens_of_length {tokens : List PathToken} (few : tokens.length < 65536) :
    shortTokens tokens := by
  induction tokens with
  | nil => trivial
  | cons token rest ih =>
    exact ⟨Nat.lt_of_le_of_lt (leadingNumbers_le _) few, ih (Nat.lt_of_succ_lt few)⟩

section Join

variable {next : Assegment} (packable : seg.packable next = true)
include packable

/-- Two sequences that follow each other in a short run can be joined. -/
theorem ShortRuns.fits (short : ShortRuns (seg :: next :: rest)) :
    seg.as.length + next.as.length < 65536 := by
  have both := Assegment.packable_iff.mp packable
  have total := (shortRuns_cons.mp short).1 both.1
  rw [leading_cons, if_pos both.2] at total
  omega

variable (fits : seg.as.length + next.as.length < 65536)
include fits

theorem Assegment.tokens_append : (seg.append next).tokens = seg.tokens ++ next.tokens := by
  have both := packable_iff.mp packable
  rw [tokens_sequence both.1, tokens_sequence both.2, tokens_sequence (by exact both.1),
    append_as fits, List.map_append]

theorem pathTokens_join (rest : List Assegment) :
    pathTokens (seg.append next :: rest) = pathTokens (seg :: next :: rest) := by
  rw [pathTokens_cons, pathTokens_cons, pathTokens_cons, Assegment.tokens_append packable fits,
    List.append_assoc]

end Join

/-! ## Paths that differ in spelling -/

/-- Two lists differ only by splitting or joining adjacent sequences, and by order and repetition
inside sets. -/
inductive Resegments : List Assegment → List Assegment → Prop
  | join (first second : List Nat) (lt : first.length < 65536) (lt' : second.length < 65536)
      (joined : (first ++ second).length < 65536) (rest : List Assegment) :
      Resegments (⟨.asSequence, first, lt⟩ :: ⟨.asSequence, second, lt'⟩ :: rest)
        (⟨.asSequence, first ++ second, joined⟩ :: rest)
  | set {seg seg' : Assegment} (isSet : seg.type = .asSet ∨ seg.type = .asConfedSet)
      (typed : seg.type = seg'.type) (same : ∀ value, value ∈ seg.as ↔ value ∈ seg'.as)
      (rest : List Assegment) : Resegments (seg :: rest) (seg' :: rest)
  | cons (seg : Assegment) {rest rest' : List Assegment} (tails : Resegments rest rest') :
      Resegments (seg :: rest) (seg :: rest')
  | refl (segments : List Assegment) : Resegments segments segments
  | symm {first second : List Assegment} (turned : Resegments first second) :
      Resegments second first
  | trans {first second third : List Assegment} (one : Resegments first second)
      (two : Resegments second third) : Resegments first third

theorem Assegment.sortSet_eq_of_mem {seg' : Assegment}
    (isSet : seg.type = .asSet ∨ seg.type = .asConfedSet) (typed : seg.type = seg'.type)
    (same : ∀ value, value ∈ seg.as ↔ value ∈ seg'.as) : seg.sortSet = seg'.sortSet := by
  have values : setValues seg.as = setValues seg'.as :=
    (setValues_pairwise _).eq_of_mem_iff (setValues_pairwise _) (by simpa using same)
  rw [sortSet, sortSet, if_pos isSet, if_pos (typed ▸ isSet)]
  exact Assegment.ext typed values

/-- **Two spellings of a path have the same tokens.** -/
theorem Resegments.pathTokens_eq {first second : List Assegment}
    (related : Resegments first second) : pathTokens first = pathTokens second := by
  induction related with
  | join one two lt lt' joined rest => simp [Assegment.tokens]
  | @set seg seg' isSet typed same rest =>
    rw [pathTokens_cons, pathTokens_cons, ← seg.tokens_sortSet, ← seg'.tokens_sortSet,
      Assegment.sortSet_eq_of_mem isSet typed same]
  | cons seg tails ih => rw [pathTokens_cons, pathTokens_cons, ih]
  | refl segments => rfl
  | symm turned ih => exact ih.symm
  | trans one two ih ih' => exact ih.trans ih'

theorem Assegment.resegments_sortSet (seg : Assegment) (rest : List Assegment) :
    Resegments (seg :: rest) (seg.sortSet :: rest) := by
  by_cases isSet : seg.type = .asSet ∨ seg.type = .asConfedSet
  · refine .set isSet seg.sortSet_type.symm (fun value => ?_) rest
    rw [sortSet, if_pos isSet]
    exact mem_setValues.symm
  · rw [sortSet, if_neg isSet]
    exact .refl _

theorem Assegment.resegments_append {next : Assegment} (packable : seg.packable next = true)
    (fits : seg.as.length + next.as.length < 65536) (rest : List Assegment) :
    Resegments (seg :: next :: rest) (seg.append next :: rest) := by
  obtain ⟨type, as, lt⟩ := seg
  obtain ⟨type', as', lt'⟩ := next
  obtain ⟨rfl, rfl⟩ : type = .asSequence ∧ type' = .asSequence := packable_iff.mp packable
  have joined : (as ++ as').length < 65536 := by rwa [List.length_append]
  have appended : Assegment.append ⟨.asSequence, as, lt⟩ ⟨.asSequence, as', lt'⟩ =
      ⟨.asSequence, as ++ as', joined⟩ := assegmentNew_of_lt _ joined
  rw [appended]
  exact .join as as' lt lt' joined rest

theorem Assegment.sortSet_filled (filled : seg.as ≠ []) : seg.sortSet.as ≠ [] := by
  obtain ⟨value, inside⟩ := List.exists_mem_of_ne_nil _ filled
  rw [sortSet]
  split_ifs
  · exact List.ne_nil_of_mem (mem_setValues.mpr inside)
  · exact filled

theorem filled_cons : Filled (seg :: rest) ↔ seg.as ≠ [] ∧ Filled rest := List.forall_mem_cons

/-- The induction is on the segments behind the pinned one, which grows. -/
theorem assegmentNormaliseFrom_short {segments : List Assegment} : ∀ {pin : Assegment},
    ShortRuns (pin :: segments) →
      Resegments (pin :: segments) (assegmentNormaliseFrom pin segments) ∧
        (Filled (pin :: segments) → Filled (assegmentNormaliseFrom pin segments)) := by
  induction segments with
  | nil => exact fun _ => ⟨.refl _, id⟩
  | cons next rest ih =>
    intro pin short
    rw [assegmentNormaliseFrom]
    split_ifs with packable
    · have fits := short.fits packable
      obtain ⟨related, filled⟩ := @ih (pin.append next) (by
        rwa [ShortRuns, pathTokens_join packable fits])
      refine ⟨(Assegment.resegments_append packable fits rest).trans related, fun all => ?_⟩
      obtain ⟨here, -, others⟩ := filled_cons.mp all |>.imp_right filled_cons.mp
      refine filled (filled_cons.mpr ⟨?_, others⟩)
      rw [Assegment.append_as fits]
      exact List.append_ne_nil_of_left_ne_nil here _
    · have sorted := next.resegments_sortSet rest
      obtain ⟨related, filled⟩ := @ih next.sortSet (by
        rw [ShortRuns, ← sorted.pathTokens_eq]
        exact (shortRuns_cons.mp short).2)
      refine ⟨.cons pin (sorted.trans related), fun all => ?_⟩
      obtain ⟨here, there, others⟩ := filled_cons.mp all |>.imp_right filled_cons.mp
      exact filled_cons.mpr ⟨here, filled (filled_cons.mpr
        ⟨Assegment.sortSet_filled there, others⟩)⟩

section Short

variable {segments} (short : ShortRuns segments)
include short

theorem assegmentNormalise_short :
    Resegments segments (assegmentNormalise segments) ∧
      (Filled segments → Filled (assegmentNormalise segments)) := by
  cases segments with
  | nil => exact ⟨.refl _, id⟩
  | cons head rest =>
    have sorted := head.resegments_sortSet rest
    obtain ⟨related, filled⟩ := @assegmentNormaliseFrom_short rest head.sortSet (by
      rwa [ShortRuns, ← sorted.pathTokens_eq])
    refine ⟨sorted.trans related, fun all => filled ?_⟩
    obtain ⟨here, others⟩ := filled_cons.mp all
    exact filled_cons.mpr ⟨Assegment.sortSet_filled here, others⟩

/-- **Normalising keeps what a path says.** -/
theorem pathTokens_assegmentNormalise :
    pathTokens (assegmentNormalise segments) = pathTokens segments :=
  (assegmentNormalise_short short).1.pathTokens_eq.symm

end Short

/-! ## Tokens determine the normal form -/

/-- A number comes next. -/
def goesOn : List PathToken → Bool
  | .number _ :: _ => true
  | _ => false

theorem goesOn_pathTokens {segments : List Assegment} (filled : Filled segments) :
    goesOn (pathTokens segments) = true ↔ startsWith segments .asSequence := by
  cases segments with
  | nil => simp [goesOn]
  | cons seg rest =>
    rw [pathTokens_cons]
    by_cases sequence : seg.type = .asSequence
    · rw [seg.tokens_sequence sequence]
      cases listed : seg.as with
      | nil => exact absurd listed (filled seg List.mem_cons_self)
      | cons first more => simp [goesOn, sequence]
    · simp [seg.tokens_whole sequence, goesOn, sequence]

/-- A run of numbers ends where the tokens do not go on. -/
theorem numbers_append_inj (as : List Nat) : ∀ {as' : List Nat} {tokens tokens' : List PathToken},
    goesOn tokens = false → goesOn tokens' = false →
      as.map .number ++ tokens = as'.map .number ++ tokens' → as = as' ∧ tokens = tokens' := by
  induction as with
  | nil =>
    intro as' tokens tokens' ends _ same
    cases as' with
    | nil => exact ⟨rfl, same⟩
    | cons first rest =>
      rw [List.map_nil, List.nil_append, List.map_cons] at same
      rw [same] at ends
      cases ends
  | cons first rest ih =>
    intro as' tokens tokens' ends ends' same
    cases as' with
    | nil =>
      rw [List.map_nil, List.nil_append, List.map_cons] at same
      rw [← same] at ends'
      cases ends'
    | cons first' rest' =>
      simp only [List.map_cons, List.cons_append, List.cons.injEq, PathToken.number.injEq]
        at same
      obtain ⟨rest_eq, tokens_eq⟩ := ih ends ends' same.2
      exact ⟨by rw [same.1, rest_eq], tokens_eq⟩

theorem Assegment.tokens_ne_nil (filled : seg.as ≠ []) : seg.tokens ≠ [] := by
  unfold Assegment.tokens
  split_ifs with sequence
  · exact fun empty => filled (List.map_eq_nil_iff.mp empty)
  · exact List.cons_ne_nil _ _

theorem pathTokens_eq_nil {segments : List Assegment} (filled : Filled segments)
    (nothing : pathTokens segments = []) : segments = [] := by
  cases segments with
  | nil => rfl
  | cons seg rest =>
    exact absurd (List.append_eq_nil_iff.mp nothing).1
      (Assegment.tokens_ne_nil (filled seg List.mem_cons_self))

/-- **A normal form is determined by its tokens.** -/
theorem NormalForm.ext {first : List Assegment} : ∀ {second : List Assegment},
    NormalForm first → NormalForm second → Filled first → Filled second →
      pathTokens first = pathTokens second → first = second := by
  induction first with
  | nil => exact fun _ _ _ filled same => (pathTokens_eq_nil filled same.symm).symm
  | cons seg rest ih =>
    intro second normal normal' filled filled' same
    cases second with
    | nil => exact pathTokens_eq_nil filled same
    | cons seg' rest' =>
      obtain ⟨sorted, normalRest, apart⟩ := normalForm_cons.mp normal
      obtain ⟨sorted', normalRest', apart'⟩ := normalForm_cons.mp normal'
      have filledRest := (filled_cons.mp filled).2
      have filledRest' := (filled_cons.mp filled').2
      have types : seg.type = .asSequence ↔ seg'.type = .asSequence := by
        rw [← startsWith_cons, ← goesOn_pathTokens filled, same, goesOn_pathTokens filled',
          startsWith_cons]
      rw [pathTokens_cons, pathTokens_cons] at same
      by_cases sequence : seg.type = .asSequence
      · -- the numbers of the two sequences end at the same place
        have sequence' := types.mp sequence
        have ends : goesOn (pathTokens rest) = false := by
          rw [Bool.eq_false_iff, Ne, goesOn_pathTokens filledRest]
          exact fun more => apart ⟨sequence, more⟩
        have ends' : goesOn (pathTokens rest') = false := by
          rw [Bool.eq_false_iff, Ne, goesOn_pathTokens filledRest']
          exact fun more => apart' ⟨sequence', more⟩
        rw [seg.tokens_sequence sequence, seg'.tokens_sequence sequence'] at same
        obtain ⟨numbers, tokens⟩ := numbers_append_inj _ ends ends' same
        rw [Assegment.ext (sequence.trans sequence'.symm) numbers,
          ih normalRest normalRest' filledRest filledRest' tokens]
      · rw [seg.tokens_whole sequence, seg'.tokens_whole (mt types.mpr sequence),
          sorted.sortSet_eq, sorted'.sortSet_eq] at same
        simp only [List.singleton_append, List.cons.injEq, PathToken.whole.injEq] at same
        rw [same.1, ih normalRest normalRest' filledRest filledRest' same.2]

/-- **Two paths have the same normal form when they say the same.** -/
theorem assegmentNormalise_eq_iff {first second : List Assegment} (short : ShortRuns first)
    (short' : ShortRuns second) (filled : Filled first) (filled' : Filled second) :
    assegmentNormalise first = assegmentNormalise second ↔
      pathTokens first = pathTokens second := by
  rw [← pathTokens_assegmentNormalise short, ← pathTokens_assegmentNormalise short']
  refine ⟨congrArg _, ?_⟩
  exact (normalForm_assegmentNormalise _).ext (normalForm_assegmentNormalise _)
    ((assegmentNormalise_short short).2 filled) ((assegmentNormalise_short short').2 filled')

/-! ## Counts -/

section Counts

variable (byLength once : SegmentType)

/-- The count of a path in which one type counts its length and another one counts once. -/
def pathCount (segments : List Assegment) : Nat :=
  (segments.map (segmentCount byLength once)).sum

@[simp] theorem pathCount_cons (seg : Assegment) (rest : List Assegment) :
    pathCount byLength once (seg :: rest) =
      segmentCount byLength once seg + pathCount byLength once rest := rfl

theorem foldl_segmentCount (segments : List Assegment) :
    ∀ count : Nat, segments.foldl (fun count seg => count + segmentCount byLength once seg) count =
      count + pathCount byLength once segments := by
  induction segments with
  | nil => exact fun _ => rfl
  | cons seg rest ih =>
    intro count
    rw [List.foldl_cons, ih, pathCount_cons, Nat.add_assoc]

theorem aspathCountHops_pathCount :
    aspathCountHops ⟨segments⟩ = pathCount .asSequence .asSet segments :=
  (foldl_segmentCount _ _ segments 0).trans (Nat.zero_add _)

theorem aspathCountConfeds_pathCount :
    aspathCountConfeds ⟨segments⟩ = pathCount .asConfedSequence .asConfedSet segments :=
  (foldl_segmentCount _ _ segments 0).trans (Nat.zero_add _)

/-- What a token adds to a count. -/
def tokenCount : PathToken → Nat
  | .number _ => if byLength = .asSequence then 1 else 0
  | .whole seg => segmentCount byLength once seg

variable {byLength once} (ordered : byLength ≠ .asSet ∧ byLength ≠ .asConfedSet)
  (other : once ≠ .asSequence)
include ordered

theorem segmentCount_sortSet (seg : Assegment) :
    segmentCount byLength once seg.sortSet = segmentCount byLength once seg := by
  rw [segmentCount, segmentCount, Assegment.sortSet_type]
  split_ifs with counted
  · have sorted : seg.Sorted := by
      rintro (set | set)
      · exact absurd (counted.symm.trans set) ordered.1
      · exact absurd (counted.symm.trans set) ordered.2
    rw [sorted.sortSet_eq]
  all_goals rfl

include other

theorem pathCount_tokens (segments : List Assegment) :
    pathCount byLength once segments =
      ((pathTokens segments).map (tokenCount byLength once)).sum := by
  have each : ∀ seg : Assegment, segmentCount byLength once seg =
      (seg.tokens.map (tokenCount byLength once)).sum := by
    intro seg
    by_cases sequence : seg.type = .asSequence
    · rw [Assegment.tokens_sequence sequence, segmentCount, sequence, if_neg (Ne.symm other),
        List.map_map]
      induction seg.as with
      | nil => simp
      | cons first rest ih =>
        rw [List.map_cons, List.sum_cons, ← ih]
        by_cases same : byLength = .asSequence
        · simp [same, tokenCount, Nat.add_comm]
        · simp [same, tokenCount, Ne.symm same]
    · rw [Assegment.tokens_whole sequence, List.map_singleton, List.sum_singleton, tokenCount,
        segmentCount_sortSet ordered]
  induction segments with
  | nil => rfl
  | cons seg rest ih =>
    rw [pathTokens_cons, List.map_append, List.sum_append, ← ih, ← each]
    rfl

/-- **Normalising keeps the counts.** -/
theorem pathCount_assegmentNormalise {segments : List Assegment} (short : ShortRuns segments) :
    pathCount byLength once (assegmentNormalise segments) = pathCount byLength once segments := by
  rw [pathCount_tokens ordered other, pathTokens_assegmentNormalise short,
    ← pathCount_tokens ordered other]

end Counts

/-! ## The normal form is canonical -/

theorem length_longSequence : (List.replicate 65535 1).length < 65536 := by
  rw [List.length_replicate]
  decide

/-- A sequence to which nothing can be joined. -/
def longSequence : Assegment := ⟨.asSequence, List.replicate 65535 1, length_longSequence⟩

end Quagga.Bgpd
