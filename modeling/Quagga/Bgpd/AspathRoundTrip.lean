import Mathlib.Algebra.Order.BigOperators.Group.List
import Mathlib.Algebra.Order.Group.Nat
import Quagga.Bgpd.AspathCodec

/-!
# AS paths there and back

`aspath_put` writes a path and `assegments_parse` reads it back. On the way the path is cut at
other places: a long sequence is split, and short sequences that follow each other are packed into
one segment of the message. Normalising undoes both.

Three things can go wrong. A segment of more than 510 numbers is split by a loop that adds too much
to the length it returns. A segment that is no sequence is split as well, and its two parts stay
apart. And the length byte of a group is set, for every packed segment, from the first segment and
that one alone; so with two packed segments it is too small, and the parser takes numbers of the
path for the head of a segment. It never recovers. The bytes of a run of sequences, taken two by
two, are the heads and the numbers, in another order for the reader than for the writer. If the two
have the same numbers, they have the same heads, and the lengths in them must make up all numbers
(`exact_of_run`).

So the path comes back exactly when a sequence has at most 510 numbers, another segment at most
255, and no group has more than one packed segment (`pathRoundTrip_iff`). That is so for encodings
of at most 65535 bytes; a longer one may besides have a run of sequences with more numbers than a
segment can count.
-/

set_option autoImplicit false

namespace Quagga.Bgpd

open Lib Library List

variable (use32bit : Bool)

/-! ## Pieces -/

/-- What stands on the wire for a segment or a part of it: a head with a length byte, and numbers. A
segment that is no sequence may go on in a second segment. -/
structure WirePiece where
  type : SegmentType
  as : List Nat
  count : UInt8
  more : List Nat

namespace WirePiece

variable (piece : WirePiece)

/-- The second segment. -/
def moreBytes : List UInt8 :=
  if piece.more = [] then [] else wireBytes use32bit piece.type piece.more

/-- The bytes of a piece. -/
def bytes : List UInt8 :=
  piece.type.code :: piece.count :: (asesBytes use32bit piece.as ++ piece.moreBytes use32bit)

/-- What a piece stands for. -/
def tokens : List PathToken :=
  if piece.type = .asSequence then piece.as.map .number
  else [.whole (assegmentNew piece.type (piece.as ++ piece.more)).sortSet]

/-- A piece that is a segment of the message: the length byte is right, and there is no second
segment. -/
structure Exact : Prop where
  count_eq : piece.count.toNat = piece.as.length
  once : piece.more = []

/-- A piece of a path: the length byte is right, or too small for a sequence. -/
structure Written : Prop where
  filled : piece.as ≠ []
  count_le : piece.count.toNat ≤ piece.as.length
  count_eq : piece.type ≠ .asSequence → piece.count.toNat = piece.as.length
  once : piece.type = .asSequence → piece.more = []
  more_le : piece.more.length ≤ asSegmentMax

end WirePiece

/-- The bytes of pieces. -/
def piecesBytes (pieces : List WirePiece) : List UInt8 :=
  pieces.flatMap (WirePiece.bytes use32bit)

/-- What pieces stand for together. -/
def piecesTokens (pieces : List WirePiece) : List PathToken := pieces.flatMap WirePiece.tokens

@[simp] theorem piecesBytes_cons (piece : WirePiece) (rest : List WirePiece) :
    piecesBytes use32bit (piece :: rest) = piece.bytes use32bit ++ piecesBytes use32bit rest :=
  flatMap_cons

@[simp] theorem piecesTokens_cons (piece : WirePiece) (rest : List WirePiece) :
    piecesTokens (piece :: rest) = piece.tokens ++ piecesTokens rest := flatMap_cons

section Pieces

variable {piece : WirePiece}

theorem WirePiece.Exact.written (exact : piece.Exact) (filled : piece.as ≠ []) : piece.Written :=
  ⟨filled, Nat.le_of_eq exact.count_eq, fun _ => exact.count_eq, fun _ => exact.once,
    by simp [exact.once]⟩

theorem WirePiece.tokens_sequence (sequence : piece.type = .asSequence) :
    piece.tokens = piece.as.map .number := if_pos sequence

theorem WirePiece.tokens_other (other : piece.type ≠ .asSequence) :
    piece.tokens = [.whole (assegmentNew piece.type (piece.as ++ piece.more)).sortSet] :=
  if_neg other

end Pieces

/-- What is written takes at least a byte for every token. -/
theorem length_piecesTokens_le (pieces : List WirePiece) :
    (piecesTokens pieces).length ≤ (piecesBytes use32bit pieces).length := by
  induction pieces with
  | nil => exact Nat.le_refl _
  | cons piece pieces ih =>
    have some : 0 < asValueSize use32bit := by cases use32bit <;> decide
    have size := Nat.le_mul_of_pos_right piece.as.length some
    have here : piece.tokens.length ≤ (piece.bytes use32bit).length := by
      rw [WirePiece.bytes, WirePiece.tokens, length_cons, length_cons, length_append,
        length_asesBytes]
      split_ifs
      · rw [length_map]
        omega
      · rw [length_singleton]
        omega
    rw [piecesTokens_cons, piecesBytes_cons, length_append, length_append]
    exact Nat.add_le_add here ih

/-! ## A length byte that is too small -/

/-- Bytes two by two. -/
def pairsOf : List UInt8 → List (UInt8 × UInt8)
  | first :: second :: rest => (first, second) :: pairsOf rest
  | _ => []

theorem pairsOf_append {first : List UInt8} (even : first.length % 2 = 0) (second : List UInt8) :
    pairsOf (first ++ second) = pairsOf first ++ pairsOf second := by
  fun_induction pairsOf first with
  | case1 a b rest ih =>
    have evenRest : rest.length % 2 = 0 := by
      simp only [length_cons] at even
      omega
    rw [cons_append, cons_append, pairsOf, ih evenRest, cons_append]
  | case2 first none =>
    match first with
    | [] => rfl
    | [a] => cases even
    | a :: b :: rest => exact absurd rfl (none a b rest)

theorem length_asesBytes_even (as : List Nat) : (asesBytes use32bit as).length % 2 = 0 := by
  rw [length_asesBytes]
  cases use32bit <;>
    · simp only [asValueSize, if_true, Bool.false_eq_true, if_false]
      omega

section Runs

variable {use32bit : Bool} {pieces written read : List WirePiece}

/-- The heads of pieces. -/
def heads (pieces : List WirePiece) : List (UInt8 × UInt8) :=
  pieces.map fun piece => (piece.type.code, piece.count)

/-- Pieces without second segments are heads and numbers. -/
theorem pairsOf_run (once : ∀ piece ∈ pieces, piece.more = []) :
    (piecesBytes use32bit pieces).length % 2 = 0 ∧
      (pairsOf (piecesBytes use32bit pieces)).Perm
        (heads pieces ++ pairsOf (asesBytes use32bit (pieces.flatMap WirePiece.as))) := by
  induction pieces with
  | nil => exact ⟨rfl, .refl _⟩
  | cons piece pieces ih =>
    obtain ⟨here, others⟩ := forall_mem_cons.mp once
    obtain ⟨even, perm⟩ := ih others
    have numbers := length_asesBytes_even use32bit piece.as
    have bytes : piecesBytes use32bit (piece :: pieces) = piece.type.code :: piece.count ::
        (asesBytes use32bit piece.as ++ piecesBytes use32bit pieces) := by
      simp [WirePiece.bytes, WirePiece.moreBytes, here]
    rw [bytes, flatMap_cons, asesBytes_append]
    refine ⟨?_, ?_⟩
    · simp only [length_cons, length_append]
      omega
    · rw [pairsOf, pairsOf_append numbers, pairsOf_append numbers]
      exact .cons _ ((perm.append_left _).trans (perm_append_comm_assoc ..))

/-- What the length bytes in heads promise. -/
def promised (pairs : List (UInt8 × UInt8)) : Nat := (pairs.map fun pair => pair.2.toNat).sum

theorem promised_heads (pieces : List WirePiece) :
    promised (heads pieces) = (pieces.map fun piece => piece.count.toNat).sum := by
  rw [promised, heads, map_map]
  rfl

theorem perm_of_longer {longer shorter numbers extra all some : List (UInt8 × UInt8)}
    (perm : all.Perm (longer ++ numbers)) (perm' : some.Perm (shorter ++ numbers))
    (whole : all = some ++ extra) : longer.Perm (shorter ++ extra) := by
  refine (perm_append_right_iff numbers).mp (perm.symm.trans ?_)
  rw [whole, append_assoc]
  refine (perm'.append_right extra).trans ?_
  rw [append_assoc]
  exact perm_append_comm.append_left _

/-- **A run of sequences is read back only if the length bytes are right.** What follows it is no
sequence. The reader goes on behind the run, or stops before its end; it has the heads of the run
with others, or some of them. -/
theorem exact_of_run {after behind : List UInt8}
    (once : ∀ piece ∈ written, piece.more = [])
    (count_le : ∀ piece ∈ written, piece.count.toNat ≤ piece.as.length)
    (sequences : ∀ piece ∈ read, piece.type = .asSequence) (exact : ∀ piece ∈ read, piece.Exact)
    (numbers : written.flatMap WirePiece.as = read.flatMap WirePiece.as)
    (other : ∀ pair rest, pairsOf after = pair :: rest → pair.1 ≠ 2)
    (bytes : piecesBytes use32bit written ++ after = piecesBytes use32bit read ++ behind) :
    ∀ piece ∈ written, piece.count.toNat = piece.as.length := by
  obtain ⟨even, perm⟩ := @pairsOf_run use32bit written once
  obtain ⟨even', perm'⟩ := @pairsOf_run use32bit read fun piece inside => (exact piece inside).once
  have pairs := congrArg pairsOf bytes
  rw [pairsOf_append even, pairsOf_append even'] at pairs
  rw [numbers] at perm
  have le : promised (heads read) ≤ promised (heads written) := by
    rcases append_eq_append_iff.mp pairs with ⟨extra, whole, next⟩ | ⟨extra, whole, -⟩
    · have same := perm_of_longer perm' perm whole
      cases extra with
      | nil =>
        rw [append_nil] at same
        exact ((same.map _).sum_eq).le
      | cons pair extra =>
        have among : pair ∈ heads read := same.symm.subset (by simp)
        obtain ⟨piece, inside, rfl⟩ := mem_map.mp among
        exact absurd (congrArg SegmentType.code (sequences piece inside)) (other _ _ next)
    · have same := perm_of_longer perm perm' whole
      have sums := (same.map fun pair => pair.2.toNat).sum_eq
      rw [map_append, sum_append] at sums
      exact Nat.le.intro sums.symm
  have full : promised (heads read) = (written.map fun piece => piece.as.length).sum := by
    rw [promised_heads, ← length_flatMap, numbers, length_flatMap]
    exact congrArg List.sum (map_congr_left fun piece inside => (exact piece inside).count_eq)
  by_contra some
  push Not at some
  obtain ⟨piece, inside, short⟩ := some
  have less := sum_lt_sum _ _ count_le
    ⟨piece, inside, Nat.lt_of_le_of_ne (count_le piece inside) short⟩
  rw [full, promised_heads] at le
  omega

/-- Pieces start with a run of sequences, and what follows is no sequence. -/
theorem exists_run (pieces : List WirePiece) :
    ∃ run rest, pieces = run ++ rest ∧ (∀ piece ∈ run, piece.type = .asSequence) ∧
      goesOn (piecesTokens rest) = false ∧
      ∀ pair more, pairsOf (piecesBytes use32bit rest) = pair :: more → pair.1 ≠ 2 := by
  induction pieces with
  | nil => exact ⟨[], [], rfl, by simp, rfl, by simp [piecesBytes, pairsOf]⟩
  | cons piece pieces ih =>
    by_cases sequence : piece.type = .asSequence
    · obtain ⟨run, rest, rfl, sequences, ends, other⟩ := ih
      exact ⟨piece :: run, rest, rfl, forall_mem_cons.mpr ⟨sequence, sequences⟩, ends, other⟩
    · refine ⟨[], piece :: pieces, rfl, by simp, ?_, ?_⟩
      · rw [piecesTokens_cons, WirePiece.tokens_other sequence]
        rfl
      · rintro pair more same
        obtain ⟨rfl, -⟩ := List.cons.inj same
        intro code
        have known := SegmentType.ofCode_code piece.type
        dsimp only at code
        rw [code] at known
        exact sequence (Option.some.inj known).symm

theorem piecesTokens_run (sequences : ∀ piece ∈ pieces, piece.type = .asSequence)
    (rest : List WirePiece) :
    piecesTokens (pieces ++ rest) =
      (pieces.flatMap WirePiece.as).map .number ++ piecesTokens rest := by
  rw [piecesTokens, flatMap_append, map_flatMap]
  exact congrArg (· ++ _) (flatMap_congr fun piece inside =>
    WirePiece.tokens_sequence (sequences piece inside))

/-- A sequence that is read back has the right length byte. -/
theorem sequence_exact {piece : WirePiece} (sequence : piece.type = .asSequence)
    (all : ∀ next ∈ piece :: pieces, next.Written) (exact : ∀ next ∈ read, next.Exact)
    (bytes : piecesBytes use32bit (piece :: pieces) = piecesBytes use32bit read)
    (tokens : piecesTokens (piece :: pieces) = piecesTokens read) :
    piece.count.toNat = piece.as.length := by
  obtain ⟨run, rest, rfl, sequences, ends, other⟩ := @exists_run use32bit pieces
  obtain ⟨run', rest', rfl, sequences', ends', -⟩ := @exists_run use32bit read
  have sequences : ∀ next ∈ piece :: run, next.type = .asSequence :=
    forall_mem_cons.mpr ⟨sequence, sequences⟩
  rw [← cons_append] at bytes tokens all
  rw [piecesTokens_run sequences, piecesTokens_run sequences'] at tokens
  have numbers := (numbers_append_inj _ ends ends' tokens).1
  rw [piecesBytes, piecesBytes, flatMap_append, flatMap_append] at bytes
  have written : ∀ next ∈ piece :: run, next.Written := fun next inside =>
    all next (mem_append_left _ inside)
  exact exact_of_run (fun next inside => (written next inside).once (sequences next inside))
    (fun next inside => (written next inside).count_le) sequences'
    (fun next inside => exact next (mem_append_left _ inside)) numbers other bytes piece
    mem_cons_self

/-- Where the length byte of a piece is right, the reader takes its first segment. -/
theorem readBack_cons {piece : WirePiece} (count : piece.count.toNat = piece.as.length)
    (exact : ∀ next ∈ read, next.Exact)
    (bytes : piecesBytes use32bit (piece :: pieces) = piecesBytes use32bit read) :
    ∃ seg read', read = seg :: read' ∧ seg.type = piece.type ∧ seg.as.length = piece.as.length ∧
      piece.moreBytes use32bit ++ piecesBytes use32bit pieces = piecesBytes use32bit read' := by
  cases read with
  | nil => simp [piecesBytes, WirePiece.bytes] at bytes
  | cons seg read =>
    obtain ⟨count', once⟩ := exact seg mem_cons_self
    simp only [piecesBytes_cons, WirePiece.bytes, cons_append, append_assoc,
      List.cons.injEq] at bytes
    obtain ⟨code, same, rest⟩ := bytes
    have lengths : seg.as.length = piece.as.length := by rw [← count', ← count, same]
    have behind := (append_inj rest (by simp [lengths])).2
    refine ⟨seg, read, rfl, ?_, lengths, ?_⟩
    · have known := SegmentType.ofCode_code seg.type
      rw [← code, SegmentType.ofCode_code] at known
      exact (Option.some.inj known).symm
    · rw [behind, WirePiece.moreBytes, if_pos once, nil_append]

/-- **Pieces are read back only if they are segments of the message.** When the reader has taken a
segment that the path does not have, it stays behind: the path goes on with those that the reader has
taken before (`pending`), and never with a sequence, so that the reader has one left in the end. -/
theorem exact_of_readBack (pieces : List WirePiece) :
    ∀ {read : List WirePiece} {pending : List Assegment}, (∀ piece ∈ pieces, piece.Written) →
      (∀ piece ∈ read, piece.Exact) →
      piecesBytes use32bit pieces = piecesBytes use32bit read →
      piecesTokens pieces = pending.map .whole ++ piecesTokens read →
      pending = [] ∧ ∀ piece ∈ pieces, piece.Exact := by
  induction pieces with
  | nil =>
    intro read pending _ _ _ tokens
    have none := (append_eq_nil_iff.mp tokens.symm).1
    exact ⟨map_eq_nil_iff.mp none, by simp⟩
  | cons piece pieces ih =>
    intro read pending all exact bytes tokens
    obtain ⟨here, others⟩ := forall_mem_cons.mp all
    by_cases sequence : piece.type = .asSequence
    · -- a number comes next, so nothing is pending
      obtain ⟨value, values, listed⟩ := exists_cons_of_ne_nil here.filled
      have none : pending = [] := by
        cases pending with
        | nil => rfl
        | cons first rest => simp [WirePiece.tokens_sequence sequence, listed] at tokens
      rw [none, map_nil, nil_append] at tokens
      have count := sequence_exact sequence all exact bytes tokens
      obtain ⟨seg, read, rfl, type_eq, lengths, rest⟩ := readBack_cons count exact bytes
      have once := here.once sequence
      rw [WirePiece.moreBytes, if_pos once, nil_append] at rest
      rw [piecesTokens_cons, piecesTokens_cons, WirePiece.tokens_sequence sequence,
        WirePiece.tokens_sequence (type_eq.trans sequence)] at tokens
      have tokens' := (append_inj tokens (by simp [lengths])).2
      exact ⟨none, forall_mem_cons.mpr ⟨⟨count, once⟩,
        (@ih read [] others (forall_mem_cons.mp exact).2 rest tokens').2⟩⟩
    · have count := here.count_eq sequence
      obtain ⟨seg, read, rfl, type_eq, -, rest⟩ := readBack_cons count exact bytes
      have exact' := (forall_mem_cons.mp exact).2
      rw [piecesTokens_cons, piecesTokens_cons, WirePiece.tokens_other sequence,
        WirePiece.tokens_other (type_eq ▸ sequence)] at tokens
      by_cases once : piece.more = []
      · rw [WirePiece.moreBytes, if_pos once, nil_append] at rest
        have tail := congrArg List.tail tokens
        obtain ⟨none, good⟩ := @ih read (pending ++ [_]).tail others exact' rest (by
          rw [map_tail, map_append, ← tail_append_of_ne_nil (by simp)]
          simpa using tail)
        refine ⟨?_, forall_mem_cons.mpr ⟨⟨count, once⟩, good⟩⟩
        have length := congrArg List.length none
        simpa using length
      · rw [WirePiece.moreBytes, if_neg once] at rest
        have small : (UInt8.ofNat piece.more.length).toNat = piece.more.length :=
          UInt8.toNat_ofNat_le here.more_le
        have second : wireBytes use32bit piece.type piece.more = WirePiece.bytes use32bit
            ⟨piece.type, piece.more, UInt8.ofNat piece.more.length, []⟩ := by
          simp [wireBytes, WirePiece.bytes, WirePiece.moreBytes]
        rw [second, ← piecesBytes_cons] at rest
        obtain ⟨seg', read, rfl, type_eq', -, rest⟩ := readBack_cons small exact' rest
        have tail := congrArg List.tail tokens
        rw [piecesTokens_cons, WirePiece.tokens_other (type_eq' ▸ sequence)] at tail
        obtain ⟨none, -⟩ := @ih read (pending ++ [_, _]).tail others
          (forall_mem_cons.mp exact').2 (by simpa [WirePiece.moreBytes] using rest) (by
            rw [map_tail, map_append, ← tail_append_of_ne_nil (by simp)]
            simpa using tail)
        have length := congrArg List.length none
        simp at length

end Runs

/-! ## Groups as pieces -/

namespace SegmentGroup

variable (group : SegmentGroup)

/-- The numbers that are sent for a group. -/
def numbers : List Nat :=
  (group.head.as ++ group.packed.flatMap Assegment.as).map (sentAs use32bit)

/-- The pieces of a group, unless its head has to be split more than once. -/
def pieces : List WirePiece :=
  if group.head.as.length ≤ asSegmentMax then
    [⟨group.head.type, group.numbers use32bit, UInt8.ofNat group.count, []⟩]
  else if group.head.type = .asSequence then
    [⟨group.head.type, (group.numbers use32bit).take asSegmentMax, UInt8.ofNat asSegmentMax, []⟩,
      ⟨group.head.type, (group.numbers use32bit).drop asSegmentMax,
        UInt8.ofNat (group.head.as.length - asSegmentMax), []⟩]
  else
    [⟨group.head.type, (group.numbers use32bit).take asSegmentMax, UInt8.ofNat asSegmentMax,
      (group.numbers use32bit).drop asSegmentMax⟩]

/-- The condition on a group: its head has at most 255 numbers, or is a sequence of at most 510, and
at most one segment is packed. -/
structure Good : Prop where
  length_le : group.head.as.length ≤ asSegmentMax ∨
    group.head.type = .asSequence ∧ group.head.as.length ≤ asSegmentMax + asSegmentMax
  packed_le : group.packed.length ≤ 1

/-- A group as `aspath_put` makes them: each packed segment fits in by itself. -/
def Packs : Prop := ∀ next ∈ group.packed, group.head.packableIn next = true

end SegmentGroup

theorem asesBytes_map_sentAs (as : List Nat) :
    asesBytes use32bit (as.map (sentAs use32bit)) = asesBytes use32bit as := by
  simp [asesBytes, flatMap_map]

theorem length_flatMap_as (packed : List Assegment) :
    (packed.flatMap Assegment.as).length = packedLength packed := length_flatMap

/-- The length byte counts all packed segments if there is at most one. -/
theorem lastLength_eq_iff {packed : List Assegment} (filled : Filled packed) :
    lastLength 0 packed ≤ packedLength packed ∧
      (lastLength 0 packed = packedLength packed ↔ packed.length ≤ 1) := by
  rcases eq_nil_or_concat packed with rfl | ⟨init, last, rfl⟩
  · exact ⟨Nat.le_refl _, iff_of_true rfl (by simp)⟩
  · have total : packedLength (init.concat last) = packedLength init + last.as.length := by
      simp [packedLength]
    have counted : lastLength 0 (init.concat last) = last.as.length := by simp [lastLength]
    rw [total, counted, length_concat]
    refine ⟨by omega, ?_⟩
    cases init with
    | nil => simp [packedLength]
    | cons first init =>
      have some := length_pos_iff.mpr (filled first (by simp))
      rw [packedLength, map_cons, sum_cons, length_cons]
      omega

namespace SegmentGroup

variable {group : SegmentGroup}

theorem length_numbers :
    (group.numbers use32bit).length = group.head.as.length + packedLength group.packed := by
  rw [numbers, length_map, length_append, length_flatMap_as]

variable (packs : group.Packs)
include packs

theorem packed_of_long (long : ¬ group.head.as.length ≤ asSegmentMax) : group.packed = [] := by
  refine eq_nil_iff_forall_not_mem.mpr fun next inside => ?_
  have fits : group.head.as.length + next.as.length ≤ asSegmentMax :=
    (of_decide_eq_true (packs next inside)).2
  omega

theorem types : ∀ next ∈ group.packed,
    group.head.type = .asSequence ∧ next.type = .asSequence :=
  fun next inside => Assegment.packable_iff.mp (of_decide_eq_true (packs next inside)).1

theorem packed_of_other (other : group.head.type ≠ .asSequence) : group.packed = [] :=
  eq_nil_iff_forall_not_mem.mpr fun next inside => other (types packs next inside).1

theorem count_of_short (short : group.head.as.length ≤ asSegmentMax) :
    group.head.written = 0 ∧ (UInt8.ofNat group.count).toNat =
      group.head.as.length + lastLength 0 group.packed := by
  have zero : group.head.written = 0 := by
    rw [Assegment.written, Assegment.blocks]
    rw [asSegmentMax] at *
    omega
  have fits : group.head.as.length + lastLength 0 group.packed ≤ asSegmentMax := by
    rcases eq_nil_or_concat group.packed with none | ⟨init, last, split⟩
    · simpa [none, lastLength] using short
    · have last_fits := (of_decide_eq_true (packs last (by simp [split]))).2
      simpa [split, lastLength] using last_fits
  rw [count, zero, Nat.sub_zero]
  exact ⟨rfl, UInt8.toNat_ofNat_le fits⟩

/-- **What is written for a group are its pieces.** -/
theorem bytes_eq (fits : group.head.as.length ≤ asSegmentMax + asSegmentMax) :
    group.bytes use32bit = piecesBytes use32bit (group.pieces use32bit) := by
  have packed : asesBytes use32bit (group.packed.flatMap Assegment.as) =
      group.packed.flatMap fun next => asesBytes use32bit next.as := flatMap_assoc
  rw [bytes, finalBytes, pieces]
  by_cases short : group.head.as.length ≤ asSegmentMax
  · have zero := (count_of_short packs short).1
    have none : group.head.blocks = 0 := by
      rw [Assegment.blocks]
      rw [asSegmentMax] at *
      omega
    simp [if_pos short, zero, none, overlengthBytes, piecesBytes, WirePiece.bytes,
      WirePiece.moreBytes, numbers, asesBytes_map_sentAs, packed]
  · have once : group.head.blocks = 1 := by
      rw [Assegment.blocks]
      rw [asSegmentMax] at *
      omega
    have taken : (group.head.as.take asSegmentMax).length = asSegmentMax := by
      rw [length_take]
      omega
    have some : ¬ group.head.as.length ≤ asSegmentMax := short
    split_ifs <;>
      simp [Assegment.written, once, overlengthBytes, piecesBytes, WirePiece.bytes,
        WirePiece.moreBytes, numbers, packed_of_long packs short, wireBytes, taken, count,
        lastLength, ← map_take, ← map_drop, asesBytes_map_sentAs, some]

theorem tokens_pieces :
    piecesTokens (group.pieces use32bit) =
      pathTokens ((group.head :: group.packed).map fun seg => seg.sent use32bit) := by
  by_cases sequence : group.head.type = .asSequence
  · have numbered : pathTokens ((group.head :: group.packed).map fun seg => seg.sent use32bit) =
        (group.numbers use32bit).map .number := by
      have sequences : ∀ seg ∈ group.head :: group.packed, seg.type = .asSequence :=
        forall_mem_cons.mpr ⟨sequence, fun next inside => (types packs next inside).2⟩
      have flat : group.head.as ++ group.packed.flatMap Assegment.as =
          (group.head :: group.packed).flatMap Assegment.as := rfl
      rw [pathTokens, flatMap_map, numbers, flat, map_flatMap, map_flatMap]
      exact flatMap_congr fun seg inside =>
        Assegment.tokens_sequence (sequences seg inside)
    rw [numbered, pieces]
    split_ifs <;> simp [piecesTokens, WirePiece.tokens, sequence]
  · have whole : assegmentNew group.head.type (group.numbers use32bit) =
        group.head.sent use32bit := by
      rw [numbers, packed_of_other packs sequence, flatMap_nil, append_nil]
      exact assegmentNew_of_lt _ (group.head.sent use32bit).length_lt
    have said : (group.head.sent use32bit).tokens = [.whole (group.head.sent use32bit).sortSet] :=
      Assegment.tokens_whole sequence
    rw [pieces, if_neg sequence, packed_of_other packs sequence]
    split_ifs <;> simp [piecesTokens, WirePiece.tokens, sequence, whole, said]

variable (filled : Filled (group.head :: group.packed))
  (fits : group.head.as.length ≤ asSegmentMax + asSegmentMax)
include filled fits

/-- **The pieces of a group are segments of the message exactly under this condition.** -/
theorem pieces_spec : (∀ piece ∈ group.pieces use32bit, piece.Written) ∧
    ((∀ piece ∈ group.pieces use32bit, piece.Exact) ↔ group.Good) := by
  obtain ⟨some_number, filledPacked⟩ := filled_cons.mp filled
  have some := length_pos_iff.mpr some_number
  have length := @length_numbers use32bit group
  rw [pieces]
  by_cases short : group.head.as.length ≤ asSegmentMax
  · have count := (count_of_short packs short).2
    obtain ⟨le, one⟩ := lastLength_eq_iff filledPacked
    rw [if_pos short, forall_mem_singleton, forall_mem_singleton]
    refine ⟨⟨?_, ?_, fun other => ?_, fun _ => rfl, by simp⟩, fun exact => ?_, fun good => ?_⟩
    · exact ne_nil_of_length_pos (by dsimp only; omega)
    · dsimp only
      omega
    · have none := packed_of_other packs other
      rw [count, length, none]
      rfl
    · have counted : (UInt8.ofNat group.count).toNat = (group.numbers use32bit).length :=
        exact.count_eq
      exact ⟨.inl short, one.mp (by omega)⟩
    · have same := one.mpr good.packed_le
      exact ⟨by dsimp only; omega, rfl⟩
  · have none := packed_of_long packs short
    rw [none, packedLength, map_nil, sum_nil, Nat.add_zero] at length
    have first : ((group.numbers use32bit).take asSegmentMax).length = asSegmentMax := by
      rw [length_take]
      omega
    have second : ((group.numbers use32bit).drop asSegmentMax).length =
        group.head.as.length - asSegmentMax := by rw [length_drop, length]
    have countFirst : (UInt8.ofNat asSegmentMax).toNat = _ := first.symm
    have countSecond := (UInt8.toNat_ofNat_le (by omega)).trans second.symm
    have filledFirst := ne_nil_of_length_pos (Nat.lt_of_lt_of_eq (by decide) first.symm)
    have filledSecond := ne_nil_of_length_pos (Nat.lt_of_lt_of_eq (by omega) second.symm)
    split_ifs with sequence
    · rw [forall_mem_cons, forall_mem_singleton, forall_mem_cons,
        forall_mem_singleton]
      exact ⟨⟨WirePiece.Exact.written ⟨countFirst, rfl⟩ filledFirst,
          WirePiece.Exact.written ⟨countSecond, rfl⟩ filledSecond⟩,
        iff_of_true ⟨⟨countFirst, rfl⟩, countSecond, rfl⟩ ⟨.inr ⟨sequence, fits⟩, by simp [none]⟩⟩
    · rw [forall_mem_singleton, forall_mem_singleton]
      refine ⟨⟨filledFirst, Nat.le_of_eq countFirst, fun _ => countFirst,
          fun same => absurd same sequence, by dsimp only; omega⟩,
        iff_of_false (fun exact => filledSecond exact.once) fun good => ?_⟩
      rcases good.length_le with le | both
      · exact short le
      · exact sequence both.1

end SegmentGroup

/-! ## Groups of a path -/

theorem pathGroupsIn_packs (passes : Nat) : ∀ {segments : List Assegment},
    ∀ group ∈ pathGroupsIn passes segments, group.Packs := by
  induction passes with
  | zero => simp [pathGroupsIn]
  | succ passes ih =>
    intro segments
    cases segments with
    | nil => simp [pathGroupsIn]
    | cons seg rest =>
      exact forall_mem_cons.mpr ⟨fun next inside => mem_takeWhile_imp inside, ih⟩

theorem pathGroupsIn_segments (passes : Nat) : ∀ {segments : List Assegment},
    segments.length ≤ passes →
      (pathGroupsIn passes segments).flatMap (fun group => group.head :: group.packed) =
        segments := by
  induction passes with
  | zero =>
    intro segments few
    rw [length_eq_zero_iff.mp (Nat.le_zero.mp few)]
    rfl
  | succ passes ih =>
    intro segments few
    cases segments with
    | nil => rfl
    | cons seg rest =>
      have shorter : (seg.left rest).length ≤ passes :=
        Nat.le_trans (dropWhile_suffix _).length_le (Nat.le_of_succ_le_succ few)
      have whole : seg.packed rest ++ seg.left rest = rest := takeWhile_append_dropWhile
      rw [pathGroupsIn, flatMap_cons, ih shorter, cons_append, whole]

theorem pathGroups_segments (segments : List Assegment) :
    (pathGroups segments).flatMap (fun group => group.head :: group.packed) = segments :=
  pathGroupsIn_segments _ (Nat.le_refl _)

/-- The pieces in which a path is written. -/
def pathPieces (segments : List Assegment) : List WirePiece :=
  (pathGroups segments).flatMap (SegmentGroup.pieces use32bit)

/-- The paths that come back. -/
def PathKept (segments : List Assegment) : Prop := ∀ group ∈ pathGroups segments, group.Good

section Path

variable {segments : List Assegment} {group : SegmentGroup}

theorem mem_of_pathGroups (inside : group ∈ pathGroups segments) :
    ∀ seg ∈ group.head :: group.packed, seg ∈ segments := by
  intro seg old
  rw [← pathGroups_segments segments]
  exact mem_flatMap.mpr ⟨group, inside, old⟩

theorem piecesTokens_pathPieces :
    piecesTokens (pathPieces use32bit segments) =
      pathTokens (segments.map fun seg => seg.sent use32bit) := by
  nth_rewrite 2 [← pathGroups_segments segments]
  rw [piecesTokens, pathPieces, flatMap_assoc, pathTokens, map_flatMap,
    flatMap_assoc]
  exact flatMap_congr fun group inside =>
    SegmentGroup.tokens_pieces use32bit (pathGroupsIn_packs _ group inside)

/-- Numbers that are sent have room in a number of the wire. -/
theorem pathPieces_numbers (small : ∀ seg ∈ segments, ∀ as ∈ seg.as, as < asLimit true) :
    ∀ piece ∈ pathPieces use32bit segments, ∀ as ∈ piece.as, as < asLimit use32bit := by
  intro piece inside as old
  obtain ⟨group, there, among⟩ := mem_flatMap.mp inside
  have listed : as ∈ group.numbers use32bit := by
    rw [SegmentGroup.pieces] at among
    split_ifs at among
    all_goals simp only [mem_cons, not_mem_nil, or_false] at among
    · rw [among] at old
      exact old
    · rcases among with rfl | rfl
      · exact mem_of_mem_take old
      · exact mem_of_mem_drop old
    · rw [among] at old
      exact mem_of_mem_take old
  obtain ⟨value, before, rfl⟩ := mem_map.mp listed
  have whole : value ∈ (group.head :: group.packed).flatMap Assegment.as := before
  obtain ⟨seg, among', old⟩ := mem_flatMap.mp whole
  exact sentAs_lt use32bit (small seg (mem_of_pathGroups there seg among') value old)

/-- A path whose encoding fits into an attribute has no long run. -/
theorem shortRuns_of_encoding
    (encoding : pathEncoding use32bit segments = piecesBytes use32bit (pathPieces use32bit segments))
    (inAttribute : (pathEncoding use32bit segments).length < 65536) :
    ShortRuns (segments.map fun seg => seg.sent use32bit) := by
  refine shortTokens_of_length (Nat.lt_of_le_of_lt ?_ inAttribute)
  rw [encoding, ← piecesTokens_pathPieces]
  exact length_piecesTokens_le use32bit _

variable (filled : Filled segments)
  (heads : ∀ group ∈ pathGroups segments, group.head.as.length ≤ asSegmentMax + asSegmentMax)
include filled heads

/-- **What is written for a path are pieces**, which are segments of the message for the paths that
come back. -/
theorem pathPieces_spec :
    pathEncoding use32bit segments = piecesBytes use32bit (pathPieces use32bit segments) ∧
      (∀ piece ∈ pathPieces use32bit segments, piece.Written) ∧
      ((∀ piece ∈ pathPieces use32bit segments, piece.Exact) ↔ PathKept segments) := by
  have packs : ∀ group ∈ pathGroups segments, group.Packs := pathGroupsIn_packs _
  have filled' : ∀ group ∈ pathGroups segments, Filled (group.head :: group.packed) :=
    fun group inside seg old => filled seg (mem_of_pathGroups inside seg old)
  have each := fun group inside => SegmentGroup.pieces_spec use32bit (packs group inside)
    (filled' group inside) (heads group inside)
  refine ⟨?_, fun piece inside => ?_, fun exact group inside => ?_, fun kept piece inside => ?_⟩
  · rw [pathPieces, piecesBytes, flatMap_assoc]
    exact flatMap_congr fun group inside =>
      SegmentGroup.bytes_eq use32bit (packs group inside) (heads group inside)
  · obtain ⟨group, there, among⟩ := mem_flatMap.mp inside
    exact (each group there).1 piece among
  · exact (each group inside).2.mp fun piece among =>
      exact piece (mem_flatMap.mpr ⟨group, inside, among⟩)
  · obtain ⟨group, there, among⟩ := mem_flatMap.mp inside
    exact (each group there).2.mpr (kept group there) piece among

end Path

/-! ## There and back -/

/-- `aspath_put` returns the number of the bytes that it writes, and `assegments_parse` reads them
as the normal form of the path. -/
def PathRoundTrip (s : Stream) (segments : List Assegment) (use32bit : Bool) : Prop :=
  ∃ returned s', aspathPut s ⟨segments⟩ use32bit = .ok (returned, s') ∧
    s'.endp = s.endp + returned ∧
    ∃ s'', assegmentsParse (s'.seek s.endp) (s'.endp - s.endp) use32bit =
      .ok (some (assegmentNormalise (segments.map fun seg => seg.sent use32bit)), s'')

/-- A segment of the message as a piece. -/
def Assegment.piece (seg : Assegment) : WirePiece :=
  ⟨seg.type, seg.as, UInt8.ofNat seg.as.length, []⟩

/-- An exact piece as a segment of the message. -/
def WirePiece.seg (piece : WirePiece) : Assegment := assegmentNew piece.type piece.as

section Segments

variable {use32bit : Bool} {read : List Assegment} {pieces : List WirePiece}

theorem piecesBytes_map_piece :
    piecesBytes use32bit (read.map Assegment.piece) = segmentsBytes use32bit read := by
  rw [piecesBytes, segmentsBytes, flatMap_map]
  exact flatMap_congr fun seg _ => by
    simp [Assegment.piece, WirePiece.bytes, WirePiece.moreBytes, wireBytes]

theorem piecesTokens_map_piece : piecesTokens (read.map Assegment.piece) = pathTokens read := by
  rw [piecesTokens, pathTokens, flatMap_map]
  refine flatMap_congr fun seg _ => ?_
  rw [WirePiece.tokens, Assegment.tokens, Assegment.piece, append_nil,
    assegmentNew_of_lt _ seg.length_lt]

theorem WirePiece.Exact.piece_seg {piece : WirePiece} (exact : piece.Exact) :
    piece.seg.piece = piece ∧ piece.seg.as = piece.as ∧ piece.as.length ≤ asSegmentMax := by
  have le : piece.as.length ≤ asSegmentMax := by
    rw [← exact.count_eq]
    exact Nat.lt_succ_iff.mp (UInt8.toNat_lt _)
  rw [seg, assegmentNew_of_lt _ (Nat.lt_of_le_of_lt le (by decide))]
  refine ⟨?_, rfl, le⟩
  have count : UInt8.ofNat piece.as.length = piece.count := by
    rw [← exact.count_eq, UInt8.ofNat_toNat]
  change (⟨piece.type, piece.as, UInt8.ofNat piece.as.length, []⟩ : WirePiece) = piece
  rw [count, ← exact.once]

end Segments

section RoundTrip

variable {s : Stream} {segments : List Assegment} {use32bit : Bool} (sane : s.Sane)
  (filled : Filled segments) (fits : (pathEncoding use32bit segments).length ≤ s.writeable)

include sane filled fits

/-- **A path that comes back is one of those.** -/
theorem PathRoundTrip.kept (inAttribute : (pathEncoding use32bit segments).length < 65536)
    (back : PathRoundTrip s segments use32bit) : PathKept segments := by
  obtain ⟨returned, s', put, counted, s'', parsed⟩ := back
  rw [aspathPut_of_room sane fits] at put
  cases put
  have heads := (pathSize_eq_iff use32bit segments).mp (by
    rw [Stream.append_endp] at counted
    omega)
  obtain ⟨encoding, written, exact_iff⟩ := pathPieces_spec use32bit filled heads
  refine exact_iff.mp ?_
  -- what the parser has read are segments with the bytes of the pieces
  have sane' := Stream.append_sane sane fits
  have inside : s.endp + (pathEncoding use32bit segments).length ≤
      (s.append (pathEncoding use32bit segments)).endp := Nat.le_refl _
  rw [Stream.append_endp, Nat.add_sub_cancel_left,
    assegmentsParse_seek sane'.endp_le inside] at parsed
  obtain ⟨path, read, same⟩ := Option.map_eq_some_iff.mp (congrArg Prod.fst (Except.ok.inj parsed))
  obtain ⟨segs, wire, bytes, rfl⟩ := (aspathRead_some_iff sane' inside).mp read
  rw [(Stream.holds_append sane fits).slice_eq] at bytes
  have short : ShortRuns segs := by
    refine shortTokens_of_length (Nat.lt_of_le_of_lt ?_ inAttribute)
    rw [← bytes, ← piecesTokens_map_piece, ← piecesBytes_map_piece]
    exact length_piecesTokens_le use32bit _
  have tokens : pathTokens segs = pathTokens (segments.map fun seg => seg.sent use32bit) :=
    (assegmentNormalise_eq_iff short (shortRuns_of_encoding use32bit encoding inAttribute)
      (fun seg inside => (wire seg inside).filled) (filled.sent use32bit)).mp same
  refine (@exact_of_readBack use32bit _ (segs.map Assegment.piece) [] written ?_ ?_ ?_).2
  · refine forall_mem_map.mpr fun seg inside => ⟨?_, rfl⟩
    exact UInt8.toNat_ofNat_le (wire seg inside).length_le
  · rw [piecesBytes_map_piece, bytes, encoding]
  · rw [piecesTokens_map_piece, tokens, piecesTokens_pathPieces]
    rfl

/-- **Those paths come back.** -/
theorem PathKept.roundTrip (small : ∀ seg ∈ segments, ∀ as ∈ seg.as, as < asLimit true)
    (kept : PathKept segments)
    (short : ShortRuns segments ∨ (pathEncoding use32bit segments).length < 65536) :
    PathRoundTrip s segments use32bit := by
  have heads : ∀ group ∈ pathGroups segments,
      group.head.as.length ≤ asSegmentMax + asSegmentMax := by
    intro group inside
    rcases (kept group inside).length_le with le | both
    · omega
    · exact both.2
  obtain ⟨encoding, written, exact_iff⟩ := pathPieces_spec use32bit filled heads
  have exact := exact_iff.mpr kept
  have same : ((pathPieces use32bit segments).map WirePiece.seg).map Assegment.piece =
      pathPieces use32bit segments := by
    rw [map_map]
    exact (map_congr_left fun piece among => (exact piece among).piece_seg.1).trans
      (map_id _)
  have wire : ∀ seg ∈ (pathPieces use32bit segments).map WirePiece.seg, seg.OnWire use32bit := by
    refine forall_mem_map.mpr fun piece among => ?_
    obtain ⟨-, listed, length_le⟩ := (exact piece among).piece_seg
    refine ⟨?_, ?_, ?_⟩ <;> rw [listed]
    · exact (written piece among).filled
    · exact length_le
    · exact pathPieces_numbers use32bit small piece among
  have bytes : pathEncoding use32bit segments =
      segmentsBytes use32bit ((pathPieces use32bit segments).map WirePiece.seg) := by
    rw [← piecesBytes_map_piece, same, encoding]
  have tokens : pathTokens ((pathPieces use32bit segments).map WirePiece.seg) =
      pathTokens (segments.map fun seg => seg.sent use32bit) := by
    rw [← piecesTokens_map_piece, same, piecesTokens_pathPieces]
  have short' : ShortRuns (segments.map fun seg => seg.sent use32bit) :=
    short.elim (·.sent use32bit) (shortRuns_of_encoding use32bit encoding)
  have normal := (assegmentNormalise_eq_iff (by rwa [ShortRuns, tokens]) short'
    (fun seg inside => (wire seg inside).filled) (filled.sent use32bit)).mpr tokens
  have sane' := Stream.append_sane sane fits
  have inside : s.endp + (pathEncoding use32bit segments).length ≤
      (s.append (pathEncoding use32bit segments)).endp := Nat.le_refl _
  have slice := (Stream.holds_append sane fits).slice_eq
  have read := (aspathRead_some_iff sane' inside).mpr
    ⟨(pathPieces use32bit segments).map WirePiece.seg, wire,
    bytes.symm.trans slice.symm, rfl⟩
  have parsed := @assegmentsParse_seek _ sane'.endp_le use32bit _ _ inside
  rw [read, Option.map_some, normal] at parsed
  refine ⟨_, _, aspathPut_of_room sane fits, ?_, ?_⟩
  · rw [(pathSize_eq_iff use32bit segments).mpr heads]
    rfl
  · rw [Stream.append_endp, Nat.add_sub_cancel_left]
    exact ⟨_, parsed⟩

end RoundTrip

/-- **Which AS paths come back from the wire.** These come back if no run of sequences has more
numbers than a segment can count. Where the encoding is no longer than an attribute can be, there is
no such run, and only these come back. -/
theorem pathRoundTrip_iff {s : Stream} {segments : List Assegment} (use32bit : Bool)
    (sane : s.Sane) (filled : Filled segments)
    (fits : (pathEncoding use32bit segments).length ≤ s.writeable)
    (small : ∀ seg ∈ segments, ∀ as ∈ seg.as, as < asLimit true) :
    (PathKept segments ∧ ShortRuns segments → PathRoundTrip s segments use32bit) ∧
      ((pathEncoding use32bit segments).length < 65536 →
        (PathRoundTrip s segments use32bit ↔ PathKept segments)) := by
  refine ⟨fun both => both.1.roundTrip sane filled fits small (.inl both.2), fun inAttribute => ?_⟩
  exact ⟨PathRoundTrip.kept sane filled fits inAttribute,
    fun kept => kept.roundTrip sane filled fits small (.inr inAttribute)⟩

theorem pathRoundTrip_iff_sequence_set :
    PathRoundTrip (streamNew 64) [⟨.asSequence, [1, 2], by decide⟩, ⟨.asSet, [3], by decide⟩] true ↔
      PathKept [⟨.asSequence, [1, 2], by decide⟩, ⟨.asSet, [3], by decide⟩] :=
  (pathRoundTrip_iff true ⟨by decide, by decide⟩ (by simp [Filled]) (by decide) (by decide)).2
    (by decide)

/-- Three sequences of one number each are written with the length two. -/
theorem not_pathRoundTrip_three_sequences :
    ¬ PathRoundTrip (streamNew 64)
      [⟨.asSequence, [1], by decide⟩, ⟨.asSequence, [2], by decide⟩,
        ⟨.asSequence, [3], by decide⟩] true := by
  intro back
  have kept := @PathRoundTrip.kept _ _ true ⟨by decide, by decide⟩ (by simp [Filled]) (by decide)
    (by decide) back
  exact absurd (kept _ mem_cons_self).packed_le (by decide)

end Quagga.Bgpd
