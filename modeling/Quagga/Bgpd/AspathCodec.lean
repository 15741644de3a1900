import Mathlib.Data.List.TakeWhile
import Quagga.Bgpd.AspathForm
import Quagga.Bgpd.AspathPut

/-!
# AS paths on the wire

Each AS number of a path is sent in two or four bytes, and a number that does not fit into two is
replaced (`Assegment.sent`). What is written segment by segment is read back segment by segment
(`segmentWalk_run_of_holds`), and whatever `assegments_parse` accepts was written so
(`segmentsBytes_of_run`). So the parser accepts exactly the concatenations of segments
(`assegmentsParse_grammar`).
-/

set_option autoImplicit false

namespace Quagga.Bgpd

open Lib Library

/-! ## Numbers as they are sent -/

/-- The number that stands on the wire for an AS number. -/
def sentAs (use32bit : Bool) (as : Nat) : Nat :=
  if use32bit then as else if as ≤ bgpAsMax then as else bgpAsTrans

theorem length_map_lt (f : Nat → Nat) {as : List Nat} (lt : as.length < 65536) :
    (as.map f).length < 65536 := by
  rwa [List.length_map]

/-- A segment with every number replaced that does not fit. -/
def Assegment.sent (seg : Assegment) (use32bit : Bool) : Assegment :=
  { seg with
    as := seg.as.map (sentAs use32bit)
    length_lt := length_map_lt (sentAs use32bit) seg.length_lt }

@[simp] theorem Assegment.sent_type (seg : Assegment) (use32bit : Bool) :
    (seg.sent use32bit).type = seg.type := rfl

@[simp] theorem Assegment.length_sent (seg : Assegment) (use32bit : Bool) :
    (seg.sent use32bit).as.length = seg.as.length := List.length_map _

/-- The numbers that the wire has room for. -/
def asLimit (use32bit : Bool) : Nat := if use32bit then 4294967296 else 65536

variable (use32bit : Bool)

theorem sentAs_lt {as : Nat} (small : as < asLimit true) :
    sentAs use32bit as < asLimit use32bit := by
  cases use32bit with
  | true => exact small
  | false =>
    by_cases fits : as ≤ bgpAsMax
    · rw [sentAs, if_pos fits]
      exact Nat.lt_succ_of_le fits
    · simp [sentAs, asLimit, fits, bgpAsTrans]

@[simp] theorem asBytes_sentAs (as : Nat) :
    asBytes use32bit (sentAs use32bit as) = asBytes use32bit as := by
  cases use32bit with
  | true => rfl
  | false =>
    by_cases fits : as ≤ bgpAsMax <;> simp [sentAs, asBytes, fits]

@[simp] theorem asesBytes_append (first second : List Nat) :
    asesBytes use32bit (first ++ second) =
      asesBytes use32bit first ++ asesBytes use32bit second := List.flatMap_append

theorem asesBytes_cons (first : Nat) (rest : List Nat) :
    asesBytes use32bit (first :: rest) = asBytes use32bit first ++ asesBytes use32bit rest :=
  List.flatMap_cons

section Runs

variable {segments : List Assegment}

theorem leading_sent :
    leading (segments.map fun seg => seg.sent use32bit) = leading segments := by
  induction segments with
  | nil => rfl
  | cons seg rest ih => simp [ih]

theorem ShortRuns.sent (short : ShortRuns segments) :
    ShortRuns (segments.map fun seg => seg.sent use32bit) := by
  induction segments with
  | nil => exact shortRuns_nil
  | cons seg rest ih =>
    obtain ⟨here, rest⟩ := shortRuns_cons.mp short
    refine shortRuns_cons.mpr ⟨fun sequence => ?_, ih rest⟩
    rw [Assegment.length_sent, leading_sent]
    exact here sequence

theorem Filled.sent (filled : Filled segments) :
    Filled (segments.map fun seg => seg.sent use32bit) := by
  intro seg inside
  obtain ⟨seg, old, rfl⟩ := List.mem_map.mp inside
  exact fun empty => filled seg old (List.map_eq_nil_iff.mp empty)

end Runs

/-! ## The parser on written segments -/

/-- Segments as they stand on the wire. -/
def segmentsBytes (use32bit : Bool) (segments : List Assegment) : List UInt8 :=
  segments.flatMap fun seg => wireBytes use32bit seg.type seg.as

/-- A segment that the wire has room for. -/
structure Assegment.OnWire (use32bit : Bool) (seg : Assegment) : Prop where
  filled : seg.as ≠ []
  length_le : seg.as.length ≤ asSegmentMax
  numbers : ∀ as ∈ seg.as, as < asLimit use32bit

theorem segmentsBytes_cons (seg : Assegment) (rest : List Assegment) :
    segmentsBytes use32bit (seg :: rest) =
      wireBytes use32bit seg.type seg.as ++ segmentsBytes use32bit rest := List.flatMap_cons

theorem UInt8.toNat_ofNat_le {n : Nat} (small : n ≤ asSegmentMax) :
    (UInt8.ofNat n).toNat = n := by
  exact Nat.mod_eq_of_lt (Nat.lt_succ_of_le small)

section Reading

variable {s : Stream} {use32bit : Bool}

theorem asAt_of_holds {pnt as : Nat} (small : as < asLimit use32bit)
    (holds : s.Holds pnt (asBytes use32bit as)) : asAt s use32bit pnt = as := by
  cases use32bit with
  | true =>
    have slice : s.slice pnt 4 = longBytes (UInt32.ofNat as) := holds.slice_eq
    rw [asAt, slice, longOf_longBytes]
    exact Nat.mod_eq_of_lt small
  | false =>
    have below : as ≤ bgpAsMax := Nat.lt_succ_iff.mp small
    have bytes : asBytes false as = wordBytes (UInt16.ofNat as) := by simp [asBytes, below]
    rw [bytes] at holds
    have first : s.byte pnt = hiByte (UInt16.ofNat as) := holds.byte_eq
    have second : s.byte (pnt + 1) = loByte (UInt16.ofNat as) :=
      (@Stream.Holds.right s pnt [hiByte (UInt16.ofNat as)] _ holds).byte_eq
    rw [asAt, first, second, word_hiByte_loByte]
    exact Nat.mod_eq_of_lt small

theorem asesAt_of_holds {as : List Nat} : ∀ {pnt : Nat},
    (∀ value ∈ as, value < asLimit use32bit) → s.Holds pnt (asesBytes use32bit as) →
      asesAt s use32bit as.length pnt = as := by
  induction as with
  | nil => exact fun _ _ => rfl
  | cons first rest ih =>
    intro pnt small holds
    have right := holds.right
    rw [length_asBytes] at right
    rw [List.length_cons, asesAt, asAt_of_holds (small _ List.mem_cons_self) holds.left,
      ih (fun value inside => small value (List.mem_cons_of_mem _ inside)) right]

theorem segmentWalk_step_of_holds {pnt stop : Nat} {seg : Assegment} {segments : List Assegment}
    (wire : seg.OnWire use32bit) (holds : s.Holds pnt (wireBytes use32bit seg.type seg.as))
    (inside : pnt + assegmentSize seg.as.length use32bit ≤ stop) :
    (segmentWalk s use32bit stop).step (pnt, segments) =
      .again (pnt + assegmentSize seg.as.length use32bit, segments ++ [seg]) := by
  obtain ⟨type, as, lt⟩ := seg
  have typed : s.byte pnt = type.code := holds.byte_eq
  have after : s.Holds (pnt + 1) (UInt8.ofNat as.length :: asesBytes use32bit as) :=
    @Stream.Holds.right s pnt [type.code] _ holds
  have counted : (s.byte (pnt + 1)).toNat = as.length := by
    rw [after.byte_eq, UInt8.toNat_ofNat_le wire.length_le]
  have data : s.Holds (pnt + 2) (asesBytes use32bit as) :=
    @Stream.Holds.right s (pnt + 1) [UInt8.ofNat as.length] _ after
  have numbers := asesAt_of_holds wire.numbers data
  cases as with
  | nil => exact absurd rfl wire.filled
  | cons first rest =>
    rw [List.length_cons] at counted inside numbers ⊢
    have long : ¬ stop - pnt ≤ 2 := by
      have some_size : 0 < asValueSize use32bit := by cases use32bit <;> decide
      rw [assegmentSize, Nat.succ_mul] at inside
      omega
    simp only [segmentWalk, typed, counted, if_neg long, if_neg (Nat.not_lt.mpr inside),
      SegmentType.ofCode_code, numbers, assegmentNew_of_lt type lt]

/-- **What is written segment by segment is read back segment by segment.** -/
theorem segmentWalk_run_of_holds {stop : Nat} {segments : List Assegment} :
    ∀ {pnt : Nat} {before : List Assegment}, (∀ seg ∈ segments, seg.OnWire use32bit) →
      s.Holds pnt (segmentsBytes use32bit segments) →
      stop = pnt + (segmentsBytes use32bit segments).length →
      (segmentWalk s use32bit stop).run (pnt, before) = .again (stop, before ++ segments) := by
  induction segments with
  | nil =>
    intro pnt before _ _ stop_eq
    subst stop_eq
    rw [Walk.run_of_done (by simp [segmentWalk])]
    simp
  | cons seg rest ih =>
    intro pnt before wire holds stop_eq
    rw [segmentsBytes_cons] at holds stop_eq
    have right := holds.right
    rw [List.length_append] at stop_eq
    rw [length_wireBytes] at right stop_eq
    have going : (segmentWalk s use32bit stop).guard (pnt, before) = true := by
      refine decide_eq_true (show pnt < stop from ?_)
      rw [assegmentSize] at stop_eq
      omega
    rw [Walk.run_of_again going (segmentWalk_step_of_holds (wire seg List.mem_cons_self)
        holds.left (by omega)),
      ih (fun next inside => wire next (List.mem_cons_of_mem _ inside)) right (by omega),
      List.append_assoc, List.singleton_append]

theorem asBytes_asAt (sane : s.Sane) {pnt : Nat} (inside : pnt + asValueSize use32bit ≤ s.endp) :
    asBytes use32bit (asAt s use32bit pnt) = s.slice pnt (asValueSize use32bit) ∧
      asAt s use32bit pnt < asLimit use32bit := by
  cases use32bit with
  | true =>
    have four : pnt + 4 ≤ s.endp := inside
    have bytes : s.slice pnt 4 =
        [s.byte pnt, s.byte (pnt + 1), s.byte (pnt + 2), s.byte (pnt + 3)] := by
      rw [Stream.slice_succ sane (by omega), Stream.slice_succ sane (by omega),
        Stream.slice_succ sane (by omega), Stream.slice_succ sane (by omega)]
      rfl
    refine ⟨?_, UInt32.toNat_lt _⟩
    rw [asAt, if_pos rfl, asBytes, UInt32.ofNat_toNat]
    change longBytes (longOf (s.slice pnt 4)) = s.slice pnt 4
    rw [bytes]
    exact longBytes_long _ _ _ _
  | false =>
    have two : pnt + 2 ≤ s.endp := inside
    have bytes : s.slice pnt 2 = [s.byte pnt, s.byte (pnt + 1)] := by
      rw [Stream.slice_succ sane (by omega), Stream.slice_succ sane (by omega)]
      rfl
    have small : asAt s false pnt ≤ bgpAsMax := Nat.lt_succ_iff.mp (UInt16.toNat_lt _)
    refine ⟨?_, Nat.lt_succ_of_le small⟩
    rw [asBytes, if_neg Bool.false_ne_true, if_pos small, asAt, if_neg Bool.false_ne_true,
      UInt16.ofNat_toNat]
    change wordBytes (word (s.byte pnt) (s.byte (pnt + 1))) = s.slice pnt 2
    rw [bytes]
    exact wordBytes_word _ _

theorem asesBytes_asesAt (sane : s.Sane) (n : Nat) : ∀ {pnt : Nat},
    pnt + n * asValueSize use32bit ≤ s.endp →
      asesBytes use32bit (asesAt s use32bit n pnt) = s.slice pnt (n * asValueSize use32bit) ∧
        ∀ as ∈ asesAt s use32bit n pnt, as < asLimit use32bit := by
  induction n with
  | zero =>
    simp [asesAt, asesBytes, Stream.slice]
  | succ n ih =>
    intro pnt inside
    rw [Nat.succ_mul] at inside
    obtain ⟨first, small⟩ := asBytes_asAt sane (show pnt + asValueSize use32bit ≤ s.endp by omega)
    obtain ⟨rest, smaller⟩ :=
      ih (show pnt + asValueSize use32bit + n * asValueSize use32bit ≤ s.endp by omega)
    refine ⟨?_, List.forall_mem_cons.mpr ⟨small, smaller⟩⟩
    rw [asesAt, asesBytes_cons, first, rest, ← Stream.slice_add, Nat.succ_mul, Nat.add_comm]

@[simp] theorem length_asesAt (n : Nat) : ∀ pnt : Nat, (asesAt s use32bit n pnt).length = n := by
  induction n with
  | zero => exact fun _ => rfl
  | succ n ih => exact fun pnt => congrArg Nat.succ (ih _)

/-- **A walk that reads segments has read their bytes.** -/
theorem segmentsBytes_of_run (sane : s.Sane) {pnt stop : Nat} (below : stop ≤ s.endp)
    {t : Nat × List Assegment} (le : pnt ≤ stop)
    (ran : (segmentWalk s use32bit stop).run (pnt, []) = .again t) :
    segmentsBytes use32bit t.2 = s.slice pnt (stop - pnt) ∧
      ∀ seg ∈ t.2, seg.OnWire use32bit := by
  let Inv : Nat × List Assegment → Prop := fun t =>
    (pnt ≤ t.1 ∧ t.1 ≤ stop) ∧ segmentsBytes use32bit t.2 = s.slice pnt (t.1 - pnt) ∧
      ∀ seg ∈ t.2, seg.OnWire use32bit
  have keeps : ∀ t t', Inv t → (segmentWalk s use32bit stop).guard t = true →
      (segmentWalk s use32bit stop).step t = .again t' → Inv t' := by
    rintro ⟨place, segments⟩ t' ⟨⟨from', upto⟩, bytes, wire⟩ going stepped
    simp only [segmentWalk] at stepped
    split_ifs at stepped with short excess
    split at stepped
    · rename_i n type counted known
      cases stepped
      rw [counted] at excess
      have room : place + assegmentSize (n + 1) use32bit ≤ stop := Nat.not_lt.mp excess
      obtain ⟨data, small⟩ := @asesBytes_asesAt s use32bit sane (n + 1) (place + 2)
        (by rw [assegmentSize] at room; omega)
      have few : n + 1 ≤ asSegmentMax := by
        rw [← Nat.succ_eq_add_one, ← counted]
        exact Nat.lt_succ_iff.mp (UInt8.toNat_lt _)
      have lt : (asesAt s use32bit (n + 1) (place + 2)).length < 65536 := by
        rw [length_asesAt]
        exact Nat.lt_of_le_of_lt few (by decide)
      have size : place + assegmentSize (n + 1) use32bit - pnt =
          (place - pnt) + (2 + (n + 1) * asValueSize use32bit) := by
        rw [assegmentSize]
        omega
      have code : type.code = s.byte place := SegmentType.code_of_ofCode known
      have count : UInt8.ofNat (n + 1) = s.byte (place + 1) := by
        rw [← Nat.succ_eq_add_one, ← counted, UInt8.ofNat_toNat]
      refine ⟨⟨by omega, room⟩, ?_, ?_⟩
      · have front : s.slice place 2 = [s.byte place, s.byte (place + 1)] := by
          rw [Stream.slice_succ sane (by omega), Stream.slice_succ sane (by omega)]
          rfl
        rw [size, Stream.slice_add, ← bytes, Nat.add_sub_cancel' from', Stream.slice_add, front,
          ← data, ← code, ← count, assegmentNew_of_lt type lt]
        simp [segmentsBytes, wireBytes]
      · intro seg inside
        rcases List.mem_append.mp inside with old | new
        · exact wire seg old
        · rw [List.mem_singleton.mp new, assegmentNew_of_lt type lt]
          exact ⟨List.cons_ne_nil _ _, by simpa using few, small⟩
    · cases stepped
  obtain ⟨⟨-, bytes, wire⟩, done⟩ := Walk.run_again Inv keeps
    ⟨⟨Nat.le_refl _, le⟩, by simp [segmentsBytes, Stream.slice], by simp⟩ ran
  have ends := segmentWalk_end s use32bit le
  rw [ran] at ends
  have atEnd : t.1 = stop := ends
  rw [atEnd] at bytes
  exact ⟨bytes, wire⟩

end Reading

theorem segmentsBytes_even (segments : List Assegment) :
    (segmentsBytes use32bit segments).length % 2 = 0 := by
  induction segments with
  | nil => rfl
  | cons seg rest ih =>
    rw [segmentsBytes_cons, List.length_append, length_wireBytes, assegmentSize]
    cases use32bit <;>
      · simp only [asValueSize, if_true, Bool.false_eq_true, if_false]
        omega

/-- **A path is read where segments stand**, and it is their normal form. -/
theorem aspathRead_some_iff {s : Stream} (sane : s.Sane) {use32bit : Bool} {pnt length : Nat}
    (inside : pnt + length ≤ s.endp) {path : Aspath} :
    (aspathRead s use32bit pnt length).1 = some path ↔
      ∃ segments : List Assegment, (∀ seg ∈ segments, seg.OnWire use32bit) ∧
        segmentsBytes use32bit segments = s.slice pnt length ∧
        path = ⟨assegmentNormalise segments⟩ := by
  rw [aspathRead]
  constructor
  · intro read
    split_ifs at read with odd
    split at read
    · cases read
    rename_i t ran
    obtain ⟨bytes, wire⟩ := segmentsBytes_of_run sane inside (Nat.le_add_right _ _) ran
    rw [Nat.add_sub_cancel_left] at bytes
    exact ⟨t.2, wire, bytes, (Option.some.inj read).symm⟩
  · rintro ⟨segments, wire, bytes, rfl⟩
    have whole := Stream.length_slice sane inside
    have even : ¬ length % 2 ≠ 0 := by
      rw [← whole, ← bytes, segmentsBytes_even]
      exact not_not.mpr rfl
    rw [if_neg even, @segmentWalk_run_of_holds s use32bit (pnt + length) segments pnt [] wire
      (bytes ▸ Stream.holds_slice s pnt length) (by rw [bytes, whole])]
    rfl

/-- A concatenation of segments, each with one of the four types and with one to 255 numbers. -/
def SegmentGrammar (use32bit : Bool) (bytes : List UInt8) : Prop :=
  ∃ segments : List Assegment, (∀ seg ∈ segments, seg.OnWire use32bit) ∧
    segmentsBytes use32bit segments = bytes

/-- **The grammar of AS paths on the wire.** `assegments_parse` takes the bytes that are a
concatenation of segments, and these whole. Whatever the bytes are, it stops inside them. -/
theorem assegmentsParse_grammar {s : Stream} (sane : s.Sane) (use32bit : Bool) {pnt length : Nat}
    (inside : pnt + length ≤ s.endp) :
    ∃ read stop, assegmentsParse (s.seek pnt) length use32bit = .ok (read, s.seek stop) ∧
      (read.isSome = true ↔ SegmentGrammar use32bit (s.slice pnt length)) ∧
      (read.isSome = true → stop = pnt + length) ∧ pnt ≤ stop ∧ stop ≤ pnt + length := by
  refine ⟨_, _, assegmentsParse_seek sane.endp_le inside, ?_⟩
  cases read : (aspathRead s use32bit pnt length).1 with
  | none =>
    obtain ⟨from', before⟩ := aspathRead_none read
    refine ⟨iff_of_false (by simp) ?_, by simp, from', Nat.le_of_lt before⟩
    rintro ⟨segments, wire, bytes⟩
    rw [(aspathRead_some_iff sane inside).mpr ⟨segments, wire, bytes, rfl⟩] at read
    cases read
  | some path =>
    have atEnd := aspathRead_some read
    obtain ⟨segments, wire, bytes, -⟩ := (aspathRead_some_iff sane inside).mp read
    exact ⟨iff_of_true rfl ⟨segments, wire, bytes⟩, fun _ => atEnd, by omega, Nat.le_of_eq atEnd⟩

theorem assegmentsParse_grammar_sequence :
    ∃ read stop, assegmentsParse ((streamOf [2, 1, 0, 7]).seek 0) 4 false =
        .ok (read, (streamOf [2, 1, 0, 7]).seek stop) ∧
      (read.isSome = true ↔ SegmentGrammar false ((streamOf [2, 1, 0, 7]).slice 0 4)) ∧
      (read.isSome = true → stop = 0 + 4) ∧ 0 ≤ stop ∧ stop ≤ 0 + 4 :=
  assegmentsParse_grammar ⟨by decide, by decide⟩ false (by decide)

end Quagga.Bgpd
