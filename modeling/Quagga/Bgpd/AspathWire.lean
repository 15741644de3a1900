import Mathlib.Data.List.Destutter
import Mathlib.Data.List.Sort
import Quagga.Library.Loops
import Quagga.Lib.StreamBytes
import Quagga.Bgpd.Aspath

/-!
# AS paths in messages

On the wire a segment is its type, the number of its AS numbers and the numbers, of two or of
four bytes each. `aspath_parse` reads segments until the attribute ends and normalises them:
sets are sorted, and a run of sequences becomes one sequence. Its length is a `u_short` that may wrap
around.

All that the parser reads lies inside the attribute. Its result is a function of the bytes there
(`aspathParse_seek`): the path with the end of the attribute, or no path and the place, always
before that end, at which the parser has stopped (`aspathRead_none`).
-/

set_option autoImplicit false

namespace Quagga.Bgpd

open Lib Library

/-! ## Segments -/

/-- `AS_SET`, `AS_SEQUENCE`, `AS_CONFED_SEQUENCE` and `AS_CONFED_SET` as numbers. -/
def SegmentType.code : SegmentType → UInt8
  | .asSet => 1
  | .asSequence => 2
  | .asConfedSequence => 3
  | .asConfedSet => 4

/-- The segment type of a number. -/
def SegmentType.ofCode (code : UInt8) : Option SegmentType :=
  if code = 1 then some .asSet
  else if code = 2 then some .asSequence
  else if code = 3 then some .asConfedSequence
  else if code = 4 then some .asConfedSet
  else none

@[simp] theorem SegmentType.ofCode_code (type : SegmentType) : ofCode type.code = some type := by
  cases type <;> rfl

theorem SegmentType.code_of_ofCode {code : UInt8} {type : SegmentType}
    (known : ofCode code = some type) : type.code = code := by
  unfold ofCode at known
  split_ifs at known with set sequence confedSequence confedSet <;>
    · cases known
      exact Eq.symm ‹_›

/-- `AS_VALUE_SIZE` and `AS16_VALUE_SIZE`. -/
def asValueSize (use32bit : Bool) : Nat := if use32bit then 4 else 2

/-- `ASSEGMENT_SIZE`, with `AS_HEADER_SIZE`. -/
def assegmentSize (length : Nat) (use32bit : Bool) : Nat := 2 + length * asValueSize use32bit

/-- The values of a set, sorted and without the duplicates. -/
def setValues (as : List Nat) : List Nat := (as.insertionSort (· ≤ ·)).destutter (· ≠ ·)

theorem length_setValues_lt {as : List Nat} (lt : as.length < 65536) :
    (setValues as).length < 65536 := by
  have fewer := (List.destutter_sublist (· ≠ ·) (as.insertionSort (· ≤ ·))).length_le
  rw [List.length_insertionSort] at fewer
  exact Nat.lt_of_le_of_lt fewer lt

/-- The part of `assegment_normalise` that is about one segment. -/
def Assegment.sortSet (seg : Assegment) : Assegment :=
  if seg.type = .asSet ∨ seg.type = .asConfedSet then
    { seg with as := setValues seg.as, length_lt := length_setValues_lt seg.length_lt }
  else seg

/-- `ASSEGMENT_TYPES_PACKABLE`. -/
def Assegment.packable (seg next : Assegment) : Bool :=
  seg.type = next.type ∧ seg.type = .asSequence

theorem length_take_wrapped (as : List Nat) : (as.take (as.length % 65536)).length < 65536 :=
  Nat.lt_of_le_of_lt (List.length_take_le _ _) (Nat.mod_lt _ (by decide))

/-- `assegment_new`, with the numbers that the caller then stores. Numbers behind the length, which
is a `u_short`, are not part of the segment. -/
def assegmentNew (type : SegmentType) (as : List Nat) : Assegment :=
  ⟨type, as.take (as.length % 65536), length_take_wrapped as⟩

@[simp] theorem assegmentNew_type (type : SegmentType) (as : List Nat) :
    (assegmentNew type as).type = type := rfl

theorem assegmentNew_of_lt (type : SegmentType) {as : List Nat} (lt : as.length < 65536) :
    assegmentNew type as = ⟨type, as, lt⟩ := by
  ext1
  · rfl
  · exact List.take_of_length_le (Nat.mod_eq_of_lt lt).ge

/-- `assegment_append_asns`, with the numbers of the next segment. -/
def Assegment.append (seg next : Assegment) : Assegment :=
  assegmentNew seg.type (seg.as ++ next.as)

/-- The loop of `assegment_normalise` from a pinned segment on. -/
def assegmentNormaliseFrom (pin : Assegment) : List Assegment → List Assegment
  | [] => [pin]
  | next :: rest =>
    if pin.packable next then assegmentNormaliseFrom (pin.append next) rest
    else pin :: assegmentNormaliseFrom next.sortSet rest

/-- `assegment_normalise`. -/
def assegmentNormalise : List Assegment → List Assegment
  | [] => []
  | head :: rest => assegmentNormaliseFrom head.sortSet rest

/-! ## Paths -/

variable (aspath : Aspath)

/-- The path begins with the number. -/
def aspathFirstasCheck (asno : Nat) : Bool :=
  match aspath.segments with
  | [] => false
  | seg :: _ => seg.type = .asSequence ∧ seg.as.head? = some asno

/-- There are segments of a confederation. -/
def aspathConfedCheck : Bool :=
  aspath.segments.any fun seg => seg.type = .asConfedSet ∨ seg.type = .asConfedSequence

/-- The path begins with a segment of a confederation. -/
def aspathLeftConfedCheck : Bool :=
  match aspath.segments with
  | [] => false
  | seg :: _ => seg.type = .asConfedSequence ∨ seg.type = .asConfedSet

/-- `aspath_add_one_as`. A first segment without numbers is taken for an empty path, and freed. -/
def aspathAddOneAs (asno : Nat) (type : SegmentType) : Aspath :=
  match aspath.segments with
  | [] => ⟨[assegmentNew type [asno]]⟩
  | seg :: rest =>
    if seg.as = [] then ⟨[assegmentNew type [asno]]⟩
    else if seg.type = type then ⟨assegmentNew type (asno :: seg.as) :: rest⟩
    else ⟨assegmentNew type [asno] :: seg :: rest⟩

/-- A number in front of the path. -/
def aspathAddSeq (asno : Nat) : Aspath := aspathAddOneAs aspath asno .asSequence

/-- A number of the confederation in front of the path. -/
def aspathAddConfedSeq (asno : Nat) : Aspath := aspathAddOneAs aspath asno .asConfedSequence

theorem length_take_lt {as : List Nat} (n : Nat) (lt : as.length < 65536) :
    (as.take n).length < 65536 := Nat.lt_of_le_of_lt (List.length_take_le' _ _) lt

/-- The first numbers of a segment. -/
def Assegment.take (seg : Assegment) (n : Nat) : Assegment :=
  { seg with as := seg.as.take n, length_lt := length_take_lt n seg.length_lt }

/-- The loop of `aspath_reconcile_as4`, which copies segments for a number of hops. A set counts
once and is copied whole; a sequence of the confederation is never split. -/
def copyHops : List Assegment → Nat → List Assegment
  | [], _ => []
  | _ :: _, 0 => []
  | seg :: rest, hops + 1 =>
    match seg.type with
    | .asSet => seg :: copyHops rest hops
    | .asConfedSet => seg :: copyHops rest hops
    | .asConfedSequence => seg :: copyHops rest (max (hops + 1) seg.as.length - seg.as.length)
    | .asSequence => seg.take (hops + 1) :: copyHops rest (hops + 1 - seg.as.length)

/-- `aspath_reconcile_as4`. -/
def aspathReconcileAs4 (aspath as4path : Aspath) : Aspath :=
  let total := aspathCountHops aspath + aspathCountConfeds aspath
  let hops :=
    if total < aspathCountHops as4path then aspathCountHops aspath
    else total - aspathCountHops as4path
  if hops = 0 then as4path
  else ⟨assegmentNormalise (copyHops aspath.segments hops ++ as4path.segments)⟩

/-! ## The parser -/

/-- One AS number. -/
def readAs (use32bit : Bool) (s : Stream) : Except Fault (Nat × Stream) :=
  if use32bit then do
    let (as, s) ← streamGetl s
    return (as.toNat, s)
  else do
    let (as, s) ← streamGetw s
    return (as.toNat, s)

/-- The AS numbers of a segment. -/
def readAses (use32bit : Bool) : Nat → Stream → Except Fault (List Nat × Stream)
  | 0, s => .ok ([], s)
  | n + 1, s => do
      let (as, s) ← readAs use32bit s
      let (rest, s) ← readAses use32bit n s
      return (as :: rest, s)

/-- The input, the bytes taken of the attribute and the segments made of them. -/
structure SegmentState where
  s : Stream
  bytes : Nat
  segments : List Assegment

/-- The body of the loop of `assegments_parse`. It is left with the return value `-1`. -/
def segmentBody (length : Nat) (use32bit : Bool) (st : SegmentState) :
    Except Fault (Pass SegmentState Stream) := do
  if length - st.bytes ≤ 2 then return .leave st.s
  let (type, s) ← streamGetc st.s
  let (count, s) ← streamGetc s
  if st.bytes + assegmentSize count.toNat use32bit > length then return .leave s
  match count.toNat, SegmentType.ofCode type with
  | n + 1, some type =>
    let (first, s) ← readAs use32bit s
    let (rest, s) ← readAses use32bit n s
    return .again
      { s := s, bytes := st.bytes + assegmentSize (n + 1) use32bit
        segments := st.segments ++ [assegmentNew type (first :: rest)] }
  | _, _ => return .leave s

/-- The loop of `assegments_parse`. -/
def segmentLoop (length : Nat) (use32bit : Bool) : Loop Fault SegmentState Stream where
  guard st := st.bytes < length
  body st := segmentBody length use32bit st
  measure st := length - st.bytes
  falls := by
    intro st st' going passed
    unfold segmentBody at passed
    split_ifs at passed with short
    · cases passed
    obtain ⟨⟨type, s⟩, -, passed⟩ := bind_eq_ok passed
    obtain ⟨⟨count, s⟩, -, passed⟩ := bind_eq_ok passed
    dsimp only at passed
    split_ifs at passed with excess
    · cases passed
    split at passed
    · obtain ⟨⟨first, s⟩, -, passed⟩ := bind_eq_ok passed
      obtain ⟨⟨rest, s⟩, -, passed⟩ := bind_eq_ok passed
      cases passed
      simp only [assegmentSize]
      omega
    · cases passed

variable (s : Stream)

/-- `assegments_parse`: the segments, unless it returns `-1`. -/
def assegmentsParse (length : Nat) (use32bit : Bool) :
    Except Fault (Option (List Assegment) × Stream) :=
  if length = 0 then .ok (some [], s)
  else if s.readable < length ∨ s.readable < 2 ∨ length % 2 ≠ 0 then .ok (none, s)
  else do
    match ← (segmentLoop length use32bit).run { s := s, bytes := 0, segments := [] } with
    | .leave s => return (none, s)
    | .again st => return (some (assegmentNormalise st.segments), st.s)

/-- `aspath_parse`: the path, unless it returns the null pointer. -/
def aspathParse (length : Nat) (use32bit : Bool) : Except Fault (Option Aspath × Stream) :=
  if length % 2 ≠ 0 then .ok (none, s)
  else do
    let (segments, s) ← assegmentsParse s length use32bit
    return (segments.map Aspath.mk, s)

/-! ## The path that the bytes hold -/

/-- The AS number at an offset. -/
def asAt (use32bit : Bool) (pnt : Nat) : Nat :=
  if use32bit then (longOf (s.slice pnt 4)).toNat
  else (word (s.byte pnt) (s.byte (pnt + 1))).toNat

/-- The AS numbers from an offset on. -/
def asesAt (s : Stream) (use32bit : Bool) : Nat → Nat → List Nat
  | 0, _ => []
  | n + 1, pnt => asAt s use32bit pnt :: asesAt s use32bit n (pnt + asValueSize use32bit)

/-- From segment to segment. The walk is left with the place at which the parser stops. -/
def segmentWalk (use32bit : Bool) (stop : Nat) : Walk (Nat × List Assegment) Nat where
  guard t := t.1 < stop
  step t :=
    if stop - t.1 ≤ 2 then .leave t.1
    else if t.1 + assegmentSize (s.byte (t.1 + 1)).toNat use32bit > stop then .leave (t.1 + 2)
    else
      match (s.byte (t.1 + 1)).toNat, SegmentType.ofCode (s.byte t.1) with
      | n + 1, some type =>
        .again (t.1 + assegmentSize (n + 1) use32bit,
          t.2 ++ [assegmentNew type (asesAt s use32bit (n + 1) (t.1 + 2))])
      | _, _ => .leave (t.1 + 2)
  measure t := stop - t.1
  falls := by
    intro t t' going stepped
    split_ifs at stepped with short excess
    split at stepped
    · cases stepped
      simp only [assegmentSize]
      omega
    · cases stepped

/-- The path in an attribute, and where its parser ends. -/
def aspathRead (use32bit : Bool) (pnt length : Nat) : Option Aspath × Nat :=
  if length % 2 ≠ 0 then (none, pnt)
  else
    match (segmentWalk s use32bit (pnt + length)).run (pnt, []) with
    | .leave stop => (none, stop)
    | .again t => (some ⟨assegmentNormalise t.2⟩, t.1)

section Read

variable {s : Stream} (fits : s.endp ≤ s.size) {use32bit : Bool}

include fits

theorem readAs_seek {pnt : Nat} (inside : pnt + asValueSize use32bit ≤ s.endp) :
    readAs use32bit (s.seek pnt) =
      .ok (asAt s use32bit pnt, s.seek (pnt + asValueSize use32bit)) := by
  cases use32bit with
  | true =>
    have four : pnt + 4 ≤ s.endp := inside
    simp only [readAs, streamGetl_seek fits four]
    rfl
  | false =>
    have two : pnt + 2 ≤ s.endp := inside
    simp only [readAs, streamGetw_seek fits two]
    rfl

theorem readAses_seek (n : Nat) : ∀ {pnt : Nat}, pnt + n * asValueSize use32bit ≤ s.endp →
    readAses use32bit n (s.seek pnt) =
      .ok (asesAt s use32bit n pnt, s.seek (pnt + n * asValueSize use32bit)) := by
  induction n with
  | zero =>
    simp [readAses, asesAt]
  | succ n ih =>
    intro pnt inside
    rw [Nat.succ_mul] at inside ⊢
    have first : pnt + asValueSize use32bit ≤ s.endp := by omega
    have rest : pnt + asValueSize use32bit + n * asValueSize use32bit ≤ s.endp := by omega
    have shift : pnt + asValueSize use32bit + n * asValueSize use32bit =
        pnt + (n * asValueSize use32bit + asValueSize use32bit) := by omega
    simp only [readAses, readAs_seek fits first, ok_bind, ih rest, shift]
    rfl

theorem segmentBody_seek {start length : Nat} (inside : start + length ≤ s.endp)
    (t : Nat × List Assegment) (from' : start ≤ t.1) (going : t.1 < start + length) :
    segmentBody length use32bit ⟨s.seek t.1, t.1 - start, t.2⟩ =
      .ok (((segmentWalk s use32bit (start + length)).step t).map
        (fun t => ⟨s.seek t.1, t.1 - start, t.2⟩) s.seek) := by
  obtain ⟨pnt, segments⟩ := t
  have left : length - (pnt - start) = start + length - pnt := by omega
  simp only [segmentBody, segmentWalk, left]
  by_cases short : start + length - pnt ≤ 2
  · rw [if_pos short, if_pos short]
    rfl
  have type : pnt + 1 ≤ s.endp := by omega
  have count : pnt + 1 + 1 ≤ s.endp := by omega
  rw [if_neg short, if_neg short, streamGetc_seek fits type, ok_bind]
  rw [streamGetc_seek fits count, ok_bind]
  have same : pnt - start + assegmentSize (s.byte (pnt + 1)).toNat use32bit > length ↔
      pnt + assegmentSize (s.byte (pnt + 1)).toNat use32bit > start + length := by omega
  simp only [same]
  split_ifs with excess
  · rfl
  rw [assegmentSize] at excess
  cases counted : (s.byte (pnt + 1)).toNat with
  | zero => rfl
  | succ n =>
    rw [counted, Nat.succ_mul] at excess
    cases SegmentType.ofCode (s.byte pnt) with
    | none => rfl
    | some type =>
      have first : pnt + 1 + 1 + asValueSize use32bit ≤ s.endp := by omega
      have rest : pnt + 1 + 1 + asValueSize use32bit + n * asValueSize use32bit ≤ s.endp := by
        omega
      have next : pnt + 1 + 1 + asValueSize use32bit + n * asValueSize use32bit =
          pnt + assegmentSize (n + 1) use32bit := by
        rw [assegmentSize, Nat.succ_mul]
        omega
      have bytes : pnt - start + assegmentSize (n + 1) use32bit =
          pnt + assegmentSize (n + 1) use32bit - start := by omega
      simp only [readAs_seek fits first, ok_bind, readAses_seek fits n rest, next, bytes]
      rfl

/-- `assegments_parse` reads the segments that the bytes of the attribute hold. -/
theorem assegmentsParse_seek {pnt length : Nat} (inside : pnt + length ≤ s.endp) :
    assegmentsParse (s.seek pnt) length use32bit =
      .ok ((aspathRead s use32bit pnt length).1.map Aspath.segments,
        s.seek (aspathRead s use32bit pnt length).2) := by
  rw [assegmentsParse, aspathRead]
  by_cases empty : length = 0
  · subst empty
    rw [if_pos rfl, Walk.run_of_done (by simp [segmentWalk])]
    rfl
  rw [if_neg empty]
  by_cases odd : length % 2 ≠ 0
  · rw [if_pos (.inr (.inr odd)), if_pos odd]
    rfl
  have enough : ¬ ((s.seek pnt).readable < length ∨ (s.seek pnt).readable < 2 ∨
      length % 2 ≠ 0) := by
    simp only [Stream.readable, Stream.seek_endp, Stream.seek_getp]
    omega
  rw [if_neg enough, if_neg odd]
  let view : Nat × List Assegment → SegmentState := fun t => ⟨s.seek t.1, t.1 - pnt, t.2⟩
  have guard_eq : ∀ t : Nat × List Assegment, pnt ≤ t.1 →
      (segmentLoop length use32bit).guard (view t) =
        (segmentWalk s use32bit (pnt + length)).guard t := by
    intro t from'
    exact decide_eq_decide.mpr (show t.1 - pnt < length ↔ t.1 < pnt + length by omega)
  have keeps : ∀ t t' : Nat × List Assegment, pnt ≤ t.1 →
      (segmentWalk s use32bit (pnt + length)).guard t = true →
      (segmentWalk s use32bit (pnt + length)).step t = .again t' → pnt ≤ t'.1 := by
    intro t t' from' going stepped
    have less : pnt + length - t'.1 < pnt + length - t.1 :=
      (segmentWalk s use32bit (pnt + length)).falls going stepped
    omega
  have walked : (segmentLoop length use32bit).run (view (pnt, [])) = _ :=
    Loop.run_eq_walk _ (segmentWalk s use32bit (pnt + length)) (fun t => pnt ≤ t.1) view s.seek
      guard_eq
      (fun t from' going => segmentBody_seek fits inside t from' (of_decide_eq_true going))
      keeps (pnt, []) (Nat.le_refl _)
  have start : view (pnt, []) = ⟨s.seek pnt, 0, []⟩ := by simp [view]
  rw [start] at walked
  rw [walked]
  cases (segmentWalk s use32bit (pnt + length)).run (pnt, []) <;> rfl

/-- **`aspath_parse` reads the path that the bytes of the attribute hold.** -/
theorem aspathParse_seek {pnt length : Nat} (inside : pnt + length ≤ s.endp) :
    aspathParse (s.seek pnt) length use32bit =
      .ok ((aspathRead s use32bit pnt length).1, s.seek (aspathRead s use32bit pnt length).2) := by
  rw [aspathParse]
  by_cases odd : length % 2 ≠ 0
  · rw [if_pos odd, aspathRead, if_pos odd]
  · rw [if_neg odd, assegmentsParse_seek fits inside, ok_bind]
    dsimp only
    rw [Option.map_map]
    exact congrArg (fun path => Except.ok (path, s.seek (aspathRead s use32bit pnt length).2))
      (congrFun Option.map_id _)

end Read

/-- A walk from segment to segment reaches the end of the attribute, or is left before it. -/
def SegmentsEnd (pnt stop : Nat) : Pass (Nat × List Assegment) Nat → Prop
  | .leave left => pnt ≤ left ∧ left < stop
  | .again t => t.1 = stop

theorem segmentWalk_end (s : Stream) (use32bit : Bool) {pnt stop : Nat} (le : pnt ≤ stop) :
    SegmentsEnd pnt stop ((segmentWalk s use32bit stop).run (pnt, [])) := by
  have start : pnt ≤ (pnt, ([] : List Assegment)).1 ∧ (pnt, ([] : List Assegment)).1 ≤ stop :=
    ⟨Nat.le_refl _, le⟩
  refine Walk.ensures (fun t => pnt ≤ t.1 ∧ t.1 ≤ stop) ?_ ?_ _ start
  · intro t inside going
    have below : t.1 < stop := of_decide_eq_true going
    simp only [segmentWalk]
    split_ifs with short excess
    · exact ⟨inside.1, below⟩
    · exact ⟨by omega, by omega⟩
    · split
      · rename_i n type counted known
        rw [counted, Nat.succ_eq_add_one] at excess
        exact ⟨by omega, by omega⟩
      · exact ⟨by omega, by omega⟩
  · intro t inside done
    have atEnd : ¬ t.1 < stop := of_decide_eq_false done
    exact Nat.le_antisymm inside.2 (Nat.le_of_not_lt atEnd)

/-- A path is read to the end of the attribute. -/
theorem aspathRead_some {s : Stream} {use32bit : Bool} {pnt length : Nat} {path : Aspath}
    (read : (aspathRead s use32bit pnt length).1 = some path) :
    (aspathRead s use32bit pnt length).2 = pnt + length := by
  have walked := segmentWalk_end s use32bit (Nat.le_add_right pnt length)
  rw [aspathRead] at read ⊢
  split_ifs at read ⊢ with odd
  split at read <;> simp_all [SegmentsEnd]

/-- **Where no path is read, the parser stops before the end of the attribute.** -/
theorem aspathRead_none {s : Stream} {use32bit : Bool} {pnt length : Nat}
    (read : (aspathRead s use32bit pnt length).1 = none) :
    pnt ≤ (aspathRead s use32bit pnt length).2 ∧
      (aspathRead s use32bit pnt length).2 < pnt + length := by
  have walked := segmentWalk_end s use32bit (Nat.le_add_right pnt length)
  rw [aspathRead] at read ⊢
  split_ifs at read ⊢ with odd
  · exact ⟨Nat.le_refl _, by omega⟩
  · split at read <;> simp_all [SegmentsEnd]

end Quagga.Bgpd
