import Mathlib.Algebra.GroupWithZero.Nat
import Quagga.Lib.StreamPut
import Quagga.Bgpd.OpenReceive
import Quagga.Bgpd.AspathWire

/-!
# Writing AS paths

A segment on the wire has at most 255 AS numbers, while a sequence that has been parsed may be of
any length. `aspath_put` splits such a sequence, and it returns the number of bytes that go into
the length of the attribute.

It writes a segment only if the space that is left would hold the segment in one piece, and drops
the rest of the path where it would not. Its loop for an overlength segment writes the first 255
numbers each time, and adds the size of all numbers written so far each time. So both the numbers
and the length are right for at most 510 numbers, and for no more (`SegmentGroup.size_eq_iff`).

Each pass of the main loop writes a segment together with those packed into it (`SegmentGroup`).
Where there is room for all of them, `pathEncoding` is what the function writes
(`aspathPut_of_room`).
-/

set_option autoImplicit false

namespace Quagga.Bgpd

open Lib Library List

/-! ## Changes of a path before it is sent -/

/-- `BGP_AS_MAX`, the greatest number of two bytes. -/
def bgpAsMax : Nat := 65535

/-- `aspath_has_as4`. -/
def aspathHasAs4 (aspath : Aspath) : Bool :=
  aspath.segments.any fun seg => seg.as.any fun as => as > bgpAsMax

/-- `aspath_delete_confed_seq`. -/
def aspathDeleteConfedSeq (aspath : Aspath) : Aspath :=
  match aspath.segments with
  | [] => aspath
  | seg :: _ => if seg.type ≠ .asConfedSequence then aspath else ⟨skipConfed aspath.segments⟩

/-! ## The functions that write -/

/-- `AS_SEGMENT_MAX`. -/
def asSegmentMax : Nat := 255

variable (use32bit : Bool)

/-- One AS number. A number that needs four bytes is replaced where there are two. -/
def asPut (s : Stream) (as : Nat) : Except Fault Stream :=
  if use32bit then streamPutl s (UInt32.ofNat as)
  else if as ≤ bgpAsMax then streamPutw s (UInt16.ofNat as)
  else streamPutw s (UInt16.ofNat bgpAsTrans)

/-- `assegment_data_put`. -/
def assegmentDataPut (s : Stream) (as : List Nat) (use32bit : Bool) : Except Fault Stream := do
  if ¬ as.length ≤ asSegmentMax then throw .assertion
  as.foldlM (asPut use32bit) s

/-- `assegment_header_put`, which returns the place of the length. -/
def assegmentHeaderPut (s : Stream) (type : SegmentType) (length : Nat) :
    Except Fault (Nat × Stream) := do
  if ¬ length ≤ asSegmentMax then throw .assertion
  let s ← streamPutc s type.code
  let lenp ← streamGetEndp s
  let s ← streamPutc s (UInt8.ofNat length)
  return (lenp, s)

/-- The loop of `aspath_put` for overlength segments, in at most so many passes: the numbers
written, and what is added to the length. -/
def overlengthPut (seg : Assegment) (use32bit : Bool) :
    Nat → Nat → Stream → Except Fault ((Nat × Nat) × Stream)
  | 0, written, s => .ok ((written, 0), s)
  | passes + 1, written, s =>
    if seg.as.length - written > asSegmentMax then do
      let (_, s) ← assegmentHeaderPut s seg.type asSegmentMax
      let s ← assegmentDataPut s (seg.as.take asSegmentMax) use32bit
      let ((written', bytes), s) ← overlengthPut seg use32bit passes (written + asSegmentMax) s
      return ((written', assegmentSize (written + asSegmentMax) use32bit + bytes), s)
    else .ok ((written, 0), s)

/-- `ASSEGMENTS_PACKABLE`. -/
def Assegment.packableIn (seg next : Assegment) : Bool :=
  seg.packable next ∧ seg.as.length + next.as.length ≤ asSegmentMax

/-- The loop that packs further segments into the one just written: how many numbers were packed,
and the segments that remain. -/
def packPut (seg : Assegment) (use32bit : Bool) (written lenp : Nat) :
    List Assegment → Stream → Except Fault ((Nat × List Assegment) × Stream)
  | [], s => .ok ((0, []), s)
  | next :: rest, s =>
    if seg.packableIn next then do
      let s ← assegmentDataPut s next.as use32bit
      let s ← streamPutcAt s lenp (UInt8.ofNat (seg.as.length - written + next.as.length))
      let ((packed, left), s) ← packPut seg use32bit written lenp rest s
      return ((next.as.length + packed, left), s)
    else .ok ((0, next :: rest), s)

variable (seg : Assegment) (rest : List Assegment)

/-- The last piece of a segment with what is packed into it. Before it come the numbers that were
written already, and what they add to the length. -/
def finalPut (use32bit : Bool) (before : Nat × Nat)
    (s : Stream) : Except Fault ((Nat × List Assegment) × Stream) := do
  let (written, bytes) := before
  let (lenp, s) ← assegmentHeaderPut s seg.type (seg.as.length - written)
  let s ← assegmentDataPut s (seg.as.drop written) use32bit
  let ((packed, left), s) ← packPut seg use32bit written lenp rest s
  return ((bytes + assegmentSize (seg.as.length - written + packed) use32bit, left), s)

/-- The body of the main loop: what is added to the length, and the segments that remain. -/
def assegmentPut (use32bit : Bool) (s : Stream) :
    Except Fault ((Nat × List Assegment) × Stream) := do
  let (before, s) ← overlengthPut seg use32bit seg.as.length 0 s
  finalPut seg rest use32bit before s

/-- The main loop of `aspath_put`, in at most so many passes. -/
def assegmentsPut (use32bit : Bool) : Nat → List Assegment → Stream → Except Fault (Nat × Stream)
  | 0, _, s => .ok (0, s)
  | _ + 1, [], s => .ok (0, s)
  | passes + 1, seg :: rest, s =>
    if assegmentSize seg.as.length use32bit ≤ s.writeable then do
      let ((bytes, left), s) ← assegmentPut seg rest use32bit s
      let (more, s) ← assegmentsPut use32bit passes left s
      return (bytes + more, s)
    else .ok (0, s)

/-- `aspath_put`. Each pass takes at least one segment. -/
def aspathPut (s : Stream) (aspath : Aspath) (use32bit : Bool) : Except Fault (Nat × Stream) :=
  assegmentsPut use32bit aspath.segments.length aspath.segments s

/-! ## What they write -/

/-- An AS number as it is sent. -/
def asBytes (as : Nat) : List UInt8 :=
  if use32bit then longBytes (UInt32.ofNat as)
  else wordBytes (UInt16.ofNat (if as ≤ bgpAsMax then as else bgpAsTrans))

/-- AS numbers as they are sent. -/
def asesBytes (as : List Nat) : List UInt8 := as.flatMap (asBytes use32bit)

@[simp] theorem length_asBytes (as : Nat) :
    (asBytes use32bit as).length = asValueSize use32bit := by
  cases use32bit <;> rfl

@[simp] theorem length_asesBytes (as : List Nat) :
    (asesBytes use32bit as).length = as.length * asValueSize use32bit := by
  induction as with
  | nil => simp [asesBytes]
  | cons first rest ih =>
    have cons : asesBytes use32bit (first :: rest) =
        asBytes use32bit first ++ asesBytes use32bit rest := flatMap_cons
    rw [cons, length_append, length_asBytes, length_cons, Nat.succ_mul]
    omega

/-- A segment with its header. -/
def wireBytes (type : SegmentType) (as : List Nat) : List UInt8 :=
  [type.code] ++ [UInt8.ofNat as.length] ++ asesBytes use32bit as

@[simp] theorem length_wireBytes (type : SegmentType) (as : List Nat) :
    (wireBytes use32bit type as).length = assegmentSize as.length use32bit := by
  simp [wireBytes, assegmentSize]
  omega

/-- The segments that are packed into the one before them. -/
def Assegment.packed : List Assegment :=
  rest.takeWhile seg.packableIn

/-- The segments that come after those. -/
def Assegment.left : List Assegment :=
  rest.dropWhile seg.packableIn

/-- How many numbers are packed. -/
def packedLength (packed : List Assegment) : Nat := (packed.map fun next => next.as.length).sum

/-- How many numbers the last segment has that is packed. -/
def lastLength (last : Nat) (packed : List Assegment) : Nat :=
  packed.foldl (fun _ next => next.as.length) last

/-- How often the loop for overlength segments goes round. -/
def Assegment.blocks : Nat := (seg.as.length - 1) / asSegmentMax

/-- How many numbers are behind it then. -/
def Assegment.written : Nat := asSegmentMax * seg.blocks

/-- What the loop writes in so many passes. -/
def overlengthBytes (blocks : Nat) : List UInt8 :=
  (List.replicate blocks (wireBytes use32bit seg.type (seg.as.take asSegmentMax))).flatten

/-- What it adds to the length in so many passes. -/
def overlengthSize (use32bit : Bool) : Nat → Nat → Nat
  | 0, _ => 0
  | blocks + 1, written =>
    assegmentSize (written + asSegmentMax) use32bit +
      overlengthSize use32bit blocks (written + asSegmentMax)

/-- The segments that one pass of the main loop writes: the first of them, and those that are
packed into it. -/
structure SegmentGroup where
  head : Assegment
  packed : List Assegment

namespace SegmentGroup

variable (group : SegmentGroup)

/-- The length of the last piece. The byte is set again for every segment that is packed, from the
first segment and that one alone. -/
def count : Nat := group.head.as.length - group.head.written + lastLength 0 group.packed

/-- The last piece of a segment with what is packed into it. -/
def finalBytes : List UInt8 :=
  [group.head.type.code] ++ [UInt8.ofNat group.count] ++
    (asesBytes use32bit (group.head.as.drop group.head.written) ++
      group.packed.flatMap fun next => asesBytes use32bit next.as)

/-- What a pass writes. -/
def bytes : List UInt8 :=
  overlengthBytes use32bit group.head group.head.blocks ++ group.finalBytes use32bit

/-- What a pass adds to the length. -/
def size : Nat :=
  overlengthSize use32bit group.head.blocks 0 +
    assegmentSize (group.head.as.length - group.head.written + packedLength group.packed) use32bit

end SegmentGroup

/-- The groups of a path, in at most so many passes. -/
def pathGroupsIn : Nat → List Assegment → List SegmentGroup
  | 0, _ => []
  | _ + 1, [] => []
  | passes + 1, seg :: rest => ⟨seg, seg.packed rest⟩ :: pathGroupsIn passes (seg.left rest)

/-- The groups in which `aspath_put` writes a path. -/
def pathGroups (segments : List Assegment) : List SegmentGroup :=
  pathGroupsIn segments.length segments

/-- The encoding of a path: what `aspath_put` writes if there is room for it. -/
def pathEncoding (segments : List Assegment) : List UInt8 :=
  (pathGroups segments).flatMap (SegmentGroup.bytes use32bit)

/-- What `aspath_put` returns then. -/
def pathSize (segments : List Assegment) : Nat :=
  ((pathGroups segments).map (SegmentGroup.size use32bit)).sum

/-! ## The lengths -/

section Lengths

variable (group : SegmentGroup)

theorem Assegment.rest_le : seg.as.length - seg.written ≤ asSegmentMax := by
  rw [written, blocks, asSegmentMax]
  omega

theorem length_overlengthBytes {seg : Assegment} {blocks : Nat} (le : blocks ≤ seg.blocks) :
    (overlengthBytes use32bit seg blocks).length = blocks * assegmentSize asSegmentMax use32bit := by
  have taken : blocks = 0 ∨ (seg.as.take asSegmentMax).length = asSegmentMax := by
    rw [Assegment.blocks] at le
    rw [length_take]
    rw [asSegmentMax] at *
    omega
  rcases taken with rfl | taken
  · simp [overlengthBytes]
  · simp [overlengthBytes, taken]

theorem SegmentGroup.length_bytes :
    (group.bytes use32bit).length = group.head.blocks * assegmentSize asSegmentMax use32bit +
      assegmentSize (group.head.as.length - group.head.written + packedLength group.packed)
        use32bit := by
  have packed : (group.packed.flatMap fun next => asesBytes use32bit next.as).length =
      packedLength group.packed * asValueSize use32bit := by
    rw [packedLength, length_flatMap]
    induction group.packed with
    | nil => simp
    | cons next rest ih =>
      rw [map_cons, map_cons, sum_cons, sum_cons, length_asesBytes, ih,
        Nat.add_mul]
  simp only [bytes, finalBytes, length_append, packed, length_asesBytes, length_drop,
    length_singleton, assegmentSize, Nat.add_mul,
    length_overlengthBytes use32bit (Nat.le_refl group.head.blocks)]

/-- The space that the main loop asks for is at most what the group takes. -/
theorem SegmentGroup.size_head_le :
    assegmentSize (group.head.as.length + packedLength group.packed) use32bit ≤
      (group.bytes use32bit).length := by
  rw [length_bytes, assegmentSize, assegmentSize, assegmentSize, Assegment.written,
    Assegment.blocks, asSegmentMax]
  cases use32bit <;>
    · simp only [asValueSize, if_true, Bool.false_eq_true, if_false]
      omega

/-- The loop adds the size of all numbers so far each time. -/
theorem mul_le_overlengthSize (blocks : Nat) : ∀ written : Nat,
    blocks * assegmentSize (written + asSegmentMax) use32bit ≤
      overlengthSize use32bit blocks written := by
  induction blocks with
  | zero => simp
  | succ blocks ih =>
    intro written
    have more : assegmentSize (written + asSegmentMax) use32bit ≤
        assegmentSize (written + asSegmentMax + asSegmentMax) use32bit := by
      rw [assegmentSize, assegmentSize, Nat.add_mul (written + asSegmentMax)]
      omega
    have rest := Nat.le_trans (Nat.mul_le_mul_left blocks more) (ih (written + asSegmentMax))
    rw [overlengthSize, Nat.succ_mul]
    omega

/-- **The length that is returned for a group is right up to 510 numbers**, and too large for
more. -/
theorem SegmentGroup.size_eq_iff :
    (group.bytes use32bit).length ≤ group.size use32bit ∧
      (group.size use32bit = (group.bytes use32bit).length ↔
        group.head.as.length ≤ asSegmentMax + asSegmentMax) := by
  have few : group.head.as.length ≤ asSegmentMax + asSegmentMax ↔ group.head.blocks ≤ 1 := by
    rw [Assegment.blocks, asSegmentMax]
    omega
  have least := mul_le_overlengthSize use32bit group.head.blocks 0
  rw [few, length_bytes, size, Nat.add_right_cancel_iff]
  refine ⟨Nat.add_le_add_right least _, ?_⟩
  match group.head.blocks with
  | 0 => simp [overlengthSize]
  | 1 => simp [overlengthSize]
  | blocks + 2 =>
    have second := mul_le_overlengthSize use32bit (blocks + 1) asSegmentMax
    have more : assegmentSize asSegmentMax use32bit <
        assegmentSize (asSegmentMax + asSegmentMax) use32bit := by
      cases use32bit <;> decide
    have rest : (blocks + 1) * assegmentSize asSegmentMax use32bit <
        (blocks + 1) * assegmentSize (asSegmentMax + asSegmentMax) use32bit :=
      Nat.mul_lt_mul_of_pos_left more (Nat.succ_pos blocks)
    rw [overlengthSize, Nat.zero_add, Nat.succ_mul]
    omega

theorem pathSize_eq_iff (segments : List Assegment) :
    pathSize use32bit segments = (pathEncoding use32bit segments).length ↔
      ∀ group ∈ pathGroups segments, group.head.as.length ≤ asSegmentMax + asSegmentMax := by
  suffices both : ∀ groups : List SegmentGroup,
      (groups.flatMap (SegmentGroup.bytes use32bit)).length ≤
          (groups.map (SegmentGroup.size use32bit)).sum ∧
        ((groups.map (SegmentGroup.size use32bit)).sum =
            (groups.flatMap (SegmentGroup.bytes use32bit)).length ↔
          ∀ group ∈ groups, group.head.as.length ≤ asSegmentMax + asSegmentMax) from
    (both _).2
  intro groups
  induction groups with
  | nil => simp
  | cons group groups ih =>
    obtain ⟨least, here⟩ := group.size_eq_iff use32bit
    rw [map_cons, sum_cons, flatMap_cons, length_append,
      forall_mem_cons, ← here, ← ih.2]
    omega

end Lengths

/-! ## That they write it -/

theorem appends_asPut (as : Nat) :
    Appends (fun s => asPut use32bit s as) (asBytes use32bit as) := by
  cases use32bit with
  | true => exact appends_streamPutl _
  | false =>
    by_cases small : as ≤ bgpAsMax
    · simpa [asPut, asBytes, small] using appends_streamPutw (UInt16.ofNat as)
    · simpa [asPut, asBytes, small] using appends_streamPutw (UInt16.ofNat bgpAsTrans)

theorem appends_assegmentDataPut {as : List Nat} (small : as.length ≤ asSegmentMax)
    (use32bit : Bool) :
    Appends (fun s => assegmentDataPut s as use32bit) (asesBytes use32bit as) where
  fits sane room := by
    rw [assegmentDataPut, if_neg (not_not.mpr small)]
    exact (Appends.foldlM (appends_asPut use32bit) as).fits sane room

theorem packable_small {seg next : Assegment} (packable : seg.packableIn next = true) :
    next.as.length ≤ asSegmentMax := by
  have fits : seg.as.length + next.as.length ≤ asSegmentMax := (of_decide_eq_true packable).2
  omega

section Writing

variable {s : Stream} (sane : s.Sane) {seg : Assegment} {use32bit : Bool}
include sane

theorem assegmentHeaderPut_append (type : SegmentType) {length : Nat}
    (small : length ≤ asSegmentMax) {before : List UInt8}
    (room : (before ++ [type.code] ++ [UInt8.ofNat length]).length ≤ s.writeable) :
    assegmentHeaderPut (s.append before) type length =
      .ok (s.endp + (before ++ [type.code]).length,
        s.append (before ++ [type.code] ++ [UInt8.ofNat length])) := by
  have first : (before ++ [type.code]).length ≤ s.writeable := by
    rw [length_append] at room
    omega
  rw [assegmentHeaderPut, if_neg (not_not.mpr small), (appends_streamPutc type.code).after sane first]
  rw [ok_bind, streamGetEndp_ok (Stream.append_sane sane first), ok_bind,
    (appends_streamPutc (UInt8.ofNat length)).after sane room]
  rfl

theorem overlengthPut_append (blocks : Nat) :
    ∀ {passes written : Nat} {before : List UInt8}, blocks ≤ passes →
      (seg.as.length - written - 1) / asSegmentMax = blocks →
      (before ++ overlengthBytes use32bit seg blocks).length ≤ s.writeable →
      overlengthPut seg use32bit passes written (s.append before) =
        .ok ((written + asSegmentMax * blocks, overlengthSize use32bit blocks written),
          s.append (before ++ overlengthBytes use32bit seg blocks)) := by
  induction blocks with
  | zero =>
    intro passes written before _ none _
    have short : ¬ seg.as.length - written > asSegmentMax := by
      rw [asSegmentMax] at *
      omega
    rw [overlengthBytes, replicate_zero, flatten_nil, append_nil]
    cases passes with
    | zero => rfl
    | succ passes =>
      rw [overlengthPut, if_neg short]
      rfl
  | succ blocks ih =>
    intro passes written before enough count room
    obtain ⟨passes, rfl⟩ := Nat.exists_eq_add_of_lt (Nat.lt_of_lt_of_le (Nat.succ_pos _) enough)
    rw [Nat.zero_add] at enough ⊢
    have long : seg.as.length - written > asSegmentMax := by
      rw [asSegmentMax] at *
      omega
    have taken : (seg.as.take asSegmentMax).length = asSegmentMax := by
      rw [length_take]
      omega
    have split : before ++ overlengthBytes use32bit seg (blocks + 1) =
        before ++ [seg.type.code] ++ [UInt8.ofNat asSegmentMax] ++
          asesBytes use32bit (seg.as.take asSegmentMax) ++ overlengthBytes use32bit seg blocks := by
      simp [overlengthBytes, replicate_succ, wireBytes, taken]
    rw [split] at room ⊢
    have whole := room
    rw [length_append] at room
    have data : (before ++ [seg.type.code] ++ [UInt8.ofNat asSegmentMax] ++
        asesBytes use32bit (seg.as.take asSegmentMax)).length ≤ s.writeable := by omega
    have rest := @ih passes (written + asSegmentMax) _ (Nat.le_of_succ_le_succ enough)
      (by rw [asSegmentMax] at *; omega) whole
    rw [length_append] at room
    rw [overlengthPut, if_pos long, assegmentHeaderPut_append sane _ (Nat.le_refl _) (by omega),
      ok_bind]
    dsimp only
    rw [(appends_assegmentDataPut (Nat.le_of_eq taken) use32bit).after sane data, ok_bind, rest,
      ok_bind]
    rw [overlengthSize, Nat.mul_succ, Nat.add_assoc written, Nat.add_comm asSegmentMax]
    rfl

/-- The length byte was written before, with the numbers behind it. -/
theorem packPut_append {written : Nat} {before : List UInt8} (rest : List Assegment) :
    ∀ {last : Nat} {after : List UInt8},
      (before ++ [UInt8.ofNat (seg.as.length - written + last)] ++
        (after ++ (seg.packed rest).flatMap fun next => asesBytes use32bit next.as)).length ≤
          s.writeable →
      packPut seg use32bit written (s.endp + before.length) rest
          (s.append (before ++ [UInt8.ofNat (seg.as.length - written + last)] ++ after)) =
        .ok ((packedLength (seg.packed rest), seg.left rest), s.append (before ++
          [UInt8.ofNat (seg.as.length - written + lastLength last (seg.packed rest))] ++
          (after ++ (seg.packed rest).flatMap fun next => asesBytes use32bit next.as))) := by
  induction rest with
  | nil =>
    intro last after _
    simp [packPut, Assegment.packed, Assegment.left, packedLength, lastLength]
  | cons next rest ih =>
    intro last after room
    rw [packPut]
    by_cases packable : seg.packableIn next = true
    · have packed : seg.packed (next :: rest) = next :: seg.packed rest :=
        takeWhile_cons_of_pos packable
      have left : seg.left (next :: rest) = seg.left rest := dropWhile_cons_of_pos packable
      rw [packed, flatMap_cons, ← append_assoc after] at room ⊢
      have whole := room
      rw [← append_assoc, length_append] at room
      have data : (before ++ [UInt8.ofNat (seg.as.length - written + last)] ++
          (after ++ asesBytes use32bit next.as)).length ≤ s.writeable := by omega
      have put := (appends_assegmentDataPut (packable_small packable) use32bit).after sane
        (by rw [append_assoc]; exact data)
      rw [if_pos packable, put, ok_bind, append_assoc, streamPutcAt_append sane data, ok_bind,
        ih (by simpa using whole), left]
      rfl
    · have packed : seg.packed (next :: rest) = [] := takeWhile_cons_of_neg packable
      have left : seg.left (next :: rest) = next :: rest := dropWhile_cons_of_neg packable
      rw [if_neg packable, packed, left, flatMap_nil, append_nil]
      rfl

theorem finalPut_append (rest : List Assegment) (added : Nat) {before : List UInt8}
    (room : (before ++ SegmentGroup.finalBytes use32bit ⟨seg, seg.packed rest⟩).length ≤
      s.writeable) :
    finalPut seg rest use32bit (seg.written, added) (s.append before) =
      .ok ((added + assegmentSize (seg.as.length - seg.written + packedLength (seg.packed rest))
          use32bit, seg.left rest),
        s.append (before ++ SegmentGroup.finalBytes use32bit ⟨seg, seg.packed rest⟩)) := by
  have dropped : (seg.as.drop seg.written).length ≤ asSegmentMax := by
    rw [length_drop]
    exact seg.rest_le
  rw [SegmentGroup.finalBytes, ← append_assoc before, ← append_assoc before] at room ⊢
  have packs := @packPut_append s sane seg use32bit seg.written (before ++ [seg.type.code]) rest 0
    (asesBytes use32bit (seg.as.drop seg.written)) (by simpa using room)
  simp only [length_append, length_singleton] at room
  have header := @assegmentHeaderPut_append s sane seg.type _ seg.rest_le before
    (by simp only [length_append, length_singleton]; omega)
  have data := @Appends.after _ _ (appends_assegmentDataPut dropped use32bit) s sane
    (before ++ [seg.type.code] ++ [UInt8.ofNat (seg.as.length - seg.written)])
    (by simp only [length_append, length_singleton]; omega)
  rw [Nat.add_zero] at packs
  rw [finalPut]
  dsimp only
  rw [header, ok_bind]
  rw [data, ok_bind, packs]
  rfl

theorem assegmentPut_append (rest : List Assegment) {before : List UInt8}
    (room : (before ++ SegmentGroup.bytes use32bit ⟨seg, seg.packed rest⟩).length ≤ s.writeable) :
    assegmentPut seg rest use32bit (s.append before) =
      .ok ((SegmentGroup.size use32bit ⟨seg, seg.packed rest⟩, seg.left rest),
        s.append (before ++ SegmentGroup.bytes use32bit ⟨seg, seg.packed rest⟩)) := by
  have blocks_le : seg.blocks ≤ seg.as.length :=
    Nat.le_trans (Nat.div_le_self _ _) (Nat.sub_le _ _)
  rw [SegmentGroup.bytes, ← append_assoc] at room ⊢
  have final := finalPut_append sane rest (overlengthSize use32bit seg.blocks 0) room
  rw [length_append] at room
  have blocks := @overlengthPut_append s sane seg use32bit seg.blocks seg.as.length 0 before blocks_le
    rfl (by dsimp only at room; omega)
  rw [Nat.zero_add] at blocks
  rw [assegmentPut, blocks, ok_bind]
  exact final

theorem assegmentsPut_append (passes : Nat) : ∀ {segments : List Assegment} {before : List UInt8},
    (before ++ (pathGroupsIn passes segments).flatMap (SegmentGroup.bytes use32bit)).length ≤
      s.writeable →
      assegmentsPut use32bit passes segments (s.append before) =
        .ok (((pathGroupsIn passes segments).map (SegmentGroup.size use32bit)).sum, s.append
          (before ++ (pathGroupsIn passes segments).flatMap (SegmentGroup.bytes use32bit))) := by
  induction passes with
  | zero => simp [assegmentsPut, pathGroupsIn]
  | succ passes ih =>
    intro segments before room
    cases segments with
    | nil => simp [assegmentsPut, pathGroupsIn]
    | cons seg rest =>
      rw [pathGroupsIn, flatMap_cons, ← append_assoc] at room ⊢
      have whole := room
      have asked := SegmentGroup.size_head_le use32bit ⟨seg, seg.packed rest⟩
      rw [length_append, length_append] at room
      have enough : assegmentSize seg.as.length use32bit ≤ (s.append before).writeable := by
        rw [Stream.append_writeable sane (by omega)]
        rw [assegmentSize, Nat.add_mul] at asked
        rw [assegmentSize]
        dsimp only at asked
        omega
      rw [assegmentsPut, if_pos enough,
        assegmentPut_append sane rest (by rw [length_append]; omega), ok_bind]
      dsimp only
      rw [ih whole]
      rfl

/-- **What `aspath_put` writes and what it returns.** -/
theorem aspathPut_of_room {segments : List Assegment}
    (fits : (pathEncoding use32bit segments).length ≤ s.writeable) :
    aspathPut s ⟨segments⟩ use32bit =
      .ok (pathSize use32bit segments, s.append (pathEncoding use32bit segments)) := by
  have written := @assegmentsPut_append s sane use32bit segments.length segments [] fits
  rwa [Stream.append_nil] at written

end Writing

end Quagga.Bgpd
