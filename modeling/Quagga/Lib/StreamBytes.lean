import Quagga.Lib.Stream

/-!
# The bytes of a stream

The parsers of the daemon read a stream in two ways: by the functions of `lib/stream.c`, which
move `getp` and assert that the bytes are there, and through the pointer `stream_pnt`, which is
followed without a check. A read through the pointer is in order only below `endp`
(`Stream.fetch`).

`Stream.Holds s pnt bytes` says what stands in a stream from an offset on. Reading then gives
those bytes, in whichever way it is done.
-/

set_option autoImplicit false

namespace Quagga.Lib

open Library

/-! ## Long words -/

/-- Four bytes in network byte order. -/
def long (b₃ b₂ b₁ b₀ : UInt8) : UInt32 :=
  UInt32.ofNat (((b₃.toNat * 256 + b₂.toNat) * 256 + b₁.toNat) * 256 + b₀.toNat)

/-- The bytes of a long. -/
def longBytes (l : UInt32) : List UInt8 :=
  [UInt8.ofNat (l.toNat / 256 / 256 / 256), UInt8.ofNat (l.toNat / 256 / 256),
    UInt8.ofNat (l.toNat / 256), UInt8.ofNat l.toNat]

@[simp] theorem length_longBytes (l : UInt32) : (longBytes l).length = 4 := rfl

@[simp] theorem length_wordBytes (w : UInt16) : (wordBytes w).length = 2 := rfl

/-- The long of four bytes. -/
def longOf (bytes : List UInt8) : UInt32 :=
  long (bytes.getD 0 0) (bytes.getD 1 0) (bytes.getD 2 0) (bytes.getD 3 0)

@[simp] theorem longOf_longBytes (l : UInt32) : longOf (longBytes l) = l := by
  have bound := l.toNat_lt
  apply UInt32.toNat_inj.mp
  simp only [longOf, longBytes, long, List.getD_cons_zero, List.getD_cons_succ,
    UInt8.toNat_ofNat', UInt32.toNat_ofNat']
  omega

theorem longBytes_long (b₃ b₂ b₁ b₀ : UInt8) :
    longBytes (long b₃ b₂ b₁ b₀) = [b₃, b₂, b₁, b₀] := by
  have bound₃ := b₃.toNat_lt
  have bound₂ := b₂.toNat_lt
  have bound₁ := b₁.toNat_lt
  have bound₀ := b₀.toNat_lt
  simp only [longBytes, long, UInt32.toNat_ofNat', List.cons.injEq, and_true]
  refine ⟨?_, ?_, ?_, ?_⟩ <;>
    · apply UInt8.toNat_inj.mp
      rw [UInt8.toNat_ofNat']
      omega

theorem wordBytes_word (hi lo : UInt8) : wordBytes (word hi lo) = [hi, lo] := by
  have boundHi := hi.toNat_lt
  have boundLo := lo.toNat_lt
  simp only [wordBytes, hiByte, loByte, word, UInt16.toNat_ofNat', List.cons.injEq, and_true]
  refine ⟨?_, ?_⟩ <;>
    · apply UInt8.toNat_inj.mp
      rw [UInt8.toNat_ofNat']
      omega

/-! ## Reading -/

variable (s : Stream) (pnt : Nat)

namespace Stream

/-- The valid bytes from an offset on, at most `n` of them. -/
def slice (pnt n : Nat) : List UInt8 := (s.contents.drop pnt).take n

/-- Move `getp`. -/
def advance (n : Nat) : Stream := { s with getp := s.getp + n }

@[simp] theorem advance_getp (n : Nat) : (s.advance n).getp = s.getp + n := rfl

@[simp] theorem advance_advance (n m : Nat) : (s.advance n).advance m = s.advance (n + m) := by
  rw [advance, advance, advance]
  simp only [Nat.add_assoc]

/-- The stream with `getp` at an offset. -/
def seek : Stream := { s with getp := pnt }

@[simp] theorem seek_getp : (s.seek pnt).getp = pnt := rfl

@[simp] theorem seek_endp : (s.seek pnt).endp = s.endp := rfl

/-- The second stream is the first one, read further. -/
def Moved (s s' : Stream) : Prop := ∃ n, s' = s.advance n

theorem Moved.refl : s.Moved s := ⟨0, rfl⟩

theorem Moved.trans {s s' s'' : Stream} (first : s.Moved s') (second : s'.Moved s'') :
    s.Moved s'' := by
  obtain ⟨n, rfl⟩ := first
  obtain ⟨m, rfl⟩ := second
  exact ⟨n + m, advance_advance s n m⟩

theorem Moved.getp_le {s s' : Stream} (moved : s.Moved s') : s.getp ≤ s'.getp := by
  obtain ⟨n, rfl⟩ := moved
  exact Nat.le_add_right _ _

/-- A byte read through a pointer into the stream. -/
def fetchByte : Except Fault UInt8 :=
  if pnt < s.endp then .ok (s.byte pnt) else .error (.arrayIndex pnt)

/-- Bytes copied from a pointer into the stream; a copy of no bytes reads nothing. -/
def fetch (pnt n : Nat) : Except Fault (List UInt8) :=
  if n = 0 ∨ pnt + n ≤ s.endp then .ok (s.slice pnt n)
  else .error (.arrayIndex (max pnt s.endp))

end Stream

/-- `stream_getl`. `stream_get_ipv4` reads the same bytes; an address is kept here as the
number that `ntohl` gives. -/
def streamGetl : Except Fault (UInt32 × Stream) := do
  s.verifySane
  if s.readable < 4 then throw .assertion
  return (longOf (s.slice s.getp 4), s.advance 4)

/-- `stream_get`. -/
def streamGet (size : Nat) : Except Fault (List UInt8 × Stream) := do
  s.verifySane
  if s.readable < size then throw .assertion
  return (s.slice s.getp size, s.advance size)

/-- A stream with these bytes. -/
def streamOf (bytes : List UInt8) : Stream :=
  { getp := 0, endp := bytes.length, data := bytes }

/-! ## What a stream holds -/

/-- The bytes stand at an offset. -/
def Stream.Holds (bytes : List UInt8) : Prop :=
  bytes <+: s.contents.drop pnt

namespace Stream.Holds

variable {s : Stream} {pnt : Nat} {bytes rest : List UInt8}

theorem left (holds : s.Holds pnt (bytes ++ rest)) : s.Holds pnt bytes :=
  (List.prefix_append bytes rest).trans holds

theorem right (holds : s.Holds pnt (bytes ++ rest)) : s.Holds (pnt + bytes.length) rest := by
  obtain ⟨more, split⟩ := holds
  refine ⟨more, ?_⟩
  rw [← List.drop_drop, ← split, List.append_assoc, List.drop_left]

theorem inside (holds : s.Holds pnt bytes) (nonempty : bytes ≠ []) :
    pnt + bytes.length ≤ s.endp := by
  have fits := List.IsPrefix.length_le holds
  have pos := List.length_pos_iff.mpr nonempty
  rw [List.length_drop, Stream.contents, List.length_take] at fits
  omega

theorem slice_eq (holds : s.Holds pnt bytes) : s.slice pnt bytes.length = bytes :=
  (List.prefix_iff_eq_take.mp holds).symm

theorem byte_eq {b : UInt8} (holds : s.Holds pnt (b :: rest)) : s.byte pnt = b := by
  have below := holds.inside (List.cons_ne_nil _ _)
  rw [List.length_cons] at below
  obtain ⟨more, split⟩ := holds
  rw [byte_eq_contents (by omega), List.getD_eq_getElem?_getD]
  have first := congrArg (fun l => l[0]?) split
  simp only [List.getElem?_drop, Nat.add_zero] at first
  rw [← first]
  rfl

theorem fetchByte {b : UInt8} (holds : s.Holds pnt (b :: rest)) : s.fetchByte pnt = .ok b := by
  have below := holds.inside (List.cons_ne_nil _ _)
  rw [List.length_cons] at below
  rw [Stream.fetchByte, if_pos (by omega), holds.byte_eq]

theorem fetch (holds : s.Holds pnt bytes) : s.fetch pnt bytes.length = .ok bytes := by
  have there : bytes.length = 0 ∨ pnt + bytes.length ≤ s.endp := by
    cases bytes with
    | nil => exact .inl rfl
    | cons b rest => exact .inr (holds.inside (List.cons_ne_nil _ _))
  rw [Stream.fetch, if_pos there, holds.slice_eq]

end Stream.Holds

namespace Stream

theorem holds_slice (s : Stream) (pnt n : Nat) : s.Holds pnt (s.slice pnt n) :=
  List.take_prefix _ _

theorem length_slice {s : Stream} (sane : s.Sane) {pnt n : Nat} (inside : pnt + n ≤ s.endp) :
    (s.slice pnt n).length = n := by
  rw [slice, List.length_take, List.length_drop, length_contents sane]
  omega

theorem fetchByte_ok {s : Stream} {pnt : Nat} (below : pnt < s.endp) :
    s.fetchByte pnt = .ok (s.byte pnt) := if_pos below

theorem fetch_ok {s : Stream} {pnt n : Nat} (inside : pnt + n ≤ s.endp) :
    s.fetch pnt n = .ok (s.slice pnt n) := if_pos (.inr inside)

theorem slice_succ {s : Stream} (sane : s.Sane) {pnt n : Nat} (below : pnt < s.endp) :
    s.slice pnt (n + 1) = s.byte pnt :: s.slice (pnt + 1) n := by
  have inside : pnt < s.contents.length := by
    rw [length_contents sane]
    exact below
  rw [slice, slice, byte_eq_contents below, List.drop_eq_getElem_cons inside, List.take_succ_cons,
    List.getD_eq_getElem?_getD, List.getElem?_eq_getElem inside, Option.getD_some]

theorem slice_add (s : Stream) (pnt n m : Nat) :
    s.slice pnt (n + m) = s.slice pnt n ++ s.slice (pnt + n) m := by
  rw [slice, slice, slice, List.take_add, List.drop_drop]

end Stream

/-! A read that returns has moved `getp` over the bytes it took. -/

section Moves

theorem streamGetc_advance (s : Stream) :
    Ensures (fun _ => True) (fun read => read.2 = s.advance 1) (streamGetc s) := by
  rw [streamGetc, Stream.verifySane]
  split_ifs <;> trivial

theorem streamGetc_bind {β : Type} {s : Stream} {next : UInt8 × Stream → Except Fault β}
    {result : β} (passed : streamGetc s >>= next = .ok result) :
    ∃ c, next (c, s.advance 1) = .ok result := by
  obtain ⟨⟨c, s'⟩, read, passed⟩ := bind_eq_ok passed
  obtain rfl : s' = _ := (streamGetc_advance s).of_ok read
  exact ⟨c, passed⟩

theorem streamGetw_advance (s : Stream) :
    Ensures (fun _ => True) (fun read => read.2 = s.advance 2) (streamGetw s) := by
  rw [streamGetw, Stream.verifySane]
  split_ifs <;> trivial

theorem streamForwardGetp_advance (s : Stream) (n : Nat) :
    Ensures (fun _ => True) (fun s' => s' = s.advance n) (streamForwardGetp s n) := by
  rw [streamForwardGetp, Stream.verifySane]
  split_ifs <;> trivial

theorem streamSetGetp_seek (s : Stream) (pnt : Nat) :
    Ensures (fun _ => True) (fun s' => s' = s.seek pnt) (streamSetGetp s pnt) := by
  rw [streamSetGetp, Stream.verifySane]
  split_ifs <;> trivial

end Moves

theorem streamGetl_ok {s : Stream} (sane : s.Sane) (available : s.getp + 4 ≤ s.endp) :
    streamGetl s = .ok (longOf (s.slice s.getp 4), s.advance 4) := by
  have enough : ¬ s.readable < 4 := by
    rw [Stream.readable]
    omega
  rw [streamGetl, verifySane_ok sane, if_neg enough]
  rfl

theorem streamGet_ok {s : Stream} (sane : s.Sane) {n : Nat} (available : s.getp + n ≤ s.endp) :
    streamGet s n = .ok (s.slice s.getp n, s.advance n) := by
  have enough : ¬ s.readable < n := by
    rw [Stream.readable]
    omega
  rw [streamGet, verifySane_ok sane, if_neg enough]
  rfl

/-! Reading where `getp` has been put. -/

section Seek

variable {s : Stream} (fits : s.endp ≤ s.size) {pnt : Nat}

include fits

theorem streamGetc_seek (below : pnt + 1 ≤ s.endp) :
    streamGetc (s.seek pnt) = .ok (s.byte pnt, s.seek (pnt + 1)) :=
  streamGetc_ok ⟨Nat.le_of_succ_le below, fits⟩ below

theorem streamGetc_seek_fault (inside : pnt ≤ s.endp) (short : s.endp < pnt + 1) :
    streamGetc (s.seek pnt) = .error .assertion := by
  have sane : (s.seek pnt).Sane := ⟨inside, fits⟩
  have few : (s.seek pnt).readable < 1 := by
    rw [Stream.readable, Stream.seek_endp, Stream.seek_getp]
    omega
  rw [streamGetc, verifySane_ok sane, if_pos few]
  rfl

theorem streamGetw_seek (below : pnt + 2 ≤ s.endp) :
    streamGetw (s.seek pnt) = .ok (word (s.byte pnt) (s.byte (pnt + 1)), s.seek (pnt + 2)) :=
  streamGetw_ok ⟨Nat.le_trans (Nat.le_add_right _ _) below, fits⟩ below

theorem streamGetl_seek (below : pnt + 4 ≤ s.endp) :
    streamGetl (s.seek pnt) = .ok (longOf (s.slice pnt 4), s.seek (pnt + 4)) :=
  streamGetl_ok ⟨Nat.le_trans (Nat.le_add_right _ _) below, fits⟩ below

theorem streamGet_seek {n : Nat} (below : pnt + n ≤ s.endp) :
    streamGet (s.seek pnt) n = .ok (s.slice pnt n, s.seek (pnt + n)) := by
  have sane : (s.seek pnt).Sane := ⟨Nat.le_trans (Nat.le_add_right _ _) below, fits⟩
  exact streamGet_ok sane below

theorem streamForwardGetp_seek {n : Nat} (below : pnt + n ≤ s.endp) :
    streamForwardGetp (s.seek pnt) n = .ok (s.seek (pnt + n)) := by
  have sane : (s.seek pnt).Sane := ⟨Nat.le_trans (Nat.le_add_right _ _) below, fits⟩
  exact streamForwardGetp_ok sane below

theorem streamSetGetp_seek_ok {pos : Nat} (inside : pnt ≤ s.endp) (below : pos ≤ s.endp) :
    streamSetGetp (s.seek pnt) pos = .ok (s.seek pos) := by
  have sane : (s.seek pnt).Sane := ⟨inside, fits⟩
  exact streamSetGetp_ok sane below

end Seek

end Quagga.Lib
