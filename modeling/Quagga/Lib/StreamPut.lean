import Quagga.Lib.StreamBytes

/-!
# Writing to a stream

Messages are built by a sequence of writes, of which nearly all assert that there is room. The
exception is `stream_put`: it writes what still fits and drops the rest.

`Appends` says what a function that writes does to a sane stream: it appends certain bytes if there
is room for them. A sequence of such writes appends what its parts append (`Appends.bind`), and a
length that is filled in afterwards is in its place (`Appends.sizeWord`).
-/

set_option autoImplicit false

namespace Quagga.Lib

open Library

/-! ## The functions -/

/-- `stream_putl`. `stream_put_ipv4` and `stream_put_in_addr` write the same bytes; an address is
kept here as the number that `ntohl` gives. -/
def streamPutl (s : Stream) (l : UInt32) : Except Fault Stream := do
  s.verifySane
  if s.writeable < 4 then throw .assertion
  return s.append (longBytes l)

/-- `stream_putc_at`. -/
def streamPutcAt (s : Stream) (putp : Nat) (c : UInt8) : Except Fault Stream := do
  s.verifySane
  if ¬ putp + 1 ≤ s.endp then throw .assertion
  return { s with data := overlay s.data putp [c] }

/-- `stream_put_prefix`. There has to be room for the bytes of the prefix, but the byte of its
length comes before them: where it takes the room of the last byte, that byte is written behind the
segment. -/
def streamPutPrefix (s : Stream) (prefixlen : UInt8) (bytes : List UInt8) :
    Except Fault Stream := do
  s.verifySane
  if s.writeable < bytes.length then throw .assertion
  let s ← streamPutc s prefixlen
  if s.writeable < bytes.length then throw (.arrayIndex s.size)
  return s.append bytes

/-! ## Appending -/

namespace Stream

variable {s s' s'' : Stream} {bytes more : List UInt8}

section

variable (sane : s.Sane) (room : bytes.length ≤ s.writeable)
include sane room

theorem fits_of_writeable :
    s.endp + bytes.length ≤ s.size := by
  have := sane.endp_le
  rw [writeable] at room
  omega

theorem holds_append :
    (s.append bytes).Holds s.endp bytes := by
  have rest := @List.drop_left' _ _ bytes _ (length_contents sane)
  rw [Holds, contents_append (fits_of_writeable sane room)]
  exact rest.symm ▸ List.prefix_rfl

theorem append_sane : (s.append bytes).Sane :=
  sane.append (fits_of_writeable sane room)

theorem append_size :
    (s.append bytes).size = s.size :=
  length_overlay (fits_of_writeable sane room)

end

@[simp] theorem append_endp (s : Stream) (bytes : List UInt8) :
    (s.append bytes).endp = s.endp + bytes.length := rfl

theorem append_writeable (sane : s.Sane) (room : bytes.length ≤ s.writeable) :
    (s.append bytes).writeable = s.writeable - bytes.length := by
  rw [writeable, append_size sane room]
  exact Nat.sub_add_eq _ _ _

@[simp] theorem append_nil (s : Stream) : s.append [] = s := by
  simp [append, overlay]

theorem length_take_endp (sane : s.Sane) : (s.data.take s.endp).length = s.endp := by
  rw [List.length_take]
  exact Nat.min_eq_left sane.endp_le

theorem append_append (sane : s.Sane) :
    (s.append bytes).append more = s.append (bytes ++ more) := by
  have front : (s.data.take s.endp ++ bytes).length = s.endp + bytes.length := by
    rw [List.length_append, length_take_endp sane]
  have before : (overlay s.data s.endp bytes).take (s.endp + bytes.length) =
      s.data.take s.endp ++ bytes := by
    rw [overlay, List.take_left' front]
  have behind : (overlay s.data s.endp bytes).drop (s.endp + bytes.length + more.length) =
      s.data.drop (s.endp + (bytes ++ more).length) := by
    rw [overlay, ← List.drop_drop, List.drop_left' front, List.drop_drop, List.length_append,
      Nat.add_assoc]
  have data_eq : overlay (overlay s.data s.endp bytes) (s.endp + bytes.length) more =
      overlay s.data s.endp (bytes ++ more) := by
    rw [overlay, before, behind, overlay, List.append_assoc (s.data.take s.endp)]
  simp only [append, data_eq, List.length_append, Nat.add_assoc]

theorem overlay_append (sane : s.Sane) {old new : List UInt8} (same : new.length = old.length) :
    { s.append (bytes ++ old ++ more) with
      data := overlay (s.append (bytes ++ old ++ more)).data (s.endp + bytes.length) new } =
      s.append (bytes ++ new ++ more) := by
  have front : (s.data.take s.endp ++ bytes).length = s.endp + bytes.length := by
    rw [List.length_append, length_take_endp sane]
  have pieces : (s.append (bytes ++ old ++ more)).data =
      (s.data.take s.endp ++ bytes) ++ (old ++
        (more ++ s.data.drop (s.endp + (bytes ++ old ++ more).length))) := by
    simp only [append, overlay, List.append_assoc]
  rw [pieces, overlay, List.take_left' front, ← List.drop_drop, List.drop_left' front, same,
    List.drop_left]
  simp only [append, overlay, List.append_assoc, List.length_append, same]

end Stream

/-! ## Functions that append -/

/-- The function appends these bytes where there is room for them. -/
structure Appends (put : Stream → Except Fault Stream) (bytes : List UInt8) : Prop where
  fits : ∀ {s : Stream}, s.Sane → bytes.length ≤ s.writeable → put s = .ok (s.append bytes)

section Appends

variable {put next : Stream → Except Fault Stream} {bytes more : List UInt8}

/-- It does so behind bytes that have been appended already. -/
theorem Appends.after (appends : Appends put bytes) {s : Stream} (sane : s.Sane)
    {before : List UInt8} (room : (before ++ bytes).length ≤ s.writeable) :
    put (s.append before) = .ok (s.append (before ++ bytes)) := by
  rw [List.length_append] at room
  have first : before.length ≤ s.writeable := by omega
  have left := Stream.append_writeable sane first
  rw [appends.fits (Stream.append_sane sane first) (by omega), Stream.append_append sane]

theorem appends_nothing : Appends (fun s => .ok s) [] :=
  ⟨fun _ _ => by rw [Stream.append_nil]⟩

/-- **A sequence of writes.** -/
theorem Appends.bind (first : Appends put bytes) (second : Appends next more) :
    Appends (fun s => put s >>= next) (bytes ++ more) where
  fits {s} sane room := by
    have here : bytes.length ≤ s.writeable := by
      rw [List.length_append] at room
      omega
    rw [first.fits sane here, ok_bind, second.after sane room]

theorem Appends.foldlM {α : Type} {put : Stream → α → Except Fault Stream}
    {bytes : α → List UInt8} (each : ∀ a, Appends (fun s => put s a) (bytes a)) (values : List α) :
    Appends (fun s => values.foldlM put s) (values.flatMap bytes) := by
  induction values with
  | nil => exact appends_nothing
  | cons a rest ih =>
    exact (each a).bind ih

end Appends

/-! ## The functions of the stream append -/

/-- A function that asserts that there is room for its bytes. -/
theorem checked_appends {bytes : List UInt8} {n : Nat} (length_eq : bytes.length = n) :
    Appends (fun s => do
        s.verifySane
        if s.writeable < n then throw .assertion
        return s.append bytes) bytes where
  fits {s} sane room := by
    have enough : ¬ s.writeable < n := by omega
    rw [verifySane_ok sane, if_neg enough]
    rfl

theorem appends_streamPutc (c : UInt8) : Appends (fun s => streamPutc s c) [c] :=
  checked_appends rfl

theorem appends_streamPutw (w : UInt16) : Appends (fun s => streamPutw s w) (wordBytes w) :=
  checked_appends rfl

theorem appends_streamPutl (l : UInt32) : Appends (fun s => streamPutl s l) (longBytes l) :=
  checked_appends rfl

theorem appends_streamPutPrefix (prefixlen : UInt8) (bytes : List UInt8) :
    Appends (fun s => streamPutPrefix s prefixlen bytes) (prefixlen :: bytes) where
  fits {s} sane room := by
    rw [List.length_cons] at room
    have one : [prefixlen].length ≤ s.writeable := by
      rw [List.length_singleton]
      omega
    have left := Stream.append_writeable sane one
    rw [List.length_singleton] at left
    have enough : ¬ s.writeable < bytes.length := by omega
    have rest : ¬ (s.append [prefixlen]).writeable < bytes.length := by omega
    have joined : (s.append [prefixlen]).append bytes = s.append ([prefixlen] ++ bytes) :=
      Stream.append_append sane
    rw [streamPutPrefix, verifySane_ok sane, ok_bind, if_neg enough]
    rw [(appends_streamPutc prefixlen).fits sane one, ok_bind, if_neg rest]
    exact congrArg Except.ok joined

/-! ## Lengths that are filled in -/

theorem streamPutwAt_append {s : Stream} (sane : s.Sane) {before after : List UInt8} {old : UInt16}
    (room : (before ++ wordBytes old ++ after).length ≤ s.writeable) (w : UInt16) :
    streamPutwAt (s.append (before ++ wordBytes old ++ after)) (s.endp + before.length) w =
      .ok (s.append (before ++ wordBytes w ++ after)) := by
  have inside : ¬ ¬ s.endp + before.length + 2 ≤
      (s.append (before ++ wordBytes old ++ after)).endp := by
    rw [Stream.append_endp, List.length_append, List.length_append, length_wordBytes]
    omega
  rw [streamPutwAt, verifySane_ok (Stream.append_sane sane room), if_neg inside]
  exact congrArg Except.ok (Stream.overlay_append sane rfl)

theorem streamPutcAt_append {s : Stream} (sane : s.Sane) {before after : List UInt8} {old : UInt8}
    (room : (before ++ [old] ++ after).length ≤ s.writeable) (c : UInt8) :
    streamPutcAt (s.append (before ++ [old] ++ after)) (s.endp + before.length) c =
      .ok (s.append (before ++ [c] ++ after)) := by
  have inside : ¬ ¬ s.endp + before.length + 1 ≤ (s.append (before ++ [old] ++ after)).endp := by
    rw [Stream.append_endp, List.length_append, List.length_append, List.length_singleton]
    omega
  rw [streamPutcAt, verifySane_ok (Stream.append_sane sane room), if_neg inside]
  exact congrArg Except.ok (Stream.overlay_append sane rfl)

/-- A word that is written first and set afterwards to the number of bytes behind it. -/
theorem Appends.sizeWord {body : Stream → Except Fault Stream} {bytes : List UInt8}
    (appends : Appends body bytes) :
    Appends (fun s => do
        let sizep ← streamGetEndp s
        let s ← streamPutw s 0
        let s ← body s
        let endp ← streamGetEndp s
        streamPutwAt s sizep (UInt16.ofNat (endp - sizep - 2)))
      (wordBytes (UInt16.ofNat bytes.length) ++ bytes) where
  fits {s} sane room := by
    have zero : (wordBytes 0 ++ bytes).length ≤ s.writeable := room
    have written := ((appends_streamPutw 0).bind appends).fits sane zero
    have size : (s.append (wordBytes 0 ++ bytes)).endp - s.endp - 2 = bytes.length := by
      rw [Stream.append_endp, List.length_append, length_wordBytes]
      omega
    rw [streamGetEndp_ok sane, ok_bind, ← bind_assoc, written, ok_bind,
      streamGetEndp_ok (Stream.append_sane sane zero), ok_bind, size]
    exact @streamPutwAt_append s sane [] bytes 0 zero _

end Quagga.Lib
