import Quagga.Library.Outcomes

/-!
# The packet stream

`struct stream` is a data segment with two offsets into it: `getp`, where the next byte is
read, and `endp`, where valid data ends and the next byte is written. Every function of
`lib/stream.c` first asserts `getp ≤ endp ≤ size`; a read past `endp` or a write past the
segment calls `STREAM_BOUND_WARN`, which ends in `assert (0)`.

An assertion that fails ends the daemon, so the functions here return in `Except Fault`.
On a sane stream a read of two bytes succeeds exactly when two bytes are readable
(`streamGetw_ok`, `streamGetw_fault`), and a write appends to the contents
(`contents_append`).
-/

set_option autoImplicit false

namespace Quagga.Lib

open Library

/-- Ways in which a modelled C function does not return: an assertion fails or `zerror` stops the
daemon, `fscanf` is given the null pointer of a failed `fopen`, an array is indexed outside its
bounds, or a pointer to freed memory is followed. -/
inductive Fault where
  | assertion
  | nullFile
  | arrayIndex (index : Nat)
  | dangling (address : Nat)
  deriving DecidableEq, Repr

/-- `struct stream`, without the link that `stream_fifo` uses. -/
structure Stream where
  getp : Nat
  endp : Nat
  data : List UInt8
  deriving DecidableEq, Repr

variable (s : Stream)

namespace Stream

/-- The size of the buffer. -/
def size : Nat := s.data.length

/-- The valid data of a stream. -/
def contents : List UInt8 := s.data.take s.endp

/-- `getp <= endp <= size`. -/
structure Sane (s : Stream) : Prop where
  getp_le : s.getp ≤ s.endp
  endp_le : s.endp ≤ s.size

instance (s : Stream) : Decidable s.Sane :=
  decidable_of_iff (s.getp ≤ s.endp ∧ s.endp ≤ s.size)
    ⟨fun h => ⟨h.1, h.2⟩, fun h => ⟨h.getp_le, h.endp_le⟩⟩

/-- `STREAM_VERIFY_SANE`. -/
def verifySane : Except Fault Unit :=
  if s.Sane then .ok () else .error .assertion

/-- `STREAM_READABLE`. -/
def readable : Nat := s.endp - s.getp

/-- `STREAM_WRITEABLE`. -/
def writeable : Nat := s.size - s.endp

/-- A byte of the buffer. -/
def byte (offset : Nat) : UInt8 := s.data.getD offset 0

end Stream

/-- Replace the bytes of a segment from an offset on. -/
def overlay (data : List UInt8) (offset : Nat) (bytes : List UInt8) : List UInt8 :=
  data.take offset ++ bytes ++ data.drop (offset + bytes.length)

/-- Write bytes at `endp` and advance it. -/
def Stream.append (bytes : List UInt8) : Stream :=
  { s with data := overlay s.data s.endp bytes, endp := s.endp + bytes.length }

/-! ## Words in network byte order -/

/-- `w = hi << 8; w |= lo`. -/
def word (hi lo : UInt8) : UInt16 := UInt16.ofNat (hi.toNat * 256 + lo.toNat)

variable (w : UInt16)

/-- `(u_char)(w >> 8)`. -/
def hiByte : UInt8 := UInt8.ofNat (w.toNat / 256)

/-- `(u_char) w`. -/
def loByte : UInt8 := UInt8.ofNat w.toNat

theorem word_hiByte_loByte : word (hiByte w) (loByte w) = w := by
  have bound := w.toNat_lt
  apply UInt16.toNat_inj.mp
  simp only [word, hiByte, loByte, UInt8.toNat_ofNat', UInt16.toNat_ofNat']
  omega

/-! ## Reading -/

/-- `stream_getc`. -/
def streamGetc : Except Fault (UInt8 × Stream) := do
  s.verifySane
  if s.readable < 1 then throw .assertion
  return (s.byte s.getp, { s with getp := s.getp + 1 })

/-- `stream_getw`. -/
def streamGetw : Except Fault (UInt16 × Stream) := do
  s.verifySane
  if s.readable < 2 then throw .assertion
  return (word (s.byte s.getp) (s.byte (s.getp + 1)), { s with getp := s.getp + 2 })

/-- `stream_getc_from`. -/
def streamGetcFrom (from' : Nat) : Except Fault UInt8 := do
  s.verifySane
  if ¬ from' + 1 ≤ s.endp then throw .assertion
  return s.byte from'

/-- `stream_getw_from`. -/
def streamGetwFrom (from' : Nat) : Except Fault UInt16 := do
  s.verifySane
  if ¬ from' + 2 ≤ s.endp then throw .assertion
  return word (s.byte from') (s.byte (from' + 1))

/-- `stream_forward_getp`. -/
def streamForwardGetp (size : Nat) : Except Fault Stream := do
  s.verifySane
  if ¬ s.getp + size ≤ s.endp then throw .assertion
  return { s with getp := s.getp + size }

/-- `stream_set_getp`. -/
def streamSetGetp (pos : Nat) : Except Fault Stream := do
  s.verifySane
  if ¬ pos ≤ s.endp then throw .assertion
  return { s with getp := pos }

/-- `stream_get_endp`. -/
def streamGetEndp : Except Fault Nat := do
  s.verifySane
  return s.endp

/-! ## Writing -/

/-- `stream_new`. The segment is not cleared; its bytes are read only below `endp`. -/
def streamNew (size : Nat) : Stream := { getp := 0, endp := 0, data := List.replicate size 0 }

/-- `stream_putc`. -/
def streamPutc (c : UInt8) : Except Fault Stream := do
  s.verifySane
  if s.writeable < 1 then throw .assertion
  return s.append [c]

/-- `stream_putw`. -/
def streamPutw : Except Fault Stream := do
  s.verifySane
  if s.writeable < 2 then throw .assertion
  return s.append [hiByte w, loByte w]

/-- `stream_putw_at`. -/
def streamPutwAt (putp : Nat) (w : UInt16) : Except Fault Stream := do
  s.verifySane
  if ¬ putp + 2 ≤ s.endp then throw .assertion
  return { s with data := overlay s.data putp [hiByte w, loByte w] }

/-- `stream_reset`. -/
def streamReset : Except Fault Stream := do
  s.verifySane
  return { s with getp := 0, endp := 0 }

/-- What one nonblocking `read` of the socket gives: some bytes, the end of the
connection, an error that a retry may clear, or another error. -/
inductive SocketRead where
  | bytes (received : List UInt8)
  | closed
  | retry
  | fatal
  deriving DecidableEq, Repr

/-- `stream_read_try`: at most `size` bytes are appended; the result is their number, `-2`
for an error that may be retried and `-1` for another error. -/
def streamReadTry (size : Nat) (socket : SocketRead) : Except Fault (Int × Stream) := do
  s.verifySane
  if s.writeable < size then throw .assertion
  match socket with
  | .bytes received => return (((received.take size).length : Int), s.append (received.take size))
  | .closed => return (0, s)
  | .retry => return (-2, s)
  | .fatal => return (-1, s)

/-! ## What the functions do to a sane stream -/

variable {s : Stream} {offset : Nat} {bytes : List UInt8}

section

variable (sane : s.Sane)

include sane

theorem verifySane_ok : s.verifySane = .ok () := if_pos sane

theorem streamGetc_ok (available : s.getp + 1 ≤ s.endp) :
    streamGetc s = .ok (s.byte s.getp, { s with getp := s.getp + 1 }) := by
  have enough : ¬ s.readable < 1 := by
    rw [Stream.readable]
    omega
  rw [streamGetc, verifySane_ok sane, if_neg enough]
  rfl

theorem streamGetw_ok (available : s.getp + 2 ≤ s.endp) :
    streamGetw s = .ok (word (s.byte s.getp) (s.byte (s.getp + 1)),
      { s with getp := s.getp + 2 }) := by
  have enough : ¬ s.readable < 2 := by
    rw [Stream.readable]
    omega
  rw [streamGetw, verifySane_ok sane, if_neg enough]
  rfl

theorem streamGetcFrom_ok (below : offset + 1 ≤ s.endp) :
    streamGetcFrom s offset = .ok (s.byte offset) := by
  rw [streamGetcFrom, verifySane_ok sane, if_neg (not_not.mpr below)]
  rfl

theorem streamGetwFrom_ok (below : offset + 2 ≤ s.endp) :
    streamGetwFrom s offset = .ok (word (s.byte offset) (s.byte (offset + 1))) := by
  rw [streamGetwFrom, verifySane_ok sane, if_neg (not_not.mpr below)]
  rfl

theorem streamForwardGetp_ok {n : Nat} (available : s.getp + n ≤ s.endp) :
    streamForwardGetp s n = .ok { s with getp := s.getp + n } := by
  rw [streamForwardGetp, verifySane_ok sane, if_neg (not_not.mpr available)]
  rfl

theorem streamSetGetp_ok {pos : Nat} (inside : pos ≤ s.endp) :
    streamSetGetp s pos = .ok { s with getp := pos } := by
  rw [streamSetGetp, verifySane_ok sane, if_neg (not_not.mpr inside)]
  rfl

theorem streamGetEndp_ok : streamGetEndp s = .ok s.endp := by
  rw [streamGetEndp, verifySane_ok sane]
  rfl

/-- **A read of two bytes where fewer are left fails the bound assertion.** -/
theorem streamGetw_fault (short : s.endp < s.getp + 2) : streamGetw s = .error .assertion := by
  have few : s.readable < 2 := by
    rw [Stream.readable]
    omega
  rw [streamGetw, verifySane_ok sane, if_pos few]
  rfl

end

theorem length_overlay {data : List UInt8} (fits : offset + bytes.length ≤ data.length) :
    (overlay data offset bytes).length = data.length := by
  simp only [overlay, List.length_append, List.length_take, List.length_drop]
  omega

/-- Bytes written at `endp` are appended to the contents. -/
theorem contents_append (fits : s.endp + bytes.length ≤ s.size) :
    (s.append bytes).contents = s.contents ++ bytes := by
  have inside : s.endp ≤ s.data.length := by
    unfold Stream.size at fits
    omega
  have front : (s.data.take s.endp ++ bytes).length = s.endp + bytes.length := by
    rw [List.length_append, List.length_take, Nat.min_eq_left inside]
  simp only [Stream.contents, Stream.append, overlay]
  rw [List.take_append_of_le_length (Nat.le_of_eq front.symm),
    List.take_of_length_le (Nat.le_of_eq front)]

theorem Stream.Sane.append (sane : s.Sane) (fits : s.endp + bytes.length ≤ s.size) :
    (s.append bytes).Sane where
  getp_le := by
    have := sane.getp_le
    simp only [Stream.append]
    omega
  endp_le := by
    have same : (s.append bytes).size = s.size := length_overlay fits
    rw [same]
    exact fits

theorem Stream.Sane.advance (sane : s.Sane) {n : Nat} (available : s.getp + n ≤ s.endp) :
    Stream.Sane { s with getp := s.getp + n } :=
  ⟨available, sane.endp_le⟩

/-- What is read below `endp` is the contents. -/
theorem byte_eq_contents (below : offset < s.endp) : s.byte offset = s.contents.getD offset 0 := by
  simp [Stream.byte, Stream.contents, below]

theorem length_contents (sane : s.Sane) : s.contents.length = s.endp := by
  rw [Stream.contents, List.length_take]
  exact Nat.min_eq_left sane.endp_le

/-- The bytes of a word. -/
def wordBytes : List UInt8 := [hiByte w, loByte w]

end Quagga.Lib
