import Mathlib.Algebra.Group.Nat.Defs
import Quagga.Lib.StreamPut

/-!
# The stream invariant

`stream.c` says of its streams that `getp <= endp <= size` holds before and after every function.
Each of the exported functions asserts it on entry and then makes a check of its own. Here they are
taken together, with every write to the data segment checked against the end of the segment, and
with the sums that the checks form in `size_t`.

From a sane stream a call fails an assertion, or it returns with a sane stream and has written
inside the segment, except for four kinds of calls (`keepsSane_iff`). `stream_put_prefix` compares
the room with the octets of the prefix alone, so where there is room for just these, the last one is
written behind the segment. The `*_at` writers and `stream_forward_endp` add to an offset before
they compare, and the sum may wrap round. `stream_recvfrom` and `stream_recvmsg` add what the system
call returns to `endp`, and with `MSG_TRUNC` or several buffers this may be more than was asked for.
-/

set_option autoImplicit false

namespace Quagga.Lib

open Library

/-! ## Segments and sizes -/

/-- A sum in `size_t`, which has 64 bits. -/
def sizeAdd (a b : Nat) : Nat := (a + b) % 2 ^ 64

/-- The bytes of a number of eight bytes in network byte order. -/
def quadBytes (q : UInt64) : List UInt8 :=
  longBytes (UInt32.ofNat (q.toNat / 2 ^ 32)) ++ longBytes (UInt32.ofNat q.toNat)

@[simp] theorem length_quadBytes (q : UInt64) : (quadBytes q).length = 8 := rfl

/-- The first bytes of the memory that a pointer is to. -/
def octets (memory : Nat → UInt8) (size : Nat) : List UInt8 := (List.range size).map memory

@[simp] theorem length_octets (memory : Nat → UInt8) (size : Nat) :
    (octets memory size).length = size := by simp [octets]

/-- What `recvfrom` and `recvmsg` do: they store some bytes in the buffer of the given size, and
return a number of bytes, or a negative number. With the flag `MSG_TRUNC` it is the length of the
datagram, and with several buffers it counts the bytes in all of them. -/
structure Receiving (size : Nat) where
  stored : List UInt8
  nbytes : Int
  stored_le : stored.length ≤ size

/-- What `read` and `readn` do: no more bytes are returned than are stored. `readn` may store bytes
and still return an error. -/
structure Reading (size : Nat) extends Receiving size where
  nbytes_le : nbytes ≤ stored.length

variable (s : Stream)

namespace Stream

/-- Write to the segment. The first byte that is not inside it is a fault. -/
def store (offset : Nat) (bytes : List UInt8) : Except Fault Stream :=
  if offset + bytes.length ≤ s.size then .ok { s with data := overlay s.data offset bytes }
  else .error (.arrayIndex (max offset s.size))

/-- The functions that put bytes at `endp`. -/
def putBytes (bytes : List UInt8) : Except Fault Stream := do
  s.verifySane
  if s.writeable < bytes.length then .error .assertion else do
    let s ← s.store s.endp bytes
    return { s with endp := s.endp + bytes.length }

/-- The functions that put bytes at an offset. -/
def putBytesAt (putp : Nat) (bytes : List UInt8) : Except Fault Stream := do
  s.verifySane
  if ¬ sizeAdd putp bytes.length ≤ s.endp then .error .assertion else s.store putp bytes

/-- The functions that get bytes at `getp`, by what they do to the stream. -/
def getBytes (size : Nat) : Except Fault Stream := do
  s.verifySane
  if s.readable < size then .error .assertion else .ok { s with getp := s.getp + size }

/-- The functions that get bytes at an offset; they leave the stream alone. -/
def getBytesFrom (from' size : Nat) : Except Fault Stream := do
  s.verifySane
  if ¬ sizeAdd from' size ≤ s.endp then .error .assertion else .ok s

/-- The functions that read from a socket. -/
def receive (size : Nat) (receiving : Receiving size) : Except Fault Stream := do
  s.verifySane
  if s.writeable < size then .error .assertion else do
    let s ← s.store s.endp receiving.stored
    return if 0 < receiving.nbytes then { s with endp := s.endp + receiving.nbytes.toNat } else s

/-- The functions that only verify the stream. -/
def look : Except Fault Stream := do
  s.verifySane
  return s

/-- `stream_put` and `stream_write`: `CHECK_SIZE` first truncates the size. -/
def putTruncated (src : Nat → UInt8) (size : Nat) : Except Fault Stream :=
  s.putBytes (octets src (if sizeAdd s.endp size > s.size then s.size - s.endp else size))

end Stream

/-- `stream_copy`. -/
def streamCopy (new src : Stream) : Except Fault Stream := do
  src.verifySane
  if ¬ new.size ≥ src.endp then .error .assertion
  else Stream.store { new with endp := src.endp, getp := src.getp } 0 src.contents

/-- `stream_new`, with its assertion. -/
def streamNewAsserted (size : Nat) : Except Fault Stream :=
  if ¬ size > 0 then .error .assertion else .ok (streamNew size)

/-- `stream_dup`. -/
def streamDup : Except Fault Stream := do
  s.verifySane
  let new ← streamNewAsserted s.endp
  streamCopy new s

/-- `stream_resize`. What `XREALLOC` adds to the segment is `fresh`. -/
def streamResize (newsize : Nat) (fresh : Nat → UInt8) : Except Fault Stream := do
  s.verifySane
  let data := s.data.take newsize ++ octets fresh (newsize - s.size)
  let endp := if s.endp > newsize then newsize else s.endp
  let getp := if s.getp > endp then endp else s.getp
  Stream.look { data, endp, getp }

/-- `stream_set_getp` and `stream_forward_getp`, with the position they check and set. -/
def streamMoveGetp (pos : Nat) : Except Fault Stream := do
  s.verifySane
  if ¬ pos ≤ s.endp then .error .assertion else .ok { s with getp := pos }

/-- `stream_forward_endp`. -/
def streamForwardEndp (size : Nat) : Except Fault Stream := do
  s.verifySane
  if ¬ sizeAdd s.endp size ≤ s.size then .error .assertion
  else .ok { s with endp := sizeAdd s.endp size }

/-- `PSIZE`. -/
def psizeOf (prefixlen : UInt8) : Nat := (prefixlen.toNat + 7) / 8

/-! ## The exported functions -/

/-- The exported functions of `stream.c` with their arguments, apart from `stream_free` and those
on a `stream_fifo`, which link whole streams. -/
inductive StreamCall where
  | new (size : UInt64)
  | copy (src : Stream)
  | dup
  | resize (newsize : UInt64) (fresh : Nat → UInt8)
  | getGetp
  | getEndp
  | getSize
  | pnt
  | empty
  | flush
  | setGetp (pos : UInt64)
  | forwardGetp (size : UInt64)
  | forwardEndp (size : UInt64)
  | get (size : UInt64)
  | getc
  | getw
  | getl
  | getq
  | getIpv4
  | getcFrom (from' : UInt64)
  | getwFrom (from' : UInt64)
  | getlFrom (from' : UInt64)
  | getqFrom (from' : UInt64)
  | put (src : Option (Nat → UInt8)) (size : UInt64)
  | write (ptr : Nat → UInt8) (size : UInt64)
  | putc (c : UInt8)
  | putw (w : UInt16)
  | putl (l : UInt32)
  | putq (q : UInt64)
  | putIpv4 (l : UInt32)
  | putInAddr (addr : UInt32)
  | putcAt (putp : UInt64) (c : UInt8)
  | putwAt (putp : UInt64) (w : UInt16)
  | putlAt (putp : UInt64) (l : UInt32)
  | putqAt (putp : UInt64) (q : UInt64)
  | putPrefix (prefixlen : UInt8) (address : Nat → UInt8)
  | read (size : UInt64) (reading : Reading size.toNat)
  | readUnblock (size : UInt64) (reading : Reading size.toNat)
  | readTry (size : UInt64) (reading : Reading size.toNat)
  | recvfrom (size : UInt64) (receiving : Receiving size.toNat)
  | recvmsg (iovlen : Nat) (size : UInt64) (receiving : Receiving size.toNat)
  | reset

/-- The stream that a call leaves or makes. Numbers of several bytes and addresses are written in
network byte order. -/
def StreamCall.perform : StreamCall → Except Fault Stream
  | .new size => streamNewAsserted size.toNat
  | .copy src => streamCopy s src
  | .dup => streamDup s
  | .resize newsize fresh => streamResize s newsize.toNat fresh
  | .getGetp | .getEndp | .getSize | .pnt | .empty | .flush => s.look
  | .setGetp pos => streamMoveGetp s pos.toNat
  | .forwardGetp size => streamMoveGetp s (sizeAdd s.getp size.toNat)
  | .forwardEndp size => streamForwardEndp s size.toNat
  | .get size => s.getBytes size.toNat
  | .getc => s.getBytes 1
  | .getw => s.getBytes 2
  | .getl => s.getBytes 4
  | .getq => s.getBytes 8
  | .getIpv4 => s.getBytes 4
  | .getcFrom from' => s.getBytesFrom from'.toNat 1
  | .getwFrom from' => s.getBytesFrom from'.toNat 2
  | .getlFrom from' => s.getBytesFrom from'.toNat 4
  | .getqFrom from' => s.getBytesFrom from'.toNat 8
  | .put src size => s.putTruncated (src.getD fun _ => 0) size.toNat
  | .write ptr size => s.putTruncated ptr size.toNat
  | .putc c => s.putBytes [c]
  | .putw w => s.putBytes (wordBytes w)
  | .putl l => s.putBytes (longBytes l)
  | .putq q => s.putBytes (quadBytes q)
  | .putIpv4 l => s.putBytes (longBytes l)
  | .putInAddr addr => s.putBytes (longBytes addr)
  | .putcAt putp c => s.putBytesAt putp.toNat [c]
  | .putwAt putp w => s.putBytesAt putp.toNat (wordBytes w)
  | .putlAt putp l => s.putBytesAt putp.toNat (longBytes l)
  | .putqAt putp q => s.putBytesAt putp.toNat (quadBytes q)
  | .putPrefix prefixlen address => streamPutPrefix s prefixlen (octets address (psizeOf prefixlen))
  | .read size reading => s.receive size.toNat reading.toReceiving
  | .readUnblock size reading => s.receive size.toNat reading.toReceiving
  | .readTry size reading => s.receive size.toNat reading.toReceiving
  | .recvfrom size receiving => s.receive size.toNat receiving
  | .recvmsg iovlen size receiving => do
      s.verifySane
      if ¬ iovlen > 0 then .error .assertion else s.receive size.toNat receiving
  | .reset => streamReset s

/-! ## What the functions do to a sane stream -/

section Sane

variable {s : Stream} (sane : s.Sane)
include sane

/-- Bytes that are put after the check are inside the segment, so they are appended. -/
theorem putBytes_of_sane (bytes : List UInt8) :
    s.putBytes bytes =
      if s.writeable < bytes.length then .error .assertion else .ok (s.append bytes) := by
  rw [Stream.putBytes, verifySane_ok sane]
  split_ifs with short
  · rfl
  · rw [Stream.store, if_pos (Stream.fits_of_writeable sane (Nat.not_lt.mp short))]
    rfl

end Sane

/-! ## The invariant -/

/-- A call fails an assertion, or it returns and leaves a sane stream. A write outside the segment
is a fault of another kind. -/
def KeepsSane (result : Except Fault Stream) : Prop :=
  result = .error .assertion ∨ ∃ s', result = .ok s' ∧ s'.Sane

@[simp] theorem keepsSane_assertion : KeepsSane (.error .assertion) := .inl rfl

@[simp] theorem keepsSane_ok (s : Stream) : KeepsSane (.ok s) ↔ s.Sane := by
  simp [KeepsSane]

@[simp] theorem not_keepsSane_arrayIndex (index : Nat) :
    ¬ KeepsSane (.error (.arrayIndex index)) := by
  simp [KeepsSane]

theorem keepsSane_if {c : Prop} [Decidable c] {next : Except Fault Stream} :
    KeepsSane (if c then .error .assertion else next) ↔ (¬ c → KeepsSane next) := by
  split_ifs with check <;> simp [check]

theorem keepsSane_store {s : Stream} (sane : s.Sane) (offset : Nat) (bytes : List UInt8) :
    KeepsSane (s.store offset bytes) ↔ offset + bytes.length ≤ s.size := by
  rw [Stream.store]
  split_ifs with inside
  · simp only [keepsSane_ok, inside, iff_true]
    exact ⟨sane.getp_le, le_of_le_of_eq sane.endp_le (length_overlay inside).symm⟩
  · simp [inside]

section Calls

variable {s : Stream} (sane : s.Sane)
include sane

theorem keepsSane_verified {next : Unit → Except Fault Stream} :
    KeepsSane (s.verifySane >>= next) ↔ KeepsSane (next ()) := by
  rw [verifySane_ok sane, ok_bind]

theorem keepsSane_putBytes (bytes : List UInt8) : KeepsSane (s.putBytes bytes) := by
  rw [putBytes_of_sane sane, keepsSane_if]
  intro room
  exact (keepsSane_ok _).mpr (Stream.append_sane sane (Nat.not_lt.mp room))

/-- A writer at an offset is stopped by its check, unless the sum wraps round. -/
theorem keepsSane_putBytesAt (allocated : s.size < 2 ^ 63) {putp : Nat} (offset : putp < 2 ^ 64)
    {bytes : List UInt8} (some : 0 < bytes.length) (few : bytes.length ≤ 8) :
    KeepsSane (s.putBytesAt putp bytes) ↔
      (putp + bytes.length < 2 ^ 64 ∨ s.endp + 2 ^ 64 < putp + bytes.length) := by
  have bound := sane.endp_le
  rw [Stream.putBytesAt, keepsSane_verified sane, keepsSane_if, keepsSane_store sane,
    sizeAdd]
  omega

/-- What is received keeps `endp` in the segment exactly if no more bytes are counted than fit. -/
theorem keepsSane_receive {size : Nat} (receiving : Receiving size) :
    KeepsSane (s.receive size receiving) ↔
      (s.writeable < size ∨ receiving.nbytes ≤ s.writeable) := by
  have stored := receiving.stored_le
  have ordered := sane.getp_le
  have bound := sane.endp_le
  rw [Stream.receive, keepsSane_verified sane, keepsSane_if, ← Nat.not_le, ← imp_iff_not_or,
    not_not]
  refine forall_congr' fun room => ?_
  rw [Stream.writeable] at room ⊢
  have fits : s.endp + receiving.stored.length ≤ s.size := by omega
  have same := length_overlay fits
  rw [Stream.store, if_pos fits]
  refine (keepsSane_ok _).trans ?_
  unfold Stream.size at *
  split_ifs with some
  · constructor
    · intro inside
      have := inside.endp_le
      simp only [Stream.size] at this
      omega
    · intro few
      refine ⟨by simp only; omega, ?_⟩
      simp only [Stream.size]
      omega
  · refine iff_of_true ⟨ordered, ?_⟩ (by omega)
    simp only [Stream.size]
    omega

theorem keepsSane_read {size : Nat} (reading : Reading size) :
    KeepsSane (s.receive size reading.toReceiving) := by
  have stored := reading.stored_le
  have counted := reading.nbytes_le
  refine (keepsSane_receive sane _).mpr ?_
  omega

theorem keepsSane_getBytes (size : Nat) : KeepsSane (s.getBytes size) := by
  have ordered := sane.getp_le
  rw [Stream.getBytes, keepsSane_verified sane, keepsSane_if, Stream.readable]
  intro available
  exact (keepsSane_ok _).mpr ⟨by simp; omega, sane.endp_le⟩

theorem keepsSane_getBytesFrom (offset size : Nat) : KeepsSane (s.getBytesFrom offset size) := by
  rw [Stream.getBytesFrom, keepsSane_verified sane, keepsSane_if]
  exact fun _ => (keepsSane_ok s).mpr sane

theorem keepsSane_moveGetp (pos : Nat) : KeepsSane (streamMoveGetp s pos) := by
  rw [streamMoveGetp, keepsSane_verified sane, keepsSane_if, not_not]
  exact fun inside => (keepsSane_ok _).mpr ⟨inside, sane.endp_le⟩

theorem keepsSane_putPrefix (prefixlen : UInt8) (address : Nat → UInt8) :
    KeepsSane (streamPutPrefix s prefixlen (octets address (psizeOf prefixlen))) ↔
      (s.writeable ≠ psizeOf prefixlen ∨ s.writeable = 0) := by
  rw [streamPutPrefix, keepsSane_verified sane, length_octets]
  split_ifs with short
  · exact iff_of_true (.inl rfl) (.inl (by omega))
  by_cases room : 1 ≤ s.writeable
  · have left := Stream.append_writeable sane (show [prefixlen].length ≤ s.writeable from room)
    rw [List.length_singleton] at left
    rw [(appends_streamPutc prefixlen).fits sane room, ok_bind]
    split_ifs with behind
    · exact iff_of_false (not_keepsSane_arrayIndex _) (by omega)
    · refine iff_of_true ((keepsSane_ok _).mpr (Stream.append_sane (Stream.append_sane sane room)
        ?_)) (by omega)
      rw [length_octets]
      omega
  · have none : s.writeable = 0 := by omega
    rw [streamPutc, verifySane_ok sane, if_pos (by omega)]
    exact iff_of_true (.inl rfl) (.inr none)

theorem keepsSane_forwardEndp (allocated : s.size < 2 ^ 63) {size : Nat} (small : size < 2 ^ 64) :
    KeepsSane (streamForwardEndp s size) ↔
      (s.endp + size < 2 ^ 64 ∨ s.getp + 2 ^ 64 ≤ s.endp + size) := by
  have ordered := sane.getp_le
  have bound := sane.endp_le
  rw [streamForwardEndp, keepsSane_verified sane, keepsSane_if, keepsSane_ok, not_not, sizeAdd]
  constructor
  · intro kept
    have := fun inside => (kept inside).getp_le
    simp only at this
    omega
  · intro condition inside
    exact ⟨by simp; omega, inside⟩

end Calls

theorem keepsSane_look (s : Stream) : KeepsSane s.look := by
  rw [Stream.look, Stream.verifySane]
  split_ifs with sane
  · exact (keepsSane_ok s).mpr sane
  · exact keepsSane_assertion

theorem keepsSane_copy (new src : Stream) : KeepsSane (streamCopy new src) := by
  by_cases sane : src.Sane
  · rw [streamCopy, keepsSane_verified sane, keepsSane_if, not_not]
    intro room
    have ready : Stream.Sane { new with endp := src.endp, getp := src.getp } :=
      ⟨sane.getp_le, room⟩
    rw [keepsSane_store ready, length_contents sane, Nat.zero_add]
    exact room
  · rw [streamCopy, Stream.verifySane, if_neg sane]
    exact keepsSane_assertion

theorem keepsSane_new (size : Nat) : KeepsSane (streamNewAsserted size) := by
  rw [streamNewAsserted, keepsSane_if, keepsSane_ok]
  exact fun _ => ⟨Nat.le_refl _, Nat.zero_le _⟩

theorem keepsSane_dup {s : Stream} (sane : s.Sane) : KeepsSane (streamDup s) := by
  rw [streamDup, keepsSane_verified sane, streamNewAsserted]
  split_ifs
  · exact keepsSane_copy _ s
  · exact keepsSane_assertion

/-- The calls by which the invariant is kept. The others are: a prefix for whose octets there is just
enough room, sums that wrap round to an offset that passes the check, and system calls that return
more bytes than there is room for. -/
def StreamCall.Inside (s : Stream) : StreamCall → Prop
  | .putPrefix prefixlen _ => s.writeable ≠ psizeOf prefixlen ∨ s.writeable = 0
  | .putcAt putp _ => putp.toNat + 1 < 2 ^ 64 ∨ s.endp + 2 ^ 64 < putp.toNat + 1
  | .putwAt putp _ => putp.toNat + 2 < 2 ^ 64 ∨ s.endp + 2 ^ 64 < putp.toNat + 2
  | .putlAt putp _ => putp.toNat + 4 < 2 ^ 64 ∨ s.endp + 2 ^ 64 < putp.toNat + 4
  | .putqAt putp _ => putp.toNat + 8 < 2 ^ 64 ∨ s.endp + 2 ^ 64 < putp.toNat + 8
  | .forwardEndp size =>
    s.endp + size.toNat < 2 ^ 64 ∨ s.getp + 2 ^ 64 ≤ s.endp + size.toNat
  | .recvfrom size receiving => s.writeable < size.toNat ∨ receiving.nbytes ≤ s.writeable
  | .recvmsg iovlen size receiving =>
    0 < iovlen → s.writeable < size.toNat ∨ receiving.nbytes ≤ s.writeable
  | _ => True

/-- **From a sane stream, a call fails an assertion or keeps the stream sane and writes inside the
segment, exactly if it is one of the calls above.** No segment has more than `PTRDIFF_MAX`
bytes. -/
theorem keepsSane_iff (call : StreamCall) {s : Stream} (sane : s.Sane)
    (allocated : s.size < 2 ^ 63) : KeepsSane (call.perform s) ↔ call.Inside s := by
  cases call with
  | putPrefix prefixlen address => exact keepsSane_putPrefix sane prefixlen address
  | putcAt putp c => exact keepsSane_putBytesAt sane allocated putp.toNat_lt (by simp) (by simp)
  | putwAt putp w => exact keepsSane_putBytesAt sane allocated putp.toNat_lt (by simp) (by simp)
  | putlAt putp l => exact keepsSane_putBytesAt sane allocated putp.toNat_lt (by simp) (by simp)
  | putqAt putp q => exact keepsSane_putBytesAt sane allocated putp.toNat_lt (by simp) (by simp)
  | forwardEndp size => exact keepsSane_forwardEndp sane allocated size.toNat_lt
  | new size => exact iff_of_true (keepsSane_new _) trivial
  | copy src => exact iff_of_true (keepsSane_copy s src) trivial
  | dup => exact iff_of_true (keepsSane_dup sane) trivial
  | resize newsize fresh =>
    exact iff_of_true ((keepsSane_verified sane).mpr (keepsSane_look _)) trivial
  | getGetp | getEndp | getSize | pnt | empty | flush =>
    exact iff_of_true (keepsSane_look s) trivial
  | setGetp pos | forwardGetp pos => exact iff_of_true (keepsSane_moveGetp sane _) trivial
  | get size => exact iff_of_true (keepsSane_getBytes sane _) trivial
  | getc | getw | getl | getq | getIpv4 => exact iff_of_true (keepsSane_getBytes sane _) trivial
  | getcFrom offset | getwFrom offset | getlFrom offset | getqFrom offset =>
    exact iff_of_true (keepsSane_getBytesFrom sane _ _) trivial
  | put src size | write src size => exact iff_of_true (keepsSane_putBytes sane _) trivial
  | putc c | putw c | putl c | putq c | putIpv4 c | putInAddr c =>
    exact iff_of_true (keepsSane_putBytes sane _) trivial
  | read size reading | readUnblock size reading | readTry size reading =>
    exact iff_of_true (keepsSane_read sane reading) trivial
  | recvfrom size receiving => exact keepsSane_receive sane receiving
  | recvmsg iovlen size receiving =>
    rw [StreamCall.perform, keepsSane_verified sane, keepsSane_if, not_not]
    exact forall_congr' fun _ => keepsSane_receive sane receiving
  | reset =>
    refine iff_of_true ?_ trivial
    exact (keepsSane_verified sane).mpr ((keepsSane_ok _).mpr ⟨Nat.le_refl _, Nat.zero_le _⟩)

theorem putPrefix_kept : (streamNew 2).Sane ∧
    KeepsSane ((StreamCall.putPrefix 8 fun _ => 10).perform (streamNew 2)) :=
  ⟨by decide, (keepsSane_iff _ (by decide) (by decide)).mpr (.inl (by decide))⟩

/-- A stream with room for one byte is given the prefix `10.0.0.0/8`. -/
theorem putPrefix_behind_segment : (streamNew 1).Sane ∧
    (StreamCall.putPrefix 8 fun _ => 10).perform (streamNew 1) = .error (.arrayIndex 1) ∧
    ¬ KeepsSane ((StreamCall.putPrefix 8 fun _ => 10).perform (streamNew 1)) := by
  have behind : (StreamCall.putPrefix 8 fun _ => 10).perform (streamNew 1) =
      .error (.arrayIndex 1) := rfl
  refine ⟨by decide, behind, ?_⟩
  exact not_keepsSane_arrayIndex 1

end Quagga.Lib
