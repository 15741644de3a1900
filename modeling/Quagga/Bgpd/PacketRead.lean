import Quagga.Library.Traces
import Quagga.Bgpd.Messages

/-!
# Reading packets

`bgp_read` collects a packet in the input stream of the peer. It first reads the header, in
as many calls as the socket needs, and checks the marker, the type and the length; then it
reads the rest of the packet and calls the receive function of the type.

The length check compares the declared length with a minimum for each type. For the trust
and voting messages the minimum is the bare header, although their receive functions take
up to ten numbers. So a packet that passes all checks can be too short for its receive
function, and the bound assertion of `stream_getw` then ends the daemon
(`trust_without_number`). The receive functions are safe exactly for the packets that
declare room for the numbers they take (`receive_safe_iff`).
-/

set_option autoImplicit false

namespace Quagga.Bgpd

open Lib Library

/-! ## The functions -/

/-- The input side of a session: `ibuf` and `packet_size`. -/
structure PeerIn where
  ibuf : Stream
  packetSize : Nat
  deriving DecidableEq

/-- The result of `bgp_read_packet`: the packet is complete, more input is needed, or the
connection is closed or broken and an event says so. -/
inductive PacketState where
  | complete
  | waiting
  | closed
  deriving DecidableEq, Repr

/-- `bgp_read_packet`. -/
def bgpReadPacket (peer : PeerIn) (socket : SocketRead) : Except Fault (PacketState × PeerIn) := do
  let endp ← streamGetEndp peer.ibuf
  if peer.packetSize = endp then return (.complete, peer)
  -- A negative read size becomes a large unsigned one, which the stream refuses.
  if peer.packetSize < endp then throw .assertion
  let (nbytes, ibuf) ← streamReadTry peer.ibuf (peer.packetSize - endp) socket
  let peer := { peer with ibuf := ibuf }
  if nbytes = -2 then return (.waiting, peer)
  if nbytes ≤ 0 then return (.closed, peer)
  if ibuf.endp ≠ peer.packetSize then return (.waiting, peer)
  return (.complete, peer)

/-- The subcodes of the header errors that are notified. -/
inductive HeaderError where
  | notSync
  | badMesType
  | badMesLen
  deriving DecidableEq, Repr

/-- How a call of `bgp_read` ends before the receive functions: it waits for more input, the
connection is closed, a header error is notified, or there is a packet of a type code with
a size that does not count the header. -/
inductive ReadResult where
  | waiting
  | closed
  | notify (error : HeaderError)
  | packet (code : UInt8) (size : Nat)
  deriving DecidableEq, Repr

/-- `bgp_marker_all_one`. -/
def bgpMarkerAllOne (s : Stream) : Bool := (s.data.take bgpMarkerSize).all fun c => c = 0xff

/-- The checks of a complete header: `none` when they accept it. -/
def checkHeader (s : Stream) (size : Nat) (code : UInt8) : Option HeaderError :=
  if (code = MsgType.msgOpen.code ∨ code = MsgType.msgKeepalive.code) ∧ ¬ bgpMarkerAllOne s then
    some .notSync
  else
    match MsgType.ofCode code with
    | none => some .badMesType
    | some type => if type.lengthOk size then none else some .badMesLen

/-- The header part of `bgp_read`: `none` when the call goes on to the rest of the packet. -/
def bgpReadHeader (peer : PeerIn) (socket : SocketRead) :
    Except Fault (Option ReadResult × PeerIn) := do
  let (state, peer) ← bgpReadPacket peer socket
  match state with
  | .waiting => return (some .waiting, peer)
  | .closed => return (some .closed, peer)
  | .complete =>
    let ibuf ← streamForwardGetp peer.ibuf bgpMarkerSize
    let (size, ibuf) ← streamGetw ibuf
    let (code, ibuf) ← streamGetc ibuf
    match checkHeader ibuf size.toNat code with
    | some error => return (some (.notify error), { peer with ibuf := ibuf })
    | none => return (none, { ibuf := ibuf, packetSize := size.toNat })

/-- What `bgp_read` does after an accepted header: the rest of the packet is read. -/
def bgpReadBody (peer : PeerIn) (body : SocketRead) : Except Fault (ReadResult × PeerIn) := do
  let (state, peer) ← bgpReadPacket peer body
  match state with
  | .waiting => return (.waiting, peer)
  | .closed => return (.closed, peer)
  | .complete =>
    let _ ← streamGetwFrom peer.ibuf bgpMarkerSize
    let code ← streamGetcFrom peer.ibuf (bgpMarkerSize + 2)
    return (.packet code (peer.packetSize - bgpHeaderSize), peer)

/-- `bgp_read` up to the call of the receive function, with what the socket gives for the
header and for the rest of the packet. The host in `toDrop`, from which nothing is read any more,
is left out, and so is a peer in `Connect`. -/
def bgpReadPart (peer : PeerIn) (header body : SocketRead) :
    Except Fault (ReadResult × PeerIn) := do
  let peer := if peer.packetSize = 0 then { peer with packetSize := bgpHeaderSize } else peer
  let endp ← streamGetEndp peer.ibuf
  let (early, peer) ←
    if endp < bgpHeaderSize then bgpReadHeader peer header else pure (none, peer)
  match early with
  | some result => return (result, peer)
  | none => bgpReadBody peer body

/-- The `switch` of `bgp_read`. Of the receive functions, those of the extension are here. -/
def dispatch (peer : Peer) (files : Files) (code : UInt8) (ibuf : Stream) :
    Except Fault (Files × Stream) :=
  match MsgType.ofCode code with
  | some type => bgpVotingReceive peer files type ibuf
  | none => .ok (files, ibuf)

/-- `bgp_read`. -/
def bgpRead (peer : Peer) (files : Files) (input : PeerIn) (header body : SocketRead) :
    Except Fault (Files × PeerIn × ReadResult) := do
  let (result, input) ← bgpReadPart input header body
  match result with
  | .packet code _ =>
    let (files, ibuf) ← dispatch peer files code input.ibuf
    let ibuf ← streamReset ibuf
    return (files, { ibuf := ibuf, packetSize := 0 }, result)
  | _ => return (files, input, result)

/-- The input of a new peer. -/
def PeerIn.fresh : PeerIn := { ibuf := streamNew bgpMaxPacketSize, packetSize := 0 }

/-- The input part of `bgp_stop`. -/
def PeerIn.stop (input : PeerIn) : PeerIn :=
  { ibuf := { input.ibuf with getp := 0, endp := 0 }, packetSize := 0 }

/-- What a session meets when it reads: the files as they are, and the socket. -/
structure ReadEvent where
  files : Files
  header : SocketRead
  body : SocketRead

/-- One call of `bgp_read`. After a notification or a closed connection the event for
`bgp_stop` is handled before anything else is read. -/
def readStep (peer : Peer) (input : PeerIn) (event : ReadEvent) :
    Except Fault (PeerIn × List ReadResult) := do
  let (_, input, result) ← bgpRead peer event.files input event.header event.body
  match result with
  | .closed => return (input.stop, [result])
  | .notify _ => return (input.stop, [result])
  | _ => return (input, [result])

/-! ## The states between two calls -/

variable {input : PeerIn} {type : MsgType} {size : Nat}

/-- The length that a header declares. -/
def headerLength (bytes : List UInt8) : Nat := (word (bytes.getD 16 0) (bytes.getD 17 0)).toNat

/-- The type field of a header. -/
def headerCode (bytes : List UInt8) : UInt8 := bytes.getD 18 0

/-- The checks of a header. -/
def headerError (bytes : List UInt8) : Option HeaderError :=
  checkHeader (streamOf bytes) (headerLength bytes) (headerCode bytes)

theorem MsgType.lengthOk_bounds (lengthOk : type.lengthOk size = true) :
    bgpHeaderSize ≤ size ∧ size ≤ bgpMaxPacketSize := by
  simp only [MsgType.lengthOk, Bool.and_eq_true, decide_eq_true_eq] at lengthOk
  exact lengthOk.1

theorem headerLength_bounds {bytes : List UInt8} (passed : headerError bytes = none) :
    bgpHeaderSize ≤ headerLength bytes ∧ headerLength bytes ≤ bgpMaxPacketSize := by
  unfold headerError checkHeader at passed
  split at passed
  · cases passed
  · cases found : MsgType.ofCode (headerCode bytes) with
    | none => simp [found] at passed
    | some type =>
      refine @MsgType.lengthOk_bounds type _ ?_
      by_contra refused
      simp [found, refused] at passed

/-! A header is complete after 19 bytes, and what follows it makes no difference to it. -/

theorem getD_append_of_lt {bytes rest : List UInt8} {i : Nat} (below : i < bytes.length) :
    (bytes ++ rest).getD i 0 = bytes.getD i 0 := by
  rw [List.getD_eq_getElem?_getD, List.getD_eq_getElem?_getD, List.getElem?_append_left below]

theorem checkHeader_congr {s s' : Stream} (same : s.data.take bgpMarkerSize =
    s'.data.take bgpMarkerSize) (size : Nat) (code : UInt8) :
    checkHeader s size code = checkHeader s' size code := by
  rw [checkHeader, checkHeader, bgpMarkerAllOne, bgpMarkerAllOne, same]

theorem header_append {bytes : List UInt8} (complete : bgpHeaderSize ≤ bytes.length)
    (rest : List UInt8) :
    headerLength (bytes ++ rest) = headerLength bytes ∧
      headerCode (bytes ++ rest) = headerCode bytes ∧
      headerError (bytes ++ rest) = headerError bytes := by
  rw [bgpHeaderSize] at complete
  have length_eq : headerLength (bytes ++ rest) = headerLength bytes := by
    rw [headerLength, headerLength, getD_append_of_lt (by omega), getD_append_of_lt (by omega)]
  have code_eq : headerCode (bytes ++ rest) = headerCode bytes := getD_append_of_lt (by omega)
  refine ⟨length_eq, code_eq, ?_⟩
  rw [headerError, length_eq, code_eq]
  apply checkHeader_congr
  show (bytes ++ rest).take bgpMarkerSize = bytes.take bgpMarkerSize
  rw [List.take_append_of_le_length (by rw [bgpMarkerSize]; omega)]

/-- The header is still incomplete. -/
structure InHeader (input : PeerIn) : Prop where
  packetSize_eq : input.packetSize = bgpHeaderSize
  getp_eq : input.ibuf.getp = 0
  endp_lt : input.ibuf.endp < bgpHeaderSize
  size_eq : input.ibuf.size = bgpMaxPacketSize

/-- The header is accepted, and the packet is read up to `endp`. -/
structure InBody (input : PeerIn) : Prop where
  getp_eq : input.ibuf.getp = bgpHeaderSize
  le_endp : bgpHeaderSize ≤ input.ibuf.endp
  endp_le : input.ibuf.endp ≤ input.packetSize
  passed : headerError input.ibuf.contents = none
  packetSize_eq : input.packetSize = headerLength input.ibuf.contents
  size_eq : input.ibuf.size = bgpMaxPacketSize

/-- Nothing has been read. -/
structure Idle (input : PeerIn) : Prop where
  packetSize_eq : input.packetSize = 0
  getp_eq : input.ibuf.getp = 0
  endp_eq : input.ibuf.endp = 0
  size_eq : input.ibuf.size = bgpMaxPacketSize

/-- The states in which `bgp_read` leaves the input. -/
def Readable (input : PeerIn) : Prop :=
  Idle input ∨ InHeader input ∨ (InBody input ∧ input.ibuf.endp < input.packetSize)

theorem InHeader.sane (reading : InHeader input) : input.ibuf.Sane :=
  ⟨by rw [reading.getp_eq]; exact Nat.zero_le _, by
    have := reading.endp_lt
    rw [reading.size_eq, bgpMaxPacketSize]
    rw [bgpHeaderSize] at this
    omega⟩

theorem InBody.packetSize_le (reading : InBody input) : input.packetSize ≤ bgpMaxPacketSize := by
  rw [reading.packetSize_eq]
  exact (headerLength_bounds reading.passed).2

theorem InBody.sane (reading : InBody input) : input.ibuf.Sane :=
  ⟨by rw [reading.getp_eq]; exact reading.le_endp, by
    rw [reading.size_eq]
    exact reading.endp_le.trans reading.packetSize_le⟩

theorem Readable.sane (readable : Readable input) : input.ibuf.Sane := by
  rcases readable with idle | reading | ⟨reading, -⟩
  · exact ⟨by rw [idle.getp_eq]; exact Nat.zero_le _, by rw [idle.endp_eq]; exact Nat.zero_le _⟩
  · exact reading.sane
  · exact reading.sane

/-- There is neither a complete message nor a complete header that is refused. -/
def Unfinished (bytes : List UInt8) : Prop :=
  bytes.length < bgpHeaderSize ∨ (headerError bytes = none ∧ bytes.length < headerLength bytes)

theorem Readable.unfinished (readable : Readable input) : Unfinished input.ibuf.contents := by
  rw [Unfinished, length_contents readable.sane]
  rcases readable with idle | reading | ⟨reading, short⟩
  · exact .inl (by rw [idle.endp_eq]; decide)
  · exact .inl reading.endp_lt
  · exact .inr ⟨reading.passed, reading.packetSize_eq ▸ short⟩

/-! ## One call -/

variable {s : Stream} {bytes : List UInt8} {code : UInt8}

theorem append_nil_eq (s : Stream) : s.append [] = s := by
  simp [Stream.append, overlay]

/-- The bytes that a read of so many takes from a socket. -/
def takenFrom (size : Nat) : SocketRead → List UInt8
  | .bytes received => received.take size
  | _ => []

theorem takenFrom_zero (socket : SocketRead) : takenFrom 0 socket = [] := by
  cases socket <;> rfl

theorem length_takenFrom_le (size : Nat) (socket : SocketRead) :
    (takenFrom size socket).length ≤ size := by
  cases socket with
  | bytes received => exact List.length_take_le ..
  | closed | retry | fatal => exact Nat.zero_le _

variable {socket : SocketRead} {taken : List UInt8}

theorem streamReadTry_takenFrom (sane : s.Sane) (fits : s.endp + size ≤ s.size)
    (taken_eq : taken = takenFrom size socket) :
    ∃ nbytes : Int, streamReadTry s size socket = .ok (nbytes, s.append taken) ∧
      (0 < nbytes ↔ taken ≠ []) ∧ (nbytes = -2 ↔ socket = .retry) := by
  have enough : ¬ s.writeable < size := by
    rw [Stream.writeable]
    omega
  subst taken_eq
  unfold streamReadTry
  rw [verifySane_ok sane, if_neg enough]
  cases socket with
  | bytes received =>
    refine ⟨_, rfl, ?_, iff_of_false (by omega) nofun⟩
    rw [Int.natCast_pos, List.length_pos_iff, takenFrom]
  | closed | retry | fatal =>
    exact ⟨_, by simp only [takenFrom, append_nil_eq]; rfl, by simp [takenFrom], by decide⟩

/-- **`bgp_read_packet` appends bytes up to the packet size, and says whether the packet is
complete.** It takes the connection for closed only where there are no bytes. -/
theorem bgpReadPacket_spec (sane : input.ibuf.Sane) (le : input.ibuf.endp ≤ input.packetSize)
    (fits : input.packetSize ≤ input.ibuf.size)
    (taken_eq : taken = takenFrom (input.packetSize - input.ibuf.endp) socket) :
    ∃ state, bgpReadPacket input socket =
        .ok (state, { input with ibuf := input.ibuf.append taken }) ∧
      (state = .complete ↔ input.ibuf.endp + taken.length = input.packetSize) ∧
      (state = .closed → taken = [] ∧ socket ≠ .retry) := by
  rw [bgpReadPacket, streamGetEndp_ok sane, ok_bind]
  by_cases full : input.packetSize = input.ibuf.endp
  · have nothing : taken = [] := by
      rw [taken_eq, full, Nat.sub_self, takenFrom_zero]
    rw [if_pos full, nothing, append_nil_eq]
    exact ⟨.complete, rfl, by simp [full], nofun⟩
  · obtain ⟨nbytes, read, progress, retry⟩ :=
      streamReadTry_takenFrom sane (by omega) taken_eq
    rw [if_neg full, if_neg (Nat.not_lt.mpr le), read, ok_bind]
    dsimp only
    by_cases none : taken = []
    · have incomplete : ¬ input.ibuf.endp + taken.length = input.packetSize := by
        rw [none]
        exact fun same => full same.symm
      have noBytes : nbytes ≤ 0 := not_lt.mp fun positive => progress.mp positive none
      by_cases again : nbytes = -2
      · rw [if_pos again]
        exact ⟨.waiting, rfl, iff_of_false nofun incomplete, nofun⟩
      · rw [if_neg again, if_pos noBytes]
        exact ⟨.closed, rfl, iff_of_false nofun incomplete, fun _ => ⟨none, again ∘ retry.mpr⟩⟩
    · have positive := progress.mpr none
      rw [if_neg (by omega), if_neg (by omega)]
      by_cases complete : (input.ibuf.append taken).endp = input.packetSize
      · rw [if_neg (not_not.mpr complete)]
        exact ⟨.complete, rfl, iff_of_true rfl complete, nofun⟩
      · rw [if_pos complete]
        exact ⟨.waiting, rfl, iff_of_false nofun complete, nofun⟩

theorem headerFields (sane : s.Sane) (getp_eq : s.getp = 0) (complete : bgpHeaderSize ≤ s.endp) :
    streamForwardGetp s bgpMarkerSize = .ok { s with getp := 16 } ∧
      streamGetw { s with getp := 16 } =
        .ok (word (s.byte 16) (s.byte 17), { s with getp := 18 }) ∧
      streamGetc { s with getp := 18 } = .ok (s.byte 18, { s with getp := 19 }) := by
  rw [bgpHeaderSize] at complete
  have sane' : ∀ pos, pos ≤ 19 → Stream.Sane { s with getp := pos } :=
    fun pos le => ⟨le.trans complete, sane.endp_le⟩
  have marker : s.getp + bgpMarkerSize ≤ s.endp := by
    rw [bgpMarkerSize]
    omega
  refine ⟨?_, ?_, ?_⟩
  · rw [streamForwardGetp_ok sane marker, getp_eq]
    rfl
  · exact streamGetw_ok (sane' 16 (by omega)) (by show 16 + 2 ≤ s.endp; omega)
  · exact streamGetc_ok (sane' 18 (by omega)) (by omega)

/-- The socket gives no bytes, and not only for now. -/
def AtEnd (socket : SocketRead) : Prop :=
  socket ≠ .retry ∧ ∃ size, 0 < size ∧ takenFrom size socket = []

/-- Reading the header: what has arrived of it is appended, and a complete header is checked. -/
theorem bgpReadHeader_spec (reading : InHeader input)
    (taken_eq : taken = takenFrom (bgpHeaderSize - input.ibuf.endp) socket) :
    ∃ early input', bgpReadHeader input socket = .ok (early, input') ∧
      input'.ibuf.Sane ∧ input'.ibuf.size = bgpMaxPacketSize ∧
      input'.ibuf.contents = input.ibuf.contents ++ taken ∧
      match early with
      | none => InBody input'
      | some .waiting => InHeader input'
      | some .closed => input'.ibuf.contents.length < bgpHeaderSize ∧ AtEnd socket
      | some (.notify error) =>
        bgpHeaderSize ≤ input'.ibuf.contents.length ∧
          headerError input'.ibuf.contents = some error
      | some (.packet _ _) => False := by
  have headerSize : bgpHeaderSize = 19 := rfl
  have maxSize : bgpMaxPacketSize = 4096 := rfl
  have endpLt := reading.endp_lt
  have sizeEq := reading.size_eq
  have packetSizeEq := reading.packetSize_eq
  have few : taken.length ≤ bgpHeaderSize - input.ibuf.endp :=
    taken_eq ▸ length_takenFrom_le _ socket
  rw [← packetSizeEq] at taken_eq
  have fits : input.ibuf.endp + taken.length ≤ input.ibuf.size := by omega
  have sane := reading.sane.append fits
  have sizeEq' : (input.ibuf.append taken).size = bgpMaxPacketSize :=
    (length_overlay fits).trans sizeEq
  have contents' := contents_append fits
  have getp' : (input.ibuf.append taken).getp = 0 := reading.getp_eq
  have endp' : (input.ibuf.append taken).endp = input.ibuf.endp + taken.length := rfl
  obtain ⟨state, read, complete_iff, closed⟩ :=
    bgpReadPacket_spec reading.sane (by omega) (by omega) taken_eq
  rw [bgpReadHeader, read, ok_bind]
  have short (incomplete : state ≠ .complete) :
      input.ibuf.endp + taken.length < bgpHeaderSize := by
    have part : ¬ input.ibuf.endp + taken.length = input.packetSize := incomplete ∘ complete_iff.mpr
    omega
  cases state with
  | waiting => exact ⟨_, _, rfl, sane, sizeEq', contents', packetSizeEq, getp', short nofun, sizeEq'⟩
  | closed =>
    obtain ⟨nothing, notRetry⟩ := closed rfl
    refine ⟨_, _, rfl, sane, sizeEq', contents', ?_, notRetry, _, ?_, taken_eq.symm.trans nothing⟩
    · rw [length_contents sane]
      exact short nofun
    · omega
  | complete =>
    have full := complete_iff.mp rfl
    generalize input.ibuf.append taken = s at *
    obtain ⟨forwarded, sized, typed⟩ := headerFields sane getp' (by omega)
    have length_eq : (word (s.byte 16) (s.byte 17)).toNat = headerLength s.contents := by
      rw [headerLength, byte_eq_contents (by omega), byte_eq_contents (by omega)]
    have code_eq : s.byte 18 = headerCode s.contents := byte_eq_contents (by omega)
    have headed : bgpHeaderSize ≤ s.contents.length := by
      rw [length_contents sane]
      omega
    have checked_eq : checkHeader { s with getp := 19 } (word (s.byte 16) (s.byte 17)).toNat
        (s.byte 18) = headerError s.contents := by
      rw [length_eq, code_eq]
      apply checkHeader_congr
      show s.data.take bgpMarkerSize = (s.data.take s.endp).take bgpMarkerSize
      rw [List.take_take, Nat.min_eq_left (by rw [bgpMarkerSize]; omega)]
    have sane' : Stream.Sane { s with getp := 19 } := ⟨by show 19 ≤ s.endp; omega, sane.endp_le⟩
    dsimp only
    rw [forwarded, ok_bind, sized, ok_bind]
    rw [typed, ok_bind]
    rw [checked_eq]
    cases checked : headerError s.contents with
    | some error => exact ⟨_, _, rfl, sane', sizeEq', contents', headed, checked⟩
    | none =>
      have bounds := headerLength_bounds checked
      refine ⟨_, _, rfl, sane', sizeEq', contents', rfl, ?_, ?_, checked, length_eq, sizeEq'⟩
      · show bgpHeaderSize ≤ s.endp
        omega
      · show s.endp ≤ (word (s.byte 16) (s.byte 17)).toNat
        omega

theorem InBody.append (reading : InBody input)
    (le : input.ibuf.endp + bytes.length ≤ input.packetSize) :
    InBody { input with ibuf := input.ibuf.append bytes } := by
  have fits : input.ibuf.endp + bytes.length ≤ input.ibuf.size := by
    rw [reading.size_eq]
    exact le.trans reading.packetSize_le
  have headed : bgpHeaderSize ≤ input.ibuf.contents.length := by
    rw [length_contents reading.sane]
    exact reading.le_endp
  obtain ⟨length_eq, -, error_eq⟩ := header_append headed bytes
  rw [← contents_append fits] at length_eq error_eq
  exact ⟨reading.getp_eq, reading.le_endp.trans (Nat.le_add_right _ _), le,
    error_eq.trans reading.passed, reading.packetSize_eq.trans length_eq.symm,
    (length_overlay fits).trans reading.size_eq⟩

/-- What one call leaves behind, for each way in which it ends. -/
structure CallRead (header body : SocketRead) (bytes : List UInt8) (result : ReadResult)
    (input : PeerIn) : Prop where
  sane : input.ibuf.Sane
  size_eq : input.ibuf.size = bgpMaxPacketSize
  contents_eq : input.ibuf.contents = bytes
  ended : match result with
    | .waiting => Readable input
    | .closed => Unfinished bytes ∧ (AtEnd header ∨ AtEnd body)
    | .notify error => bgpHeaderSize ≤ bytes.length ∧ headerError bytes = some error
    | .packet code size =>
      InBody input ∧ input.ibuf.endp = input.packetSize ∧ code = headerCode bytes ∧
        size = input.packetSize - bgpHeaderSize

/-- Reading the rest of a packet: what has arrived of it is appended. -/
theorem bgpReadBody_spec (reading : InBody input) (header body : SocketRead) :
    ∃ result input', bgpReadBody input body = .ok (result, input') ∧
      CallRead header body (input.ibuf.contents ++
        takenFrom (input.packetSize - input.ibuf.endp) body) result input' := by
  have fits : input.packetSize ≤ input.ibuf.size := by
    rw [reading.size_eq]
    exact reading.packetSize_le
  have few := length_takenFrom_le (input.packetSize - input.ibuf.endp) body
  generalize taken_eq : takenFrom (input.packetSize - input.ibuf.endp) body = taken at *
  have room : input.ibuf.endp + taken.length ≤ input.packetSize := by
    have le := reading.endp_le
    omega
  obtain ⟨state, read, complete_iff, closed⟩ :=
    bgpReadPacket_spec reading.sane reading.endp_le fits taken_eq.symm
  have reading' := reading.append room
  have contents' := contents_append (room.trans fits)
  have short (incomplete : state ≠ .complete) :
      input.ibuf.endp + taken.length < input.packetSize :=
    Nat.lt_of_le_of_ne room (incomplete ∘ complete_iff.mpr)
  rw [bgpReadBody, read, ok_bind]
  cases state with
  | waiting =>
    exact ⟨_, _, rfl, reading'.sane, reading'.size_eq, contents', .inr (.inr ⟨reading', short nofun⟩)⟩
  | closed =>
    have readable : Readable { input with ibuf := input.ibuf.append taken } :=
      .inr (.inr ⟨reading', short nofun⟩)
    obtain ⟨nothing, notRetry⟩ := closed rfl
    refine ⟨_, _, rfl, reading'.sane, reading'.size_eq, contents', contents' ▸ readable.unfinished,
      .inr ⟨notRetry, _, ?_, taken_eq.trans nothing⟩⟩
    have less := short nofun
    omega
  | complete =>
    have typeField : bgpMarkerSize + 2 + 1 ≤ (input.ibuf.append taken).endp := reading'.le_endp
    dsimp only
    rw [streamGetwFrom_ok reading'.sane (Nat.le_of_lt typeField),
      streamGetcFrom_ok reading'.sane typeField]
    exact ⟨_, _, rfl, reading'.sane, reading'.size_eq, contents', reading', complete_iff.mp rfl,
      contents' ▸ byte_eq_contents typeField, rfl⟩

/-- The bytes of a packet after a call. It reads up to the end of the header, and where the header
is complete and accepted, up to the end of the packet. -/
def collectedBytes (bytes : List UInt8) (header body : SocketRead) : List UInt8 :=
  let headed := bytes ++ takenFrom (bgpHeaderSize - bytes.length) header
  if bgpHeaderSize ≤ headed.length ∧ headerError headed = none then
    headed ++ takenFrom (headerLength headed - headed.length) body
  else headed

theorem InBody.collectedBytes_eq (reading : InBody input) (body : SocketRead) :
    (if bgpHeaderSize ≤ input.ibuf.contents.length ∧ headerError input.ibuf.contents = none then
      input.ibuf.contents ++
        takenFrom (headerLength input.ibuf.contents - input.ibuf.contents.length) body
    else input.ibuf.contents) =
      input.ibuf.contents ++ takenFrom (input.packetSize - input.ibuf.endp) body := by
  rw [length_contents reading.sane, if_pos ⟨reading.le_endp, reading.passed⟩, reading.packetSize_eq]

/-- A call starts in a header or in the rest of a packet: an idle input starts a header. -/
theorem Readable.start (readable : Readable input) : ∃ current : PeerIn,
    (if input.packetSize = 0 then { input with packetSize := bgpHeaderSize } else input) = current ∧
      current.ibuf = input.ibuf ∧ (InHeader current ∨ InBody current) := by
  have headerSize : bgpHeaderSize = 19 := rfl
  rcases readable with idle | reading | ⟨reading, -⟩
  · have below : input.ibuf.endp < bgpHeaderSize := by
      rw [idle.endp_eq]
      omega
    exact ⟨_, if_pos idle.packetSize_eq, rfl, .inl ⟨rfl, idle.getp_eq, below, idle.size_eq⟩⟩
  · exact ⟨input, if_neg (by rw [reading.packetSize_eq]; omega), rfl, .inl reading⟩
  · have := reading.le_endp.trans reading.endp_le
    exact ⟨input, if_neg (by omega), rfl, .inr reading⟩

/-- **One call of `bgp_read` fails no assertion before the receive function.** It collects bytes,
and ends as these bytes say. -/
theorem bgpReadPart_spec (readable : Readable input) (header body : SocketRead) :
    ∃ result input', bgpReadPart input header body = .ok (result, input') ∧
      CallRead header body (collectedBytes input.ibuf.contents header body) result input' := by
  obtain ⟨current, current_eq, same, reading | reading⟩ := readable.start
  · obtain ⟨early, input', headed, sane, size, contents', post⟩ := bgpReadHeader_spec reading rfl
    rw [bgpReadPart, current_eq, ← same, streamGetEndp_ok reading.sane, ok_bind,
      if_pos reading.endp_lt, headed, collectedBytes, length_contents reading.sane, ← contents']
    dsimp only
    cases early with
    | none =>
      rw [post.collectedBytes_eq]
      exact bgpReadBody_spec post header body
    | some result =>
      have stops : ¬ (bgpHeaderSize ≤ input'.ibuf.contents.length ∧
          headerError input'.ibuf.contents = none) := by
        rintro ⟨complete, passed⟩
        cases result with
        | waiting => exact absurd post.endp_lt (length_contents sane ▸ Nat.not_lt.mpr complete)
        | closed => exact absurd post.1 (Nat.not_lt.mpr complete)
        | notify error => cases passed.symm.trans post.2
        | packet code size => exact post
      rw [if_neg stops]
      refine ⟨result, input', rfl, sane, size, rfl, ?_⟩
      cases result with
      | waiting => exact .inr (.inl post)
      | closed => exact ⟨.inl post.1, .inl post.2⟩
      | notify error => exact post
      | packet code size => exact post.elim
  · rw [bgpReadPart, current_eq, ← same, streamGetEndp_ok reading.sane, ok_bind,
      if_neg (Nat.not_lt.mpr reading.le_endp), collectedBytes, length_contents reading.sane,
      Nat.sub_eq_zero_of_le reading.le_endp, takenFrom_zero, List.append_nil, reading.collectedBytes_eq]
    exact bgpReadBody_spec reading header body

/-- A packet of a type as the receive functions get it: the header is read, and the checks have
accepted the length. -/
structure ReceivedPacket (type : MsgType) (ibuf : Stream) : Prop where
  getp_eq : ibuf.getp = bgpHeaderSize
  lengthOk : type.lengthOk ibuf.endp = true
  endp_le : ibuf.endp ≤ ibuf.size

theorem ReceivedPacket.minSize_le {ibuf : Stream} (received : ReceivedPacket type ibuf) :
    type.minSize ≤ ibuf.endp := by
  have lengthOk := received.lengthOk
  rw [MsgType.lengthOk] at lengthOk
  split_ifs at lengthOk with keepalive
  · have exact : ibuf.endp = type.minSize := by simpa using (Bool.and_eq_true_iff.mp lengthOk).2
    exact Nat.le_of_eq exact.symm
  · simpa using (Bool.and_eq_true_iff.mp lengthOk).2

/-! ## The receive functions -/

variable {peer : Peer}

theorem idle_of_size (size : input.ibuf.size = bgpMaxPacketSize) :
    Idle input.stop := ⟨rfl, rfl, rfl, size⟩

variable {files files' : Files}

theorem bgpVotingReceive_data {ibuf ibuf' : Stream} (sane : ibuf.Sane)
    (received : bgpVotingReceive peer files type ibuf = .ok (files', ibuf')) :
    ibuf'.data = ibuf.data := by
  by_cases enough : ibuf.getp + 2 * type.words ≤ ibuf.endp
  · rw [bgpVotingReceive_eq peer files type sane enough] at received
    cases message : type.message (wordsAt ibuf ibuf.getp type.words) with
    | none =>
      simp only [message, Except.ok.injEq, Prod.mk.injEq] at received
      rw [← received.2]
    | some message' =>
      simp only [message] at received
      obtain ⟨_, _, returned⟩ := bind_eq_ok received
      cases returned
      rfl
  · rw [(bgpVotingReceive_assertion_iff peer files type sane).mpr (by omega)] at received
    cases received

theorem dispatch_data {ibuf ibuf' : Stream} (sane : ibuf.Sane)
    (handled : dispatch peer files code ibuf = .ok (files', ibuf')) : ibuf'.data = ibuf.data := by
  rw [dispatch] at handled
  cases found : MsgType.ofCode code with
  | none =>
    rw [found] at handled
    cases handled
    rfl
  | some type =>
    rw [found] at handled
    exact bgpVotingReceive_data sane handled

/-- **Every call leaves the input in one of the readable states.** -/
theorem readStep_readable {input' : PeerIn} {event : ReadEvent} {results : List ReadResult}
    (readable : Readable input) (stepped : readStep peer input event = .ok (input', results)) :
    Readable input' := by
  obtain ⟨result, read, part, call⟩ := bgpReadPart_spec readable event.header event.body
  rw [readStep, bgpRead, part, ok_bind] at stepped
  cases result with
  | waiting =>
    cases stepped
    exact call.ended
  | closed =>
    cases stepped
    exact .inl (idle_of_size call.size_eq)
  | notify error =>
    cases stepped
    exact .inl (idle_of_size call.size_eq)
  | packet code size =>
    obtain ⟨⟨files', input'', result'⟩, received, last⟩ := bind_eq_ok stepped
    obtain ⟨⟨files'', ibuf⟩, handled, rest⟩ := bind_eq_ok received
    obtain ⟨ibuf', reset, returned⟩ := bind_eq_ok rest
    cases returned
    cases last
    have data : ibuf.data = read.ibuf.data := dispatch_data call.sane handled
    obtain ⟨_, _, returned⟩ := bind_eq_ok reset
    cases returned
    exact .inl ⟨rfl, rfl, rfl, by rw [← call.size_eq, Stream.size, Stream.size, data]⟩

theorem idle_fresh : Idle PeerIn.fresh := ⟨rfl, rfl, rfl, List.length_replicate⟩

theorem readable_of_run {trace : List ReadResult}
    (run : Run (readStep peer) (fun _ _ => True) PeerIn.fresh trace input) : Readable input := by
  refine run.invariant (fun _ input => Readable input) ?_ ?_
  · exact .inl idle_fresh
  · intro _ _ _ _ _ readable _ stepped
    exact readStep_readable readable stepped

/-! ## Packets as they are sent -/

variable {numbers : List UInt16}

theorem packetBytes_header (type : MsgType) (few : numbers.length ≤ 10) :
    headerLength (packetBytes type numbers) = bgpHeaderSize + 2 * numbers.length ∧
      headerCode (packetBytes type numbers) = type.code := by
  have length_eq : headerLength (packetBytes type numbers) =
      (word (hiByte (UInt16.ofNat (bgpHeaderSize + 2 * numbers.length)))
        (loByte (UInt16.ofNat (bgpHeaderSize + 2 * numbers.length)))).toNat := rfl
  refine ⟨?_, rfl⟩
  rw [length_eq, word_hiByte_loByte, UInt16.toNat_ofNat', bgpHeaderSize]
  omega

theorem checkHeader_accepts (s : Stream) (plain : type ≠ .msgOpen ∧ type ≠ .msgKeepalive)
    (lengthOk : type.lengthOk size = true) : checkHeader s size type.code = none := by
  have noMarker : ¬ (type.code = MsgType.msgOpen.code ∨ type.code = MsgType.msgKeepalive.code) := by
    rintro (same | same)
    · exact plain.1 (Option.some.inj (by rw [← MsgType.ofCode_code, same]; rfl))
    · exact plain.2 (Option.some.inj (by rw [← MsgType.ofCode_code, same]; rfl))
  rw [checkHeader, if_neg fun both => noMarker both.1, MsgType.ofCode_code]
  exact if_pos lengthOk

/-- **A packet that arrives as it was built is accepted, with its type and size.** The types `OPEN`
and `KEEPALIVE` have a marker check of their own. -/
theorem bgpReadPart_packet (idle : Idle input) (type : MsgType) (few : numbers.length ≤ 10)
    (plain : type ≠ .msgOpen ∧ type ≠ .msgKeepalive)
    (lengthOk : type.lengthOk (bgpHeaderSize + 2 * numbers.length) = true) :
    ∃ input', bgpReadPart input (.bytes ((packetBytes type numbers).take bgpHeaderSize))
        (.bytes ((packetBytes type numbers).drop bgpHeaderSize)) =
          .ok (.packet type.code (2 * numbers.length), input') ∧
      input'.ibuf.Sane ∧ input'.ibuf.getp = bgpHeaderSize ∧
        input'.ibuf.contents = packetBytes type numbers ∧
        input'.ibuf.size = bgpMaxPacketSize := by
  have total := length_packetBytes type numbers
  obtain ⟨length_eq, code_eq⟩ := packetBytes_header type few
  have passed : headerError (packetBytes type numbers) = none := by
    rw [headerError, length_eq]
    exact checkHeader_accepts _ plain lengthOk
  have whole := List.take_append_drop bgpHeaderSize (packetBytes type numbers)
  generalize headEq : (packetBytes type numbers).take bgpHeaderSize = head at *
  generalize (packetBytes type numbers).drop bgpHeaderSize = tail at *
  have headLength : head.length = bgpHeaderSize := by
    rw [← headEq, List.length_take]
    omega
  obtain ⟨length_append, -, error_append⟩ := header_append headLength.ge tail
  rw [whole] at length_append error_append
  have tailLength : tail.length = 2 * numbers.length := by
    rw [← whole, List.length_append] at total
    omega
  have empty : input.ibuf.contents = [] := by rw [Stream.contents, idle.endp_eq, List.take_zero]
  obtain ⟨result, input', part, call⟩ := bgpReadPart_spec (.inl idle) (.bytes head) (.bytes tail)
  have contents : collectedBytes input.ibuf.contents (.bytes head) (.bytes tail) =
      packetBytes type numbers := by
    rw [empty, collectedBytes, List.nil_append, takenFrom, List.length_nil, Nat.sub_zero,
      List.take_of_length_le headLength.le, if_pos ⟨headLength.ge, error_append ▸ passed⟩, takenFrom,
      List.take_of_length_le (by omega), whole]
  have finished : ¬ Unfinished (packetBytes type numbers) := by
    rintro (short | ⟨-, short⟩) <;> omega
  rw [contents] at call
  have ended := call.ended
  cases result with
  | waiting => exact absurd (call.contents_eq ▸ ended.unfinished) finished
  | closed => exact absurd ended.1 finished
  | notify error => cases passed.symm.trans ended.2
  | packet code size =>
    obtain ⟨reading, -, rfl, rfl⟩ := ended
    refine ⟨input', part.trans ?_, call.sane, reading.getp_eq, call.contents_eq,
      call.size_eq⟩
    rw [code_eq, reading.packetSize_eq, call.contents_eq, length_eq, Nat.add_sub_cancel_left]

/-- **A message that arrives as it was built is applied to the files, and the input is then ready
for the next packet.** -/
theorem bgpRead_message (idle : Idle input) {message : VotingMessage}
    (applied : applyMessage peer.as files message = .ok files') :
    ∃ input', bgpRead peer files input
        (.bytes ((packetBytes message.type message.payload).take bgpHeaderSize))
        (.bytes ((packetBytes message.type message.payload).drop bgpHeaderSize)) =
          .ok (files', input', .packet message.type.code (2 * message.type.words)) ∧
      Idle input' := by
  have few : message.payload.length ≤ 10 := by
    rw [payload_length]
    exact MsgType.words_le message.type
  have plain : message.type ≠ .msgOpen ∧ message.type ≠ .msgKeepalive := by
    constructor <;> cases message <;> exact MsgType.noConfusion
  have lengthOk : message.type.lengthOk (bgpHeaderSize + 2 * message.payload.length) = true := by
    cases message <;> rfl
  obtain ⟨read, part, sane, getp, contents, size_eq⟩ :=
    bgpReadPart_packet idle message.type few plain lengthOk
  have handled : dispatch peer files message.type.code read.ibuf =
      .ok (files', { read.ibuf with getp := read.ibuf.endp }) := by
    rw [dispatch, MsgType.ofCode_code]
    dsimp only
    rw [bgpVotingReceive, receiveVoting_packet message sane getp contents, ok_bind]
    dsimp only
    rw [applied]
    rfl
  have reset : streamReset { read.ibuf with getp := read.ibuf.endp } =
      .ok { read.ibuf with getp := 0, endp := 0 } := by
    have sane' : Stream.Sane { read.ibuf with getp := read.ibuf.endp } :=
      ⟨Nat.le_refl _, sane.endp_le⟩
    rw [streamReset, verifySane_ok sane']
    rfl
  refine ⟨{ ibuf := { read.ibuf with getp := 0, endp := 0 }, packetSize := 0 }, ?_,
    rfl, rfl, rfl, size_eq⟩
  rw [bgpRead, part, ok_bind]
  dsimp only
  rw [handled, ok_bind]
  rw [reset, payload_length]
  rfl

/-! ## What the length check lets through -/

/-- **After any run of a session, the receive function of an accepted packet stays within the
packet exactly when the declared size has room for the numbers that the function takes.** -/
theorem receive_safe_iff {peer : Peer} {trace : List ReadResult} {input input' : PeerIn}
    (run : Run (readStep peer) (fun _ _ => True) PeerIn.fresh trace input)
    (header body : SocketRead) {type : MsgType} {size : Nat}
    (accepted : bgpReadPart input header body = .ok (.packet type.code size, input'))
    (files : Files) :
    bgpVotingReceive peer files type input'.ibuf ≠ .error .assertion ↔ 2 * type.words ≤ size := by
  obtain ⟨result, input'', part, call⟩ := bgpReadPart_spec (readable_of_run run) header body
  rw [part, Except.ok.injEq] at accepted
  obtain ⟨rfl, rfl⟩ := accepted
  obtain ⟨reading, complete, -, size_eq⟩ := call.ended
  rw [ne_eq, bgpVotingReceive_assertion_iff peer files type reading.sane, reading.getp_eq]
  have := reading.le_endp.trans reading.endp_le
  omega

/-- The files of a node that has just started selecting routes. -/
def startedFiles : Files :=
  { myAS := some 1, inTrust := some fun _ => 50, obsTrust := some fun _ => 50, neighborsN := 2,
    votes := fun _ => 0, votesRequests := fun _ => 0, votesResponses := fun _ => 0,
    voteresult := fun _ => none }

/-- A neighbour. -/
def somePeer : Peer :=
  { host := 2, as := 2, localAs := 1, group := none, remoteId := 2, suRemote := .inet 2 }

/-- A trust message with its number is one that declares room for it. -/
theorem receive_safe_iff_trust : ∃ input', bgpReadPart PeerIn.fresh
      (.bytes ((packetBytes .msgTrust [60]).take bgpHeaderSize))
      (.bytes ((packetBytes .msgTrust [60]).drop bgpHeaderSize)) =
        .ok (.packet MsgType.msgTrust.code 2, input') ∧
    (bgpVotingReceive somePeer startedFiles .msgTrust input'.ibuf ≠ .error .assertion ↔
      2 * MsgType.msgTrust.words ≤ 2) := by
  obtain ⟨input', accepted, -⟩ := bgpReadPart_packet idle_fresh .msgTrust
    (show [60].length ≤ 10 by decide) (by decide) (by decide)
  exact ⟨input', accepted, receive_safe_iff .start _ _ accepted startedFiles⟩

/-- **A trust message of nineteen bytes passes the checks, and its receive function then reads a
number that is not there.** -/
theorem trust_without_number : ∃ input', bgpReadPart PeerIn.fresh
      (.bytes (packetBytes .msgTrust [])) (.bytes []) =
        .ok (.packet MsgType.msgTrust.code 0, input') ∧
    bgpVotingReceive somePeer startedFiles .msgTrust input'.ibuf = .error .assertion := by
  obtain ⟨input', accepted, sane, getp, contents, -⟩ := bgpReadPart_packet idle_fresh
    .msgTrust (show ([] : List UInt16).length ≤ 10 by decide) (by decide) (by decide)
  refine ⟨input', accepted, (bgpVotingReceive_assertion_iff _ _ _ sane).mpr ?_⟩
  rw [getp, ← length_contents sane, contents]
  decide

end Quagga.Bgpd
