import Mathlib.Data.Fintype.Fin
import Quagga.Lib.StreamBytes
import Quagga.Bgpd.Peer
import Quagga.Bgpd.TrustFiles

/-!
# Trust and voting messages

Five message types extend BGP. A TRUST message carries one number, which moves the observed
trust in the sender's AS by a tenth. The voting messages ask a neighbour for the votes of
its neighbours and for its own vote, and answer such requests. A vote is one number, and an
answer with all votes carries the ten numbers of the vote table.

A packet is the marker, its length, its type and its numbers in network byte order. The
receive functions first take their numbers from the input stream and then change the files.
The senders always put in as many numbers as the receive functions take
(`payload_length`), and what a sender puts in is what the receiver gets
(`receiveVoting_packet`).
-/

set_option autoImplicit false

namespace Quagga.Bgpd

open Lib Library

/-! ## Types and sizes -/

/-- The message types that `bgp_read` accepts. -/
inductive MsgType where
  | msgOpen
  | msgUpdate
  | msgNotify
  | msgKeepalive
  | msgRouteRefreshNew
  | msgCapability
  | msgTrust
  | msgVotingPeersRequest
  | msgVotingPeersResponse
  | msgVotingVoteRequest
  | msgVotingVoteResponse
  | msgRouteRefreshOld
  deriving DecidableEq, Repr

/-- `BGP_MSG_OPEN` and the other type codes. -/
def MsgType.code : MsgType → UInt8
  | .msgOpen => 1
  | .msgUpdate => 2
  | .msgNotify => 3
  | .msgKeepalive => 4
  | .msgRouteRefreshNew => 5
  | .msgCapability => 6
  | .msgTrust => 7
  | .msgVotingPeersRequest => 8
  | .msgVotingPeersResponse => 9
  | .msgVotingVoteRequest => 10
  | .msgVotingVoteResponse => 11
  | .msgRouteRefreshOld => 128

/-- The type check of `bgp_read`. -/
def MsgType.ofCode (code : UInt8) : Option MsgType :=
  [.msgOpen, .msgUpdate, .msgNotify, .msgKeepalive, .msgRouteRefreshNew, .msgRouteRefreshOld,
    .msgCapability, .msgTrust, .msgVotingPeersRequest, .msgVotingVoteRequest,
    .msgVotingVoteResponse, .msgVotingPeersResponse].find? fun type => type.code = code

theorem MsgType.ofCode_code (type : MsgType) : MsgType.ofCode type.code = some type := by
  cases type <;> rfl

/-- `BGP_MARKER_SIZE`. -/
def bgpMarkerSize : Nat := 16

/-- `BGP_HEADER_SIZE`. -/
def bgpHeaderSize : Nat := 19

/-- `BGP_MAX_PACKET_SIZE`. -/
def bgpMaxPacketSize : Nat := 4096

/-- `BGP_MSG_OPEN_MIN_SIZE` and the other minimum sizes. -/
def MsgType.minSize : MsgType → Nat
  | .msgOpen => bgpHeaderSize + 10
  | .msgUpdate => bgpHeaderSize + 4
  | .msgNotify => bgpHeaderSize + 2
  | .msgKeepalive => bgpHeaderSize + 0
  | .msgRouteRefreshNew => bgpHeaderSize + 4
  | .msgCapability => bgpHeaderSize + 3
  | .msgTrust => bgpHeaderSize + 0
  | .msgVotingPeersRequest => bgpHeaderSize + 0
  | .msgVotingPeersResponse => bgpHeaderSize + 0
  | .msgVotingVoteRequest => bgpHeaderSize + 0
  | .msgVotingVoteResponse => bgpHeaderSize + 0
  | .msgRouteRefreshOld => bgpHeaderSize + 4

/-- The length check of `bgp_read`, in the positive. -/
def MsgType.lengthOk (type : MsgType) (size : Nat) : Bool :=
  bgpHeaderSize ≤ size && size ≤ bgpMaxPacketSize &&
    (if type = .msgKeepalive then size = type.minSize else type.minSize ≤ size)

/-! ## Messages -/

/-- A message of the extension with its numbers. -/
inductive VotingMessage where
  | trust (code : UInt16)
  | peersRequest
  | peersResponse (votes : Words)
  | voteRequest
  | voteResponse (vote : UInt16)
  deriving DecidableEq

/-- The type under which it is sent. -/
def VotingMessage.type : VotingMessage → MsgType
  | .trust _ => .msgTrust
  | .peersRequest => .msgVotingPeersRequest
  | .peersResponse _ => .msgVotingPeersResponse
  | .voteRequest => .msgVotingVoteRequest
  | .voteResponse _ => .msgVotingVoteResponse

/-- The numbers that a sender puts into the packet. -/
def VotingMessage.payload : VotingMessage → List UInt16
  | .trust code => [code]
  | .peersRequest => []
  | .peersResponse votes => (List.finRange 10).map votes
  | .voteRequest => []
  | .voteResponse vote => [vote]

/-- How many numbers the receive function of a type takes. -/
def MsgType.words : MsgType → Nat
  | .msgTrust => 1
  | .msgVotingPeersResponse => 10
  | .msgVotingVoteResponse => 1
  | _ => 0

theorem MsgType.words_le (type : MsgType) : type.words ≤ 10 := by
  cases type <;> decide

theorem payload_length (message : VotingMessage) :
    message.payload.length = message.type.words := by
  cases message <;> rfl

/-! ## Building packets -/

variable (s : Stream)

/-- `bgp_packet_set_marker`. -/
def bgpPacketSetMarker (type : MsgType) : Except Fault Stream := do
  let s ← (List.replicate bgpMarkerSize (0xff : UInt8)).foldlM streamPutc s
  let s ← streamPutw s 0
  streamPutc s type.code

/-- `bgp_packet_set_size`. -/
def bgpPacketSetSize : Except Fault Stream := do
  let cp ← streamGetEndp s
  streamPutwAt s bgpMarkerSize (UInt16.ofNat cp)

/-- What the functions that send such messages have in common. -/
def makePacket (type : MsgType) (numbers : List UInt16) : Except Fault Stream := do
  let s ← bgpPacketSetMarker (streamNew bgpMaxPacketSize) type
  let s ← numbers.foldlM streamPutw s
  bgpPacketSetSize s

/-! ## Receiving -/

/-- A number of calls of `stream_getw`. -/
def getWords : Nat → Stream → Except Fault (List UInt16 × Stream)
  | 0, s => .ok ([], s)
  | n + 1, s => do
      let (w, s) ← streamGetw s
      let (ws, s) ← getWords n s
      return (w :: ws, s)

/-- The first part of the receive functions: take the numbers of a message from the input.
A type outside the extension is none of their business. -/
def receiveVoting (type : MsgType) (ibuf : Stream) :
    Except Fault (Option VotingMessage × Stream) :=
  match type with
  | .msgTrust => do
      let (rcvdTrust, s) ← streamGetw ibuf
      return (some (.trust rcvdTrust), s)
  | .msgVotingPeersRequest => .ok (some .peersRequest, ibuf)
  | .msgVotingVoteRequest => .ok (some .voteRequest, ibuf)
  | .msgVotingVoteResponse => do
      let (vote, s) ← streamGetw ibuf
      return (some (.voteResponse vote), s)
  | .msgVotingPeersResponse => do
      let (votes, s) ← getWords 10 ibuf
      return (some (.peersResponse fun i => votes.getD i 0), s)
  | _ => .ok (none, ibuf)

/-- Write an entry of a table file. -/
def setEntry (table : Table) (as value : Nat) : Except Fault Table := do
  let i ← tableIndex as
  return Function.update table i value

/-- `((obsTrusts[as - 1] * 9) + rcvdTrust) / 10`. -/
def blendTrust (observed received : UInt16) : UInt16 :=
  UInt16.ofNat ((observed.toNat * 9 + received.toNat) / 10)

/-- The second part of the receive functions: the change of the files. -/
def applyMessage (as : Nat) (files : Files) : VotingMessage → Except Fault Files
  | .trust rcvdTrust => do
      let _ ← openTable files.myAS
      let table ← openTable files.obsTrust
      let i ← tableIndex as
      let obsTrusts := scanTable table
      return { files with
        obsTrust := some (printWords
          (Function.update obsTrusts i (blendTrust (obsTrusts i) rcvdTrust))) }
  | .peersRequest =>
    if files.neighborsN > 1 then do
      let votesRequests ← setEntry files.votesRequests as 1
      return { files with votesRequests := votesRequests }
    else .ok files
  | .voteRequest => do
      let votesResponses ← setEntry files.votesResponses as 1
      return { files with votesResponses := votesResponses }
  | .voteResponse vote => do
      let votes ← setEntry files.votes as vote.toNat
      return { files with votes := votes }
  | .peersResponse votes =>
    .ok { files with voteresult := Function.update files.voteresult as (some (printWords votes)) }

/-- `bgp_trust_receive` and the receive functions of the voting messages. -/
def bgpVotingReceive (peer : Peer) (files : Files) (type : MsgType) (ibuf : Stream) :
    Except Fault (Files × Stream) := do
  let (message, s) ← receiveVoting type ibuf
  match message with
  | none => return (files, s)
  | some message =>
    let files ← applyMessage peer.as files message
    return (files, s)

/-! ## What the receive functions need of the input -/

variable {ibuf : Stream}

/-- The numbers in a stream from an offset on. -/
def wordsAt (offset n : Nat) : List UInt16 :=
  (List.range n).map fun k => word (s.byte (offset + 2 * k)) (s.byte (offset + 2 * k + 1))

theorem wordsAt_succ (offset n : Nat) : wordsAt s offset (n + 1) =
      word (s.byte offset) (s.byte (offset + 1)) :: wordsAt s (offset + 2) n := by
  rw [wordsAt, List.range_succ_eq_map, List.map_cons, List.map_map]
  refine congrArg _ (List.map_congr_left fun k _ => ?_)
  rw [Function.comp_apply, show offset + 2 * (k + 1) = offset + 2 + 2 * k by omega]

/-- With enough input the numbers are taken in order. -/
theorem getWords_ok (n : Nat) : ∀ {s : Stream}, s.Sane → s.getp + 2 * n ≤ s.endp →
    getWords n s = .ok (wordsAt s s.getp n, { s with getp := s.getp + 2 * n }) := by
  induction n with
  | zero => exact fun _ _ => rfl
  | succ n ih =>
    intro s sane available
    have enough : s.getp + 2 ≤ s.endp := by omega
    rw [getWords, streamGetw_ok sane enough, ok_bind]
    dsimp only
    rw [ih (sane.advance enough) (by show s.getp + 2 + 2 * n ≤ s.endp; omega),
      wordsAt_succ, show s.getp + 2 * (n + 1) = s.getp + 2 + 2 * n by omega]
    rfl

/-- With too little input an assertion fails, whatever was taken before. -/
theorem getWords_fault (n : Nat) : ∀ {s : Stream}, s.Sane → s.endp < s.getp + 2 * n →
    getWords n s = .error .assertion := by
  induction n with
  | zero =>
    intro s sane short
    have := sane.getp_le
    omega
  | succ n ih =>
    intro s sane short
    rw [getWords]
    by_cases enough : s.getp + 2 ≤ s.endp
    · rw [streamGetw_ok sane enough, ok_bind]
      dsimp only
      rw [ih (sane.advance enough) (by show s.endp < s.getp + 2 + 2 * n; omega), error_bind]
    · rw [streamGetw_fault sane (by omega), error_bind]

theorem getWords_one : getWords 1 s = (do let (w, s) ← streamGetw s; return ([w], s)) := rfl

/-- The message with these numbers. -/
def MsgType.message : MsgType → List UInt16 → Option VotingMessage
  | .msgTrust, numbers => some (.trust (numbers.getD 0 0))
  | .msgVotingPeersRequest, _ => some .peersRequest
  | .msgVotingPeersResponse, numbers => some (.peersResponse fun i => numbers.getD i 0)
  | .msgVotingVoteRequest, _ => some .voteRequest
  | .msgVotingVoteResponse, numbers => some (.voteResponse (numbers.getD 0 0))
  | _, _ => none

/-- Every receive function takes its numbers and makes the message of them. -/
theorem receiveVoting_eq (type : MsgType) (ibuf : Stream) :
    receiveVoting type ibuf = (do
      let (numbers, s) ← getWords type.words ibuf
      return (type.message numbers, s)) := by
  cases type with
  | msgTrust =>
    rw [receiveVoting, MsgType.words, getWords_one]
    cases streamGetw ibuf <;> rfl
  | msgVotingVoteResponse =>
    rw [receiveVoting, MsgType.words, getWords_one]
    cases streamGetw ibuf <;> rfl
  | _ => rfl

theorem tableIndex_ne_assertion (as : Nat) : Ensures (· ≠ .assertion) (fun _ => True)
    (tableIndex as) := by
  rw [tableIndex]
  split_ifs
  · exact trivial
  · exact Fault.noConfusion

theorem openTable_ne_assertion {α : Type} (file : Option α) :
    Ensures (· ≠ .assertion) (fun _ => True) (openTable file) := by
  cases file with
  | some contents => exact trivial
  | none => exact Fault.noConfusion

theorem setEntry_ne_assertion (table : Table) (as value : Nat) :
    Ensures (· ≠ .assertion) (fun _ => True) (setEntry table as value) :=
  (tableIndex_ne_assertion as).bind fun _ _ => trivial

theorem applyMessage_ne_assertion (as : Nat) (files : Files) (message : VotingMessage) :
    Ensures (· ≠ .assertion) (fun _ => True) (applyMessage as files message) := by
  cases message with
  | trust rcvdTrust =>
    exact (openTable_ne_assertion files.myAS).bind fun _ _ =>
      (openTable_ne_assertion files.obsTrust).bind fun _ _ =>
        (tableIndex_ne_assertion as).bind fun _ _ => trivial
  | peersRequest =>
    rw [applyMessage]
    split_ifs
    · exact (setEntry_ne_assertion files.votesRequests as 1).bind fun _ _ => trivial
    · exact trivial
  | peersResponse votes => exact trivial
  | voteRequest => exact (setEntry_ne_assertion files.votesResponses as 1).bind fun _ _ => trivial
  | voteResponse vote => exact (setEntry_ne_assertion files.votes as _).bind fun _ _ => trivial

/-- With enough input a receive function applies the message that its numbers make. -/
theorem bgpVotingReceive_eq (peer : Peer) (files : Files) (type : MsgType) (sane : ibuf.Sane)
    (enough : ibuf.getp + 2 * type.words ≤ ibuf.endp) :
    bgpVotingReceive peer files type ibuf =
      match type.message (wordsAt ibuf ibuf.getp type.words) with
      | none => .ok (files, { ibuf with getp := ibuf.getp + 2 * type.words })
      | some message => do
          let files ← applyMessage peer.as files message
          return (files, { ibuf with getp := ibuf.getp + 2 * type.words }) := by
  rw [bgpVotingReceive, receiveVoting_eq, getWords_ok _ sane enough]
  rfl

/-- **A receive function fails an assertion exactly when its input is too short.** -/
theorem bgpVotingReceive_assertion_iff (peer : Peer) (files : Files) (type : MsgType)
    (sane : ibuf.Sane) :
    bgpVotingReceive peer files type ibuf = .error .assertion ↔
      ibuf.endp < ibuf.getp + 2 * type.words := by
  constructor
  · intro failed
    by_contra enough
    have tolerated : Ensures (· ≠ Fault.assertion) (fun _ => True)
        (bgpVotingReceive peer files type ibuf) := by
      rw [bgpVotingReceive_eq peer files type sane (by omega)]
      cases type.message (wordsAt ibuf ibuf.getp type.words) with
      | none => exact trivial
      | some message =>
        exact (applyMessage_ne_assertion peer.as files message).bind fun _ _ => trivial
    rw [failed] at tolerated
    exact tolerated rfl
  · intro short
    rw [bgpVotingReceive, receiveVoting_eq, getWords_fault _ sane short, error_bind, error_bind]

/-! ## The bytes of a packet -/

/-- The bytes of a packet: marker, length, type and numbers. -/
def packetBytes (type : MsgType) (numbers : List UInt16) : List UInt8 :=
  List.replicate bgpMarkerSize 0xff ++ wordBytes (UInt16.ofNat (bgpHeaderSize + 2 * numbers.length))
    ++ ([type.code] ++ numbers.flatMap wordBytes)

theorem length_flatMap_wordBytes (numbers : List UInt16) :
    (numbers.flatMap wordBytes).length = 2 * numbers.length := by
  induction numbers with
  | nil => rfl
  | cons w rest ih =>
    rw [List.flatMap_cons, List.length_append, List.length_cons, wordBytes, List.length_cons,
      List.length_singleton]
    omega

theorem length_packetBytes (type : MsgType) (numbers : List UInt16) :
    (packetBytes type numbers).length = bgpHeaderSize + 2 * numbers.length := by
  simp only [packetBytes, List.length_append, List.length_replicate, length_flatMap_wordBytes,
    wordBytes, List.length_cons, List.length_nil, bgpMarkerSize, bgpHeaderSize]
  omega

theorem streamNew_sane (size : Nat) : (streamNew size).Sane := ⟨Nat.le_refl _, Nat.zero_le _⟩

theorem wordsAt_of_holds {s : Stream} (numbers : List UInt16) : ∀ {pnt : Nat},
    s.Holds pnt (numbers.flatMap wordBytes) → wordsAt s pnt numbers.length = numbers := by
  induction numbers with
  | nil => exact fun _ => rfl
  | cons w rest ih =>
    intro pnt holds
    have lo : s.Holds (pnt + 1) (loByte w :: rest.flatMap wordBytes) :=
      @Stream.Holds.right s pnt [hiByte w] _ holds
    have later : s.Holds (pnt + 2) (rest.flatMap wordBytes) := holds.right
    rw [List.length_cons, wordsAt_succ, Stream.Holds.byte_eq holds, lo.byte_eq, word_hiByte_loByte,
      ih later]

theorem message_payload (message : VotingMessage) :
    message.type.message message.payload = some message := by
  cases message with
  | peersResponse votes =>
    simp only [VotingMessage.type, VotingMessage.payload, MsgType.message]
    simp [List.getD_eq_getElem?_getD]
  | _ => rfl

/-- **What a sender puts into a packet is what the receive function takes from it.** -/
theorem receiveVoting_packet (message : VotingMessage) (sane : ibuf.Sane)
    (getp : ibuf.getp = bgpHeaderSize)
    (contents : ibuf.contents = packetBytes message.type message.payload) :
    receiveVoting message.type ibuf = .ok (some message, { ibuf with getp := ibuf.endp }) := by
  have total : ibuf.endp = bgpHeaderSize + 2 * message.type.words := by
    rw [← length_contents sane, contents, length_packetBytes, payload_length]
  have holds : ibuf.Holds bgpHeaderSize (message.payload.flatMap wordBytes) := by
    rw [Stream.Holds, contents]
    exact List.prefix_rfl
  have numbers : wordsAt ibuf ibuf.getp message.type.words = message.payload := by
    rw [getp, ← payload_length, wordsAt_of_holds message.payload holds]
  rw [receiveVoting_eq, getWords_ok _ sane (by omega), ok_bind, numbers]
  dsimp only
  rw [message_payload, getp, ← total]
  rfl

end Quagga.Bgpd
