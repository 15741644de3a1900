import Quagga.Bgpd.PacketWrite
import Quagga.Bgpd.VotingNode
import Quagga.Lib.StreamFifo
import Quagga.Library.Histories

/-!
# The output queue of a peer

Packets for a peer wait in `peer->obuf`. The senders of `bgp_keepalive_send` add each trust
and voting packet twice, and the `KEEPALIVE` at the end once; everything else adds a packet
once. `bgp_write` writes the first packet, as far as the socket takes it, and deletes it when
it is written; when the queue is empty it first makes a packet from waiting route updates.

A packet that was added twice is linked to itself until the next packet is added. Inside one
`bgp_keepalive_send` there is always a next packet, and nothing is written in between; so
between two events the queue is a finite list of different streams. Hence what was written
since the queue was last cleaned, followed by what waits in the queue, is what was added, each
packet once and in the order of their first additions. Each call of `bgp_write` with a socket that
takes a byte writes something, so what waits is written after enough of these calls, whatever
happens between them, unless the queue is cleaned first (`output_exactly_once`).
-/

set_option autoImplicit false

namespace Quagga.Bgpd

open Lib Library

/-! ## The functions -/

/-- The output side of a peer, with the streams in memory. -/
structure PeerOut where
  heap : StreamHeap
  obuf : StreamFifo

/-- A packet that is ready to be added: nothing of it is written, and its header is there. -/
structure ReadyPacket where
  stream : Stream
  sane : stream.Sane
  getp_eq : stream.getp = 0
  header : bgpHeaderSize ≤ stream.endp

/-- What the queue does. A packet is queued when it is added for the first time. -/
inductive OutAction where
  | queued (bytes : List UInt8)
  | wrote (bytes : List UInt8)
  | cleaned
  deriving DecidableEq

variable (out : PeerOut)

/-- `stream_new` for a packet with the given contents. -/
def PeerOut.allocate (proposed : Nat) (stream : Stream) : Nat × PeerOut :=
  let s := out.heap.fresh proposed
  (s, { out with heap := out.heap.insert s ⟨stream, none⟩ })

/-- `bgp_packet_add`. -/
def bgpPacketAdd (s : Nat) : Except Fault PeerOut := do
  let (heap, obuf) ← streamFifoPush out.heap out.obuf s
  return { heap := heap, obuf := obuf }

/-- `bgp_packet_delete`. -/
def bgpPacketDelete : Except Fault PeerOut := do
  let (s, obuf) ← streamFifoPop out.heap out.obuf
  let heap ← streamFree out.heap s
  return { heap := heap, obuf := obuf }

/-- The type of a packet of `bgp_keepalive_send`. -/
def Packet.type : Packet → MsgType
  | .voting message => message.type
  | .keepalive => .msgKeepalive

/-- The numbers behind the header. -/
def Packet.numbers : Packet → List UInt16
  | .voting message => message.payload
  | .keepalive => []

/-- The bytes of a packet. -/
def Packet.bytes (packet : Packet) : List UInt8 := packetBytes packet.type packet.numbers

/-- A sender of `bgp_keepalive_send`: all but the last one add the packet a second time. -/
def sendPacket (proposed : Nat) (packet : Packet) (out : PeerOut) :
    Except Fault (PeerOut × List OutAction) := do
  let stream ← makePacket packet.type packet.numbers
  let (s, out) := out.allocate proposed stream
  let out ← bgpPacketAdd out s
  match packet with
  | .voting _ => do
      let out ← bgpPacketAdd out s
      return (out, [.queued stream.contents])
  | .keepalive => return (out, [.queued stream.contents])

/-- The senders that a `bgp_keepalive_send` calls, one after the other. -/
def sendPackets : List (Nat × Packet) → PeerOut → Except Fault (PeerOut × List OutAction)
  | [], out => .ok (out, [])
  | (proposed, packet) :: rest, out => do
      let (out, queued) ← sendPacket proposed packet out
      let (out, later) ← sendPackets rest out
      return (out, queued ++ later)

/-- Make a stream of a packet and queue it. -/
def addPacket (proposed : Nat) (packet : ReadyPacket) (out : PeerOut) :
    Except Fault (Nat × PeerOut × List OutAction) := do
  let (s, out) := out.allocate proposed packet.stream
  let out ← bgpPacketAdd out s
  return (s, out, [.queued packet.stream.contents])

/-- What one `write` gives: a number of bytes is taken, or it fails for now, or for good. -/
inductive SocketWrite where
  | accepts (num : Nat)
  | retry
  | fatal

/-- What one turn of the loop in `bgp_write` meets: the packet that route updates make if the
queue is empty, and the socket. -/
structure WriteCall where
  made : Option (Nat × ReadyPacket)
  socket : SocketWrite

/-- `bgp_write_packet`. -/
def bgpWritePacket (made : Option (Nat × ReadyPacket)) (out : PeerOut) :
    Except Fault (Option Nat × PeerOut × List OutAction) :=
  match out.obuf.head with
  | some s => .ok (some s, out, [])
  | none =>
    match made with
    | none => .ok (none, out, [])
    | some (proposed, packet) => do
        let (s, out, queued) ← addPacket proposed packet out
        return (some s, out, queued)

/-- How a turn of the loop goes on: with the next packet, not at all, or with `BGP_Stop`. -/
inductive WriteProgress where
  | next
  | done
  | stop
  deriving DecidableEq

/-- The bytes of a packet that are still to be written. -/
def unsent (s : Stream) : List UInt8 := s.contents.drop s.getp

/-- A structure in memory is changed. -/
def PeerOut.store (s : Nat) (cell : LinkCell Stream) : PeerOut :=
  { out with heap := out.heap.insert s cell }

/-- The body of the loop in `bgp_write`. -/
def bgpWriteOne (s : Nat) (socket : SocketWrite) (out : PeerOut) :
    Except Fault (WriteProgress × PeerOut × List OutAction) := do
  let cell ← deref out.heap s
  let endp ← streamGetEndp cell.value
  let writenum := endp - cell.value.getp
  match socket with
  | .retry => return (.done, out, [])
  | .fatal => return (.done, out, [])
  | .accepts num =>
    if num < writenum then do
      let stream ← streamForwardGetp cell.value num
      return (.done, out.store s { cell with value := stream },
        [.wrote ((unsent cell.value).take num)])
    else do
      let stream ← streamSetGetp cell.value (bgpMarkerSize + 2)
      let (type, stream) ← streamGetc stream
      let out := out.store s { cell with value := stream }
      if type = MsgType.msgNotify.code then
        return (.stop, out, [.wrote (unsent cell.value)])
      else do
        let out ← bgpPacketDelete out
        return (.next, out, [.wrote (unsent cell.value)])

/-- `BGP_WRITE_PACKET_MAX`. -/
def bgpWritePacketMax : Nat := 10

/-- The loop in `bgp_write`, with the number of turns that are left. -/
def bgpWriteLoop (calls : Nat → WriteCall) : Nat → PeerOut →
    Except Fault (WriteProgress × PeerOut × List OutAction)
  | 0, out => .ok (.done, out, [])
  | left + 1, out => do
      let call := calls (bgpWritePacketMax - (left + 1))
      let (s, out, queued) ← bgpWritePacket call.made out
      match s with
      | none => return (.done, out, queued)
      | some s => do
          let (progress, out, wrote) ← bgpWriteOne s call.socket out
          match progress with
          | .next => do
              let (progress, out, later) ← bgpWriteLoop calls left out
              return (progress, out, queued ++ wrote ++ later)
          | _ => return (progress, out, queued ++ wrote)

/-- `bgp_write`. -/
def bgpWrite (calls : Nat → WriteCall) (out : PeerOut) :
    Except Fault (WriteProgress × PeerOut × List OutAction) :=
  bgpWriteLoop calls bgpWritePacketMax out

/-- `stream_fifo_clean` of the queue. -/
def cleanQueue : Except Fault (PeerOut × List OutAction) := do
  let (heap, obuf) ← streamFifoClean out.heap out.obuf
  return ({ heap := heap, obuf := obuf }, [.cleaned])

/-! ## Events -/

/-- What happens to the queue of a peer. -/
inductive OutEvent where
  | keepalive (sends : List (Nat × Packet))
  | add (proposed : Nat) (packet : ReadyPacket)
  | write (calls : Nat → WriteCall)
  | clean

/-- One event. `BGP_Stop` is handled before the queue is used again, and it cleans the queue. -/
def outStep : OutEvent → Except Fault (PeerOut × List OutAction)
  | .keepalive sends => sendPackets sends out
  | .add proposed packet => do
      let (_, out, queued) ← addPacket proposed packet out
      return (out, queued)
  | .write calls => do
      let (progress, out, actions) ← bgpWrite calls out
      if progress = .stop then do
        let (out, cleaned) ← cleanQueue out
        return (out, actions ++ cleaned)
      else
        return (out, actions)
  | .clean => cleanQueue out

/-- The packets that were queued. -/
def queuedPackets (actions : List NodeAction) : List Packet :=
  actions.filterMap fun action =>
    match action with
    | .queued _ packet => some packet
    | _ => none

/-- The packets are those of some call of `bgp_keepalive_send`. -/
def QueuedByKeepalive (packets : List Packet) : Prop :=
  ∃ peer clock node node' actions,
    bgpKeepaliveSend peer clock node = .ok (node', actions) ∧ packets = queuedPackets actions

/-- Keepalives come from `bgp_keepalive_send`; nothing is assumed about the other events. -/
def OutAllowed (_ : PeerOut) : OutEvent → Prop
  | .keepalive sends => QueuedByKeepalive (sends.map Prod.snd)
  | _ => True

/-- An empty queue. -/
def PeerOut.new : PeerOut := { heap := ∅, obuf := streamFifoNew }

/-- A run of the queue. -/
abbrev OutRun (trace : List OutAction) (out : PeerOut) : Prop :=
  Run outStep OutAllowed PeerOut.new trace out

/-! ## The history of a queue -/

/-- How an action changes the packets that were queued. -/
def queueStep (packets : List (List UInt8)) : OutAction → List (List UInt8)
  | .queued bytes => packets ++ [bytes]
  | .wrote _ => packets
  | .cleaned => []

variable (trace : List OutAction)

/-- The packets queued since the queue was last cleaned, in the order of their first additions. -/
def queuedSince : List (List UInt8) := trace.foldl queueStep []

/-- What has been written since the queue was last emptied. -/
def writeStep (written : List UInt8) : OutAction → List UInt8
  | .queued _ => written
  | .wrote bytes => written ++ bytes
  | .cleaned => []

/-- The bytes written since the queue was last cleaned. -/
def writtenSince : List UInt8 := trace.foldl writeStep []

theorem queuedSince_snoc (action : OutAction) :
    queuedSince (trace ++ [action]) = queueStep (queuedSince trace) action :=
  List.foldl_concat ..

theorem writtenSince_snoc (action : OutAction) :
    writtenSince (trace ++ [action]) = writeStep (writtenSince trace) action :=
  List.foldl_concat ..

/-! ## Adding packets -/

/-- The queue holds the given streams with the rest of what was queued, and the last one points
to `stop`. -/
structure Waits (trace : List OutAction) (out : PeerOut) (items : List (Nat × Stream))
    (stop : Option Nat) : Prop where
  queues : Queues out.heap out.obuf items stop
  pending : ∀ item ∈ items, item.2.Sane ∧ bgpHeaderSize ≤ item.2.endp ∧ item.2.getp < item.2.endp
  account : writtenSince trace ++ items.flatMap (fun item => unsent item.2) =
    (queuedSince trace).flatten

variable {trace : List OutAction} {out : PeerOut} {items rest : List (Nat × Stream)}
  {stop : Option Nat} {s : Nat} {stream : Stream}

theorem waits_new : Waits [] PeerOut.new [] none :=
  ⟨queues_new ∅, fun _ mem => (List.not_mem_nil mem).elim, rfl⟩

theorem Waits.same (waits : Waits trace out items stop) : Waits (trace ++ []) out items stop := by
  rwa [List.append_nil]

/-- By how much the count of a queue is above the number of its packets. -/
def excess (out : PeerOut) (items : List (Nat × Stream)) : UInt64 :=
  out.obuf.count - UInt64.ofNat items.length

theorem unsent_of_getp_eq (getp_eq : stream.getp = 0) : unsent stream = stream.contents := by
  rw [unsent, getp_eq, List.drop_zero]

theorem unsent_ne_nil (sane : stream.Sane) (pending : stream.getp < stream.endp) :
    unsent stream ≠ [] := by
  rw [unsent, ← List.length_pos_iff, List.length_drop, length_contents sane]
  omega

theorem count_sub_succ (count : UInt64) (length : Nat) :
    count + 1 - UInt64.ofNat (length + 1) = count - UInt64.ofNat length := by
  rw [UInt64.ofNat_add]
  grind

/-- **A new packet goes behind the others, also when the last one was added twice.** -/
theorem Waits.add (waits : Waits trace out items stop) (packet : ReadyPacket) (proposed : Nat) :
    ∃ s out', out.allocate proposed packet.stream = (s, { out with
          heap := out.heap.insert s ⟨packet.stream, none⟩ }) ∧
      bgpPacketAdd { out with heap := out.heap.insert s ⟨packet.stream, none⟩ } s = .ok out' ∧
      Waits (trace ++ [.queued packet.stream.contents]) out' (items ++ [(s, packet.stream)])
        none ∧ excess out' (items ++ [(s, packet.stream)]) = excess out items := by
  obtain ⟨heap', obuf', pushed, queues, count⟩ := streamFifoPush_new waits.queues
    (out.heap.fresh_notMem proposed) packet.stream
  refine ⟨out.heap.fresh proposed, { heap := heap', obuf := obuf' }, rfl, ?_,
    ⟨queues, ?_, ?_⟩, ?_⟩
  · rw [bgpPacketAdd, pushed]
    rfl
  · have new : packet.stream.getp < packet.stream.endp :=
      packet.getp_eq ▸ Nat.lt_of_lt_of_le (Nat.succ_pos _) packet.header
    exact List.forall_mem_append.mpr ⟨waits.pending,
      List.forall_mem_singleton.mpr ⟨packet.sane, packet.header, new⟩⟩
  · rw [writtenSince_snoc, queuedSince_snoc, writeStep, queueStep,
      List.flatten_append, ← waits.account]
    simp [unsent_of_getp_eq packet.getp_eq]
  · rw [excess, count, List.length_append]
    exact count_sub_succ _ _

theorem Waits.addPacket (waits : Waits trace out items stop) (packet : ReadyPacket)
    (proposed : Nat) :
    ∃ s out', Bgpd.addPacket proposed packet out =
        .ok (s, out', [.queued packet.stream.contents]) ∧
      Waits (trace ++ [.queued packet.stream.contents]) out' (items ++ [(s, packet.stream)])
        none ∧ excess out' (items ++ [(s, packet.stream)]) = excess out items := by
  obtain ⟨s, out', allocated, added, waits'⟩ := waits.add packet proposed
  refine ⟨s, out', ?_, waits'⟩
  rw [Bgpd.addPacket, allocated]
  dsimp only
  rw [added]
  rfl

/-- A second addition of the last packet changes no more than its link and the count. -/
theorem Waits.addAgain (waits : Waits trace out (items ++ [(s, stream)]) stop) :
    ∃ out', bgpPacketAdd out s = .ok out' ∧
      Waits trace out' (items ++ [(s, stream)]) (some s) ∧
      excess out' (items ++ [(s, stream)]) = excess out (items ++ [(s, stream)]) + 1 := by
  obtain ⟨heap', obuf', pushed, queues, count⟩ := streamFifoPush_last waits.queues
  refine ⟨{ heap := heap', obuf := obuf' }, ?_, ⟨queues, waits.pending, waits.account⟩, ?_⟩
  · rw [bgpPacketAdd, pushed]
    rfl
  · rw [excess, excess]
    grind

/-- The packets of `bgp_keepalive_send` are made without a fault and are ready to be added. -/
theorem exists_readyPacket (packet : Packet) : ∃ ready : ReadyPacket,
    makePacket packet.type packet.numbers = .ok ready.stream ∧
      ready.stream.contents = packet.bytes := by
  have few : packet.numbers.length ≤ 10 := by
    cases packet with
    | keepalive => exact Nat.zero_le _
    | voting message =>
      rw [Packet.numbers, payload_length]
      exact MsgType.words_le _
  obtain ⟨stream, made, sane, getp, contents⟩ := makePacket_ok packet.type few
  have header : bgpHeaderSize ≤ stream.endp := by
    rw [← length_contents sane, contents, length_packetBytes]
    exact Nat.le_add_right _ _
  exact ⟨⟨stream, sane, getp, header⟩, made, contents⟩

/-- One sender. The packet that was added twice is linked to itself. -/
theorem Waits.sendPacket (waits : Waits trace out items stop) (proposed : Nat) (packet : Packet) :
    ∃ out' items' stop', sendPacket proposed packet out = .ok (out', [.queued packet.bytes]) ∧
      Waits (trace ++ [.queued packet.bytes]) out' items' stop' ∧
      match packet with
      | .voting _ => excess out' items' = excess out items + 1
      | .keepalive => stop' = none ∧ excess out' items' = excess out items := by
  obtain ⟨ready, made, contents⟩ := exists_readyPacket packet
  obtain ⟨s, out₁, allocated, added, waits₁, same⟩ := waits.add ready proposed
  rw [← contents, Bgpd.sendPacket, made, ok_bind, allocated]
  dsimp only
  rw [added, ok_bind]
  cases packet with
  | voting message =>
    obtain ⟨out₂, addedAgain, waits₂, more⟩ := waits₁.addAgain
    refine ⟨out₂, _, _, ?_, waits₂, more.trans (by rw [same])⟩
    dsimp only
    rw [addedAgain]
    rfl
  | keepalive => exact ⟨out₁, _, none, rfl, waits₁, rfl, same⟩

/-- **Packets that are added twice, followed by one that is added once, are queued once each and
leave a finite list.** -/
theorem Waits.sendPackets {sends : List (Nat × Packet)} {messages : List VotingMessage}
    (packets : sends.map Prod.snd = messages.map .voting ++ [.keepalive]) :
    ∀ {trace : List OutAction} {out : PeerOut} {items : List (Nat × Stream)} {stop : Option Nat},
      Waits trace out items stop → ∃ out' items',
        sendPackets sends out = .ok (out', sends.map fun send => .queued send.2.bytes) ∧
          Waits (trace ++ sends.map fun send => .queued send.2.bytes) out' items' none ∧
          excess out' items' = excess out items + UInt64.ofNat messages.length := by
  induction messages generalizing sends with
  | nil =>
    intro trace out items stop waits
    obtain ⟨⟨proposed, _⟩, rfl, rfl⟩ := List.map_eq_singleton_iff.mp packets
    obtain ⟨out', items', _, sent, waits', rfl, same⟩ := waits.sendPacket proposed .keepalive
    refine ⟨out', items', ?_, waits', by rw [same]; exact (UInt64.add_zero _).symm⟩
    rw [Bgpd.sendPackets, sent]
    rfl
  | cons message messages ih =>
    intro trace out items stop waits
    cases sends with
    | nil => cases packets
    | cons send sends =>
      obtain ⟨proposed, packet⟩ := send
      obtain ⟨rfl, packets'⟩ := List.cons.inj packets
      obtain ⟨out₁, items₁, stop₁, sent, waits₁, more⟩ :=
        waits.sendPacket proposed (.voting message)
      obtain ⟨out₂, items₂, sentLater, waits₂, others⟩ := ih packets' waits₁
      refine ⟨out₂, items₂, ?_, ?_, ?_⟩
      · rw [Bgpd.sendPackets, sent, ok_bind]
        dsimp only
        rw [sentLater]
        rfl
      · rw [List.append_assoc] at waits₂
        exact waits₂
      · rw [others, List.length_cons, UInt64.ofNat_add]
        grind

/-- **Every call of `bgp_keepalive_send` on a session that is not dropped queues messages of the
extension and then one `KEEPALIVE`.** -/
theorem queuedByKeepalive_cases {packets : List Packet} (queued : QueuedByKeepalive packets) :
    packets = [] ∨ ∃ messages : List VotingMessage,
      packets = messages.map .voting ++ [.keepalive] ∧ messages.length ∈ Set.Icc 2 4 := by
  obtain ⟨peer, clock, node, node', actions, sent, rfl⟩ := queued
  rcases bgpKeepaliveSend_spec sent with ⟨-, rfl⟩ |
    ⟨code, files, votes, vote, votesSent, voteSent, rfl⟩
  · exact .inl rfl
  · have inTables := inTables_of_sendVote voteSent
    have first : ∃ messages : List VotingMessage,
        queuedPackets votes = messages.map .voting ∧ messages.length ≤ 1 := by
      rcases sendVotes_spec inTables votesSent with
        ⟨-, -, _, -, ⟨-, -, rfl⟩ | ⟨-, -, rfl⟩⟩ | ⟨-, rfl | rfl⟩
      · exact ⟨[.peersResponse _], rfl, by simp⟩
      · exact ⟨[.peersResponse _], rfl, by simp⟩
      · exact ⟨[], rfl, by simp⟩
      · exact ⟨[.voteRequest], rfl, by simp⟩
    have second : ∃ messages : List VotingMessage,
        queuedPackets vote = messages.map .voting ∧ messages.length ≤ 1 := by
      rcases sendVote_spec inTables voteSent with ⟨-, -, code, rfl⟩ | ⟨-, rfl⟩
      · exact ⟨[.voteResponse code], rfl, by simp⟩
      · exact ⟨[], rfl, by simp⟩
    obtain ⟨messages₁, queued₁, few₁⟩ := first
    obtain ⟨messages₂, queued₂, few₂⟩ := second
    refine .inr ⟨[.trust code, .peersRequest] ++ messages₁ ++ messages₂, ?_, ?_⟩
    · rw [List.map_append, List.map_append, ← queued₁, ← queued₂]
      simp only [queuedPackets, List.filterMap_append]
      rfl
    · simp only [List.length_append, List.length_cons, List.length_nil, Set.mem_Icc]
      omega

/-! ## Writing packets -/

theorem Waits.writePacket (waits : Waits trace out items none) (made : Option (Nat × ReadyPacket)) :
    bgpWritePacket made out = .ok (none, out, []) ∨
      ∃ s out' actions stream rest, bgpWritePacket made out = .ok (some s, out', actions) ∧
        Waits (trace ++ actions) out' ((s, stream) :: rest) none ∧
        excess out' ((s, stream) :: rest) = excess out items := by
  cases items with
  | nil =>
    have empty : out.obuf.head = none := waits.queues.segment
    cases made with
    | none =>
      left
      unfold bgpWritePacket
      rw [empty]
    | some call =>
      obtain ⟨proposed, packet⟩ := call
      obtain ⟨s, out', added, waits'⟩ := waits.addPacket packet proposed
      refine .inr ⟨s, out', [.queued packet.stream.contents], packet.stream, [], ?_, waits'⟩
      unfold bgpWritePacket
      rw [empty]
      dsimp only
      rw [added]
      rfl
  | cons item rest =>
    obtain ⟨s, stream⟩ := item
    obtain ⟨head, -⟩ := waits.queues.segment
    refine .inr ⟨s, out, [], stream, rest, ?_, waits.same, rfl⟩
    unfold bgpWritePacket
    rw [head]

section

variable (waits : Waits trace out ((s, stream) :: rest) none)

include waits

theorem Waits.account_wrote (num : Nat) :
    writtenSince (trace ++ [.wrote ((unsent stream).take num)]) ++
        ((unsent stream).drop num ++ rest.flatMap fun item => unsent item.2) =
      (queuedSince (trace ++ [.wrote ((unsent stream).take num)])).flatten := by
  rw [writtenSince_snoc, queuedSince_snoc, writeStep, queueStep, ← waits.account,
    List.flatMap_cons, List.append_assoc, ← List.append_assoc ((unsent stream).take num),
    List.take_append_drop]

theorem Waits.setGetp {next : Option Nat}
    (found : out.heap.lookup s = some ⟨stream, next⟩) (pos : Nat) :
    Queues (out.store s ⟨{ stream with getp := pos }, next⟩).heap
      (out.store s ⟨{ stream with getp := pos }, next⟩).obuf
      ((s, { stream with getp := pos }) :: rest) none where
  segment := waits.queues.segment.setFirst found waits.queues.distinct
  tail_eq := by
    rw [PeerOut.store, waits.queues.tail_eq]
    cases rest with
    | nil => rfl
    | cons item rest => rw [List.getLast?_cons_cons, List.getLast?_cons_cons]
  distinct := waits.queues.distinct

/-- A `write` that fails, for now or for good, leaves the queue as it is. -/
theorem Waits.writeNothing {socket : SocketWrite} (fails : socket = .retry ∨ socket = .fatal) :
    bgpWriteOne s socket out = .ok (.done, out, []) := by
  obtain ⟨sane, -⟩ := waits.pending (s, stream) List.mem_cons_self
  obtain ⟨-, next, found, -⟩ := waits.queues.segment
  rw [bgpWriteOne, deref_ok found, ok_bind, streamGetEndp_ok sane]
  rcases fails with rfl | rfl <;> rfl

/-- A `write` that takes the whole packet is followed by a look at its type. -/
theorem Waits.writeWhole {num : Nat} (whole : ¬ num < stream.endp - stream.getp) :
    ∃ next, out.heap.lookup s = some ⟨stream, next⟩ ∧
      bgpWriteOne s (.accepts num) out =
        if stream.byte (bgpMarkerSize + 2) = MsgType.msgNotify.code then
          .ok (.stop, out.store s ⟨{ stream with getp := bgpMarkerSize + 2 + 1 }, next⟩,
            [.wrote (unsent stream)])
        else do
          let out ← bgpPacketDelete
            (out.store s ⟨{ stream with getp := bgpMarkerSize + 2 + 1 }, next⟩)
          return (.next, out, [.wrote (unsent stream)]) := by
  obtain ⟨sane, header, -⟩ := waits.pending (s, stream) List.mem_cons_self
  obtain ⟨-, next, found, -⟩ := waits.queues.segment
  dsimp only at sane header
  rw [bgpHeaderSize] at header
  have typePos : bgpMarkerSize + 2 = 18 := rfl
  have sane' : Stream.Sane { stream with getp := bgpMarkerSize + 2 } :=
    ⟨show bgpMarkerSize + 2 ≤ stream.endp by omega, sane.endp_le⟩
  have typed : streamGetc { stream with getp := bgpMarkerSize + 2 } =
      .ok (stream.byte (bgpMarkerSize + 2), { stream with getp := bgpMarkerSize + 2 + 1 }) :=
    streamGetc_ok sane' (show bgpMarkerSize + 2 + 1 ≤ stream.endp by omega)
  refine ⟨next, found, ?_⟩
  rw [bgpWriteOne, deref_ok found, ok_bind, streamGetEndp_ok sane, ok_bind]
  dsimp only
  rw [if_neg whole, streamSetGetp_ok sane (by omega), ok_bind, typed]
  rfl

/-- A packet that is written as a whole is deleted, unless it is a notification. -/
theorem Waits.writeNext {num : Nat} (whole : ¬ num < stream.endp - stream.getp)
    (plain : stream.byte (bgpMarkerSize + 2) ≠ MsgType.msgNotify.code) :
    ∃ out', bgpWriteOne s (.accepts num) out = .ok (.next, out', [.wrote (unsent stream)]) ∧
      Waits (trace ++ [.wrote (unsent stream)]) out' rest none ∧
      excess out' rest = excess out ((s, stream) :: rest) := by
  obtain ⟨next, found, written⟩ := waits.writeWhole whole
  obtain ⟨heap', obuf', popped, freed, queues', count⟩ :=
    streamFifoPop_free (waits.setGetp found (bgpMarkerSize + 2 + 1))
  refine ⟨{ heap := heap', obuf := obuf' }, ?_, ⟨queues', ?_, ?_⟩, ?_⟩
  · rw [written, if_neg plain, bgpPacketDelete, popped, ok_bind]
    dsimp only
    rw [freed]
    rfl
  · exact fun item mem => waits.pending item (List.mem_cons_of_mem _ mem)
  · have all := waits.account_wrote (unsent stream).length
    rwa [List.take_length, List.drop_length] at all
  · have before : out.obuf.count = obuf'.count + 1 := by
      rw [count]
      exact (UInt64.sub_add_cancel _ _).symm
    rw [excess, excess, before, List.length_cons, count_sub_succ]

/-- **One turn of the loop writes a part of the first packet, or all of it and then deletes it.** -/
theorem Waits.writeOne (socket : SocketWrite) :
    ∃ progress out' actions items', bgpWriteOne s socket out = .ok (progress, out', actions) ∧
      Queues out'.heap out'.obuf items' none ∧
      (progress ≠ .stop → Waits (trace ++ actions) out' items' none ∧
        excess out' items' = excess out ((s, stream) :: rest)) ∧
      ∀ num, socket = .accepts num → num ≠ 0 → ∃ bytes, bytes ≠ [] ∧ actions = [.wrote bytes] := by
  obtain ⟨sane, header, more⟩ := waits.pending (s, stream) List.mem_cons_self
  have some := unsent_ne_nil sane more
  obtain ⟨-, next, found, -⟩ := waits.queues.segment
  cases socket with
  | retry =>
    exact ⟨.done, out, [], _, waits.writeNothing (.inl rfl), waits.queues,
      fun _ => ⟨waits.same, rfl⟩, nofun⟩
  | fatal =>
    exact ⟨.done, out, [], _, waits.writeNothing (.inr rfl), waits.queues,
      fun _ => ⟨waits.same, rfl⟩, nofun⟩
  | accepts num =>
    by_cases part : num < stream.endp - stream.getp
    · have inside : stream.getp + num ≤ stream.endp := by omega
      have queues := waits.setGetp found (stream.getp + num)
      refine ⟨.done, out.store s _, [.wrote ((unsent stream).take num)], _, ?_, queues,
        fun _ => ⟨⟨queues, ?_, ?_⟩, rfl⟩, ?_⟩
      · rw [bgpWriteOne, deref_ok found, ok_bind, streamGetEndp_ok sane, ok_bind]
        dsimp only
        rw [if_pos part, streamForwardGetp_ok sane inside]
        rfl
      · exact List.forall_mem_cons.mpr ⟨⟨⟨inside, sane.endp_le⟩, header, Nat.add_lt_of_lt_sub' part⟩,
          fun item mem => waits.pending item (List.mem_cons_of_mem _ mem)⟩
      · have left' :
            unsent { stream with getp := stream.getp + num } = (unsent stream).drop num :=
          List.drop_drop.symm
        rw [List.flatMap_cons, left']
        exact waits.account_wrote num
      · rintro _ ⟨⟩ positive
        exact ⟨_, by simp [List.take_eq_nil_iff, positive, some], rfl⟩
    · by_cases notify : stream.byte (bgpMarkerSize + 2) = MsgType.msgNotify.code
      · obtain ⟨next, found, written⟩ := waits.writeWhole part
        rw [if_pos notify] at written
        exact ⟨.stop, out.store s _, [.wrote (unsent stream)], _, written,
          waits.setGetp found (bgpMarkerSize + 2 + 1), fun go => (go rfl).elim,
          fun _ _ _ => ⟨_, some, rfl⟩⟩
      · obtain ⟨out', written, waits'⟩ := waits.writeNext part notify
        exact ⟨.next, out', [.wrote (unsent stream)], rest, written, waits'.1.queues,
          fun _ => waits', fun _ _ _ => ⟨_, some, rfl⟩⟩

end

/-- **The loop writes packets from the front and leaves a finite list.** -/
theorem Waits.writeLoop (calls : Nat → WriteCall) (left : Nat) :
    ∀ {trace : List OutAction} {out : PeerOut} {items : List (Nat × Stream)},
      Waits trace out items none → ∃ progress out' actions items',
        bgpWriteLoop calls left out = .ok (progress, out', actions) ∧
          Queues out'.heap out'.obuf items' none ∧
          (progress ≠ .stop → Waits (trace ++ actions) out' items' none ∧
            excess out' items' = excess out items) := by
  induction left with
  | zero =>
    intro trace out items waits
    exact ⟨.done, out, [], items, rfl, waits.queues, fun _ => ⟨waits.same, rfl⟩⟩
  | succ left ih =>
    intro trace out items waits
    rcases waits.writePacket (calls (bgpWritePacketMax - (left + 1))).made with empty |
      ⟨s, out₁, queued, stream, rest, first, waits₁, same⟩
    · refine ⟨.done, out, [], items, ?_, waits.queues, fun _ => ⟨waits.same, rfl⟩⟩
      rw [bgpWriteLoop, empty]
      rfl
    · obtain ⟨progress, out₂, wrote, items₂, written, queues₂, goesOn, -⟩ :=
        waits₁.writeOne (calls (bgpWritePacketMax - (left + 1))).socket
      by_cases last : progress ≠ .next
      · refine ⟨progress, out₂, queued ++ wrote, items₂, ?_, queues₂, fun notStop => ?_⟩
        · rw [bgpWriteLoop, first, ok_bind]
          dsimp only
          rw [written]
          cases progress with
          | done | stop => rfl
          | next => exact absurd rfl last
        · rw [← List.append_assoc, ← same]
          exact goesOn notStop
      · obtain rfl := not_not.mp last
        obtain ⟨progress, out₃, later, items₃, writtenLater, queues₃, goesOn'⟩ :=
          ih (goesOn WriteProgress.noConfusion).1
        refine ⟨progress, out₃, queued ++ wrote ++ later, items₃, ?_, queues₃, ?_⟩
        · rw [bgpWriteLoop, first, ok_bind]
          dsimp only
          rw [written, ok_bind]
          rw [writtenLater]
          rfl
        · intro notStop
          rw [← List.append_assoc, ← List.append_assoc, ← same, ← (goesOn WriteProgress.noConfusion).2]
          exact goesOn' notStop

/-! ## Runs -/

theorem waits_cleaned (trace : List OutAction) {items : List (Nat × Stream)}
    (queues : Queues out.heap out.obuf items none) :
    ∃ out', cleanQueue out = .ok (out', [.cleaned]) ∧ Waits (trace ++ [.cleaned]) out' [] none ∧
      excess out' [] = 0 := by
  obtain ⟨heap', cleaned⟩ := streamFifoClean_ok queues
  refine ⟨{ heap := heap', obuf := streamFifoNew }, ?_, ⟨queues_new heap', ?_, ?_⟩,
    UInt64.sub_self 0⟩
  · rw [cleanQueue, cleaned]
    rfl
  · exact fun _ mem => (List.not_mem_nil mem).elim
  · rw [writtenSince_snoc, queuedSince_snoc]
    rfl

/-- Keepalives that queue nothing, and the other events. -/
def OutEvent.Quiet : OutEvent → Prop
  | .keepalive sends => sends = []
  | _ => True

/-- **No event meets a dangling pointer, and every event leaves a finite list that accounts for what
was queued. Keepalives make the count greater than the list is long.** -/
theorem Waits.step (waits : Waits trace out items none) {event : OutEvent}
    (allowed : OutAllowed out event) : ∃ out' actions items',
      outStep out event = .ok (out', actions) ∧ Waits (trace ++ actions) out' items' none ∧
      (excess out items = 0 → (excess out' items' = 0 ↔ event.Quiet)) := by
  cases event with
  | keepalive sends =>
    rcases queuedByKeepalive_cases allowed with nothing | ⟨messages, packets, some, few⟩
    · obtain rfl := List.map_eq_nil_iff.mp nothing
      exact ⟨out, [], items, rfl, waits.same, fun exact => iff_of_true exact rfl⟩
    · obtain ⟨out', items', sent, waits', more⟩ := Waits.sendPackets packets waits
      refine ⟨out', _, items', sent, waits', fun exact => iff_of_false ?_ ?_⟩
      · rw [more, exact, UInt64.zero_add, ← UInt64.toNat_inj, UInt64.toNat_ofNat']
        simp only [UInt64.toNat_zero]
        omega
      · rintro rfl
        simp at packets
  | add proposed packet =>
    obtain ⟨s, out', added, waits', same⟩ := waits.addPacket packet proposed
    refine ⟨out', [.queued packet.stream.contents], _, ?_, waits', fun exact => by simp [same, exact,
      OutEvent.Quiet]⟩
    rw [outStep, added]
    rfl
  | write calls =>
    obtain ⟨progress, out₁, actions, items₁, written, queues₁, goesOn⟩ :=
      waits.writeLoop calls bgpWritePacketMax
    by_cases stops : progress = .stop
    · obtain ⟨out₂, cleaned, waits₂, none⟩ := waits_cleaned (trace ++ actions) queues₁
      refine ⟨out₂, actions ++ [.cleaned], [], ?_, ?_, fun _ => iff_of_true none trivial⟩
      · rw [outStep, bgpWrite, written, ok_bind]
        dsimp only
        rw [if_pos stops, cleaned]
        rfl
      · rw [← List.append_assoc]
        exact waits₂
    · obtain ⟨waits₁, same⟩ := goesOn stops
      refine ⟨out₁, actions, items₁, ?_, waits₁, fun exact => iff_of_true (same.trans exact) trivial⟩
      rw [outStep, bgpWrite, written, ok_bind]
      dsimp only
      rw [if_neg stops]
      rfl
  | clean =>
    obtain ⟨out', cleaned, waits', none⟩ := waits_cleaned trace waits.queues
    exact ⟨out', [.cleaned], [], cleaned, waits', fun _ => iff_of_true none trivial⟩

theorem waits_of_run (run : OutRun trace out) : ∃ items, Waits trace out items none := by
  apply run.invariant fun trace out => ∃ items, Waits trace out items none
  · exact ⟨[], waits_new⟩
  · rintro trace actions out out' event ⟨items, waits⟩ allowed stepped
    obtain ⟨out'', actions', items', stepped', waits', -⟩ := waits.step allowed
    rw [stepped, Except.ok.injEq] at stepped'
    obtain ⟨rfl, rfl⟩ := stepped'
    exact ⟨items', waits'⟩

/-! ## Progress -/

/-- A call of `bgp_write` that finds a socket which takes at least one byte. -/
def OutEvent.willing : OutEvent → Bool
  | .write calls =>
    match (calls 0).socket with
    | .accepts num => num ≠ 0
    | _ => false
  | _ => false

/-- Where nothing is cleaned, what was queued and what was written only grow. -/
theorem since_append (trace : List OutAction) {later : List OutAction} (uncleaned : .cleaned ∉ later) :
    (queuedSince trace).flatten <+: (queuedSince (trace ++ later)).flatten ∧
      writtenSince trace <+: writtenSince (trace ++ later) := by
  induction later using List.reverseRecOn with
  | nil => simp
  | append_singleton later action ih =>
    obtain ⟨earlier, last⟩ := not_or.mp (mt List.mem_append.mpr uncleaned)
    obtain ⟨queued, written⟩ := ih earlier
    rw [← List.append_assoc, queuedSince_snoc, writtenSince_snoc]
    cases action with
    | queued bytes =>
      rw [queueStep, writeStep, List.flatten_append]
      exact ⟨queued.trans (List.prefix_append _ _), written⟩
    | wrote bytes => exact ⟨queued, written.trans (List.prefix_append _ _)⟩
    | cleaned => exact absurd (List.mem_singleton_self _) last

/-- **A call of `bgp_write` with a willing socket sends**, if a packet waits. -/
theorem Waits.write_willing (waits : Waits trace out items none) {calls : Nat → WriteCall}
    (willing : (OutEvent.write calls).willing = true) (waiting : items ≠ [])
    {progress : WriteProgress} {out' : PeerOut} {actions : List OutAction}
    (written : bgpWrite calls out = .ok (progress, out', actions)) :
    ∃ bytes later, bytes ≠ [] ∧ actions = .wrote bytes :: later := by
  obtain ⟨⟨s, stream⟩, rest, rfl⟩ := List.exists_cons_of_ne_nil waiting
  obtain ⟨num, socket, some⟩ : ∃ num, (calls 0).socket = .accepts num ∧ num ≠ 0 := by
    unfold OutEvent.willing at willing
    cases socket : (calls 0).socket with
    | accepts num => exact ⟨num, rfl, by simpa [socket] using willing⟩
    | retry | fatal => simp [socket] at willing
  obtain ⟨head, -⟩ := waits.queues.segment
  have first : bgpWritePacket (calls 0).made out = .ok (Option.some s, out, []) := by
    unfold bgpWritePacket
    rw [head]
  rw [bgpWrite, bgpWritePacketMax, bgpWriteLoop, bgpWritePacketMax, Nat.sub_self, first, ok_bind,
    socket] at written
  obtain ⟨progress₁, out₁, wrote, -, one, -, -, sends⟩ := waits.writeOne (.accepts num)
  obtain ⟨bytes, more, rfl⟩ := sends num rfl some
  dsimp only at written
  rw [one, ok_bind] at written
  cases progress₁ with
  | next =>
    obtain ⟨⟨progress₂, out₂, later⟩, -, returned⟩ := bind_eq_ok written
    cases returned
    exact ⟨bytes, later, more, rfl⟩
  | done | stop =>
    cases written
    exact ⟨bytes, [], more, rfl⟩

/-- One event brings what was queued closer to being written if it is a call with a willing
socket. -/
theorem Waits.step_willing (waits : Waits trace out items none) {event : OutEvent} {out' : PeerOut}
    {actions : List OutAction} (stepped : outStep out event = .ok (out', actions))
    (uncleaned : .cleaned ∉ actions) {target : List UInt8}
    (queued : target <+: (queuedSince trace).flatten) :
    target.length ≤ (writtenSince trace).length ∨
      (writtenSince trace).length + event.willing.toNat ≤
        (writtenSince (trace ++ actions)).length := by
  have grows := (since_append trace uncleaned).2.length_le
  cases willing : event.willing with
  | false => exact .inr grows
  | true =>
    by_cases waiting : items = []
    · left
      have all : writtenSince trace = (queuedSince trace).flatten := by
        simpa [waiting] using waits.account
      rw [all]
      exact queued.length_le
    · right
      cases event with
      | write calls =>
        rw [outStep] at stepped
        obtain ⟨⟨progress, out₁, wrote⟩, written, others⟩ := bind_eq_ok stepped
        obtain ⟨bytes, later, more, rfl⟩ := waits.write_willing willing waiting written
        dsimp only at others
        split_ifs at others
        · obtain ⟨⟨out₂, cleaned⟩, emptied, returned⟩ := bind_eq_ok others
          obtain ⟨_, -, returned'⟩ := bind_eq_ok emptied
          cases returned'
          cases returned
          simp at uncleaned
        · cases others
          have split : trace ++ .wrote bytes :: later = (trace ++ [.wrote bytes]) ++ later := by simp
          rw [split]
          have rest : .cleaned ∉ later := fun mem => uncleaned (List.mem_cons_of_mem _ mem)
          have kept := (since_append (trace ++ [.wrote bytes]) rest).2.length_le
          rw [writtenSince_snoc, writeStep, List.length_append] at kept
          have := List.length_pos_iff.mpr more
          rw [Bool.toNat_true]
          omega
      | _ => cases willing

/-- **What was queued is written after enough calls with a willing socket**, whatever else happens
between them, unless the queue is cleaned. -/
theorem Waits.drains {events : List OutEvent} :
    ∀ {trace : List OutAction} {out : PeerOut} {items : List (Nat × Stream)},
      Waits trace out items none → (∀ event ∈ events, OutAllowed out event) →
        ∃ out' later items', execute outStep out events = .ok (out', later) ∧
          Waits (trace ++ later) out' items' none ∧
          (.cleaned ∉ later → ∀ target, target <+: (queuedSince trace).flatten →
            target.length ≤ (writtenSince trace).length + events.countP OutEvent.willing →
              target <+: writtenSince (trace ++ later)) := by
  induction events with
  | nil =>
    intro trace out items waits _
    refine ⟨out, [], items, rfl, waits.same, fun _ target queued long => ?_⟩
    rw [List.append_nil]
    refine List.prefix_of_prefix_length_le queued ?_ long
    exact ⟨_, waits.account⟩
  | cons event events ih =>
    intro trace out items waits allowed
    obtain ⟨out₁, actions, items₁, stepped, waits₁, -⟩ :=
      waits.step (allowed event List.mem_cons_self)
    obtain ⟨out₂, later, items₂, executed, waits₂, drains⟩ :=
      ih waits₁ fun event mem => allowed event (List.mem_cons_of_mem _ mem)
    refine ⟨out₂, actions ++ later, items₂, ?_, ?_, fun uncleaned target queued long => ?_⟩
    · rw [execute, stepped]
      dsimp only
      rw [executed]
    · rw [← List.append_assoc]
      exact waits₂
    · rw [← List.append_assoc]
      obtain ⟨now, afterwards⟩ := not_or.mp (mt List.mem_append.mpr uncleaned)
      obtain ⟨queuedGrows, writtenGrows⟩ := since_append trace now
      refine drains afterwards target (queued.trans queuedGrows) ?_
      have grown := writtenGrows.length_le
      rcases waits.step_willing stepped now queued with enough | more
      · omega
      · cases willing : event.willing <;> simp [willing] at long more <;> omega

theorem Waits.head_none (waits : Waits trace out items none)
    (written : (queuedSince trace).flatten <+: writtenSince trace) : out.obuf.head = none := by
  have long := written.length_le
  rw [← waits.account, List.length_append] at long
  cases items with
  | nil => exact waits.queues.segment
  | cons item rest =>
    obtain ⟨sane, -, pending⟩ := waits.pending item List.mem_cons_self
    have more := List.length_pos_iff.mpr (unsent_ne_nil sane pending)
    rw [List.flatMap_cons, List.length_append] at long
    omega

/-- **Between any two events the queue is a finite list of different streams; what was written
since the queue was last cleaned, followed by what is left of the streams, is what was queued,
each packet once and in the order of the first additions. In particular an empty queue means
that every packet was written. No event fails, whatever the socket does. And the packets are
written: after as many calls of `bgp_write` with a willing socket as bytes wait, whatever happens
between them, all packets queued before are written, unless the queue was cleaned; if no packet was
queued meanwhile, the queue is empty.** -/
theorem output_exactly_once (run : OutRun trace out) :
    ∃ items, Segment out.heap out.obuf.head items none ∧ (items.map Prod.fst).Nodup ∧
      writtenSince trace ++ items.flatMap (fun item => unsent item.2) =
        (queuedSince trace).flatten ∧
      (out.obuf.head = none → writtenSince trace = (queuedSince trace).flatten) ∧
      ∀ events, (∀ event ∈ events, OutAllowed out event) →
        ∃ out' later, execute outStep out events = .ok (out', later) ∧
          (.cleaned ∉ later →
            (items.flatMap fun item => unsent item.2).length ≤ events.countP OutEvent.willing →
              (queuedSince trace).flatten <+: writtenSince (trace ++ later) ∧
              (queuedSince (trace ++ later) = queuedSince trace → out'.obuf.head = none)) := by
  obtain ⟨items, waits⟩ := waits_of_run run
  refine ⟨items, waits.queues.segment, waits.queues.distinct, waits.account, ?_, ?_⟩
  · intro empty
    cases items with
    | nil => simpa using waits.account
    | cons item rest =>
      obtain ⟨here, -⟩ := waits.queues.segment
      rw [empty] at here
      cases here
  · intro events allowed
    obtain ⟨out', later, items', executed, waits', drains⟩ := waits.drains allowed
    refine ⟨out', later, executed, fun uncleaned long => ?_⟩
    have written := drains uncleaned _ (List.prefix_refl _) (by
      rw [← waits.account, List.length_append]
      omega)
    exact ⟨written, fun same => waits'.head_none (same ▸ written)⟩

/-- The first keepalive of a node: two packets are added twice, and the queue holds three. -/
theorem output_exactly_once_keepalive : ∃ trace out, OutRun trace out ∧
    queuedSince trace = [packetBytes .msgTrust [10], packetBytes .msgVotingPeersRequest [],
      packetBytes .msgKeepalive []] ∧
    ∃ items, Segment out.heap out.obuf.head items none ∧ (items.map Prod.fst).Nodup ∧
      writtenSince trace ++ items.flatMap (fun item => unsent item.2) =
        (queuedSince trace).flatten := by
  have allowed : OutAllowed PeerOut.new
      (.keepalive [(1, .voting (.trust 10)), (2, .voting .peersRequest), (3, .keepalive)]) :=
    ⟨neighbourOf 2 2, early, startedNode, _, _, rfl, rfl⟩
  have packets : [(1, Packet.voting (.trust 10)), (2, .voting .peersRequest),
      (3, .keepalive)].map Prod.snd =
      [VotingMessage.trust 10, .peersRequest].map .voting ++ [.keepalive] := rfl
  obtain ⟨out, items, sent, -⟩ := Waits.sendPackets packets waits_new
  have run : OutRun _ out := Run.start.next allowed sent
  obtain ⟨items, segment, distinct, account, -⟩ := output_exactly_once run
  exact ⟨_, out, run, rfl, items, segment, distinct, account⟩

/-! ## The count -/

/-- An event that may happen. -/
abbrev QueueEvent := { event : OutEvent // OutAllowed .new event }

/-- The queue after an event, or as it is if there is a fault. -/
def outNext (out : PeerOut) (event : QueueEvent) : PeerOut :=
  match outStep out event with
  | .ok (out, _) => out
  | .error _ => out

/-- The count is the number of packets in the queue. -/
def CountAccurate (out : PeerOut) : Prop :=
  ∃ items, Segment out.heap out.obuf.head items none ∧ out.obuf.count = UInt64.ofNat items.length

/-- The queue is a list of packets, and the count is their number. -/
def Counted (out : PeerOut) : Prop := ∃ trace items, Waits trace out items none ∧ excess out items = 0

theorem counted_new : Counted .new := ⟨[], [], waits_new, rfl⟩

theorem Waits.countAccurate_iff (waits : Waits trace out items none) :
    CountAccurate out ↔ excess out items = 0 := by
  constructor
  · rintro ⟨items', segment, count⟩
    rw [excess, count, segment.unique waits.queues.segment]
    exact UInt64.sub_self _
  · intro exact
    refine ⟨items, waits.queues.segment, ?_⟩
    rw [excess] at exact
    grind

theorem Counted.next (counted : Counted out) (event : QueueEvent) :
    (CountAccurate (outNext out event) ↔ event.1.Quiet) ∧
      (event.1.Quiet → Counted (outNext out event)) := by
  obtain ⟨trace, items, waits, exact⟩ := counted
  have allowed : OutAllowed out event.1 := event.2
  obtain ⟨out', actions, items', stepped, waits', quiet⟩ := waits.step allowed
  rw [outNext, stepped]
  exact ⟨waits'.countAccurate_iff.trans (quiet exact),
    fun still => ⟨_, items', waits', (quiet exact).mpr still⟩⟩

/-- **The count of the queue is right throughout if and only if no keepalive queues anything.** -/
theorem outQ_accurate_iff (events : List QueueEvent) :
    Throughout outNext .new CountAccurate events ↔ ∀ event ∈ events, event.1.Quiet := by
  have each : Throughout outNext .new CountAccurate events ↔
      EachMeets outNext .new (fun _ event => event.1.Quiet) events :=
    throughout_iff_eachMeets Counted counted_new
      (fun _ event counted quiet => (counted.next event).2 quiet)
      (fun _ ⟨_, _, waits, exact⟩ => waits.countAccurate_iff.mpr exact)
      (fun _ event counted right => (counted.next event).1.mp right) events
  rw [each]
  constructor
  · intro meets event mem
    obtain ⟨before, later, split⟩ := List.append_of_mem mem
    exact meets split
  · intro quiet before event later split
    exact quiet event (by simp [split])

/-- The first keepalive of a node: two packets are counted twice. -/
def firstKeepalive : QueueEvent :=
  ⟨.keepalive [(1, .voting (.trust 10)), (2, .voting .peersRequest), (3, .keepalive)],
    neighbourOf 2 2, early, startedNode, _, _, rfl, rfl⟩

theorem firstKeepalive_miscounted : ¬ Throughout outNext .new CountAccurate [firstKeepalive] := by
  intro throughout
  have right := (throughout_cons.mp throughout).2
  have quiet := (counted_new.next firstKeepalive).1.mp (throughout_nil.mp right)
  exact absurd quiet (List.cons_ne_nil _ _)

end Quagga.Bgpd
