import Quagga.Bgpd.Framing
import Quagga.Bgpd.OutputQueue

/-!
# From one speaker to the other

The packets that a speaker queues reach its neighbour as messages: `bgp_write` writes them in
pieces, as the socket takes them, and `bgp_read` puts them together from other pieces. What the
neighbour has dispatched is always an initial part of what was queued, and all of it once the queue
is empty and everything is read (`delivery`).
-/

set_option autoImplicit false

namespace Quagga.Bgpd

open Lib Library

/-- The header of a packet is accepted and declares its length. -/
structure Framed (packet : List UInt8) : Prop where
  complete : bgpHeaderSize ≤ packet.length
  passed : headerError packet = none
  length_eq : packet.length = headerLength packet

/-- The message that a packet is. -/
def messageOf (packet : List UInt8) : Message :=
  { code := headerCode packet, body := packet.drop bgpHeaderSize }

variable (goesOn : List Message → Bool)

/-- The messages are dispatched one after another, as long as the session goes on. -/
def delivered : List Message → List Message → List ReadAction
  | _, [] => []
  | history, message :: rest =>
    .dispatched message ::
      if goesOn (history ++ [message]) then delivered (history ++ [message]) rest else []

variable {goesOn} {packets : List (List UInt8)}

theorem unfinished_of_begins {packet written : List UInt8} (framed : Framed packet)
    (begins : written <+: packet) (shorter : written.length < packet.length) :
    Unfinished written := by
  obtain ⟨rest, rfl⟩ := begins
  by_cases short : written.length < bgpHeaderSize
  · exact .inl short
  · obtain ⟨length_eq, -, error_eq⟩ := header_append (Nat.le_of_not_lt short) rest
    refine .inr ⟨error_eq ▸ framed.passed, ?_⟩
    rw [← length_eq, ← framed.length_eq]
    exact shorter

/-- What has been written of the packets frames to the first messages, and to all of them in the
end. -/
theorem frame_written (framed : ∀ packet ∈ packets, Framed packet) {written rest : List UInt8}
    (part : written ++ rest = packets.flatten) (history : List Message) :
    frame goesOn history written <+: delivered goesOn history (packets.map messageOf) ∧
      (rest = [] →
        frame goesOn history written = delivered goesOn history (packets.map messageOf)) := by
  induction packets generalizing written history with
  | nil =>
    obtain ⟨rfl, -⟩ := List.append_eq_nil_iff.mp part
    exact ⟨List.nil_prefix, fun _ => rfl⟩
  | cons packet packets ih =>
    obtain ⟨here, later⟩ := List.forall_mem_cons.mp framed
    have begins : written <+: packet ++ packets.flatten := ⟨rest, part⟩
    rcases Nat.lt_or_ge written.length packet.length with shorter | longer
    · have begins := List.prefix_of_prefix_length_le begins (List.prefix_append ..) shorter.le
      rw [frame_unfinished (unfinished_of_begins here begins shorter)]
      refine ⟨List.nil_prefix, fun whole => ?_⟩
      have length := congrArg List.length part
      simp [whole] at length
      omega
    · obtain ⟨written, rfl⟩ := List.prefix_of_prefix_length_le (List.prefix_append ..) begins longer
      rw [List.append_assoc, List.flatten_cons, List.append_cancel_left_eq] at part
      rw [frame_message here.complete here.passed here.length_eq written
        (show messageOf packet = _ from rfl), List.map_cons, delivered]
      obtain ⟨first, all⟩ := ih later part (history ++ [messageOf packet])
      split_ifs
      · exact ⟨(List.prefix_cons_inj _).mpr first, fun whole => by rw [all whole]⟩
      · exact ⟨List.prefix_rfl, fun _ => rfl⟩

/-- **What is queued is delivered in order**: however the packets are written and read, the
neighbour has dispatched an initial part of them, each once, and all of them when none waits. -/
theorem delivery {trace : List OutAction} {out : PeerOut} (run : OutRun trace out)
    (framed : ∀ packet ∈ queuedSince trace, Framed packet) {split : List (Nat × Nat)}
    {actions : List ReadAction} (reads : Reads goesOn false (writtenSince trace) split actions) :
    actions <+: delivered goesOn [] ((queuedSince trace).map messageOf) ∧
      (out.obuf.head = none →
        actions = delivered goesOn [] ((queuedSince trace).map messageOf)) := by
  obtain ⟨items, waits⟩ := waits_of_run run
  rw [reads.frame_eq]
  obtain ⟨first, all⟩ := frame_written framed waits.account []
  refine ⟨first, fun empty => all ?_⟩
  cases items with
  | nil => rfl
  | cons item rest =>
    obtain ⟨here, -⟩ := waits.queues.segment
    rw [empty] at here
    cases here

/-- A `KEEPALIVE`, ready to be added. -/
def keepaliveReady : ReadyPacket where
  stream := { data := packetBytes .msgKeepalive [], getp := 0, endp := 19 }
  sane := by decide
  getp_eq := rfl
  header := by decide

set_option maxRecDepth 20000 in
/-- It is written and read in two pieces. -/
theorem delivery_keepalive : ∃ trace out, OutRun trace out ∧ out.obuf.head = none ∧
    ([.dispatched ⟨4, []⟩] : List ReadAction) =
      delivered (fun _ => true) [] ((queuedSince trace).map messageOf) := by
  have permitted : Permitted outStep OutAllowed PeerOut.new [.add 0 keepaliveReady,
      .write fun _ => ⟨none, .accepts 7⟩, .write fun _ => ⟨none, .accepts 12⟩] :=
    ⟨trivial, trivial, trivial, trivial⟩
  have run := run_of_execute permitted rfl
  have framed : Framed (packetBytes .msgKeepalive []) := ⟨by decide, by decide, by decide⟩
  have reads : Reads (fun _ => true) false (packetBytes .msgKeepalive []) [(16, 0), (3, 0)]
    [.dispatched ⟨4, []⟩] := ⟨_, rfl, .inr rfl⟩
  have all : ∀ packet ∈ [packetBytes .msgKeepalive []], Framed packet := by simpa using framed
  exact ⟨_, _, run, rfl, (delivery run all reads).2 rfl⟩

end Quagga.Bgpd
