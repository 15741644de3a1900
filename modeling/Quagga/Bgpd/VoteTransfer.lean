import Quagga.Bgpd.InfoCmp
import Quagga.Bgpd.PacketWrite
import Quagga.Bgpd.VotingNode

/-!
# A vote table on its way to the decision

The votes that a node has collected reach the route decision of the node that asked for them
through two files and a packet. The responder reads `/votes` into an array, puts the array into
a VOTING_PEERS_RESPONSE, and the requester takes it from the packet and prints it into
`voteresult-<as>`. `bgp_info_cmp` reads that file into an array again.

Both arrays hold two-byte words, and both are filled by `%d` conversions that store four bytes:
each store also writes the word after its own, with the high half of the number, and the next
store then repairs it. What the last store writes lies behind the array. So whatever the ten
votes are, the decision uses exactly these (`voteTable_transfer`).
-/

set_option autoImplicit false

namespace Quagga.Bgpd

open Lib Library

/-- The voting result of an AS as `bgp_info_cmp` reads it. -/
def readVotes (files : Files) (as : Nat) : Option Words := (files.voteresult as).map scanTable

/-- `bgp_info_cmp` of two routes after it has read the voting results of their ASes. -/
def infoCmpVotes (files : Files) (bgp : Bgp) (oldvotes newvotes : Option Words)
    (new exist : BgpInfo) : Except Fault Bool := do
  let obsTrusts ← readTrusts files.obsTrust
  let inTrusts ← readTrusts files.inTrust
  let newTrust ← directTrust inTrusts obsTrusts new.peer.as
  let existTrust ← directTrust inTrusts obsTrusts exist.peer.as
  let decided :=
    match oldvotes, newvotes with
    | some oldvotes, some newvotes =>
      scoreStep ((votedTrust bgp inTrusts oldvotes).add existTrust)
        ((votedTrust bgp inTrusts newvotes).add newTrust)
    | _, _ => trustStep existTrust newTrust
  return decided.getD (attributeSteps bgp new exist)

/-- The comparison depends on the voting results only through the arrays. -/
theorem bgpInfoCmp_readVotes (files : Files) (bgp : Bgp) (new exist : BgpInfo) :
    bgpInfoCmp files bgp (some new) (some exist) =
      infoCmpVotes files bgp (readVotes files exist.peer.as) (readVotes files new.peer.as)
        new exist := by
  simp only [bgpInfoCmp, readVotes]
  cases files.voteresult exist.peer.as <;> cases files.voteresult new.peer.as <;> rfl

/-- **The votes in the file of the responder are the votes that the requester's decision uses for
the responder's AS.** -/
theorem voteTable_transfer (votes : Words) {responder : Files}
    (held : responder.votes = printWords votes) (requester peer : Peer) (files : Files)
    {input : PeerIn} (idle : Idle input) :
    ∃ message packet files' input' result,
      bgpVotingPeersResponseSend requester responder = .queued requester (.voting message) ∧
      makePacket message.type message.payload = .ok packet ∧
      bgpRead peer files input (.bytes (packet.contents.take bgpHeaderSize))
        (.bytes (packet.contents.drop bgpHeaderSize)) = .ok (files', input', result) ∧
      readVotes files' peer.as = some votes ∧
      ∀ (bgp : Bgp) (new exist : BgpInfo),
        (exist.peer.as = peer.as → bgpInfoCmp files' bgp (some new) (some exist) =
          infoCmpVotes files' bgp (some votes) (readVotes files' new.peer.as) new exist) ∧
        (new.peer.as = peer.as → bgpInfoCmp files' bgp (some new) (some exist) =
          infoCmpVotes files' bgp (readVotes files' exist.peer.as) (some votes) new exist) := by
  have scanned : scanTable responder.votes = votes := by rw [held, scanTable_printWords]
  obtain ⟨packet, made, -, -, contents⟩ := makePacket_ok MsgType.msgVotingPeersResponse
    (show ((List.finRange 10).map votes).length ≤ 10 by simp)
  obtain ⟨files', applied⟩ : ∃ files', applyMessage peer.as files (.peersResponse votes) =
    .ok files' := ⟨_, rfl⟩
  obtain ⟨input', read, -⟩ := bgpRead_message idle applied
  have received : readVotes files' peer.as = some votes := by
    cases applied
    simp [readVotes]
  refine ⟨.peersResponse votes, packet, files', input', _, ?_, made, contents ▸ read, received, ?_⟩
  · rw [bgpVotingPeersResponseSend, scanned]
  · intro bgp new exist
    constructor
    · intro same
      rw [bgpInfoCmp_readVotes, same, received]
    · intro same
      rw [bgpInfoCmp_readVotes, same, received]

/-- Ten different votes, from the greatest number that a word holds on. -/
def greatVotes : Words := fun i => UInt16.ofNat (65535 - i)

theorem voteTable_transfer_great : ∃ packet files' input' result,
    makePacket .msgVotingPeersResponse ((List.finRange 10).map greatVotes) = .ok packet ∧
    bgpRead (neighbourOf 2 2) startedFiles PeerIn.fresh
      (.bytes (packet.contents.take bgpHeaderSize)) (.bytes (packet.contents.drop bgpHeaderSize)) =
        .ok (files', input', result) ∧
    readVotes files' 2 = some greatVotes := by
  have held : ({ startedFiles with votes := printWords greatVotes } : Files).votes =
    printWords greatVotes := rfl
  obtain ⟨message, packet, files', input', result, sent, made, read, received, -⟩ :=
    voteTable_transfer greatVotes held (neighbourOf 1 1) (neighbourOf 2 2) startedFiles idle_fresh
  obtain rfl : message = .peersResponse greatVotes := by
    rw [bgpVotingPeersResponseSend, scanTable_printWords] at sent
    cases sent
    rfl
  exact ⟨packet, files', input', result, made, read, received⟩

end Quagga.Bgpd
