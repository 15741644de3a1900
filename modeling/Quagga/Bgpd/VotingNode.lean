import Quagga.Bgpd.PacketRead

/-!
# The voting protocol at a node

A node reacts to two kinds of events: a message of the extension arrives from a peer, and a
session's keepalive is due. The first changes the tables; the second is `bgp_keepalive_send`,
which before its `KEEPALIVE` sends a trust message and a request for voting results, and
after that whatever the tables ask for:

* when as many entries of `/votes` are nonzero as the node has neighbours, the collected
  votes go to a peer whose AS has asked for them, and the table is cleared once no AS waits
  for it any more;
* before that, a request for a vote goes to the peer as long as any AS waits;
* a vote goes to a peer whose AS has asked for one.

A step is written with the trace of what it does: the message that was received, the packets
that were queued and the clearing of the table. The node of AS 1 also drops one link some
time after its start: nothing is read from that peer or sent to it from then on.
-/

set_option autoImplicit false

namespace Quagga.Bgpd

open Lib Library

/-! ## Events and actions -/

/-- A packet that `bgp_keepalive_send` queues. -/
inductive Packet where
  | voting (message : VotingMessage)
  | keepalive
  deriving DecidableEq

/-- What a step does, in order. -/
inductive NodeAction where
  | received (peer : Peer) (message : VotingMessage)
  | queued (peer : Peer) (packet : Packet)
  | cleared
  deriving DecidableEq

/-- What a call of `bgp_keepalive_send` gets from `rand` and `time`. -/
structure Clock where
  rand : Nat
  time : Nat

/-- A message of the extension is at hand, or a keepalive is due. -/
inductive NodeEvent where
  | arrive (peer : Peer) (message : VotingMessage)
  | tick (peer : Peer) (clock : Clock)

/-- The files and the global variable `toDrop`, which points to the name of a host. -/
structure Node where
  files : Files
  toDrop : Option Nat

/-! ## Sending -/

/-- `bgp_trust_send`. -/
def bgpTrustSend (peer : Peer) (clock : Clock) (node : Node) :
    Except Fault (Node × List NodeAction) := do
  let code := UInt16.ofNat (clock.rand % 90 + 10)
  let myAS ← openTable node.files.myAS
  let toDrop :=
    if node.toDrop = none ∧ clock.time > 1262304072 ∧ peer.as ≠ myAS ∧ myAS = 1 then
      some peer.host
    else node.toDrop
  return ({ node with toDrop := toDrop }, [.queued peer (.voting (.trust code))])

/-- `bgp_voting_vote_response_send`. -/
def bgpVotingVoteResponseSend (peer : Peer) (files : Files) : Except Fault NodeAction := do
  let obsTrust ← openTable files.obsTrust
  let inTrust ← openTable files.inTrust
  let i ← tableIndex peer.as
  let code := scanTable obsTrust i + scanTable inTrust i
  return .queued peer (.voting (.voteResponse code))

/-- `bgp_voting_peers_response_send`. -/
def bgpVotingPeersResponseSend (peer : Peer) (files : Files) : NodeAction :=
  .queued peer (.voting (.peersResponse (scanTable files.votes)))

/-- How many entries of the votes file are not zero. -/
def votesCounter (votes : Table) : Nat := (List.finRange 10).countP fun i => votes i ≠ 0

/-- The test for `all votes arrived`. -/
def allVotesArrived (files : Files) : Bool := votesCounter files.votes = files.neighborsN

/-- The branch of `bgp_keepalive_send` when all votes arrived. -/
def sendCollectedVotes (peer : Peer) (files : Files) : Except Fault (Files × List NodeAction) := do
  let i ← tableIndex peer.as
  if files.votesRequests i = 1 then
    let response := bgpVotingPeersResponseSend peer files
    let ASs := Function.update files.votesRequests i 0
    if ∀ j, ASs j = 0 then
      return ({ files with votesRequests := ASs, votes := fun _ => 0 }, [response, .cleared])
    else
      return ({ files with votesRequests := ASs }, [response])
  else
    return (files, [])

/-- The branch of `bgp_keepalive_send` when votes are missing. -/
def sendVoteRequest (peer : Peer) (files : Files) : List NodeAction :=
  if ∃ j, files.votesRequests j = 1 then [.queued peer (.voting .voteRequest)] else []

/-- The two branches. -/
def sendVotes (peer : Peer) (files : Files) : Except Fault (Files × List NodeAction) :=
  if allVotesArrived files then sendCollectedVotes peer files
  else .ok (files, sendVoteRequest peer files)

/-- The last part of `bgp_keepalive_send` before its own packet. -/
def sendVote (peer : Peer) (files : Files) : Except Fault (Files × List NodeAction) := do
  let i ← tableIndex peer.as
  if files.votesResponses i = 1 then
    let response ← bgpVotingVoteResponseSend peer files
    return ({ files with votesResponses := Function.update files.votesResponses i 0 }, [response])
  else
    return (files, [])

/-- `bgp_keepalive_send`. -/
def bgpKeepaliveSend (peer : Peer) (clock : Clock) (node : Node) :
    Except Fault (Node × List NodeAction) :=
  if node.toDrop = some peer.host then .ok (node, [])
  else do
    let (node, trust) ← bgpTrustSend peer clock node
    let (files, votes) ← sendVotes peer node.files
    let (files, vote) ← sendVote peer files
    return ({ node with files := files },
      trust ++ [.queued peer (.voting .peersRequest)] ++ votes ++ vote ++ [.queued peer .keepalive])

/-! ## Steps -/

/-- A message is read by `bgp_read` and applied, except from a host that is dropped. -/
def receiveMessage (peer : Peer) (message : VotingMessage) (node : Node) :
    Except Fault (Node × List NodeAction) :=
  if node.toDrop = some peer.host then .ok (node, [])
  else do
    let files ← applyMessage peer.as node.files message
    return ({ node with files := files }, [.received peer message])

/-- One event at a node. -/
def nodeStep (node : Node) : NodeEvent → Except Fault (Node × List NodeAction)
  | .arrive peer message => receiveMessage peer message node
  | .tick peer clock => bgpKeepaliveSend peer clock node

/-- The peer of an event. -/
def NodeEvent.peer : NodeEvent → Peer
  | .arrive peer _ => peer
  | .tick peer _ => peer

/-- Only these peers take part. -/
def FromPeers (peers : List Peer) (_ : Node) (event : NodeEvent) : Prop := event.peer ∈ peers

/-! ## What the parts of a step do -/

variable {actions : List NodeAction} {files : Files}

theorem setEntry_ok {as : Nat} (inTables : InTables as) (table : Table) (value : Nat) :
    setEntry table as value = .ok (Function.update table (slot as) value) := by
  rw [setEntry, tableIndex_ok inTables]
  rfl

theorem inTables_of_setEntry {as value : Nat} {table table' : Table}
    (entered : setEntry table as value = .ok table') : InTables as := by
  obtain ⟨i, found, -⟩ := bind_eq_ok entered
  exact inTables_of_tableIndex found

variable {peer : Peer}

theorem bgpTrustSend_spec {clock : Clock} {node node' : Node}
    (sent : bgpTrustSend peer clock node = .ok (node', actions)) :
    node'.files = node.files ∧ ∃ code, actions = [.queued peer (.voting (.trust code))] := by
  obtain ⟨myAS, -, returned⟩ := bind_eq_ok sent
  cases returned
  exact ⟨rfl, _, rfl⟩

variable {files' : Files}

/-- The collected votes are sent to a peer that asked for them, and the table is cleared with the
last request; otherwise the files stay as they are. -/
theorem sendVotes_spec (inTables : InTables peer.as)
    (sent : sendVotes peer files = .ok (files', actions)) :
    (allVotesArrived files = true ∧ files.votesRequests (slot peer.as) = 1 ∧
      ∃ ASs, ASs = Function.update files.votesRequests (slot peer.as) 0 ∧
        (((∀ j, ASs j = 0) ∧ files' = { files with votesRequests := ASs, votes := fun _ => 0 } ∧
            actions = [bgpVotingPeersResponseSend peer files, .cleared]) ∨
          ((¬ ∀ j, ASs j = 0) ∧ files' = { files with votesRequests := ASs } ∧
            actions = [bgpVotingPeersResponseSend peer files]))) ∨
      (files' = files ∧ (actions = [] ∨ actions = [.queued peer (.voting .voteRequest)])) := by
  rw [sendVotes] at sent
  split_ifs at sent with arrived
  · rw [sendCollectedVotes, tableIndex_ok inTables, ok_bind] at sent
    split_ifs at sent with waiting
    · dsimp only at sent
      split_ifs at sent with last
      · cases sent
        exact .inl ⟨arrived, waiting, _, rfl, .inl ⟨last, rfl, rfl⟩⟩
      · cases sent
        exact .inl ⟨arrived, waiting, _, rfl, .inr ⟨last, rfl, rfl⟩⟩
    · cases sent
      exact .inr ⟨rfl, .inl rfl⟩
  · cases sent
    rw [sendVoteRequest]
    split_ifs
    · exact .inr ⟨rfl, .inr rfl⟩
    · exact .inr ⟨rfl, .inl rfl⟩

theorem sendVote_spec (inTables : InTables peer.as)
    (sent : sendVote peer files = .ok (files', actions)) :
    (files.votesResponses (slot peer.as) = 1 ∧
      files' = { files with
        votesResponses := Function.update files.votesResponses (slot peer.as) 0 } ∧
      ∃ code, actions = [.queued peer (.voting (.voteResponse code))]) ∨
        (files' = files ∧ actions = []) := by
  rw [sendVote, tableIndex_ok inTables, ok_bind] at sent
  split_ifs at sent with waiting
  · obtain ⟨response, made, returned⟩ := bind_eq_ok sent
    obtain ⟨_, -, made⟩ := bind_eq_ok made
    obtain ⟨_, -, made⟩ := bind_eq_ok made
    obtain ⟨_, -, made⟩ := bind_eq_ok made
    cases made
    cases returned
    exact .inl ⟨waiting, rfl, _, rfl⟩
  · cases sent
    exact .inr ⟨rfl, rfl⟩

theorem inTables_of_sendVote
    (sent : sendVote peer files = .ok (files', actions)) : InTables peer.as := by
  obtain ⟨i, found, -⟩ := bind_eq_ok sent
  exact inTables_of_tableIndex found

theorem bgpKeepaliveSend_spec {clock : Clock} {node node' : Node}
    (sent : bgpKeepaliveSend peer clock node = .ok (node', actions)) :
    (node' = node ∧ actions = []) ∨
      ∃ code files votes vote, sendVotes peer node.files = .ok (files, votes) ∧
        sendVote peer files = .ok (node'.files, vote) ∧
        actions = [.queued peer (.voting (.trust code)), .queued peer (.voting .peersRequest)] ++
          votes ++ vote ++ [.queued peer .keepalive] := by
  rw [bgpKeepaliveSend] at sent
  split_ifs at sent with dropped
  · cases sent
    exact .inl ⟨rfl, rfl⟩
  · obtain ⟨⟨node₁, trust⟩, trustSent, rest⟩ := bind_eq_ok sent
    obtain ⟨same, code, rfl⟩ := bgpTrustSend_spec trustSent
    obtain ⟨⟨files, votes⟩, votesSent, rest⟩ := bind_eq_ok rest
    obtain ⟨⟨files', vote⟩, voteSent, rest⟩ := bind_eq_ok rest
    cases rest
    exact .inr ⟨code, files, votes, vote, same ▸ votesSent, voteSent, rfl⟩

/-! ## Steps do not fail -/

/-- The files that `bgp_process_main` makes are there. -/
structure Files.Made (files : Files) : Prop where
  myAS : files.myAS.isSome
  inTrust : files.inTrust.isSome
  obsTrust : files.obsTrust.isSome

theorem Files.Made.of_eq (made : files.Made) (myAS : files'.myAS = files.myAS)
    (inTrust : files'.inTrust = files.inTrust) (obsTrust : files'.obsTrust = files.obsTrust) :
    files'.Made :=
  ⟨myAS ▸ made.myAS, inTrust ▸ made.inTrust, obsTrust ▸ made.obsTrust⟩

/-! With the trust files in place, a step can only fail where it looks an AS up. -/

section Ensured

variable {tolerated : Fault → Prop}

theorem openTable_ensures {α : Type} {file : Option α} (there : file.isSome) :
    Ensures tolerated (fun _ => True) (openTable file) := by
  cases file with
  | some contents => exact ensures_ok.mpr trivial
  | none => cases there

theorem setEntry_ensures {as : Nat} (indexed : Ensures tolerated (fun _ => True) (tableIndex as))
    (table : Table) (value : Nat) :
    Ensures tolerated (fun _ => True) (setEntry table as value) :=
  indexed.bind fun _ _ => ensures_ok.mpr trivial

theorem applyMessage_voting {as : Nat}
    (indexed : Ensures tolerated (fun _ => True) (tableIndex as)) (files : Files)
    {message : VotingMessage} (voting : ∀ code, message ≠ .trust code) :
    Ensures tolerated (fun files' => files.Made → files'.Made)
      (applyMessage as files message) := by
  cases message with
  | trust code => exact absurd rfl (voting code)
  | peersRequest =>
    rw [applyMessage]
    split_ifs
    · exact (setEntry_ensures indexed _ _).bind fun _ _ made => made.of_eq rfl rfl rfl
    · exact fun made => made
  | voteRequest => exact (setEntry_ensures indexed _ _).bind fun _ _ made => made.of_eq rfl rfl rfl
  | voteResponse vote =>
    exact (setEntry_ensures indexed _ _).bind fun _ _ made => made.of_eq rfl rfl rfl
  | peersResponse votes => exact fun made => made.of_eq rfl rfl rfl

variable {files : Files}

theorem applyMessage_ensures {as : Nat}
    (indexed : Ensures tolerated (fun _ => True) (tableIndex as)) (made : files.Made)
    (message : VotingMessage) : Ensures tolerated Files.Made (applyMessage as files message) := by
  by_cases voting : ∀ code, message ≠ .trust code
  · exact (applyMessage_voting indexed files voting).mono fun _ kept => kept made
  · obtain ⟨code, rfl⟩ : ∃ code, message = .trust code := by simpa using voting
    apply (openTable_ensures made.myAS).bind
    intro _ _
    apply (openTable_ensures made.obsTrust).bind
    intro _ _
    exact indexed.bind fun _ _ => ⟨made.myAS, made.inTrust, rfl⟩

section

variable (indexed : Ensures tolerated (fun _ => True) (tableIndex peer.as))
include indexed

theorem sendVotes_ensures (made : files.Made) :
    Ensures tolerated (fun result => result.1.Made) (sendVotes peer files) := by
  rw [sendVotes]
  split_ifs
  · refine indexed.bind fun _ _ => ?_
    split_ifs
    · dsimp only
      split_ifs
      · exact ensures_ok.mpr (made.of_eq rfl rfl rfl)
      · exact ensures_ok.mpr (made.of_eq rfl rfl rfl)
    · exact ensures_ok.mpr made
  · exact ensures_ok.mpr made

theorem sendVote_ensures (made : files.Made) :
    Ensures tolerated (fun result => result.1.Made) (sendVote peer files) := by
  refine indexed.bind fun _ _ => ?_
  split_ifs
  · have response : Ensures tolerated (fun _ => True) (bgpVotingVoteResponseSend peer files) := by
      apply (openTable_ensures made.obsTrust).bind
      intro _ _
      apply (openTable_ensures made.inTrust).bind
      intro _ _
      exact indexed.bind fun _ _ => ensures_ok.mpr trivial
    exact response.bind fun _ _ => ensures_ok.mpr (made.of_eq rfl rfl rfl)
  · exact ensures_ok.mpr made

theorem bgpKeepaliveSend_ensures (clock : Clock) {node : Node} (made : node.files.Made) :
    Ensures tolerated (fun result => result.1.files.Made) (bgpKeepaliveSend peer clock node) := by
  rw [bgpKeepaliveSend]
  split_ifs
  · exact ensures_ok.mpr made
  · have trust : Ensures tolerated (fun result => result.1.files.Made)
        (bgpTrustSend peer clock node) :=
      (openTable_ensures made.myAS).bind fun _ _ => ensures_ok.mpr made
    apply trust.bind
    intro _ made₁
    apply (sendVotes_ensures indexed made₁).bind
    intro _ made₂
    apply (sendVote_ensures indexed made₂).bind
    intro _ made₃
    exact ensures_ok.mpr made₃

end

end Ensured

/-! ## A small node -/

/-- A neighbour at an address. -/
def neighbourOf (host as : Nat) : Peer :=
  { host := host, as := as, localAs := 1, group := none, remoteId := host, suRemote := .inet host }

/-- A node of AS 1 that has two neighbours. -/
def startedNode : Node := { files := startedFiles, toDrop := none }

/-- A time before any link is dropped. -/
def early : Clock := { rand := 0, time := 0 }

/-- Its first keepalive asks for voting results and has nothing to answer. -/
example : (bgpKeepaliveSend (neighbourOf 2 2) early startedNode).map Prod.snd =
    .ok [.queued (neighbourOf 2 2) (.voting (.trust 10)),
      .queued (neighbourOf 2 2) (.voting .peersRequest), .queued (neighbourOf 2 2) .keepalive] :=
  rfl

end Quagga.Bgpd
