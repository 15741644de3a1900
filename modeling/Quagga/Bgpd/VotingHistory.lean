import Quagga.Bgpd.VotingNode

/-!
# What the vote tables say about the past

The tables of a node are an account of its trace. For every AS the trace gives the last vote
since the votes were cleared (`lastVote`), whether the AS waits for the collected votes
(`requested`) and whether it waits for a vote (`asked`). The three tables hold these values
after every run (`Sound`), and they are what the node acts on:

* collected votes are sent only to an AS that waits for them, as they are in the table, and
  only when as many votes are there as the node has neighbours;
* a vote is sent only to an AS that waits for one;
* the table is cleared exactly after the response with which no AS waits any more.

This is the protocol as guarded actions (`Enabled`): `sound_of_run` shows that the code of
`bgp_keepalive_send` and of the receive functions follows it, and the properties of whole
runs are proved from it without looking at the code again.
-/

set_option autoImplicit false

namespace Quagga.Bgpd

open Lib Library

/-! ## The history of an AS -/

variable (as : Nat)

/-- How an action changes the last vote of an AS. -/
def voteStep (last : Option UInt16) : NodeAction → Option UInt16
  | .received peer (.voteResponse vote) => if peer.as = as then some vote else last
  | .cleared => none
  | _ => last

variable (trace : List NodeAction)

/-- The last vote received from a peer of an AS since the votes were cleared. -/
def lastVote : Option UInt16 := trace.foldl (voteStep as) none

/-- A request for the collected votes, received from an AS. -/
def peersRequestFrom : NodeAction → Bool
  | .received peer .peersRequest => peer.as = as
  | _ => false

/-- The collected votes, queued to an AS. -/
def peersResponseTo : NodeAction → Bool
  | .queued peer (.voting (.peersResponse _)) => peer.as = as
  | _ => false

/-- A request of an AS comes in. -/
def voteRequestFrom : NodeAction → Bool
  | .received peer .voteRequest => peer.as = as
  | _ => false

/-- A vote, queued to an AS. -/
def voteResponseTo : NodeAction → Bool
  | .queued peer (.voting (.voteResponse _)) => peer.as = as
  | _ => false

/-- A request for the collected votes that is taken: a node with a single neighbour takes none. -/
def takesRequest (neighborsN as : Nat) (action : NodeAction) : Bool :=
  peersRequestFrom as action && neighborsN > 1

/-- An AS waits for the collected votes. -/
def requested (neighborsN as : Nat) (trace : List NodeAction) : Bool :=
  due (takesRequest neighborsN as) (peersResponseTo as) trace

/-- An AS waits for a vote. -/
def asked : Bool :=
  due (voteRequestFrom as) (voteResponseTo as) trace

theorem lastVote_snoc (action : NodeAction) :
    lastVote as (trace ++ [action]) = voteStep as (lastVote as trace) action :=
  List.foldl_concat ..

theorem requested_snoc (neighborsN as : Nat) (trace : List NodeAction) (action : NodeAction) :
    requested neighborsN as (trace ++ [action]) =
      dueStep (takesRequest neighborsN as) (peersResponseTo as) (requested neighborsN as trace)
        action :=
  due_snoc ..

/-! ## Tables and guards -/

/-- The tables hold the history of every AS. -/
structure Represents (neighborsN : Nat) (trace : List NodeAction) (files : Files) : Prop where
  neighborsN_eq : files.neighborsN = neighborsN
  votes_eq : ∀ as, InTables as → files.votes (slot as) = ((lastVote as trace).getD 0).toNat
  requests_eq : ∀ as, InTables as →
    files.votesRequests (slot as) = (requested neighborsN as trace).toNat
  responses_eq : ∀ as, InTables as → files.votesResponses (slot as) = (asked as trace).toNat

/-- The votes in the table according to the history. -/
def historyVotes : Words := fun i => (lastVote (i + 1) trace).getD 0

/-- The last action was a response, and no AS waits any more. -/
def AnsweredAll (neighborsN : Nat) (trace : List NodeAction) : Prop :=
  (∃ peer votes, trace.getLast? = some (.queued peer (.voting (.peersResponse votes)))) ∧
    ∀ as, InTables as → requested neighborsN as trace = false

/-- When an action can happen. -/
def Guard (neighborsN : Nat) (trace : List NodeAction) : NodeAction → Prop
  | .queued peer (.voting (.peersResponse votes)) =>
    requested neighborsN peer.as trace = true ∧ votes = historyVotes trace ∧
      votesCounter (printWords votes) = neighborsN
  | .queued peer (.voting (.voteResponse _)) => asked peer.as trace = true
  | _ => True

/-- The guard holds, and the votes are cleared exactly when all requests are answered. -/
structure Enabled (peers : List Peer) (neighborsN : Nat) (trace : List NodeAction)
    (action : NodeAction) : Prop where
  guard : Guard neighborsN trace action
  cleared_iff : action = .cleared ↔ AnsweredAll neighborsN trace
  fromPeers : ∀ {peer message}, action = .received peer message → peer ∈ peers
  toPeers : ∀ {peer packet}, action = .queued peer packet → peer ∈ peers

/-- The state between two actions. -/
structure Follows (peers : List Peer) (neighborsN : Nat) (trace : List NodeAction) (files : Files) :
    Prop where
  represents : Represents neighborsN trace files
  enabled : Always (Enabled peers neighborsN) trace

/-- The state between two steps. -/
structure Sound (peers : List Peer) (neighborsN : Nat) (trace : List NodeAction) (files : Files) :
    Prop extends Follows peers neighborsN trace files where
  settled : ¬ AnsweredAll neighborsN trace

/-! ## Actions keep the account -/

theorem historyVotes_slot {as : Nat} (inTables : InTables as) :
    historyVotes trace (slot as) = (lastVote as trace).getD 0 := by
  have number : (slot as : Nat) + 1 = as := by
    obtain ⟨pos, le⟩ := inTables
    simp only [slot, Fin.ofNat]
    omega
  rw [historyVotes, number]

variable {trace : List NodeAction}

variable {neighborsN : Nat}

variable {files : Files}

theorem Represents.scanTable_votes
    (represents : Represents neighborsN trace files) :
    scanTable files.votes = historyVotes trace := by
  funext i
  obtain ⟨as, inTables, rfl⟩ := slot_surjective i
  rw [scanTable_apply, represents.votes_eq as inTables, historyVotes_slot trace inTables,
    UInt16.ofNat_toNat]

theorem Represents.printWords_historyVotes
    (represents : Represents neighborsN trace files) :
    printWords (historyVotes trace) = files.votes := by
  funext i
  obtain ⟨as, inTables, rfl⟩ := slot_surjective i
  rw [printWords, historyVotes_slot trace inTables, represents.votes_eq as inTables]

/-- An action that no history counts. -/
structure Neutral (action : NodeAction) : Prop where
  vote : ∀ as last, voteStep as last action = last
  request : ∀ neighborsN as waits,
    dueStep (takesRequest neighborsN as) (peersResponseTo as) waits action = waits
  ask : ∀ as waits, dueStep (voteRequestFrom as) (voteResponseTo as) waits action = waits

/-- The packet answers a request. -/
def Packet.answers : Packet → Bool
  | .voting (.peersResponse _) => true
  | .voting (.voteResponse _) => true
  | _ => false

theorem neutral_queued (peer : Peer) {packet : Packet} (plain : packet.answers = false) :
    Neutral (.queued peer packet) := by
  rcases packet with ⟨_ | _ | _ | _ | _⟩ | _
  case voting.peersResponse => cases plain
  case voting.voteResponse => cases plain
  all_goals exact ⟨fun _ _ => rfl, fun _ _ _ => rfl, fun _ _ => rfl⟩

variable {action : NodeAction}

variable {peer : Peer}

section Account

variable {neighborsN : Nat} {trace : List NodeAction} {files files' : Files}

/-- One more action: each table follows its own history. -/
theorem Represents.snoc (represents : Represents neighborsN trace files)
    (number : files'.neighborsN = files.neighborsN)
    (votes : ∀ as, InTables as →
      files'.votes (slot as) = ((voteStep as (lastVote as trace) action).getD 0).toNat)
    (requests : ∀ as, InTables as → files'.votesRequests (slot as) =
      (dueStep (takesRequest neighborsN as) (peersResponseTo as) (requested neighborsN as trace)
        action).toNat)
    (responses : ∀ as, InTables as → files'.votesResponses (slot as) =
      (dueStep (voteRequestFrom as) (voteResponseTo as) (asked as trace) action).toNat) :
    Represents neighborsN (trace ++ [action]) files' := by
  refine ⟨number.trans represents.neighborsN_eq, ?_, ?_, ?_⟩
  · intro as inTables
    rw [lastVote_snoc]
    exact votes as inTables
  · intro as inTables
    rw [requested_snoc]
    exact requests as inTables
  · intro as inTables
    rw [asked, due_snoc]
    exact responses as inTables

/-- A table with one entry replaced holds a history that differs for one AS. -/
theorem update_slot_eq {table : Table} {held held' : Nat → Nat}
    (holds : ∀ as, InTables as → table (slot as) = held as) {changed value : Nat}
    (inTables : InTables changed) (here : value = held' changed)
    (others : ∀ as, changed ≠ as → held as = held' as) :
    ∀ as, InTables as → Function.update table (slot changed) value (slot as) = held' as := by
  intro as inTables'
  rw [update_slot _ inTables inTables']
  split_ifs with same
  · rw [here, same]
  · rw [holds as inTables', others as same]

section

variable (represents : Represents neighborsN trace files)

include represents

attribute [local simp] dueStep takesRequest peersRequestFrom peersResponseTo voteRequestFrom
  voteResponseTo

theorem Represents.neutral
    (neutral : Neutral action) : Represents neighborsN (trace ++ [action]) files := by
  refine represents.snoc rfl ?_ ?_ ?_
  · intro as inTables
    rw [neutral.vote, represents.votes_eq as inTables]
  · intro as inTables
    rw [neutral.request, represents.requests_eq as inTables]
  · intro as inTables
    rw [neutral.ask, represents.responses_eq as inTables]

/-- **A received message is accounted for.** -/
theorem Represents.received
    {message : VotingMessage} (applied : applyMessage peer.as files message = .ok files') :
    Represents neighborsN (trace ++ [.received peer message]) files' := by
  cases message with
  | trust code =>
    obtain ⟨_, -, applied⟩ := bind_eq_ok applied
    obtain ⟨_, -, applied⟩ := bind_eq_ok applied
    obtain ⟨_, -, applied⟩ := bind_eq_ok applied
    cases applied
    exact represents.snoc rfl represents.votes_eq represents.requests_eq represents.responses_eq
  | peersResponse votes =>
    cases applied
    exact represents.snoc rfl represents.votes_eq represents.requests_eq represents.responses_eq
  | peersRequest =>
    rw [applyMessage] at applied
    split_ifs at applied with several
    · obtain ⟨_, entered, -⟩ := bind_eq_ok applied
      have inPeer := inTables_of_setEntry entered
      rw [setEntry_ok inPeer] at applied
      cases applied
      rw [represents.neighborsN_eq] at several
      refine represents.snoc rfl represents.votes_eq ?_ represents.responses_eq
      refine update_slot_eq represents.requests_eq inPeer ?_ ?_
      · simp [several]
      · intro as other
        simp [other]
    · -- A node with a single neighbour takes no request.
      cases applied
      rw [represents.neighborsN_eq] at several
      refine represents.snoc rfl represents.votes_eq ?_ represents.responses_eq
      intro as inTables
      rw [represents.requests_eq as inTables]
      simp [several]
  | voteRequest =>
    obtain ⟨_, entered, -⟩ := bind_eq_ok applied
    have inPeer := inTables_of_setEntry entered
    rw [applyMessage, setEntry_ok inPeer] at applied
    cases applied
    refine represents.snoc rfl represents.votes_eq represents.requests_eq ?_
    refine update_slot_eq represents.responses_eq inPeer ?_ ?_
    · simp
    · intro as other
      simp [other]
  | voteResponse vote =>
    obtain ⟨_, entered, -⟩ := bind_eq_ok applied
    have inPeer := inTables_of_setEntry entered
    rw [applyMessage, setEntry_ok inPeer] at applied
    cases applied
    refine represents.snoc rfl ?_ represents.requests_eq represents.responses_eq
    refine update_slot_eq represents.votes_eq inPeer ?_ ?_
    · simp [voteStep]
    · intro as other
      simp [voteStep, other]

theorem Represents.peersResponse (inPeer : InTables peer.as) (votes : Words) :
    Represents neighborsN (trace ++ [.queued peer (.voting (.peersResponse votes))])
      { files with votesRequests := Function.update files.votesRequests (slot peer.as) 0 } := by
  refine represents.snoc rfl represents.votes_eq ?_ represents.responses_eq
  refine update_slot_eq represents.requests_eq inPeer ?_ ?_
  · simp
  · intro as other
    simp [other]

theorem Represents.voteResponse (inPeer : InTables peer.as) (vote : UInt16) :
    Represents neighborsN (trace ++ [.queued peer (.voting (.voteResponse vote))])
      { files with votesResponses := Function.update files.votesResponses (slot peer.as) 0 } := by
  refine represents.snoc rfl represents.votes_eq represents.requests_eq ?_
  refine update_slot_eq represents.responses_eq inPeer ?_ ?_
  · simp
  · intro as other
    simp [other]

theorem Represents.cleared :
    Represents neighborsN (trace ++ [.cleared]) { files with votes := fun _ => 0 } :=
  represents.snoc rfl (fun _ _ => rfl) represents.requests_eq represents.responses_eq

end

end Account

/-! ## Steps follow the guards -/

/-- A response is the last action only right after it. -/
theorem not_answeredAll_snoc
    (other : ∀ peer votes, action ≠ .queued peer (.voting (.peersResponse votes))) :
    ¬ AnsweredAll neighborsN (trace ++ [action]) := by
  rintro ⟨⟨peer, votes, last⟩, -⟩
  rw [List.getLast?_concat, Option.some.injEq] at last
  exact other peer votes last

theorem answeredAll_response_iff {votes : Words}
    (represents :
      Represents neighborsN (trace ++ [.queued peer (.voting (.peersResponse votes))]) files) :
    AnsweredAll neighborsN (trace ++ [.queued peer (.voting (.peersResponse votes))]) ↔
      ∀ j, files.votesRequests j = 0 := by
  constructor
  · rintro ⟨-, answered⟩ j
    obtain ⟨as, inTables, rfl⟩ := slot_surjective j
    rw [represents.requests_eq as inTables, answered as inTables]
    rfl
  · intro answered
    refine ⟨⟨peer, votes, List.getLast?_concat⟩, ?_⟩
    intro as inTables
    have none := represents.requests_eq as inTables
    rw [answered] at none
    exact Bool.toNat_eq_zero.mp none.symm

section

variable {peers : List Peer} {neighborsN : Nat} {trace : List NodeAction} {files files' : Files}

theorem Follows.snoc (follows : Follows peers neighborsN trace files)
    (enabled : Enabled peers neighborsN trace action)
    (represents : Represents neighborsN (trace ++ [action]) files') :
    Follows peers neighborsN (trace ++ [action]) files' :=
  ⟨represents, follows.enabled.snoc enabled⟩

variable {peer : Peer} {packet : Packet}

theorem enabled_queued (configured : peer ∈ peers) (settled : ¬ AnsweredAll neighborsN trace)
    (guard : Guard neighborsN trace (.queued peer packet)) :
    Enabled peers neighborsN trace (.queued peer packet) where
  guard := guard
  cleared_iff := ⟨fun same => NodeAction.noConfusion same, fun answered => (settled answered).elim⟩
  fromPeers same := NodeAction.noConfusion same
  toPeers same := by
    cases same
    exact configured

theorem guard_queued (peer : Peer) (plain : packet.answers = false) :
    Guard neighborsN trace (.queued peer packet) := by
  rcases packet with ⟨_ | _ | _ | _ | _⟩ | _
  all_goals trivial

theorem Sound.queuePlain (sound : Sound peers neighborsN trace files) (configured : peer ∈ peers)
    (plain : packet.answers = false) :
    Sound peers neighborsN (trace ++ [.queued peer packet]) files where
  toFollows := sound.toFollows.snoc
    (enabled_queued configured sound.settled (guard_queued peer plain))
    (sound.represents.neutral (neutral_queued peer plain))
  settled := not_answeredAll_snoc fun _ votes same => by
    cases same
    cases plain

variable {actions : List NodeAction}

section

variable (sound : Sound peers neighborsN trace files) (configured : peer ∈ peers)
  (inTables : InTables peer.as)
include sound configured inTables

/-- **Sending the collected votes follows the guards.** -/
theorem Sound.sendVotes (sent : sendVotes peer files = .ok (files', actions)) :
    Sound peers neighborsN (trace ++ actions) files' := by
  rcases sendVotes_spec inTables sent with
    ⟨arrived, waiting, ASs, rfl, last⟩ | ⟨rfl, nothing | request⟩
  · have asks : requested neighborsN peer.as trace = true := by
      rw [sound.represents.requests_eq _ inTables] at waiting
      exact Bool.toNat_eq_one.mp waiting
    have count : votesCounter (printWords (historyVotes trace)) = neighborsN := by
      rw [sound.represents.printWords_historyVotes, ← sound.represents.neighborsN_eq]
      exact of_decide_eq_true arrived
    have enabled : Enabled peers neighborsN trace (bgpVotingPeersResponseSend peer files) := by
      apply enabled_queued configured sound.settled
      rw [sound.represents.scanTable_votes]
      exact ⟨asks, rfl, count⟩
    have represents := sound.represents.peersResponse inTables (scanTable files.votes)
    have follows := sound.toFollows.snoc enabled represents
    rcases last with ⟨answered, rfl, rfl⟩ | ⟨waits, rfl, rfl⟩
    · -- The last request is answered, and the votes are cleared.
      have clears : Enabled peers neighborsN
          (trace ++ [bgpVotingPeersResponseSend peer files]) .cleared :=
        { guard := trivial
          cleared_iff := ⟨fun _ => (answeredAll_response_iff represents).mpr answered, fun _ => rfl⟩
          fromPeers := fun same => NodeAction.noConfusion same
          toPeers := fun same => NodeAction.noConfusion same }
      rw [← List.singleton_append, ← List.append_assoc]
      exact ⟨follows.snoc clears represents.cleared,
        not_answeredAll_snoc fun _ _ same => NodeAction.noConfusion same⟩
    · exact ⟨follows, fun answered => waits ((answeredAll_response_iff represents).mp answered)⟩
  · rw [nothing, List.append_nil]
    exact sound
  · rw [request]
    exact sound.queuePlain configured rfl

/-- **Sending a vote follows the guards.** -/
theorem Sound.sendVote (sent : sendVote peer files = .ok (files', actions)) :
    Sound peers neighborsN (trace ++ actions) files' := by
  rcases sendVote_spec inTables sent with ⟨waiting, rfl, code, rfl⟩ | ⟨rfl, rfl⟩
  · have asks : asked peer.as trace = true := by
      rw [sound.represents.responses_eq _ inTables] at waiting
      exact Bool.toNat_eq_one.mp waiting
    exact ⟨sound.toFollows.snoc (enabled_queued configured sound.settled asks)
        (sound.represents.voteResponse inTables code),
      not_answeredAll_snoc fun _ _ same => by cases same⟩
  · rw [List.append_nil]
    exact sound

end

/-- **Every step follows the guards.** -/
theorem Sound.step {node node' : Node} {event : NodeEvent}
    (sound : Sound peers neighborsN trace node.files) (configured : event.peer ∈ peers)
    (stepped : nodeStep node event = .ok (node', actions)) :
    Sound peers neighborsN (trace ++ actions) node'.files := by
  cases event with
  | arrive peer message =>
    rw [nodeStep, receiveMessage] at stepped
    split_ifs at stepped
    · cases stepped
      rwa [List.append_nil]
    · obtain ⟨files, applied, returned⟩ := bind_eq_ok stepped
      cases returned
      have enabled : Enabled peers neighborsN trace (.received peer message) :=
        { guard := trivial
          cleared_iff := ⟨fun same => NodeAction.noConfusion same,
            fun answered => (sound.settled answered).elim⟩
          fromPeers := fun same => by
            cases same
            exact configured
          toPeers := fun same => NodeAction.noConfusion same }
      exact ⟨sound.toFollows.snoc enabled (sound.represents.received applied),
        not_answeredAll_snoc fun _ _ same => NodeAction.noConfusion same⟩
  | tick peer clock =>
    change peer ∈ peers at configured
    rcases bgpKeepaliveSend_spec stepped with ⟨rfl, rfl⟩ |
      ⟨code, files, votes, vote, votesSent, voteSent, rfl⟩
    · rwa [List.append_nil]
    · have sound₁ : Sound peers neighborsN (trace ++ [.queued peer (.voting (.trust code))])
          node.files :=
        sound.queuePlain configured rfl
      have sound₂ : Sound peers neighborsN (trace ++ [.queued peer (.voting (.trust code))] ++
          [.queued peer (.voting .peersRequest)]) node.files :=
        sound₁.queuePlain configured rfl
      have inTables := inTables_of_sendVote voteSent
      have sound₃ := sound₂.sendVotes configured inTables votesSent
      have sound₄ := sound₃.sendVote configured inTables voteSent
      have sound₅ := sound₄.queuePlain configured (show Packet.keepalive.answers = false from rfl)
      simpa only [List.append_assoc, List.cons_append, List.nil_append] using sound₅

end

/-! ## Runs -/

/-- The vote tables as they are generated for a new node. -/
structure Files.NoVotes (files : Files) : Prop where
  votes_eq : ∀ i, files.votes i = 0
  requests_eq : ∀ i, files.votesRequests i = 0
  responses_eq : ∀ i, files.votesResponses i = 0

/-- A run of a node with these peers. -/
abbrev NodeRun (peers : List Peer) (start : Node) (trace : List NodeAction) (node : Node) : Prop :=
  Run nodeStep (FromPeers peers) start trace node

theorem nodeRun_of_execute {peers : List Peer} {start node : Node}
    (events : List NodeEvent) (fromPeers : ∀ event ∈ events, event.peer ∈ peers)
    (executed : execute nodeStep start events = .ok (node, trace)) :
    NodeRun peers start trace node :=
  run_of_execute (permitted_of_forall (fun _ => fromPeers) start) executed

/-- **After every run the tables are an account of the trace, and every action of the trace
followed its guard.** -/
theorem sound_of_run {peers : List Peer} {start node : Node} (noVotes : start.files.NoVotes)
    (run : NodeRun peers start trace node) :
    Sound peers start.files.neighborsN trace node.files := by
  apply run.invariant fun trace node => Sound peers start.files.neighborsN trace node.files
  · refine ⟨⟨⟨rfl, fun _ _ => noVotes.votes_eq _, fun _ _ => noVotes.requests_eq _,
      fun _ _ => noVotes.responses_eq _⟩, .nil⟩, ?_⟩
    rintro ⟨⟨peer, votes, last⟩, -⟩
    cases last
  · intro _ _ _ _ _ sound configured stepped
    exact sound.step configured stepped

end Quagga.Bgpd
