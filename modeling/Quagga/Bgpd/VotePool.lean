import Quagga.Bgpd.VotingHistory

/-!
# When the votes are complete

`bgp_keepalive_send` takes the votes as complete when the number of nonzero entries is the
number of neighbours. The entries are those of ASes, and each belongs to an AS of some
neighbour that has voted; so the test can succeed only if every neighbour's AS has a
nonzero entry of its own. Completed votes are therefore complete
(`peersResponse_complete`), for any neighbours.

The other direction is not true in general. Neighbours that share an AS share its entry, and
a vote of zero does not count: with all neighbours having voted, the test succeeds exactly
if their ASes are pairwise distinct and no AS voted zero last (`allVotesArrived_iff`). With
two neighbours in one AS the test fails although both voted (`shared_as_not_complete`).
-/

set_option autoImplicit false

namespace Quagga.Bgpd

open Lib Library

/-! ## Counting labels -/

/-- A set of labels that members carry is as large as the list of members exactly if the
members carry pairwise different labels and all of them are in the set. -/
theorem card_labels_eq_length_iff {α κ : Type} [DecidableEq κ] {label : α → κ} {members : List α}
    {labels : Finset κ} (carried : labels ⊆ (members.map label).toFinset) :
    labels.card = members.length ↔
      (members.map label).Nodup ∧ ∀ member ∈ members, label member ∈ labels := by
  have few : (members.map label).toFinset.card ≤ members.length := by
    simpa using List.toFinset_card_le (members.map label)
  constructor
  · intro full
    have all : labels = (members.map label).toFinset :=
      Finset.eq_of_subset_of_card_le carried (full ▸ few)
    constructor
    · rw [all, ← List.length_map label] at full
      rw [← (List.dedup_sublist _).eq_of_length full]
      exact List.nodup_dedup _
    · intro member mem
      rw [all, List.mem_toFinset]
      exact List.mem_map_of_mem mem
  · rintro ⟨distinct, all⟩
    have same : labels = (members.map label).toFinset := by
      apply carried.antisymm
      intro key mem
      obtain ⟨member, isMember, rfl⟩ := List.mem_map.mp (List.mem_toFinset.mp mem)
      exact all member isMember
    rw [same, List.toFinset_card_of_nodup distinct, List.length_map]

/-- The entries that the loop over the votes counts. -/
def voters (votes : Table) : Finset (Fin 10) := Finset.univ.filter fun i => votes i ≠ 0

theorem votesCounter_eq_card (votes : Table) : votesCounter votes = (voters votes).card := by
  rw [votesCounter, List.countP_eq_length_filter]
  rfl

/-! ## Votes come from neighbours -/

/-- A vote that is still there was received, unless it was there before and nothing was cleared. -/
theorem received_of_foldl_voteStep {as : Nat} {vote : UInt16} :
    ∀ {trace : List NodeAction} {last : Option UInt16}, trace.foldl (voteStep as) last = some vote →
      (∃ peer, .received peer (.voteResponse vote) ∈ trace ∧ peer.as = as) ∨
        (last = some vote ∧ .cleared ∉ trace) := by
  intro trace
  induction trace with
  | nil => exact fun kept => .inr ⟨kept, List.not_mem_nil⟩
  | cons action rest ih =>
    intro last kept
    rcases ih kept with ⟨peer, mem, same⟩ | ⟨before, uncleared⟩
    · exact .inl ⟨peer, List.mem_cons_of_mem _ mem, same⟩
    · cases action with
      | cleared => cases before
      | queued peer packet =>
        exact .inr ⟨before, fun mem => uncleared (by simpa using mem)⟩
      | received peer message =>
        have kept' : .cleared ∉ NodeAction.received peer message :: rest :=
          fun mem => uncleared (by simpa using mem)
        cases message with
        | voteResponse vote' =>
          rw [voteStep] at before
          split_ifs at before with same
          · cases before
            exact .inl ⟨peer, List.mem_cons_self, same⟩
          · exact .inr ⟨before, kept'⟩
        | _ => exact .inr ⟨before, kept'⟩

theorem eq_some_of_getD_ne_zero {last : Option UInt16} (nonzero : last.getD 0 ≠ 0) :
    last = some (last.getD 0) := by
  cases last with
  | none => exact (nonzero rfl).elim
  | some vote => rfl

section

variable {peers : List Peer} {neighborsN : Nat} {trace : List NodeAction}

theorem exists_peer_of_lastVote (enabled : Always (Enabled peers neighborsN) trace) {as : Nat}
    {vote : UInt16} (voted : lastVote as trace = some vote) : ∃ peer ∈ peers, peer.as = as := by
  rcases received_of_foldl_voteStep voted with ⟨peer, mem, same⟩ | ⟨absent, -⟩
  · obtain ⟨before, after, split⟩ := List.append_of_mem mem
    exact ⟨peer, (enabled split).fromPeers rfl, same⟩
  · cases absent

theorem voters_subset (enabled : Always (Enabled peers neighborsN) trace) :
    voters (printWords (historyVotes trace)) ⊆ (peers.map fun peer => slot peer.as).toFinset := by
  intro i counted
  obtain ⟨as, inTables, rfl⟩ := slot_surjective i
  have nonzero := (Finset.mem_filter.mp counted).2
  rw [printWords, historyVotes_slot trace inTables] at nonzero
  have voted := eq_some_of_getD_ne_zero fun zero => nonzero (congrArg UInt16.toNat zero)
  obtain ⟨peer, mem, rfl⟩ := exists_peer_of_lastVote enabled voted
  rw [List.mem_toFinset]
  exact List.mem_map_of_mem mem

end

variable {trace : List NodeAction} {peers : List Peer}

/-- The test succeeds exactly if every neighbour has a nonzero entry of its own. -/
theorem votesCounter_eq_length_iff {neighborsN : Nat}
    (inTables : ∀ peer ∈ peers, InTables peer.as)
    (enabled : Always (Enabled peers neighborsN) trace) :
    votesCounter (printWords (historyVotes trace)) = peers.length ↔
      (peers.map fun peer => slot peer.as).Nodup ∧
        ∀ peer ∈ peers, (lastVote peer.as trace).getD 0 ≠ 0 := by
  rw [votesCounter_eq_card, card_labels_eq_length_iff (voters_subset enabled)]
  apply and_congr_right
  intro _
  apply forall₂_congr
  intro peer configured
  rw [voters, Finset.mem_filter, printWords, historyVotes_slot trace (inTables peer configured),
    ne_eq, ne_eq, ← UInt16.toNat_inj]
  exact and_iff_right (Finset.mem_univ _)

/-! ## Completeness -/

/-- **Whenever collected votes are sent, every neighbour's AS has a nonzero entry in them, and the
entry is the last vote received from that AS since the votes were cleared.** -/
theorem peersResponse_complete (inTables : ∀ peer ∈ peers, InTables peer.as)
    {start node : Node} (noVotes : start.files.NoVotes)
    (neighbours : start.files.neighborsN = peers.length)
    (run : NodeRun peers start trace node) {before after : List NodeAction} {peer : Peer}
    {votes : Words} (sent : trace = before ++ .queued peer (.voting (.peersResponse votes)) :: after)
    {voter : Peer} (configured : voter ∈ peers) :
    votes (slot voter.as) ≠ 0 ∧ lastVote voter.as before = some (votes (slot voter.as)) := by
  have enabled := (sound_of_run noVotes run).enabled
  obtain ⟨-, rfl, count⟩ := (enabled sent).guard
  rw [sent] at enabled
  rw [neighbours, votesCounter_eq_length_iff inTables enabled.of_append] at count
  have nonzero := count.2 voter configured
  rw [historyVotes_slot before (inTables voter configured)]
  exact ⟨nonzero, eq_some_of_getD_ne_zero nonzero⟩

theorem startedNode_noVotes : startedNode.files.NoVotes :=
  ⟨fun _ => rfl, fun _ => rfl, fun _ => rfl⟩

/-- AS 2 asks for the votes, both neighbours vote, and a keepalive to AS 2 is due. -/
def votingEvents : List NodeEvent :=
  [.arrive (neighbourOf 2 2) .peersRequest, .arrive (neighbourOf 2 2) (.voteResponse 60),
    .arrive (neighbourOf 3 3) (.voteResponse 70), .tick (neighbourOf 2 2) early]

theorem peersResponse_complete_two : ∃ trace node before after votes,
    NodeRun [neighbourOf 2 2, neighbourOf 3 3] startedNode trace node ∧
      trace = before ++ .queued (neighbourOf 2 2) (.voting (.peersResponse votes)) :: after ∧
      votes (slot 3) ≠ 0 ∧ lastVote 3 before = some (votes (slot 3)) := by
  have run : NodeRun [neighbourOf 2 2, neighbourOf 3 3] startedNode _ _ :=
    nodeRun_of_execute votingEvents (by decide) rfl
  refine ⟨_, _, [_, _, _, _, _], [_, _], _, run, rfl, ?_⟩
  exact peersResponse_complete (by decide) startedNode_noVotes rfl run
    (show _ = [_, _, _, _, _] ++ _ from rfl) (show neighbourOf 3 3 ∈ _ by decide)

/-! ## Exactness -/

/-- How an action changes whether a peer has answered. -/
def answerStep (peer : Peer) (answers : Bool) : NodeAction → Bool
  | .received sender (.voteResponse _) => if sender = peer then true else answers
  | .cleared => false
  | _ => answers

/-- A peer has answered with a vote since the votes were cleared. -/
def answered (peer : Peer) (trace : List NodeAction) : Bool := trace.foldl (answerStep peer) false

theorem lastVote_of_answered {peer : Peer}
    (answers : answered peer trace = true) : (lastVote peer.as trace).isSome := by
  induction trace using List.reverseRecOn with
  | nil => cases answers
  | append_singleton trace action ih =>
    rw [answered, List.foldl_concat] at answers
    rw [lastVote_snoc]
    cases action with
    | cleared => cases answers
    | queued => exact ih answers
    | received sender message =>
      cases message with
      | voteResponse vote =>
        rw [voteStep]
        by_cases sameAs : sender.as = peer.as
        · rw [if_pos sameAs]
          rfl
        · have other : sender ≠ peer := fun same => sameAs (congrArg Peer.as same)
          rw [if_neg sameAs]
          rw [answerStep, if_neg other] at answers
          exact ih answers
      | _ => exact ih answers

theorem nodup_slot_iff (inTables : ∀ peer ∈ peers, InTables peer.as) :
    (peers.map fun peer => slot peer.as).Nodup ↔ (peers.map Peer.as).Nodup := by
  have twice : (peers.map fun peer => slot peer.as) = (peers.map Peer.as).map slot := by
    rw [List.map_map]
    rfl
  rw [twice]
  constructor
  · exact List.Nodup.of_map slot
  · intro distinct
    apply distinct.map_on
    intro a inA b inB same
    obtain ⟨peerA, configuredA, rfl⟩ := List.mem_map.mp inA
    obtain ⟨peerB, configuredB, rfl⟩ := List.mem_map.mp inB
    exact slot_injective (inTables peerA configuredA) (inTables peerB configuredB) same

/-- **Once every neighbour has answered since the votes were cleared, the test for all votes
succeeds exactly if the neighbours' ASes are pairwise distinct and the last vote of none of
them is zero.** -/
theorem allVotesArrived_iff (inTables : ∀ peer ∈ peers, InTables peer.as)
    {start node : Node} (noVotes : start.files.NoVotes)
    (neighbours : start.files.neighborsN = peers.length)
    (run : NodeRun peers start trace node)
    (allAnswered : ∀ peer ∈ peers, answered peer trace = true) :
    allVotesArrived node.files = true ↔
      (peers.map Peer.as).Nodup ∧ ∀ peer ∈ peers, lastVote peer.as trace ≠ some 0 := by
  have sound := sound_of_run noVotes run
  rw [allVotesArrived, decide_eq_true_iff, sound.represents.neighborsN_eq, neighbours,
    ← sound.represents.printWords_historyVotes, votesCounter_eq_length_iff inTables sound.enabled,
    nodup_slot_iff inTables]
  apply and_congr_right
  intro _
  apply forall₂_congr
  intro peer configured
  obtain ⟨vote, voted⟩ := Option.isSome_iff_exists.mp
    (lastVote_of_answered (allAnswered peer configured))
  rw [voted, Option.getD_some, ne_eq, ne_eq, Option.some.injEq]

/-- Two neighbours of different ASes have answered. -/
theorem allVotesArrived_iff_two : ∃ trace node,
    NodeRun [neighbourOf 2 2, neighbourOf 3 3] startedNode trace node ∧
      (allVotesArrived node.files = true ↔
        ([neighbourOf 2 2, neighbourOf 3 3].map Peer.as).Nodup ∧
          ∀ peer ∈ [neighbourOf 2 2, neighbourOf 3 3], lastVote peer.as trace ≠ some 0) := by
  have run : NodeRun [neighbourOf 2 2, neighbourOf 3 3] startedNode _ _ :=
    nodeRun_of_execute (votingEvents.take 3) (by decide) rfl
  exact ⟨_, _, run, allVotesArrived_iff (by decide) startedNode_noVotes rfl run (by decide)⟩

/-- **Two neighbours of one AS have answered, and the test fails.** -/
theorem shared_as_not_complete : ∃ trace node,
    NodeRun [neighbourOf 2 2, neighbourOf 4 2] startedNode trace node ∧
      startedNode.files.neighborsN = [neighbourOf 2 2, neighbourOf 4 2].length ∧
      (∀ peer ∈ [neighbourOf 2 2, neighbourOf 4 2], answered peer trace = true) ∧
      allVotesArrived node.files = false := by
  have run : NodeRun [neighbourOf 2 2, neighbourOf 4 2] startedNode _ _ :=
    nodeRun_of_execute [.arrive (neighbourOf 2 2) (.voteResponse 60),
      .arrive (neighbourOf 4 2) (.voteResponse 70)] (by decide) rfl
  exact ⟨_, _, run, rfl, by decide, by decide⟩

end Quagga.Bgpd
