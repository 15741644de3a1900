import Quagga.Bgpd.VotePool

/-!
# Requests, responses and the age of votes

Every session's keepalive rewrites the shared tables, but a flag in them is unset only
together with the response that it asks for, and a response needs its flag. So no AS ever
gets more responses than it sent requests, for collected votes and for single votes alike
(`responses_accounted`).

How old the collected votes are depends on the other ASes. The votes are cleared with the
response after which no AS waits any more; until then they are kept for those that still
wait. A requester that asks again in the meantime gets the same votes again
(`votes_sent_again`). What holds is that votes which were sent when nobody else waited are
not sent again (`votes_fresh`).
-/

set_option autoImplicit false

namespace Quagga.Bgpd

open Lib Library

/-! ## Accounting -/

section

variable {peers : List Peer} {neighborsN as : Nat} {before : List NodeAction} {action : NodeAction}

theorem exists_of_peersResponseTo (answers : peersResponseTo as action = true) :
    ∃ peer votes, action = .queued peer (.voting (.peersResponse votes)) ∧ peer.as = as := by
  unfold peersResponseTo at answers
  split at answers
  · exact ⟨_, _, rfl, of_decide_eq_true answers⟩
  · cases answers

theorem exists_of_voteResponseTo (answers : voteResponseTo as action = true) :
    ∃ peer vote, action = .queued peer (.voting (.voteResponse vote)) ∧ peer.as = as := by
  unfold voteResponseTo at answers
  split at answers
  · exact ⟨_, _, rfl, of_decide_eq_true answers⟩
  · cases answers

theorem requested_of_peersResponseTo (enabled : Enabled peers neighborsN before action)
    (answers : peersResponseTo as action = true) : requested neighborsN as before = true := by
  obtain ⟨peer, votes, rfl, rfl⟩ := exists_of_peersResponseTo answers
  exact enabled.guard.1

theorem asked_of_voteResponseTo (enabled : Enabled peers neighborsN before action)
    (answers : voteResponseTo as action = true) : asked as before = true := by
  obtain ⟨peer, vote, rfl, rfl⟩ := exists_of_voteResponseTo answers
  exact enabled.guard

end

variable {trace : List NodeAction}

variable {peers : List Peer}

variable {neighborsN : Nat}

theorem count_peersResponseTo_le
    (enabled : Always (Enabled peers neighborsN) trace) (as : Nat) :
    trace.countP (peersResponseTo as) ≤ trace.countP (peersRequestFrom as) := by
  have apart : ∀ action, peersResponseTo as action = true →
      takesRequest neighborsN as action = false := by
    intro action answers
    obtain ⟨peer, votes, rfl, -⟩ := exists_of_peersResponseTo answers
    rfl
  calc trace.countP (peersResponseTo as)
    _ ≤ trace.countP (peersResponseTo as) + (requested neighborsN as trace).toNat :=
        Nat.le_add_right _ _
    _ ≤ trace.countP (takesRequest neighborsN as) :=
        count_response_le apart (fun _ _ => requested_of_peersResponseTo) enabled
    _ ≤ trace.countP (peersRequestFrom as) :=
        List.countP_mono_left fun _ _ takes => (Bool.and_eq_true_iff.mp takes).1

theorem count_voteResponseTo_le
    (enabled : Always (Enabled peers neighborsN) trace) (as : Nat) :
    trace.countP (voteResponseTo as) ≤ trace.countP (voteRequestFrom as) := by
  have apart : ∀ action, voteResponseTo as action = true → voteRequestFrom as action = false := by
    intro action answers
    obtain ⟨peer, vote, rfl, -⟩ := exists_of_voteResponseTo answers
    rfl
  calc trace.countP (voteResponseTo as)
    _ ≤ trace.countP (voteResponseTo as) + (asked as trace).toNat := Nat.le_add_right _ _
    _ ≤ trace.countP (voteRequestFrom as) :=
        count_response_le apart (fun _ _ => asked_of_voteResponseTo) enabled

/-- **At every moment of a run, no AS has been sent more responses than it sent requests, and a
flag of the tables is unset only by a step that queues the response it stands for.** -/
theorem responses_accounted {peers : List Peer} {start node : Node}
    (noVotes : start.files.NoVotes) {trace : List NodeAction}
    (run : NodeRun peers start trace node) {as : Nat} (inAs : InTables as) :
    (∀ before after, trace = before ++ after →
      before.countP (peersResponseTo as) ≤ before.countP (peersRequestFrom as) ∧
        before.countP (voteResponseTo as) ≤ before.countP (voteRequestFrom as)) ∧
    ∀ event node' actions, event.peer ∈ peers → nodeStep node event = .ok (node', actions) →
      (node.files.votesRequests (slot as) = 1 → node'.files.votesRequests (slot as) = 0 →
        ∃ action ∈ actions, peersResponseTo as action = true) ∧
      (node.files.votesResponses (slot as) = 1 → node'.files.votesResponses (slot as) = 0 →
        ∃ action ∈ actions, voteResponseTo as action = true) := by
  have sound := sound_of_run noVotes run
  constructor
  · rintro before after rfl
    have enabled := sound.enabled.of_append
    exact ⟨count_peersResponseTo_le enabled as, count_voteResponseTo_le enabled as⟩
  · intro event node' actions configured stepped
    have sound' := sound.step configured stepped
    rw [sound.represents.requests_eq as inAs, sound'.represents.requests_eq as inAs,
      sound.represents.responses_eq as inAs, sound'.represents.responses_eq as inAs]
    constructor
    · intro set unset
      exact exists_response_of_due (Bool.toNat_eq_one.mp set) (Bool.toNat_eq_zero.mp unset)
    · intro set unset
      exact exists_response_of_due (Bool.toNat_eq_one.mp set) (Bool.toNat_eq_zero.mp unset)

/-- A run in which AS 2 is sent the votes it asked for. -/
theorem responses_accounted_two : ∃ trace node,
    NodeRun [neighbourOf 2 2, neighbourOf 3 3] startedNode trace node ∧
      trace.countP (peersResponseTo 2) = 1 ∧
      trace.countP (peersResponseTo 2) ≤ trace.countP (peersRequestFrom 2) := by
  have run : NodeRun [neighbourOf 2 2, neighbourOf 3 3] startedNode _ _ :=
    nodeRun_of_execute votingEvents (by decide) rfl
  have accounted := responses_accounted startedNode_noVotes run (show InTables 2 by decide)
  exact ⟨_, _, run, rfl, (accounted.1 _ [] (List.append_nil _).symm).1⟩

/-! ## The age of votes -/

/-- No AS but the given one waits for the collected votes. -/
def NoOtherWaits (neighborsN as : Nat) (trace : List NodeAction) : Prop :=
  ∀ other, InTables other → other ≠ as → requested neighborsN other trace = false

/-- A response at a time when no other AS waits answers all requests. -/
theorem answeredAll_of_noOtherWaits {peer : Peer} {votes : Words}
    (alone : NoOtherWaits neighborsN peer.as trace) :
    AnsweredAll neighborsN (trace ++ [.queued peer (.voting (.peersResponse votes))]) := by
  refine ⟨⟨peer, votes, List.getLast?_concat⟩, ?_⟩
  intro as inTables
  rw [requested_snoc]
  by_cases same : peer.as = as
  · simp [dueStep, takesRequest, peersRequestFrom, peersResponseTo, same]
  · rw [alone as inTables fun equal => same equal.symm]
    simp [dueStep, takesRequest, peersRequestFrom]

theorem cleared_after_response {before : List NodeAction}
    {action : NodeAction} {after : List NodeAction} {peer : Peer} {votes : Words}
    (enabled : Always (Enabled peers neighborsN)
      (before ++ .queued peer (.voting (.peersResponse votes)) :: action :: after))
    (alone : NoOtherWaits neighborsN peer.as before) : action = .cleared := by
  rw [← List.singleton_append, ← List.append_assoc] at enabled
  exact (enabled rfl).cleared_iff.mpr (answeredAll_of_noOtherWaits alone)

/-- Between two responses of which the first, or a later one before the second, was queued when no
other AS waited, the votes are cleared. -/
theorem cleared_between
    {pre mid post : List NodeAction} {firstAction secondAction : NodeAction}
    (enabled : Always (Enabled peers neighborsN)
      (pre ++ firstAction :: (mid ++ secondAction :: post)))
    (notCleared : secondAction ≠ .cleared)
    (servedAlone : ∃ before after other votes,
      firstAction :: mid = before ++ .queued other (.voting (.peersResponse votes)) :: after ∧
        NoOtherWaits neighborsN other.as (pre ++ before)) : .cleared ∈ mid := by
  obtain ⟨before, after, other, votes, split, alone⟩ := servedAlone
  have whole : pre ++ firstAction :: (mid ++ secondAction :: post) =
      (pre ++ before) ++ .queued other (.voting (.peersResponse votes)) ::
        (after ++ secondAction :: post) := by
    rw [← List.cons_append, split, List.append_assoc, List.append_assoc, List.cons_append]
  rw [whole] at enabled
  cases after with
  | nil => exact (notCleared (cleared_after_response enabled alone)).elim
  | cons action after =>
    have clears : action = .cleared := cleared_after_response enabled alone
    subst clears
    cases before with
    | nil =>
      rw [(List.cons.inj split).2]
      exact List.mem_cons_self
    | cons _ before =>
      rw [(List.cons.inj split).2]
      exact List.mem_append_right _ (List.mem_cons_of_mem _ List.mem_cons_self)

/-- **Between two responses to the same requester, if the first or one between them was queued when
no other AS waited, then every nonzero entry of the second was received after the first.** -/
theorem votes_fresh {peers : List Peer} {start node : Node} (noVotes : start.files.NoVotes)
    {trace : List NodeAction} (run : NodeRun peers start trace node)
    {pre mid post : List NodeAction} {peer : Peer} {first second : Words}
    (split : trace = pre ++ .queued peer (.voting (.peersResponse first)) ::
      (mid ++ .queued peer (.voting (.peersResponse second)) :: post))
    (servedAlone : ∃ before after other votes,
      .queued peer (.voting (.peersResponse first)) :: mid =
        before ++ .queued other (.voting (.peersResponse votes)) :: after ∧
      NoOtherWaits start.files.neighborsN other.as (pre ++ before))
    {as : Nat} (inAs : InTables as) (nonzero : second (slot as) ≠ 0) :
    ∃ sender, .received sender (.voteResponse (second (slot as))) ∈ mid ∧ sender.as = as := by
  have enabled := (sound_of_run noVotes run).enabled
  rw [split] at enabled
  have clears := cleared_between enabled NodeAction.noConfusion servedAlone
  -- The second response carries the votes of the history up to it.
  rw [← List.cons_append, ← List.append_assoc] at enabled
  obtain ⟨-, rfl, -⟩ := (enabled rfl).guard
  rw [historyVotes_slot _ inAs] at nonzero ⊢
  have voted := eq_some_of_getD_ne_zero nonzero
  generalize (lastVote as _).getD 0 = vote at voted ⊢
  rw [lastVote, List.foldl_append, List.foldl_cons] at voted
  rcases received_of_foldl_voteStep voted with received | ⟨-, kept⟩
  · exact received
  · exact (kept clears).elim

/-- Both neighbours vote twice, and each time the one of AS 2 asks alone. -/
theorem votes_fresh_two : ∃ trace node pre mid post first second,
    NodeRun [neighbourOf 2 2, neighbourOf 3 3] startedNode trace node ∧
      trace = pre ++ .queued (neighbourOf 2 2) (.voting (.peersResponse first)) ::
        (mid ++ .queued (neighbourOf 2 2) (.voting (.peersResponse second)) :: post) ∧
      ∃ sender, .received sender (.voteResponse (second (slot 3))) ∈ mid ∧ sender.as = 3 := by
  have run : NodeRun [neighbourOf 2 2, neighbourOf 3 3] startedNode _ _ :=
    nodeRun_of_execute (votingEvents ++ votingEvents) (by decide) rfl
  refine ⟨_, _, [_, _, _, _, _], [_, _, _, _, _, _, _], [_, _], _, _, run, rfl, ?_⟩
  refine votes_fresh startedNode_noVotes run
    (show _ = [_, _, _, _, _] ++ _ :: ([_, _, _, _, _, _, _] ++ _ :: _) from rfl)
    ⟨[], _, _, _, rfl, ?_⟩ (show InTables 3 by decide) (by decide)
  intro other _ apart
  have only : ¬ 2 = other := fun same => apart same.symm
  simp [requested, due, dueStep, takesRequest, peersRequestFrom, neighbourOf, only]

/-- **Two ASes wait for the votes. The one that is served first asks again before the other is
served, and gets the same votes again.** -/
theorem votes_sent_again : ∃ trace node pre mid post first second,
    NodeRun [neighbourOf 2 2, neighbourOf 3 3] startedNode trace node ∧
      trace = pre ++ .queued (neighbourOf 2 2) (.voting (.peersResponse first)) ::
        (mid ++ .queued (neighbourOf 2 2) (.voting (.peersResponse second)) :: post) ∧
      second (slot 3) ≠ 0 ∧ ∀ sender vote, .received sender (.voteResponse vote) ∉ mid := by
  have run : NodeRun [neighbourOf 2 2, neighbourOf 3 3] startedNode _ _ :=
    nodeRun_of_execute (.arrive (neighbourOf 3 3) .peersRequest :: votingEvents ++
      [.arrive (neighbourOf 2 2) .peersRequest, .tick (neighbourOf 2 2) early]) (by decide) rfl
  refine ⟨_, _, [_, _, _, _, _, _], [_, _, _, _], [_], _, _, run, rfl, by decide, ?_⟩
  simp

end Quagga.Bgpd
