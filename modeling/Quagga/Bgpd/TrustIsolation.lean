import Quagga.Bgpd.VotePool

/-!
# Trust data of one AS and messages of another

A trust message makes the node read the whole table of observed trust, change one entry and
write all ten back; a voting result replaces the file of its sender. What a node holds about
an AS is nevertheless an account of the messages of that AS alone: the observed trust is the
start value blended with the AS's own trust messages, the voting result is the AS's last one,
and the initial trust never changes (`learned_of_run`).

Two runs that receive the same messages from all ASes but one therefore end with the same
data about each of these ASes, whatever the remaining AS sends and however the keepalives
are interleaved (`trust_isolated`). The messages must be received: the node of AS 1 drops a link
when a keepalive is due after a certain time, and what arrives on it afterwards is not read. So with
the same arrivals the order of keepalives can make a difference (`arrivals_do_not_determine_trust`).
-/

set_option autoImplicit false

namespace Quagga.Bgpd

open Lib Library

/-! ## What a node holds about an AS -/

/-- `obsTrust[as - 1]`, as it is read from the file. -/
def obsTrustOf (files : Files) (as : Nat) : Option UInt16 :=
  files.obsTrust.map fun table => scanTable table (slot as)

/-- `inTrust[as - 1]`, as it is read from the file. -/
def inTrustOf (files : Files) (as : Nat) : Option UInt16 :=
  files.inTrust.map fun table => scanTable table (slot as)

/-- The messages that came in, with their senders. -/
def receivedMessages (trace : List NodeAction) : List (Nat × VotingMessage) :=
  trace.filterMap fun action =>
    match action with
    | .received peer message => some (peer.as, message)
    | _ => none

theorem receivedMessages_append (trace later : List NodeAction) :
    receivedMessages (trace ++ later) = receivedMessages trace ++ receivedMessages later :=
  List.filterMap_append

/-- The messages received from all ASes but one. -/
def messagesFromOthers (as : Nat) (trace : List NodeAction) : List (Nat × VotingMessage) :=
  (receivedMessages trace).filter fun received => received.1 ≠ as

/-- What a message does to the observed value of an AS. -/
def learnTrust (as : Nat) (obsTrust : Option UInt16) : Nat × VotingMessage → Option UInt16
  | (sender, .trust code) =>
    if sender = as then obsTrust.map fun observed => blendTrust observed code else obsTrust
  | _ => obsTrust

/-- What a message does to the results of an AS. -/
def learnResult (as : Nat) (result : Option Table) : Nat × VotingMessage → Option Table
  | (sender, .peersResponse votes) => if sender = as then some (printWords votes) else result
  | _ => result

/-! ## Steps -/

/-- What is held about every AS after some messages. -/
structure Learned (files : Files) (messages : List (Nat × VotingMessage)) (files' : Files) :
    Prop where
  inTrust_eq : files'.inTrust = files.inTrust
  obsTrust_eq : ∀ as, InTables as →
    obsTrustOf files' as = messages.foldl (learnTrust as) (obsTrustOf files as)
  voteresult_eq : ∀ as,
    files'.voteresult as = messages.foldl (learnResult as) (files.voteresult as)

theorem Learned.refl (files : Files) : Learned files [] files :=
  ⟨rfl, fun _ _ => rfl, fun _ => rfl⟩

theorem Learned.trans {files₁ files₂ files₃ : Files} {messages later : List (Nat × VotingMessage)}
    (first : Learned files₁ messages files₂) (second : Learned files₂ later files₃) :
    Learned files₁ (messages ++ later) files₃ := by
  refine ⟨second.inTrust_eq.trans first.inTrust_eq, ?_, ?_⟩
  · intro as inAs
    rw [List.foldl_append, second.obsTrust_eq as inAs, first.obsTrust_eq as inAs]
  · intro as
    rw [List.foldl_append, second.voteresult_eq as, first.voteresult_eq as]

theorem openTable_eq_ok {α : Type} {file : Option α} {contents : α}
    (opened : openTable file = .ok contents) : file = some contents := by
  cases file with
  | none => cases opened
  | some held =>
    cases opened
    rfl

/-- **A message changes what is held about its sender, and nothing else.** -/
theorem learned_of_applyMessage {sender : Nat} {files files' : Files} {message : VotingMessage}
    (applied : applyMessage sender files message = .ok files') :
    Learned files [(sender, message)] files' := by
  cases message with
  | trust code =>
    obtain ⟨_, -, applied⟩ := bind_eq_ok applied
    obtain ⟨table, opened, applied⟩ := bind_eq_ok applied
    obtain ⟨i, found, returned⟩ := bind_eq_ok applied
    have inSender := inTables_of_tableIndex found
    have there := openTable_eq_ok opened
    rw [tableIndex_ok inSender] at found
    cases found
    cases returned
    refine ⟨rfl, ?_, fun _ => rfl⟩
    intro as inAs
    -- The whole table is written back, with the sender's entry blended.
    simp only [obsTrustOf, List.foldl_cons, List.foldl_nil, learnTrust, there, Option.map_some,
      scanTable_printWords]
    rw [update_slot _ inSender inAs]
    split_ifs with same
    · rw [same]
    · rfl
  | peersRequest =>
    rw [applyMessage] at applied
    split_ifs at applied
    · obtain ⟨_, -, returned⟩ := bind_eq_ok applied
      cases returned
      exact ⟨rfl, fun _ _ => rfl, fun _ => rfl⟩
    · cases applied
      exact ⟨rfl, fun _ _ => rfl, fun _ => rfl⟩
  | voteRequest =>
    obtain ⟨_, -, returned⟩ := bind_eq_ok applied
    cases returned
    exact ⟨rfl, fun _ _ => rfl, fun _ => rfl⟩
  | voteResponse vote =>
    obtain ⟨_, -, returned⟩ := bind_eq_ok applied
    cases returned
    exact ⟨rfl, fun _ _ => rfl, fun _ => rfl⟩
  | peersResponse votes =>
    cases applied
    refine ⟨rfl, fun _ _ => rfl, ?_⟩
    intro as
    rw [List.foldl_cons, learnResult]
    split_ifs with same
    · rw [← same]
      exact Function.update_self ..
    · exact Function.update_of_ne (fun equal => same equal.symm) ..

theorem learned_of_bgpKeepaliveSend {peer : Peer} {clock : Clock} {node node' : Node}
    {actions : List NodeAction} (sent : bgpKeepaliveSend peer clock node = .ok (node', actions)) :
    Learned node.files [] node'.files ∧ receivedMessages actions = [] := by
  rcases bgpKeepaliveSend_spec sent with ⟨rfl, rfl⟩ |
    ⟨code, files, votes, vote, votesSent, voteSent, rfl⟩
  · exact ⟨.refl _, rfl⟩
  · have inTables := inTables_of_sendVote voteSent
    have first : Learned node.files [] files ∧ receivedMessages votes = [] := by
      rcases sendVotes_spec inTables votesSent with
        ⟨-, -, ASs, -, ⟨-, rfl, rfl⟩ | ⟨-, rfl, rfl⟩⟩ | ⟨rfl, rfl | rfl⟩
      · exact ⟨⟨rfl, fun _ _ => rfl, fun _ => rfl⟩, rfl⟩
      · exact ⟨⟨rfl, fun _ _ => rfl, fun _ => rfl⟩, rfl⟩
      · exact ⟨.refl _, rfl⟩
      · exact ⟨.refl _, rfl⟩
    have second : Learned files [] node'.files ∧ receivedMessages vote = [] := by
      rcases sendVote_spec inTables voteSent with ⟨-, same, code, rfl⟩ | ⟨same, rfl⟩
      · rw [same]
        exact ⟨⟨rfl, fun _ _ => rfl, fun _ => rfl⟩, rfl⟩
      · rw [same]
        exact ⟨.refl _, rfl⟩
    refine ⟨first.1.trans second.1, ?_⟩
    rw [receivedMessages_append, receivedMessages_append, receivedMessages_append, first.2,
      second.2]
    rfl

/-! ## Runs -/

/-- **What a node holds about the ASes is an account of the messages it received.** -/
theorem learned_of_run {peers : List Peer} {start node : Node} {trace : List NodeAction}
    (run : NodeRun peers start trace node) :
    Learned start.files (receivedMessages trace) node.files := by
  apply run.invariant fun trace node => Learned start.files (receivedMessages trace) node.files
  · exact .refl _
  · intro trace actions node node' event learned _ stepped
    rw [receivedMessages_append]
    apply learned.trans
    cases event with
    | arrive peer message =>
      rw [nodeStep, receiveMessage] at stepped
      split_ifs at stepped
      · cases stepped
        exact .refl _
      · obtain ⟨files, applied, returned⟩ := bind_eq_ok stepped
        cases returned
        exact learned_of_applyMessage applied
    | tick peer clock =>
      obtain ⟨unchanged, none⟩ := learned_of_bgpKeepaliveSend stepped
      rw [none]
      exact unchanged

theorem foldl_others {σ : Type} {learn : σ → Nat × VotingMessage → σ} {as : Nat}
    (ignores : ∀ s received, received.1 = as → learn s received = s) (trace : List NodeAction)
    (s : σ) :
    (messagesFromOthers as trace).foldl learn s = (receivedMessages trace).foldl learn s := by
  rw [messagesFromOthers, List.foldl_filter]
  congr
  funext s received
  by_cases same : received.1 = as
  · rw [ignores s received same]
    simp [same]
  · simp [same]

theorem learnTrust_other {as other : Nat} (apart : other ≠ as) (obsTrust : Option UInt16)
    (received : Nat × VotingMessage) (sender : received.1 = as) :
    learnTrust other obsTrust received = obsTrust := by
  obtain ⟨from', message⟩ := received
  cases message with
  | trust code => exact if_neg fun same => apart (same.symm.trans sender)
  | _ => rfl

theorem learnResult_other {as other : Nat} (apart : other ≠ as) (result : Option Table)
    (received : Nat × VotingMessage) (sender : received.1 = as) :
    learnResult other result received = result := by
  obtain ⟨from', message⟩ := received
  cases message with
  | peersResponse votes => exact if_neg fun same => apart (same.symm.trans sender)
  | _ => rfl

/-- **Two runs that start with the same trust files and receive the same messages from all ASes
but one end with the same observed trust, the same initial trust and the same voting result of
every other AS.** -/
theorem trust_isolated {peers : List Peer} {as : Nat} {start₁ start₂ node₁ node₂ : Node}
    {trace₁ trace₂ : List NodeAction}
    (sameInTrust : start₁.files.inTrust = start₂.files.inTrust)
    (sameObsTrust : start₁.files.obsTrust = start₂.files.obsTrust)
    (sameResults : start₁.files.voteresult = start₂.files.voteresult)
    (run₁ : NodeRun peers start₁ trace₁ node₁) (run₂ : NodeRun peers start₂ trace₂ node₂)
    (sameOthers : messagesFromOthers as trace₁ = messagesFromOthers as trace₂)
    {other : Nat} (apart : other ≠ as) :
    (InTables other → obsTrustOf node₁.files other = obsTrustOf node₂.files other ∧
      inTrustOf node₁.files other = inTrustOf node₂.files other) ∧
      node₁.files.voteresult other = node₂.files.voteresult other := by
  have learned₁ := learned_of_run run₁
  have learned₂ := learned_of_run run₂
  refine ⟨fun inOther => ⟨?_, ?_⟩, ?_⟩
  · have ignores := learnTrust_other apart
    calc obsTrustOf node₁.files other
      _ = (messagesFromOthers as trace₁).foldl (learnTrust other)
            (obsTrustOf start₁.files other) := by
          rw [foldl_others ignores, learned₁.obsTrust_eq other inOther]
      _ = (messagesFromOthers as trace₂).foldl (learnTrust other)
            (obsTrustOf start₂.files other) := by
          rw [sameOthers, obsTrustOf, obsTrustOf, sameObsTrust]
      _ = obsTrustOf node₂.files other := by
          rw [foldl_others ignores, learned₂.obsTrust_eq other inOther]
  · rw [inTrustOf, inTrustOf, learned₁.inTrust_eq, learned₂.inTrust_eq, sameInTrust]
  · have ignores := learnResult_other apart
    calc node₁.files.voteresult other
      _ = (messagesFromOthers as trace₁).foldl (learnResult other)
            (start₁.files.voteresult other) := by
          rw [foldl_others ignores, learned₁.voteresult_eq other]
      _ = (messagesFromOthers as trace₂).foldl (learnResult other)
            (start₂.files.voteresult other) := by
          rw [sameOthers, sameResults]
      _ = node₂.files.voteresult other := by
          rw [foldl_others ignores, learned₂.voteresult_eq other]

/-- AS 2 sends a trust message and a voting result in one run, and nothing in the other. -/
theorem trust_isolated_two : ∃ trace₁ node₁ trace₂ node₂,
    NodeRun [neighbourOf 2 2, neighbourOf 3 3] startedNode trace₁ node₁ ∧
      NodeRun [neighbourOf 2 2, neighbourOf 3 3] startedNode trace₂ node₂ ∧
      obsTrustOf node₁.files 2 ≠ obsTrustOf node₂.files 2 ∧
      obsTrustOf node₁.files 3 = obsTrustOf node₂.files 3 := by
  have run₁ : NodeRun [neighbourOf 2 2, neighbourOf 3 3] startedNode _ _ :=
    nodeRun_of_execute [.arrive (neighbourOf 2 2) (.trust 90), .tick (neighbourOf 3 3) early,
      .arrive (neighbourOf 3 3) (.trust 10),
      .arrive (neighbourOf 2 2) (.peersResponse fun _ => 7)] (by decide) rfl
  have run₂ : NodeRun [neighbourOf 2 2, neighbourOf 3 3] startedNode _ _ :=
    nodeRun_of_execute [.arrive (neighbourOf 3 3) (.trust 10)] (by decide) rfl
  have isolated := trust_isolated rfl rfl rfl run₁ run₂
    (show messagesFromOthers 2 _ = messagesFromOthers 2 _ from rfl) (show 3 ≠ 2 by decide)
  exact ⟨_, _, _, _, run₁, run₂, by decide, (isolated.1 (by decide)).1⟩

/-- The messages that arrive from all ASes but one, received or not. -/
def arrivalsFromOthers (as : Nat) (events : List NodeEvent) : List (Nat × VotingMessage) :=
  (events.filterMap fun event =>
    match event with
    | .arrive peer message => some (peer.as, message)
    | .tick _ _ => none).filter fun arrival => arrival.1 ≠ as

/-- A time at which links are dropped. -/
def late : Clock := { rand := 0, time := 1262304073 }

/-- A trust message of AS 3 arrives before or after the keepalive that drops the link. The arrivals
are the same, AS 2 sends nothing, and the observed trust of AS 3 differs. -/
theorem arrivals_do_not_determine_trust :
    let tick := NodeEvent.tick (neighbourOf 3 3) late
    let arrive := NodeEvent.arrive (neighbourOf 3 3) (.trust 60)
    arrivalsFromOthers 2 [tick, arrive] = arrivalsFromOthers 2 [arrive, tick] ∧
      ∃ node₁ trace₁ node₂ trace₂,
        execute nodeStep startedNode [tick, arrive] = .ok (node₁, trace₁) ∧
        execute nodeStep startedNode [arrive, tick] = .ok (node₂, trace₂) ∧
        obsTrustOf node₁.files 3 = some 50 ∧ obsTrustOf node₂.files 3 = some 51 :=
  ⟨rfl, _, _, _, _, rfl, rfl, rfl, rfl⟩

end Quagga.Bgpd
