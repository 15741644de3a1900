import Quagga.Bgpd.Fsm
import Quagga.Bgpd.IndexSafety

/-!
# The trust files at start-up

`/myAS.txt`, `/inTrust.txt` and `/obsTrust.txt` are made by `bgp_process_main` when the work
queue first processes a node of the main table. They are read without a check of what `fopen`
returns in five places: by `bgp_trust_send` and `bgp_voting_vote_response_send`, which run as
a part of `bgp_keepalive_send`, by `bgp_trust_receive`, and by `bgp_info_cmp`, which also runs
when a node of a route-server client is processed.

A daemon is put together here from its sessions, the voting node and the RIB, and their events
come in any order. Nothing makes a session wait for the RIB: the first `OPEN` that comes
before a route does ends in a read of a file that is not there (`open_before_trust_files`).
Once an `OPEN` is received only when the files are there, the keepalives of all later states
find them too; with the same care for trust messages and for the nodes of route-server clients
no run reads a missing file (`daemonStep_no_missing_file`).
-/

set_option autoImplicit false

namespace Quagga.Bgpd

open Lib Library

/-! ## The daemon -/

/-- The RIB with the files, the host that is dropped, and the sessions. -/
structure Daemon where
  rib : Rib
  toDrop : Option Nat
  sessions : Nat → Option Session

variable (daemon : Daemon)

/-- The part of the daemon that votes. -/
def Daemon.node : Node := { files := daemon.rib.files, toDrop := daemon.toDrop }

/-- What the voting protocol changed. -/
def Daemon.setNode (node : Node) : Daemon :=
  { daemon with rib := { daemon.rib with files := node.files }, toDrop := node.toDrop }

/-- Replace a session. -/
def Daemon.setSession (id : Nat) (session : Session) : Daemon :=
  { daemon with sessions := Function.update daemon.sessions id (some session) }

/-- What happens to a daemon: a peer is configured or made for an accepted connection, or
deleted; an accepted connection is handed over to the configured peer; an event of the finite
state machine; a message of the extension; an event at the RIB. -/
inductive DaemonEvent where
  | create (id : Nat) (peer : Peer) (accepted : Bool)
  | delete (id : Nat)
  | transfer (accepted real : Nat)
  | session (id : Nat) (event : FsmEvent) (input : FsmInput)
  | message (id : Nat) (message : VotingMessage)
  | rib (event : RibEvent)

/-- One event at the daemon. Events of sessions that do not exist do nothing. -/
def daemonStep (bgp : Bgp) (daemon : Daemon) :
    DaemonEvent → Except Fault (Daemon × List NodeAction)
  | .create id peer accepted =>
    .ok (daemon.setSession id { peer := peer, status := if accepted then .active else .idle }, [])
  | .delete id =>
    match daemon.sessions id with
    | none => .ok (daemon, [])
    | some session => .ok (daemon.setSession id { session with status := .deleted }, [])
  | .transfer accepted real =>
    match daemon.sessions accepted, daemon.sessions real with
    | some source, some target =>
      .ok (daemon.setSession real { target with status := source.status }, [])
    | _, _ => .ok (daemon, [])
  | .session id event input =>
    match daemon.sessions id with
    | none => .ok (daemon, [])
    | some session => do
        let (node, actions, session) ← bgpEvent session event input daemon.node
        return ((daemon.setNode node).setSession id session, actions)
  | .message id message =>
    match daemon.sessions id with
    | none => .ok (daemon, [])
    | some session => do
        let (node, actions) ← receiveMessage session.peer message daemon.node
        return (daemon.setNode node, actions)
  | .rib event => do
      let (rib, _) ← ribStep bgp daemon.rib event
      return ({ daemon with rib := rib }, [])

/-- The files of a node on which no daemon ran yet. -/
def Files.withoutTrust (files : Files) : Files :=
  { files with myAS := none, inTrust := none, obsTrust := none }

/-- A daemon before its first event. -/
def Daemon.started (files : Files) : Daemon :=
  { rib := Rib.initial files.withoutTrust, toDrop := none, sessions := fun _ => none }

/-! ## No missing file is read -/

/-- The fault is not a file that is missing. -/
def FileThere (fault : Fault) : Prop := fault ≠ .nullFile

/-- No two routes of a node are eligible. -/
def OneEligible (rn : List BgpInfo) : Prop :=
  rn.Pairwise fun first second => first.Eligible → ¬ second.Eligible

/-- An `OPEN` that moves a session on and a trust message come only when the trust files are
there, and so does the processing of a route-server client's node with a choice of routes. -/
def FilesReady : DaemonEvent → Prop
  | .session id .receiveOpenMessage _ =>
    ∀ session, daemon.sessions id = some session → session.status = .openSent →
      daemon.rib.files.Made
  | .message id (.trust _) => (daemon.sessions id).isSome → daemon.rib.files.Made
  | .rib (.processRsclient node) =>
    daemon.rib.files.Made ∨ OneEligible (daemon.rib.nodes node)
  | _ => True

theorem tableIndex_fileThere (as : Nat) : Ensures FileThere (fun _ => True) (tableIndex as) := by
  rw [tableIndex]
  split_ifs
  · exact ensures_ok.mpr trivial
  · exact Fault.noConfusion

/-! ### The RIB -/

theorem directTrust_fileThere (inTrusts obsTrusts : Words) (as : Nat) :
    Ensures FileThere (fun _ => True) (directTrust inTrusts obsTrusts as) :=
  (tableIndex_fileThere as).bind fun _ _ => ensures_ok.mpr trivial

theorem bgpInfoCmp_fileThere {files : Files} (made : files.Made) (bgp : Bgp)
    (new exist : BgpInfo) :
    Ensures FileThere (fun _ => True) (bgpInfoCmp files bgp (some new) (some exist)) := by
  have readable : ∀ {file : Option Table}, file.isSome →
      Ensures FileThere (fun _ => True) (readTrusts file) :=
    fun there => (openTable_ensures there).bind fun _ _ => ensures_ok.mpr trivial
  apply (readable made.obsTrust).bind
  intro obsTrusts _
  apply (readable made.inTrust).bind
  intro inTrusts _
  apply (directTrust_fileThere inTrusts obsTrusts new.peer.as).bind
  intro newTrust _
  apply (directTrust_fileThere inTrusts obsTrusts exist.peer.as).bind
  intro existTrust _
  exact ensures_ok.mpr trivial

theorem bgpBestSelection_made {files : Files} (made : files.Made) (bgp : Bgp)
    (rn : List BgpInfo) :
    Ensures FileThere (fun _ => True) (bgpBestSelection files bgp rn) := by
  have meets : (rn.map BgpInfo.standing).Pairwise (Meets fun _ _ => True) :=
    List.pairwise_of_forall fun _ _ _ _ => trivial
  exact (bgpBestSelection_ensures (fun _ => bgpInfoCmp_fileThere made bgp _ _) meets).mono
    fun _ _ => trivial

/-- With a single eligible route there is no comparison, and no file is read. -/
theorem bgpBestSelection_oneEligible (files : Files) (bgp : Bgp) {rn : List BgpInfo}
    (one : OneEligible rn) :
    Ensures FileThere (fun _ => True) (bgpBestSelection files bgp rn) := by
  have meets : (rn.map BgpInfo.standing).Pairwise (Meets fun _ _ => False) :=
    List.pairwise_map.mpr (one.imp fun apart eligible eligible' => apart eligible eligible')
  exact (bgpBestSelection_ensures (fun never => never.elim) meets).mono fun _ _ => trivial

theorem makeTrustFiles_made (bgp : Bgp) (files : Files) : (makeTrustFiles bgp files).Made :=
  ⟨rfl, rfl, rfl⟩

/-- **An event at the RIB reads no missing file and keeps the trust files.** -/
theorem ribStep_fileThere (bgp : Bgp) {rib : Rib} {event : RibEvent}
    (ready : ∀ node, event = .processRsclient node → rib.files.Made ∨ OneEligible (rib.nodes node)) :
    Ensures FileThere (fun result => rib.files.Made → result.1.files.Made)
      (ribStep bgp rib event) := by
  cases event with
  | processMain node =>
    have processed : Ensures FileThere (fun result => result.1.Made)
        (bgpProcessMain bgp rib.files (rib.nodes node)) := by
      refine (bgpBestSelection_made (makeTrustFiles_made bgp rib.files) bgp _).bind ?_
      intro result _
      dsimp only
      split_ifs
      · exact makeTrustFiles_made bgp rib.files
      · exact makeTrustFiles_made bgp rib.files
    exact processed.bind fun _ made _ => made
  | processRsclient node =>
    have selected : Ensures FileThere (fun _ => True)
        (bgpBestSelection rib.files bgp (rib.nodes node)) := by
      rcases ready node rfl with made | one
      · exact bgpBestSelection_made made bgp _
      · exact bgpBestSelection_oneEligible rib.files bgp one
    have processed : Ensures FileThere (fun _ => True)
        (bgpProcessRsclient bgp rib.files (rib.nodes node)) :=
      selected.bind fun _ _ => ensures_ok.mpr trivial
    exact processed.bind fun _ _ made => made
  | _ => exact fun made => made

/-! ### The sessions -/

variable {daemon : Daemon}

/-- Once an `OPEN` has been received on a session, the trust files are there. -/
def StartupInv (daemon : Daemon) : Prop :=
  ∀ id session, daemon.sessions id = some session → session.status.Confirmed →
    daemon.rib.files.Made

theorem StartupInv.setSession (inv : StartupInv daemon) (id : Nat) {session : Session}
    (ready : session.status.Confirmed → daemon.rib.files.Made) :
    StartupInv (daemon.setSession id session) := by
  intro other session' here confirmed
  by_cases same : other = id
  · subst same
    obtain rfl : session = session' := by simpa [Daemon.setSession] using here
    exact ready confirmed
  · exact inv other session' (by simpa [Daemon.setSession, same] using here) confirmed

theorem startupInv_of_made (made : daemon.rib.files.Made) : StartupInv daemon :=
  fun _ _ _ _ => made

/-- With the trust files in place every event of the finite state machine finds them. -/
theorem bgpEvent_made (session : Session) (event : FsmEvent) (input : FsmInput) {node : Node}
    (made : node.files.Made) :
    Ensures FileThere (fun result => result.1.files.Made) (bgpEvent session event input node) := by
  have called : Ensures FileThere (fun result => result.1.files.Made)
      ((fsm session.status event).1.call session input node) := by
    rcases (fsm session.status event).1.call_cases session input node with ⟨stays, called⟩ | called
    · rw [called]
      exact ensures_ok.mpr made
    · rw [called]
      exact (bgpKeepaliveSend_ensures (tableIndex_fileThere _) input.clock made).bind
        fun _ made' => ensures_ok.mpr made'
  exact called.bind fun _ made' => ensures_ok.mpr made'

theorem receiveMessage_fileThere (peer : Peer) {message : VotingMessage} {node : Node}
    (ready : ∀ code, message = .trust code → node.files.Made) :
    Ensures FileThere (fun result => node.files.Made → result.1.files.Made)
      (receiveMessage peer message node) := by
  have indexed := tableIndex_fileThere peer.as
  rw [receiveMessage]
  split_ifs
  · exact fun made => made
  · by_cases voting : ∀ code, message ≠ .trust code
    · exact (applyMessage_voting indexed node.files voting).bind fun _ kept => kept
    · obtain ⟨code, rfl⟩ : ∃ code, message = .trust code := by simpa using voting
      exact (applyMessage_ensures indexed (ready code rfl) _).bind fun _ made _ => made

/-- **One step of the daemon whose event comes when the files are ready.** -/
theorem daemonStep_fileThere (bgp : Bgp) (inv : StartupInv daemon) {event : DaemonEvent}
    (ready : FilesReady daemon event) :
    Ensures FileThere (fun result => StartupInv result.1) (daemonStep bgp daemon event) := by
  cases event with
  | create id peer accepted =>
    refine inv.setSession id fun confirmed => ?_
    cases accepted <;> simp [PeerStatus.Confirmed] at confirmed
  | delete id =>
    rw [daemonStep]
    split
    · exact inv
    · exact inv.setSession id fun confirmed => by simp [PeerStatus.Confirmed] at confirmed
  | transfer accepted real =>
    rw [daemonStep]
    split
    · rename_i source target atAccepted atReal
      exact inv.setSession real fun confirmed => inv accepted source atAccepted confirmed
    · exact inv
  | session id event input =>
    rw [daemonStep]
    split
    · exact inv
    · rename_i session here
      by_cases made : daemon.rib.files.Made
      · have nodeMade : daemon.node.files.Made := made
        exact (bgpEvent_made session event input nodeMade).bind
          fun _ made' => startupInv_of_made made'
      · -- Without the files the session is not confirmed, and no `OPEN` moves it on.
        have unconfirmed : ¬ session.status.Confirmed :=
          fun confirmed => made (inv id session here confirmed)
        have noOpen : ¬ (session.status = .openSent ∧ event = .receiveOpenMessage) := by
          rintro ⟨openSent, rfl⟩
          exact made (ready session here openSent)
        obtain ⟨status, stays, stepped⟩ :=
          bgpEvent_unconfirmed unconfirmed noOpen input daemon.node
        rw [stepped]
        exact inv.setSession id fun confirmed => absurd confirmed stays
  | message id message =>
    rw [daemonStep]
    split
    · exact inv
    · rename_i session here
      have trustReady : ∀ code, message = .trust code → daemon.node.files.Made := by
        rintro code rfl
        exact ready (by simp [here])
      exact (receiveMessage_fileThere session.peer trustReady).bind
        fun _ kept id session here confirmed => kept (inv id session here confirmed)
  | rib event =>
    have processing : ∀ node, event = .processRsclient node →
        daemon.rib.files.Made ∨ OneEligible (daemon.rib.nodes node) := by
      rintro node rfl
      exact ready
    exact (ribStep_fileThere bgp processing).bind
      fun _ kept id session here confirmed => kept (inv id session here confirmed)

/-- **In every run from start-up in which an `OPEN` moves a session on, a trust message is read
and the routes of a route-server client are compared only when the trust files are there, no
step reads a missing file.** -/
theorem daemonStep_no_missing_file {bgp : Bgp} {files : Files} {trace : List NodeAction}
    {daemon : Daemon} (run : Run (daemonStep bgp) FilesReady (Daemon.started files) trace daemon)
    {event : DaemonEvent} (ready : FilesReady daemon event) :
    daemonStep bgp daemon event ≠ .error .nullFile := by
  have inv : StartupInv daemon := by
    refine run.invariant (fun _ daemon => StartupInv daemon) ?_ ?_
    · intro id session here
      cases here
    · intro _ _ before after event inv ready stepped
      have kept := daemonStep_fileThere bgp inv ready
      rw [stepped] at kept
      exact kept
  intro failed
  have tolerated := daemonStep_fileThere bgp inv ready
  rw [failed] at tolerated
  exact tolerated rfl

/-- A session on which everything goes well. -/
def smoothInput : FsmInput :=
  { clock := early, vKeepalive := 60, starts := true, descriptor := true, acceptPeer := false }

/-- A node of the main table is processed before the session comes up. -/
theorem daemonStep_no_missing_file_established :
    ∃ daemon : Daemon, (∃ session, daemon.sessions 0 = some session ∧
        session.status = .established) ∧
      daemonStep plainBgp daemon (.session 0 .keepAliveTimerExpired smoothInput) ≠
        .error .nullFile := by
  have permitted : Permitted (daemonStep plainBgp) FilesReady (Daemon.started freshFiles)
      [.create 0 (neighbourOf 2 2) false, .session 0 .bgpStart smoothInput,
        .rib (.originate .network 0 plainAttr), .rib (.processMain 0),
        .session 0 .tcpConnectionOpen smoothInput, .session 0 .receiveOpenMessage smoothInput,
        .session 0 .receiveKeepaliveMessage smoothInput] := by
    refine ⟨trivial, trivial, trivial, trivial, trivial, ?_, trivial, trivial⟩
    exact fun _ _ _ => ⟨rfl, rfl, rfl⟩
  exact ⟨_, ⟨_, rfl, rfl⟩, daemonStep_no_missing_file (run_of_execute permitted rfl) trivial⟩

/-- A neighbour is configured, the connection comes up and its `OPEN` arrives before any route:
`bgp_trust_send` reads `/myAS.txt`, which is not there. -/
theorem open_before_trust_files :
    execute (daemonStep plainBgp) (Daemon.started freshFiles)
      [.create 0 (neighbourOf 2 2) false, .session 0 .bgpStart smoothInput,
        .session 0 .tcpConnectionOpen smoothInput, .session 0 .receiveOpenMessage smoothInput] =
      .error .nullFile := rfl

end Quagga.Bgpd
