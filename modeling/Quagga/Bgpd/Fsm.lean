import Quagga.Bgpd.VotingNode

/-!
# The finite state machine of a session

`bgp_event` looks the status of a peer and the event up in the table `FSM`, calls the function
that stands there and, unless it returns `-1`, goes to the next status of the table. Three of
the functions send a keepalive: `bgp_fsm_open` when an `OPEN` is received, `bgp_establish`
and `bgp_fsm_keepalive_expire`. The others touch neither the files of the voting extension
nor what is sent by it.

A session gets to `OpenConfirm` only by `bgp_fsm_open`. Before that no event on it sends a
keepalive (`bgpEvent_unconfirmed`).
-/

set_option autoImplicit false

namespace Quagga.Bgpd

open Lib Library

/-! ## The table -/

/-- The states of a session. -/
inductive PeerStatus where
  | idle
  | connect
  | active
  | openSent
  | openConfirm
  | established
  | clearing
  | deleted
  deriving DecidableEq

/-- The events of the finite state machine. -/
inductive FsmEvent where
  | bgpStart
  | bgpStop
  | tcpConnectionOpen
  | tcpConnectionClosed
  | tcpConnectionOpenFailed
  | tcpFatalError
  | connectRetryTimerExpired
  | holdTimerExpired
  | keepAliveTimerExpired
  | receiveOpenMessage
  | receiveKeepaliveMessage
  | receiveUpdateMessage
  | receiveNotificationMessage
  | clearingCompleted
  deriving DecidableEq

/-- The functions in the table `FSM`. -/
inductive FsmFunc where
  | bgpStart
  | bgpStop
  | bgpStopWithError
  | bgpConnectSuccess
  | bgpConnectFail
  | bgpReconnect
  | bgpFsmOpen
  | bgpFsmKeepaliveExpire
  | bgpFsmHoldtimeExpire
  | bgpEstablish
  | bgpFsmKeepalive
  | bgpFsmUpdate
  | bgpIgnore
  | bgpClearingCompleted
  deriving DecidableEq

/-- `FSM`: the function to call and the next status. -/
def fsm : PeerStatus → FsmEvent → FsmFunc × PeerStatus
  | .idle, .bgpStart => (.bgpStart, .connect)
  | .idle, .bgpStop => (.bgpStop, .idle)
  | .idle, .tcpConnectionOpen => (.bgpStop, .idle)
  | .idle, .tcpConnectionClosed => (.bgpStop, .idle)
  | .idle, .tcpFatalError => (.bgpStop, .idle)
  | .idle, _ => (.bgpIgnore, .idle)
  | .connect, .bgpStart => (.bgpIgnore, .connect)
  | .connect, .bgpStop => (.bgpStop, .idle)
  | .connect, .tcpConnectionOpen => (.bgpConnectSuccess, .openSent)
  | .connect, .tcpConnectionClosed => (.bgpStop, .idle)
  | .connect, .tcpConnectionOpenFailed => (.bgpConnectFail, .active)
  | .connect, .tcpFatalError => (.bgpConnectFail, .idle)
  | .connect, .connectRetryTimerExpired => (.bgpReconnect, .connect)
  | .connect, .receiveNotificationMessage => (.bgpStop, .idle)
  | .connect, _ => (.bgpIgnore, .idle)
  | .active, .bgpStart => (.bgpIgnore, .active)
  | .active, .bgpStop => (.bgpStop, .idle)
  | .active, .tcpConnectionOpen => (.bgpConnectSuccess, .openSent)
  | .active, .tcpConnectionClosed => (.bgpStop, .idle)
  | .active, .tcpConnectionOpenFailed => (.bgpIgnore, .active)
  | .active, .connectRetryTimerExpired => (.bgpStart, .connect)
  | .active, .receiveNotificationMessage => (.bgpStopWithError, .idle)
  | .active, _ => (.bgpIgnore, .idle)
  | .openSent, .bgpStart => (.bgpIgnore, .openSent)
  | .openSent, .bgpStop => (.bgpStop, .idle)
  | .openSent, .tcpConnectionOpen => (.bgpStop, .active)
  | .openSent, .tcpConnectionClosed => (.bgpStop, .active)
  | .openSent, .tcpConnectionOpenFailed => (.bgpStop, .active)
  | .openSent, .tcpFatalError => (.bgpStop, .active)
  | .openSent, .holdTimerExpired => (.bgpFsmHoldtimeExpire, .idle)
  | .openSent, .receiveOpenMessage => (.bgpFsmOpen, .openConfirm)
  | .openSent, .receiveNotificationMessage => (.bgpStopWithError, .idle)
  | .openSent, _ => (.bgpIgnore, .idle)
  | .openConfirm, .bgpStart => (.bgpIgnore, .openConfirm)
  | .openConfirm, .bgpStop => (.bgpStop, .idle)
  | .openConfirm, .tcpConnectionOpen => (.bgpStop, .idle)
  | .openConfirm, .tcpConnectionClosed => (.bgpStop, .idle)
  | .openConfirm, .tcpConnectionOpenFailed => (.bgpStop, .idle)
  | .openConfirm, .tcpFatalError => (.bgpStop, .idle)
  | .openConfirm, .holdTimerExpired => (.bgpFsmHoldtimeExpire, .idle)
  | .openConfirm, .keepAliveTimerExpired => (.bgpIgnore, .openConfirm)
  | .openConfirm, .receiveKeepaliveMessage => (.bgpEstablish, .established)
  | .openConfirm, .receiveNotificationMessage => (.bgpStopWithError, .idle)
  | .openConfirm, _ => (.bgpIgnore, .idle)
  | .established, .bgpStart => (.bgpIgnore, .established)
  | .established, .holdTimerExpired => (.bgpFsmHoldtimeExpire, .clearing)
  | .established, .keepAliveTimerExpired => (.bgpFsmKeepaliveExpire, .established)
  | .established, .receiveKeepaliveMessage => (.bgpFsmKeepalive, .established)
  | .established, .receiveUpdateMessage => (.bgpFsmUpdate, .established)
  | .established, .receiveNotificationMessage => (.bgpStopWithError, .clearing)
  | .established, .clearingCompleted => (.bgpIgnore, .idle)
  | .established, _ => (.bgpStop, .clearing)
  | .clearing, .bgpStart => (.bgpIgnore, .clearing)
  | .clearing, .clearingCompleted => (.bgpClearingCompleted, .idle)
  | .clearing, _ => (.bgpStop, .clearing)
  | .deleted, _ => (.bgpIgnore, .deleted)

/-! ## Events -/

/-- A session: its peer and the peer's status. -/
structure Session where
  peer : Peer
  status : PeerStatus

/-- What an event meets in the rest of the daemon: what `rand` and `time` give, the keepalive
interval of the session, whether `bgp_start` gets a connection under way, whether the session
has a descriptor, and whether it belongs to a peer made for an accepted connection. -/
structure FsmInput where
  clock : Clock
  vKeepalive : Nat
  starts : Bool
  descriptor : Bool
  acceptPeer : Bool

/-- Call a function of the table. It returns the status in which it leaves the peer when it
returns `-1`. -/
def FsmFunc.call (func : FsmFunc) (session : Session) (input : FsmInput) (node : Node) :
    Except Fault (Node × List NodeAction × Option PeerStatus) :=
  match func with
  | .bgpStart => .ok (node, [], if input.starts then none else some session.status)
  | .bgpConnectSuccess => .ok (node, [], if input.descriptor then none else some session.status)
  | .bgpFsmHoldtimeExpire => .ok (node, [], if input.acceptPeer then some .deleted else none)
  | .bgpFsmOpen | .bgpFsmKeepaliveExpire => do
      let (node, actions) ← bgpKeepaliveSend session.peer input.clock node
      return (node, actions, none)
  | .bgpEstablish =>
    if input.vKeepalive ≠ 0 then do
      let (node, actions) ← bgpKeepaliveSend session.peer input.clock node
      return (node, actions, none)
    else .ok (node, [], none)
  | .bgpStop | .bgpStopWithError | .bgpConnectFail | .bgpReconnect | .bgpFsmKeepalive
  | .bgpFsmUpdate | .bgpIgnore | .bgpClearingCompleted => .ok (node, [], none)

/-- `bgp_event`. -/
def bgpEvent (session : Session) (event : FsmEvent) (input : FsmInput) (node : Node) :
    Except Fault (Node × List NodeAction × Session) := do
  let (node, actions, stays) ← (fsm session.status event).1.call session input node
  return (node, actions, { session with status := stays.getD (fsm session.status event).2 })

/-- An `OPEN` has been received on the session. -/
def PeerStatus.Confirmed (status : PeerStatus) : Prop :=
  status = .openConfirm ∨ status = .established

instance (status : PeerStatus) : Decidable status.Confirmed :=
  inferInstanceAs (Decidable (_ ∨ _))

/-- Only functions that send no keepalive are called before an `OPEN` is received, apart from
`bgp_fsm_open` itself. -/
theorem fsm_sends {status : PeerStatus} (unconfirmed : ¬ status.Confirmed) {event : FsmEvent}
    (noOpen : ¬ (status = .openSent ∧ event = .receiveOpenMessage)) :
    (fsm status event).1 ≠ .bgpFsmOpen ∧ (fsm status event).1 ≠ .bgpFsmKeepaliveExpire ∧
      (fsm status event).1 ≠ .bgpEstablish ∧ ¬ (fsm status event).2.Confirmed := by
  revert unconfirmed noOpen
  cases status <;> cases event <;> decide

/-- **Before an `OPEN` is received, an event other than its arrival leaves the node alone and
the session unconfirmed.** -/
theorem bgpEvent_unconfirmed {session : Session} (unconfirmed : ¬ session.status.Confirmed)
    {event : FsmEvent} (noOpen : ¬ (session.status = .openSent ∧ event = .receiveOpenMessage))
    (input : FsmInput) (node : Node) :
    ∃ status, ¬ PeerStatus.Confirmed status ∧
      bgpEvent session event input node = .ok (node, [], { session with status := status }) := by
  obtain ⟨notOpen, notExpire, notEstablish, next⟩ := fsm_sends unconfirmed noOpen
  have called : ∃ stays : Option PeerStatus, (∀ status ∈ stays, ¬ status.Confirmed) ∧
      (fsm session.status event).1.call session input node = .ok (node, [], stays) := by
    generalize (fsm session.status event).1 = func at notOpen notExpire notEstablish
    cases func with
    | bgpFsmOpen => exact absurd rfl notOpen
    | bgpFsmKeepaliveExpire => exact absurd rfl notExpire
    | bgpEstablish => exact absurd rfl notEstablish
    | bgpStart =>
      refine ⟨_, ?_, rfl⟩
      cases input.starts <;> simp [unconfirmed]
    | bgpConnectSuccess =>
      refine ⟨_, ?_, rfl⟩
      cases input.descriptor <;> simp [unconfirmed]
    | bgpFsmHoldtimeExpire =>
      refine ⟨_, ?_, rfl⟩
      cases input.acceptPeer <;> simp [PeerStatus.Confirmed]
    | _ => exact ⟨none, fun _ absent => (by cases absent), rfl⟩
  obtain ⟨stays, staysUnconfirmed, called⟩ := called
  refine ⟨stays.getD (fsm session.status event).2, ?_, ?_⟩
  · cases stays with
    | none => exact next
    | some status => exact staysUnconfirmed status rfl
  · rw [bgpEvent, called]
    rfl

/-- What an event does on any session: it leaves the node alone, or sends a keepalive. -/
theorem FsmFunc.call_cases (func : FsmFunc) (session : Session) (input : FsmInput) (node : Node) :
    (∃ stays, func.call session input node = .ok (node, [], stays)) ∨
      func.call session input node = (do
        let (node, actions) ← bgpKeepaliveSend session.peer input.clock node
        return (node, actions, none)) := by
  cases func with
  | bgpFsmOpen => exact .inr rfl
  | bgpFsmKeepaliveExpire => exact .inr rfl
  | bgpEstablish =>
    rw [FsmFunc.call]
    split_ifs
    · exact .inr rfl
    · exact .inl ⟨_, rfl⟩
  | _ => exact .inl ⟨_, rfl⟩

end Quagga.Bgpd
