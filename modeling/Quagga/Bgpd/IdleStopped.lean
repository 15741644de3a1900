import Quagga.Bgpd.Fsm
import Quagga.Library.Histories

/-!
# What is left open in Idle

The functions of the finite state machine open and close the connection of a peer, switch its read
and write threads and fill its output queue. `bgp_stop` takes all of that back. But it is not the
functions that change the status: `bgp_event` takes the next one from the table, and the table has
many entries that call `bgp_ignore` and then go to `Idle`.

So a peer may get to `Idle` with everything open: this happens exactly if an event for which the
table has such an entry arrives while the peer has a descriptor (`idle_stopped_iff`). One of them is
`Clearing_Completed` in `Established`, which `bgp_clear_route` posts when the neighbour takes back a
capability (`idle_after_capability_removal`).
-/

set_option autoImplicit false

namespace Quagga.Bgpd

open Lib Library

/-! ## The functions of the table -/

/-- The part of `struct peer` that has to do with the connection. -/
structure FsmPeer where
  status : PeerStatus
  fd : Int
  tRead : Bool
  tWrite : Bool
  obuf : List MsgType
  deriving DecidableEq

/-- What `bgp_connect` returns. -/
inductive ConnectResult where
  | error
  | success
  | inProgress
  deriving DecidableEq

/-- What a function of the table meets: whether the start of the peer is suppressed, whether the
peer is passive, what `sockunion_socket` and `sockunion_connect` return, the packets that are added
to the output queue before a keepalive, the ones for outbound route filtering, and the keepalive
interval. -/
structure ConnectInput where
  suppressed : Bool
  passive : Bool
  socket : Option Nat
  connect : ConnectResult
  beforeKeepalive : List MsgType
  routeRefresh : List MsgType
  vKeepalive : Nat

variable (peer : FsmPeer) (input : ConnectInput)

namespace FsmPeer

/-- A peer as `peer_create` makes it. -/
def fresh : FsmPeer := { status := .idle, fd := -1, tRead := false, tWrite := false, obuf := [] }

/-- `BGP_READ_ON`. -/
def readOn : FsmPeer :=
  { peer with tRead := peer.tRead || peer.status ≠ .deleted }

/-- `BGP_WRITE_ON`. -/
def writeOn : FsmPeer :=
  { peer with tWrite := peer.tWrite || peer.status ≠ .deleted }

/-- `bgp_packet_add`, and the write thread. -/
def send (packets : List MsgType) : FsmPeer :=
  if packets = [] then peer else { peer.writeOn with obuf := peer.obuf ++ packets }

/-- `bgp_stop`. -/
def bgpStop : FsmPeer :=
  { peer with tRead := false, tWrite := false, obuf := [], fd := if peer.fd ≥ 0 then -1 else peer.fd }

/-- `bgp_start`, with whether it returns `-1`. -/
def bgpStart : FsmPeer × Bool :=
  if input.suppressed then (peer, true)
  else if input.passive then (peer, false)
  else
    match input.socket with
    -- Without a socket `bgp_connect` returns `-1`, which is none of the cases.
    | none => ({ peer with fd := -1 }, false)
    | some fd =>
      let peer := { peer with fd := fd }
      match input.connect with
      | .error | .success => (peer, false)
      | .inProgress => (peer.readOn.writeOn, false)

/-- `bgp_connect_success` for a configured peer. -/
def bgpConnectSuccess : FsmPeer × Bool :=
  if peer.fd < 0 then (peer, true) else (peer.readOn.send [.msgOpen], false)

/-- `bgp_keepalive_send`. -/
def bgpKeepaliveSend : FsmPeer :=
  peer.send (input.beforeKeepalive ++ [.msgKeepalive])

/-- `bgp_establish`. -/
def bgpEstablish : FsmPeer :=
  let peer := { peer with status := .established }.send input.routeRefresh
  if input.vKeepalive ≠ 0 then peer.bgpKeepaliveSend input else peer

end FsmPeer

/-- Call a function of the table for a configured peer. -/
def FsmFunc.apply (func : FsmFunc) (input : ConnectInput) (peer : FsmPeer) : FsmPeer × Bool :=
  match func with
  | .bgpStart => peer.bgpStart input
  | .bgpStop | .bgpStopWithError | .bgpConnectFail | .bgpClearingCompleted => (peer.bgpStop, false)
  | .bgpConnectSuccess => peer.bgpConnectSuccess
  | .bgpReconnect => ((peer.bgpStop.bgpStart input).1, false)
  | .bgpFsmOpen | .bgpFsmKeepaliveExpire => (peer.bgpKeepaliveSend input, false)
  -- The notification is written at once, and the queue is cleared with the rest.
  | .bgpFsmHoldtimeExpire => (peer.bgpStop, false)
  | .bgpEstablish => (peer.bgpEstablish input, false)
  | .bgpFsmKeepalive | .bgpFsmUpdate | .bgpIgnore => (peer, false)

/-- `bgp_event`. -/
def FsmPeer.event (peer : FsmPeer) (event : FsmEvent) (input : ConnectInput) : FsmPeer :=
  let (peer', failed) := (fsm peer.status event).1.apply input peer
  if failed then peer' else { peer' with status := (fsm peer.status event).2 }

/-! ## Stopped peers -/

/-- No descriptor, no thread and nothing to send. -/
structure FsmPeer.Stopped (peer : FsmPeer) : Prop where
  fd_eq : peer.fd = -1
  tRead_eq : peer.tRead = false
  tWrite_eq : peer.tWrite = false
  obuf_eq : peer.obuf = []

/-- In `Idle` the peer is stopped. -/
def IdleStopped : Prop :=
  peer.status = .idle → peer.Stopped

/-- The table ignores the event and goes from another status to `Idle`. -/
def IgnoredIntoIdle (status : PeerStatus) (event : FsmEvent) : Prop :=
  status ≠ .idle ∧ fsm status event = (.bgpIgnore, .idle)

/-- An event that is ignored on the way to `Idle` finds no open descriptor. -/
def IgnoredClosed (next : FsmEvent × ConnectInput) : Prop :=
  IgnoredIntoIdle peer.status next.1 → peer.fd = -1

namespace FsmPeer

variable {peer : FsmPeer}

/-- What the peer should look like in a status: stopped, with a descriptor, or, while it connects,
one of the two. -/
def Suits (peer : FsmPeer) : PeerStatus → Prop
  | .idle | .active | .clearing => peer.Stopped
  | .connect => peer.Stopped ∨ 0 ≤ peer.fd
  | .openSent | .openConfirm | .established => 0 ≤ peer.fd
  | .deleted => False

variable {status : PeerStatus}

theorem Suits.stopped_or (suits : peer.Suits status) : peer.Stopped ∨ 0 ≤ peer.fd := by
  cases status with
  | idle | active | clearing => exact .inl suits
  | connect => exact suits
  | openSent | openConfirm | established => exact .inr suits
  | deleted => exact suits.elim

theorem Suits.stopped (suits : peer.Suits status) (closed : peer.fd = -1) : peer.Stopped := by
  rcases suits.stopped_or with stopped | opened
  · exact stopped
  · omega

/-- Only the connection counts, not the status that the peer has at the moment. -/
theorem suits_status {current : PeerStatus} (suits : peer.Suits status) :
    { peer with status := current }.Suits status := by
  have stopped : peer.Stopped → { peer with status := current }.Stopped :=
    fun stopped => ⟨stopped.fd_eq, stopped.tRead_eq, stopped.tWrite_eq, stopped.obuf_eq⟩
  cases status with
  | idle | active | clearing => exact stopped suits
  | connect => exact suits.imp_left stopped
  | openSent | openConfirm | established => exact suits
  | deleted => exact suits.elim

theorem bgpStop_stopped (either : peer.Stopped ∨ 0 ≤ peer.fd) : peer.bgpStop.Stopped := by
  refine ⟨?_, rfl, rfl, rfl⟩
  rcases either with stopped | opened
  · simp [bgpStop, stopped.fd_eq]
  · exact if_pos opened

@[simp]
theorem send_fd (packets : List MsgType) : (peer.send packets).fd = peer.fd := by
  unfold send writeOn
  split_ifs <;> rfl

/-- Starting a stopped peer opens a descriptor, or leaves it stopped. -/
theorem bgpStart_suits (stopped : peer.Stopped) (input : ConnectInput) :
    (peer.bgpStart input).1.Suits .connect := by
  unfold bgpStart
  by_cases suppressed : input.suppressed
  · rw [if_pos suppressed]
    exact .inl stopped
  · split_ifs with passive
    · exact .inl stopped
    · cases input.socket with
      | none => exact .inl ⟨rfl, stopped.tRead_eq, stopped.tWrite_eq, stopped.obuf_eq⟩
      | some fd =>
        right
        cases input.connect <;> exact Int.natCast_nonneg fd

theorem bgpStart_failed : peer.bgpStart input = (peer, true) ∨ (peer.bgpStart input).2 = false := by
  unfold bgpStart
  by_cases suppressed : input.suppressed
  · exact .inl (if_pos suppressed)
  · right
    split_ifs with passive
    · rfl
    · cases input.socket with
      | none => rfl
      | some fd => cases input.connect <;> rfl

theorem bgpEstablish_fd : (peer.bgpEstablish input).fd = peer.fd := by
  unfold bgpEstablish bgpKeepaliveSend
  split_ifs <;> simp

end FsmPeer

/-- Where in the table a function stands: in which statuses, and with which next status. -/
def FsmFunc.Entry : FsmFunc → PeerStatus → PeerStatus → Prop
  | .bgpStart, status, next => (status = .idle ∨ status = .active) ∧ next = .connect
  | .bgpConnectSuccess, _, next => next = .openSent
  | .bgpReconnect, _, next => next = .connect
  | .bgpFsmOpen, status, next => status = .openSent ∧ next = .openConfirm
  | .bgpEstablish, status, next => status = .openConfirm ∧ next = .established
  | .bgpFsmKeepaliveExpire, status, next | .bgpFsmKeepalive, status, next
  | .bgpFsmUpdate, status, next => status = .established ∧ next = .established
  | .bgpIgnore, status, next => next = status ∨ next = .idle
  | .bgpStop, _, next | .bgpStopWithError, _, next | .bgpConnectFail, _, next
  | .bgpClearingCompleted, _, next | .bgpFsmHoldtimeExpire, _, next =>
    next = .idle ∨ next = .active ∨ next = .clearing

theorem fsm_entry (status : PeerStatus) (event : FsmEvent) :
    (fsm status event).1.Entry status (fsm status event).2 := by
  cases status <;> cases event <;> simp [fsm, FsmFunc.Entry]

namespace FsmPeer

variable {peer : FsmPeer}

theorem Stopped.suits {next : PeerStatus} (stopped : peer.Stopped)
    (closed : next = .idle ∨ next = .active ∨ next = .clearing) : peer.Suits next := by
  rcases closed with rfl | rfl | rfl <;> exact stopped

/-- After an event that is not ignored into `Idle` with an open descriptor the peer suits its
status. -/
theorem event_suits {next : FsmEvent × ConnectInput} (suits : peer.Suits peer.status)
    (closed : IgnoredClosed peer next) :
    (peer.event next.1 next.2).Suits (peer.event next.1 next.2).status := by
  obtain ⟨event, input⟩ := next
  have entry := fsm_entry peer.status event
  have stop : peer.bgpStop.Stopped := bgpStop_stopped suits.stopped_or
  dsimp only [IgnoredClosed, IgnoredIntoIdle] at closed
  unfold FsmPeer.event
  generalize fsm peer.status event = found at entry closed ⊢
  obtain ⟨func, next⟩ := found
  cases func with
  | bgpStart =>
    obtain ⟨status, rfl⟩ := entry
    have stopped : peer.Stopped := by
      rcases status with status | status <;> rw [status] at suits <;> exact suits
    rcases bgpStart_failed input with failed | started
    · rw [FsmFunc.apply, failed]
      exact suits
    · have connecting := bgpStart_suits stopped input
      rw [FsmFunc.apply]
      generalize peer.bgpStart input = result at started connecting ⊢
      obtain ⟨after, failed⟩ := result
      obtain rfl : failed = false := started
      exact suits_status connecting
  | bgpConnectSuccess =>
    obtain rfl := entry
    by_cases negative : peer.fd < 0
    · simp only [FsmFunc.apply, bgpConnectSuccess, if_pos negative]
      exact suits
    · simp only [FsmFunc.apply, bgpConnectSuccess, if_neg negative]
      simpa [Suits, readOn] using Int.not_lt.mp negative
  | bgpReconnect =>
    obtain rfl := entry
    exact suits_status (bgpStart_suits stop input)
  | bgpFsmOpen =>
    obtain ⟨status, rfl⟩ := entry
    rw [status] at suits
    simpa [FsmFunc.apply, bgpKeepaliveSend, Suits] using suits
  | bgpEstablish =>
    obtain ⟨status, rfl⟩ := entry
    rw [status] at suits
    simpa [FsmFunc.apply, Suits, bgpEstablish_fd] using suits
  | bgpFsmKeepaliveExpire =>
    obtain ⟨status, rfl⟩ := entry
    rw [status] at suits
    simpa [FsmFunc.apply, bgpKeepaliveSend, Suits] using suits
  | bgpFsmKeepalive | bgpFsmUpdate =>
    obtain ⟨status, rfl⟩ := entry
    rw [status] at suits
    exact suits_status suits
  | bgpIgnore =>
    rcases entry with rfl | rfl
    · exact suits_status suits
    · by_cases idle : peer.status = .idle
      · rw [idle] at suits
        exact suits_status suits
      · exact suits_status (suits.stopped (closed ⟨idle, rfl⟩))
  | bgpStop | bgpStopWithError | bgpConnectFail | bgpClearingCompleted | bgpFsmHoldtimeExpire =>
    exact suits_status (stop.suits entry)

end FsmPeer

/-- An event with what the system calls return. -/
def FsmPeer.eventStep (peer : FsmPeer) (next : FsmEvent × ConnectInput) : FsmPeer :=
  peer.event next.1 next.2

/-- **`Idle` means stopped exactly as long as no event that is ignored on the way to `Idle` finds an
open descriptor.** -/
theorem idle_stopped_iff (events : List (FsmEvent × ConnectInput)) :
    Throughout FsmPeer.eventStep .fresh IdleStopped events ↔
      EachMeets FsmPeer.eventStep .fresh IgnoredClosed events := by
  refine throughout_iff_eachMeets (fun peer => peer.Suits peer.status) ⟨rfl, rfl, rfl, rfl⟩
    (fun peer next suits closed => FsmPeer.event_suits suits closed) ?_ ?_ events
  · intro peer suits idle
    rw [idle] at suits
    exact suits
  · rintro peer ⟨event, input⟩ - after ⟨-, entry⟩
    have same : peer.eventStep (event, input) = { peer with status := .idle } := by
      simp [FsmPeer.eventStep, FsmPeer.event, entry, FsmFunc.apply]
    rw [same] at after
    exact (after rfl).fd_eq

/-- A connection that is under way at once, with descriptor 3. -/
def connecting : ConnectInput :=
  { suppressed := false, passive := false, socket := some 3, connect := .inProgress
    beforeKeepalive := [], routeRefresh := [], vKeepalive := 60 }

/-- The events of a session that comes up. -/
def sessionUp : List (FsmEvent × ConnectInput) :=
  [(.bgpStart, connecting), (.tcpConnectionOpen, connecting), (.receiveOpenMessage, connecting),
    (.receiveKeepaliveMessage, connecting)]

/-- The session is up, and all routes of a family are cleared because the neighbour took back the
capability for it: the peer is `Idle` with its descriptor and threads. -/
theorem idle_after_capability_removal :
    ¬ Throughout FsmPeer.eventStep .fresh IdleStopped
        (sessionUp ++ [(.clearingCompleted, connecting)]) := by
  intro throughout
  have closed := (throughout.here rfl).fd_eq
  revert closed
  decide

end Quagga.Bgpd
