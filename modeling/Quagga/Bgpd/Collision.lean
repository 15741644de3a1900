import Quagga.Bgpd.OpenReceive

/-!
# Connection collisions

When two speakers open connections to each other at the same time, one of the two is to be closed.
`bgp_collision_detect` does so when an OPEN is received while another connection to the same
neighbour is in `OpenSent` or `OpenConfirm`. Its comments quote the rule of the protocol: the
speaker with the lower identifier accepts the connection that the other one initiated. The code
compares the identifiers, but then decides between the connection on which the OPEN came and the
one that already exists, whoever opened them.

A side has two peers for the neighbour. The configured one holds the connection that this side
opened; a dummy peer holds the accepted one until its OPEN is read, and then hands it over. The two
sides keep the same connection exactly if each of them first reads the OPEN on the connection that
the other opened (`collision_agreement_iff`).
-/

set_option autoImplicit false

namespace Quagga.Bgpd

open Lib Library

/-! ## One side -/

/-- Who opened a connection, from the point of view of a side. -/
inductive Opener where
  | self
  | neighbour
  deriving DecidableEq

/-- The same connection, from the point of view of the neighbour. -/
def Opener.other : Opener → Opener
  | .self => .neighbour
  | .neighbour => .self

/-- The two peers of a side when both connections are up and no OPEN has been read: the configured
peer with the connection that was opened, and the peer that `bgp_accept` made for the other. -/
structure Opening where
  real : OpenPeer
  accepted : OpenPeer
  real_openSent : real.status = .openSent
  real_fd : 0 ≤ real.fd
  real_configured : real.acceptPeer = false
  accepted_openSent : accepted.status = .openSent
  accepted_fd : 0 ≤ accepted.fd
  accepted_dummy : accepted.acceptPeer = true
  su_eq : accepted.su = real.su
  localId_eq : accepted.localId = real.localId
  ptr_ne : accepted.ptr ≠ real.ptr
  fd_ne : accepted.fd ≠ real.fd

/-- The peers of a side, the descriptors on which a notification has been sent, and the events that
wait to be handled. -/
structure Side where
  real : OpenPeer
  accepted : Option OpenPeer
  notified : List Int
  events : List (Nat × FsmEvent)

/-- The peers of a side. -/
def Side.peers (side : Side) : List OpenPeer := side.real :: side.accepted.toList

/-- `bgp_notify_send`: the packet is written at once, and `BGP_Stop` is posted. -/
def Side.notify (side : Side) (sent : List Notification) : Side :=
  { side with
    notified := side.notified ++
      sent.flatMap fun notification =>
        (side.peers.filter fun peer => peer.ptr = notification.ptr).map OpenPeer.fd
    events := side.events ++ sent.map fun notification => (notification.ptr, .bgpStop) }

/-- `BGP_EVENT_FLUSH`. -/
def Side.flush (side : Side) (ptr : Nat) : Side :=
  { side with events := side.events.filter fun event => event.1 ≠ ptr }

/-- The end of `bgp_read`: the peer of an accepted connection is deleted. -/
def Side.readDone (side : Side) (peer : OpenPeer) : Side :=
  if peer.acceptPeer then { side.flush peer.ptr with accepted := none } else side

/-- The identifier of a neighbour that `bgp_open_receive` refuses. -/
def badRouterId (localId remoteId : Nat) : Prop :=
  remoteId = 0 ∨ remoteId ≥ 0xe0000000 ∨ localId = remoteId

instance (localId remoteId : Nat) : Decidable (badRouterId localId remoteId) :=
  inferInstanceAs (Decidable (_ ∨ _))

/-- The part of `bgp_open_receive` for the peer that goes on with the connection. -/
def Side.openGoesOn (side : Side) (remoteId : Nat) : Side :=
  if badRouterId side.real.localId remoteId then
    side.notify [⟨side.real.ptr, bgpNotifyOpenErr, 3, []⟩]
  else
    { side with
      real := { side.real with remoteId := remoteId }
      events := side.events ++ [(side.real.ptr, .receiveOpenMessage)] }

/-- `bgp_open_receive` from the collision detection on, for an OPEN whose other fields are in
order, and the end of `bgp_read`. -/
def Side.openReceived (side : Side) (peer : OpenPeer) (remoteId : Nat) : Side :=
  let (ret, sent) := bgpCollisionDetect side.peers peer remoteId
  let side := side.notify sent
  if ret < 0 then side.readDone peer
  else if peer.acceptPeer then
    match transferToRealpeer peer side.real ret [] with
    | .error sent => (side.notify sent).readDone peer
    | .ok realpeer =>
      let taken : Side := { side.flush realpeer.ptr with real := realpeer }
      (taken.openGoesOn remoteId).readDone peer
  else side.openGoesOn remoteId

/-- An OPEN comes on a connection, if a peer still holds it. -/
def Side.openOn (side : Side) (fd : Int) (remoteId : Nat) : Side :=
  if side.real.fd = fd then side.openReceived side.real remoteId
  else
    match side.accepted with
    | some peer => if peer.fd = fd then side.openReceived peer remoteId else side
    | none => side

/-- What an event does to a peer here: `bgp_stop` closes its connection. -/
def OpenPeer.handle (peer : OpenPeer) (event : FsmEvent) : OpenPeer :=
  let stopped := if (fsm peer.status event).1 = .bgpStop then peer.stop else peer
  { stopped with status := (fsm peer.status event).2 }

/-- Take the next event from the list. -/
def Side.handleEvent (side : Side) : Side :=
  match side.events with
  | [] => side
  | (ptr, event) :: events =>
    { side with
      real := if side.real.ptr = ptr then side.real.handle event else side.real
      accepted := side.accepted.map fun peer =>
        if peer.ptr = ptr then peer.handle event else peer
      events := events }

/-- Take several. -/
def Side.handleEvents : Nat → Side → Side
  | 0, side => side
  | count + 1, side => side.handleEvent.handleEvents count

/-- The descriptors that are open and on which no notification has been sent. -/
def Side.keeps (side : Side) : List Int :=
  (side.peers.map OpenPeer.fd).filter fun fd => 0 ≤ fd ∧ fd ∉ side.notified

namespace Opening

variable (opening : Opening)

/-- The side before an OPEN is read. -/
def side : Side :=
  { real := opening.real, accepted := some opening.accepted, notified := [], events := [] }

/-- The descriptor of a connection. -/
def fd : Opener → Int
  | .self => opening.real.fd
  | .neighbour => opening.accepted.fd

/-- The side after the OPENs on both connections. Between them a number of the events that the first
one led to are handled. -/
def sideAfter (remoteId : Nat) (first : Opener) (handled : Nat) : Side :=
  ((opening.side.openOn (opening.fd first) remoteId).handleEvents handled).openOn
    (opening.fd first.other) remoteId

/-- The side is left with this connection and no other. -/
def Keeps (remoteId : Nat) (first : Opener) (handled : Nat) (opener : Opener) : Prop :=
  (opening.sideAfter remoteId first handled).keeps = [opening.fd opener]

end Opening

/-! ## What a side keeps -/

variable {side : Side}

theorem Side.handleEvents_done (done : side.events = []) (count : Nat) :
    side.handleEvents count = side := by
  induction count with
  | zero => rfl
  | succ count ih =>
    have same : side.handleEvent = side := by
      rw [Side.handleEvent, done]
    rw [Side.handleEvents, same, ih]

/-! ### Closed connections stay closed -/

/-- The peers of the side hold none but some connections, and a notification has been sent on
others. -/
structure Side.Closed (held shut : Int → Prop) (side : Side) : Prop where
  within : ∀ peer ∈ side.peers, peer.fd = -1 ∨ held peer.fd
  notified : ∀ fd, shut fd → fd ∈ side.notified

section Closed

variable {held shut : Int → Prop} {side : Side}

section

variable (closed : side.Closed held shut)

include closed

theorem Side.Closed.of_keeps {fd : Int} (kept : fd ∈ side.keeps) : held fd ∧ ¬ shut fd := by
  obtain ⟨mem, open'⟩ := List.mem_filter.mp kept
  obtain ⟨valid, unnotified⟩ := of_decide_eq_true open'
  obtain ⟨peer, holds, rfl⟩ := List.mem_map.mp mem
  refine ⟨?_, fun gone => unnotified (closed.notified _ gone)⟩
  rcases closed.within peer holds with gone | inside
  · omega
  · exact inside

theorem Side.Closed.notify (sent : List Notification) : (side.notify sent).Closed held shut :=
  ⟨closed.within, fun fd gone => List.mem_append_left _ (closed.notified fd gone)⟩

theorem Side.Closed.readDone (peer : OpenPeer) : (side.readDone peer).Closed held shut := by
  rw [Side.readDone]
  split_ifs
  · refine ⟨fun peer mem => closed.within peer ?_, closed.notified⟩
    exact List.mem_cons.mpr (.inl (List.mem_singleton.mp mem))
  · exact closed

theorem Side.Closed.openGoesOn (remoteId : Nat) : (side.openGoesOn remoteId).Closed held shut := by
  rw [Side.openGoesOn]
  split_ifs
  · exact closed.notify _
  · refine ⟨fun peer mem => ?_, closed.notified⟩
    rcases List.mem_cons.mp mem with rfl | accepted
    · exact closed.within side.real List.mem_cons_self
    · exact closed.within peer (List.mem_cons_of_mem _ accepted)

theorem Side.Closed.setReal {realpeer : OpenPeer} (holds : realpeer.fd = -1 ∨ held realpeer.fd) :
    Side.Closed held shut { side.flush realpeer.ptr with real := realpeer } := by
  refine ⟨fun peer mem => ?_, closed.notified⟩
  rcases List.mem_cons.mp mem with rfl | accepted
  · exact holds
  · exact closed.within peer (List.mem_cons_of_mem _ accepted)

end

theorem transferToRealpeer_fd {peer realpeer realpeer' : OpenPeer} {ret : Int}
    {notified : List Notification}
    (transferred : transferToRealpeer peer realpeer ret notified = .ok realpeer') :
    realpeer'.fd = peer.fd := by
  simp only [transferToRealpeer, refuse] at transferred
  split_ifs at transferred
  all_goals
    cases transferred
    rfl

theorem Side.Closed.openReceived (closed : side.Closed held shut) {peer : OpenPeer}
    (mem : peer ∈ side.peers) (remoteId : Nat) :
    (side.openReceived peer remoteId).Closed held shut := by
  rw [Side.openReceived]
  obtain ⟨ret, sent⟩ := bgpCollisionDetect side.peers peer remoteId
  dsimp only
  split_ifs with negative accepts
  · exact (closed.notify sent).readDone peer
  · cases transferred : transferToRealpeer peer (side.notify sent).real ret [] with
    | error sent' => exact ((closed.notify sent).notify sent').readDone peer
    | ok realpeer =>
      have holds : realpeer.fd = -1 ∨ held realpeer.fd := by
        rw [transferToRealpeer_fd transferred]
        exact closed.within peer mem
      exact (((closed.notify sent).setReal holds).openGoesOn remoteId).readDone peer
  · exact (closed.notify sent).openGoesOn remoteId

theorem Side.Closed.openOn (closed : side.Closed held shut) (fd : Int) (remoteId : Nat) :
    (side.openOn fd remoteId).Closed held shut := by
  rw [Side.openOn]
  split_ifs
  · exact closed.openReceived List.mem_cons_self remoteId
  · cases accepted : side.accepted with
    | none => exact closed
    | some peer =>
      dsimp only
      split_ifs
      · refine closed.openReceived (List.mem_cons_of_mem _ ?_) remoteId
        rw [accepted]
        exact List.mem_singleton_self peer
      · exact closed

theorem OpenPeer.handle_fd (peer : OpenPeer) (event : FsmEvent) :
    (peer.handle event).fd = -1 ∨ (peer.handle event).fd = peer.fd := by
  rw [OpenPeer.handle]
  split_ifs
  · exact .inl rfl
  · exact .inr rfl

theorem Side.Closed.handleEvent (closed : side.Closed held shut) :
    side.handleEvent.Closed held shut := by
  have handled : ∀ peer ∈ side.peers, ∀ event, (peer.handle event).fd = -1 ∨
      held (peer.handle event).fd := by
    intro peer mem event
    rcases peer.handle_fd event with gone | same
    · exact .inl gone
    · rw [same]
      exact closed.within peer mem
  rw [Side.handleEvent]
  split
  · exact closed
  · refine ⟨fun peer mem => ?_, closed.notified⟩
    rcases List.mem_cons.mp mem with rfl | accepted
    · split_ifs
      · exact handled side.real List.mem_cons_self _
      · exact closed.within side.real List.mem_cons_self
    · obtain ⟨peer', there, rfl⟩ := Option.mem_map.mp (Option.mem_toList.mp accepted)
      have mem' : peer' ∈ side.peers := List.mem_cons_of_mem _ (Option.mem_toList.mpr there)
      split_ifs
      · exact handled peer' mem' _
      · exact closed.within peer' mem'

theorem Side.Closed.handleEvents (count : Nat) :
    ∀ {side : Side}, side.Closed held shut → (side.handleEvents count).Closed held shut := by
  induction count with
  | zero => exact fun closed => closed
  | succ count ih => exact fun closed => ih closed.handleEvent

end Closed

/-! ### The first OPEN -/

namespace Opening

variable (opening : Opening) {remoteId : Nat}

attribute [local simp] side fd ptr_ne accepted_dummy real_configured Side.openOn Side.openReceived
  Side.peers Side.notify Side.readDone Side.flush Side.openGoesOn Side.keeps

/-- The existing connection is the one that this side opened. -/
theorem detect_accepted :
    bgpCollisionDetect [opening.real, opening.accepted] opening.accepted remoteId =
      if opening.real.localId < remoteId then (1, [⟨opening.real.ptr, bgpNotifyCease, 7, []⟩])
      else (-1, [⟨opening.accepted.ptr, bgpNotifyCease, 7, []⟩]) := by
  simp [bgpCollisionDetect, opening.ptr_ne.symm, opening.su_eq, opening.real_openSent,
    opening.real_fd, opening.accepted_fd]

/-- The existing connection is the one that the neighbour opened. -/
theorem detect_real :
    bgpCollisionDetect [opening.real, opening.accepted] opening.real remoteId =
      if opening.real.localId < remoteId then
        (1, [⟨opening.accepted.ptr, bgpNotifyCease, 7, []⟩])
      else (-1, [⟨opening.real.ptr, bgpNotifyCease, 7, []⟩]) := by
  simp [bgpCollisionDetect, opening.su_eq, opening.accepted_openSent,
    opening.localId_eq, opening.real_fd, opening.accepted_fd]

/-- There is no other connection. -/
theorem detect_none {peers : List OpenPeer} {new : OpenPeer}
    (alone : ∀ peer ∈ peers, peer.ptr = new.ptr ∨
      peer.status ≠ .openConfirm ∧ peer.status ≠ .openSent) :
    bgpCollisionDetect peers new remoteId = (0, []) := by
  have none : (peers.find? fun peer => peer.ptr ≠ new.ptr ∧
      (peer.status = .openConfirm ∨ peer.status = .openSent) ∧ peer.su = new.su) = none := by
    rw [List.find?_eq_none]
    intro peer mem
    rcases alone peer mem with same | ⟨notConfirm, notSent⟩
    · simp [same]
    · simp [notConfirm, notSent]
  rw [bgpCollisionDetect, none]

theorem openOn_neighbour_higher (higher : ¬ opening.real.localId < remoteId) :
    opening.side.openOn (opening.fd .neighbour) remoteId =
      { real := opening.real, accepted := none, notified := [opening.accepted.fd],
        events := [] } := by
  have detect : bgpCollisionDetect [opening.real, opening.accepted] opening.accepted remoteId = _ :=
    opening.detect_accepted
  rw [if_neg higher] at detect
  simp [opening.fd_ne.symm, detect, opening.ptr_ne.symm]

theorem openOn_self_higher (higher : ¬ opening.real.localId < remoteId) :
    opening.side.openOn (opening.fd .self) remoteId =
      { real := opening.real, accepted := some opening.accepted, notified := [opening.real.fd],
        events := [(opening.real.ptr, .bgpStop)] } := by
  have detect : bgpCollisionDetect [opening.real, opening.accepted] opening.real remoteId = _ :=
    opening.detect_real
  rw [if_neg higher] at detect
  simp [detect]

/-- The configured peer after it has taken over the accepted connection. -/
def transferred : OpenPeer :=
  { opening.real.stop with fd := opening.accepted.fd, status := .openSent }

theorem transfer_eq :
    transferToRealpeer opening.accepted opening.real 1 [] = .ok opening.transferred := by
  have open' : ¬ opening.accepted.fd < 0 := not_lt.mpr opening.accepted_fd
  simp [transferToRealpeer, opening.real_openSent, open', transferred, opening.accepted_openSent]

theorem openOn_neighbour_lower (lower : opening.real.localId < remoteId) :
    opening.side.openOn (opening.fd .neighbour) remoteId =
      if badRouterId opening.real.localId remoteId then
        { real := opening.transferred, accepted := none,
          notified := [opening.real.fd, opening.accepted.fd],
          events := [(opening.real.ptr, .bgpStop)] }
      else
        { real := { opening.transferred with remoteId := remoteId }, accepted := none,
          notified := [opening.real.fd], events := [(opening.real.ptr, .receiveOpenMessage)] } := by
  have detect : bgpCollisionDetect [opening.real, opening.accepted] opening.accepted remoteId = _ :=
    opening.detect_accepted
  rw [if_pos lower] at detect
  have transfer := opening.transfer_eq
  have ptr_eq : opening.transferred.ptr = opening.real.ptr := rfl
  have localId_eq : opening.transferred.localId = opening.real.localId := rfl
  have fd_eq : opening.transferred.fd = opening.accepted.fd := rfl
  by_cases bad : badRouterId opening.real.localId remoteId
  · simp [opening.fd_ne.symm, detect, transfer, bad, ptr_eq, localId_eq, fd_eq, opening.ptr_ne.symm]
  · simp [opening.fd_ne.symm, detect, transfer, bad, ptr_eq, localId_eq, opening.ptr_ne.symm]

/-! ### The second OPEN -/

theorem sideAfter_of {first : Opener} {next : Side} (handled : Nat)
    (read : opening.side.openOn (opening.fd first) remoteId = next) :
    opening.sideAfter remoteId first handled =
      (next.handleEvents handled).openOn (opening.fd first.other) remoteId := by
  rw [sideAfter, read]

theorem handle_stop {peer : OpenPeer} (status : peer.status = .openSent) :
    ∃ idle, peer.handle .bgpStop = idle ∧ idle.fd = -1 ∧ idle.ptr = peer.ptr ∧
      idle.status = .idle := by
  refine ⟨_, rfl, ?_⟩
  rw [OpenPeer.handle, status]
  exact ⟨rfl, rfl, rfl⟩

theorem handle_open {peer : OpenPeer} (status : peer.status = .openSent) :
    (peer.handle .receiveOpenMessage).fd = peer.fd := by
  rw [OpenPeer.handle, status]
  rfl

/-- The configured peer has taken over the accepted connection; nobody reads its own any more. -/
theorem keeps_taken_over (real_fd : side.real.fd = opening.accepted.fd)
    (accepted : side.accepted = none) (notified : side.notified = [opening.real.fd]) :
    (side.openOn (opening.fd .self) remoteId).keeps = [opening.accepted.fd] := by
  simp [accepted, notified, real_fd, opening.accepted_fd, opening.fd_ne]

/-- The connection that the neighbour opened was read first, by the lower identifier. -/
theorem keeps_neighbour_lower (lower : opening.real.localId < remoteId) (handled : Nat) :
    (opening.sideAfter remoteId .neighbour handled).keeps =
      if badRouterId opening.real.localId remoteId then [] else [opening.accepted.fd] := by
  rw [opening.sideAfter_of handled (opening.openOn_neighbour_lower lower)]
  split_ifs with bad
  · have closed : Side.Closed (· = opening.accepted.fd) (· = opening.accepted.fd)
        ⟨opening.transferred, none, [opening.real.fd, opening.accepted.fd],
          [(opening.real.ptr, .bgpStop)]⟩ := by
      constructor
      · simp [transferred]
      · simp
    refine List.eq_nil_iff_forall_not_mem.mpr fun fd kept => ?_
    obtain ⟨same, other⟩ := ((closed.handleEvents handled).openOn _ _).of_keeps kept
    exact other same
  · cases handled with
    | zero => exact opening.keeps_taken_over rfl rfl rfl
    | succ count =>
      rw [Side.handleEvents, Side.handleEvents_done rfl]
      refine opening.keeps_taken_over ?_ rfl rfl
      dsimp only [Side.handleEvent]
      split_ifs
      · exact handle_open rfl
      · rfl

/-- It was read first by the higher identifier. -/
theorem keeps_neighbour_higher (higher : ¬ opening.real.localId < remoteId) (handled : Nat) :
    (opening.sideAfter remoteId .neighbour handled).keeps =
      if badRouterId opening.real.localId remoteId then [] else [opening.real.fd] := by
  have detect : bgpCollisionDetect [opening.real] opening.real remoteId = (0, []) :=
    detect_none (by simp)
  rw [opening.sideAfter_of handled (opening.openOn_neighbour_higher higher),
    Side.handleEvents_done rfl]
  split_ifs with bad
  · simp [Opener.other, detect, bad]
  · simp [Opener.other, detect, bad, opening.real_fd, opening.fd_ne.symm]

/-- The connection that the side itself opened was read first, by the higher identifier. It is
closed, and then the other is refused as well. -/
theorem keeps_self_higher (higher : ¬ opening.real.localId < remoteId) (handled : Nat) :
    (opening.sideAfter remoteId .self handled).keeps = [] := by
  rw [opening.sideAfter_of handled (opening.openOn_self_higher higher)]
  cases handled with
  | zero =>
    have detect : bgpCollisionDetect [opening.real, opening.accepted] opening.accepted remoteId =
        _ := opening.detect_accepted
    rw [if_neg higher] at detect
    simp [Side.handleEvents, Opener.other, opening.fd_ne.symm, detect]
  | succ count =>
    obtain ⟨idle, stopped, idle_fd, idle_ptr, idle_status⟩ := handle_stop opening.real_openSent
    have detect : bgpCollisionDetect [idle, opening.accepted] opening.accepted remoteId =
        (0, []) := detect_none (by simp [idle_status])
    have refused : transferToRealpeer opening.accepted idle 0 [] =
        .error [⟨opening.accepted.ptr, bgpNotifyCease, 5, []⟩] := by
      simp [transferToRealpeer, refuse, idle_status]
    have after : Side.handleEvents (count + 1) ⟨opening.real, some opening.accepted,
        [opening.real.fd], [(opening.real.ptr, .bgpStop)]⟩ =
          ⟨idle, some opening.accepted, [opening.real.fd], []⟩ := by
      rw [Side.handleEvents, Side.handleEvents_done rfl]
      simp [Side.handleEvent, stopped]
    have noFd : ¬ (-1 : Int) = opening.accepted.fd := by
      have openFd := opening.accepted_fd
      omega
    rw [after]
    simp [Opener.other, noFd, detect, refused, idle_fd]

/-- It was read first by the lower identifier. A notification has been sent on the other connection,
which is not kept then. -/
theorem not_keeps_neighbour (lower : opening.real.localId < remoteId) (handled : Nat) :
    ¬ opening.Keeps remoteId .self handled .neighbour := by
  intro keeps
  have detect : bgpCollisionDetect [opening.real, opening.accepted] opening.real remoteId = _ :=
    opening.detect_real
  rw [if_pos lower] at detect
  have closed : Side.Closed (fun _ => True) (· = opening.accepted.fd)
      (opening.side.openOn (opening.fd .self) remoteId) := by
    refine ⟨fun _ _ => .inr trivial, ?_⟩
    rintro _ rfl
    by_cases bad : badRouterId opening.real.localId remoteId
    · simp [detect, bad, opening.ptr_ne.symm]
    · simp [detect, bad, opening.ptr_ne.symm]
  have kept : opening.accepted.fd ∈ (opening.sideAfter remoteId .self handled).keeps := by
    rw [keeps]
    exact List.mem_singleton_self _
  exact (((closed.handleEvents handled).openOn _ _).of_keeps kept).2 rfl

end Opening

/-! ## Agreement -/

/-- The two sides are left with the same single connection. -/
def SameConnection (a b : Opening) (firstA firstB : Opener) (handledA handledB : Nat) : Prop :=
  ∃ opener, a.Keeps b.real.localId firstA handledA opener ∧
    b.Keeps a.real.localId firstB handledB opener.other

/-- An identifier that `bgp_open_receive` accepts from a neighbour. -/
def RouterIdOk (id : Nat) : Prop := id ≠ 0 ∧ id < 0xe0000000

theorem not_badRouterId {localId remoteId : Nat} (distinct : localId ≠ remoteId) :
    ¬ badRouterId localId remoteId ↔ RouterIdOk remoteId := by
  rw [badRouterId, RouterIdOk]
  omega

section Agreement

variable {a b : Opening} {firstA firstB : Opener} {handledA handledB : Nat}

theorem SameConnection.symm (same : SameConnection a b firstA firstB handledA handledB) :
    SameConnection b a firstB firstA handledB handledA := by
  obtain ⟨opener, keepsA, keepsB⟩ := same
  refine ⟨opener.other, keepsB, ?_⟩
  cases opener with
  | self => exact keepsA
  | neighbour => exact keepsA

theorem Opening.keeps_lower_iff {remoteId : Nat} (lower : a.real.localId < remoteId) :
    a.Keeps remoteId firstA handledA .neighbour ↔ RouterIdOk remoteId ∧ firstA = .neighbour := by
  cases firstA with
  | neighbour =>
    rw [Opening.Keeps, a.keeps_neighbour_lower lower, ← not_badRouterId (Nat.ne_of_lt lower)]
    by_cases bad : badRouterId a.real.localId remoteId
    · simp [bad]
    · simp [bad, Opening.fd]
  | self => exact iff_of_false (a.not_keeps_neighbour lower handledA) (by simp)

theorem Opening.keeps_higher_iff {remoteId : Nat} (higher : remoteId < a.real.localId)
    (opener : Opener) :
    a.Keeps remoteId firstA handledA opener ↔
      RouterIdOk remoteId ∧ firstA = .neighbour ∧ opener = .self := by
  have ok_iff := not_badRouterId (Nat.ne_of_gt higher)
  have notLower := Nat.not_lt.mpr (Nat.le_of_lt higher)
  have apart := a.fd_ne
  rw [Opening.Keeps]
  cases firstA with
  | neighbour =>
    rw [a.keeps_neighbour_higher notLower, ← ok_iff]
    by_cases bad : badRouterId a.real.localId remoteId
    · simp [bad]
    · cases opener <;> simp [bad, Opening.fd, apart.symm]
  | self =>
    rw [a.keeps_self_higher notLower]
    simp

theorem sameConnection_lower_iff (lower : a.real.localId < b.real.localId) :
    SameConnection a b firstA firstB handledA handledB ↔
      (RouterIdOk a.real.localId ∧ RouterIdOk b.real.localId) ∧
        firstA = .neighbour ∧ firstB = .neighbour := by
  constructor
  · rintro ⟨opener, keepsA, keepsB⟩
    obtain ⟨okA, firstB_eq, other_eq⟩ := (Opening.keeps_higher_iff lower opener.other).mp keepsB
    cases opener with
    | self => cases other_eq
    | neighbour =>
      obtain ⟨okB, firstA_eq⟩ := (Opening.keeps_lower_iff lower).mp keepsA
      exact ⟨⟨okA, okB⟩, firstA_eq, firstB_eq⟩
  · rintro ⟨⟨okA, okB⟩, rfl, rfl⟩
    exact ⟨.neighbour, (Opening.keeps_lower_iff lower).mpr ⟨okB, rfl⟩,
      (Opening.keeps_higher_iff lower _).mpr ⟨okA, rfl, rfl⟩⟩

end Agreement

/-- **Two speakers that have opened connections to each other keep the same single connection
exactly if their identifiers are valid and each of them first reads the OPEN on the connection that
the other opened**, whatever is handled between the two OPENs. -/
theorem collision_agreement_iff {a b : Opening} (distinct : a.real.localId ≠ b.real.localId)
    (firstA firstB : Opener) (handledA handledB : Nat) :
    SameConnection a b firstA firstB handledA handledB ↔
      (RouterIdOk a.real.localId ∧ RouterIdOk b.real.localId) ∧
        firstA = .neighbour ∧ firstB = .neighbour := by
  rcases Nat.lt_or_gt_of_ne distinct with lower | higher
  · exact sameConnection_lower_iff lower
  · constructor
    · intro same
      obtain ⟨⟨okB, okA⟩, firstB_eq, firstA_eq⟩ := (sameConnection_lower_iff higher).mp same.symm
      exact ⟨⟨okA, okB⟩, firstA_eq, firstB_eq⟩
    · rintro ⟨⟨okA, okB⟩, firstA_eq, firstB_eq⟩
      exact ((sameConnection_lower_iff higher).mpr ⟨⟨okB, okA⟩, firstB_eq, firstA_eq⟩).symm

/-- A side with this identifier: descriptor 5 is the connection that it opened, descriptor 6 the
one that it accepted. -/
def openingOf (id : Nat) : Opening where
  real := { configuredPeer with localId := id }
  accepted := { configuredPeer with ptr := 2, localId := id, fd := 6, acceptPeer := true }
  real_openSent := rfl
  real_fd := (by decide : (0 : Int) ≤ 5)
  real_configured := rfl
  accepted_openSent := rfl
  accepted_fd := (by decide : (0 : Int) ≤ 6)
  accepted_dummy := rfl
  su_eq := rfl
  localId_eq := rfl
  ptr_ne := (by decide : (2 : Nat) ≠ 1)
  fd_ne := (by decide : (6 : Int) ≠ 5)

/-- Each side first reads the OPEN that the other sent when it connected. -/
theorem collision_agreement_neighbour_first :
    (openingOf 1).real.localId ≠ (openingOf 2).real.localId ∧
      SameConnection (openingOf 1) (openingOf 2) .neighbour .neighbour 0 0 := by
  have distinct : (openingOf 1).real.localId ≠ (openingOf 2).real.localId := by decide
  have ok : RouterIdOk 1 ∧ RouterIdOk 2 := ⟨⟨by decide, by decide⟩, by decide, by decide⟩
  exact ⟨distinct, (collision_agreement_iff distinct _ _ _ _).mpr ⟨ok, rfl, rfl⟩⟩

/-- The lower side has read the OPEN on the connection that the higher one opened, has closed its
own and answers. The higher side reads the answer before the OPEN on the other connection, and
closes the connection that the lower one keeps; then it refuses the other as well. -/
theorem collision_answer_first :
    ((openingOf 1).sideAfter 2 .neighbour 1).keeps = [6] ∧
      ((openingOf 2).sideAfter 1 .self 1).keeps = [] ∧
      ¬ SameConnection (openingOf 1) (openingOf 2) .neighbour .self 1 1 := by
  have none : ((openingOf 2).sideAfter 1 .self 1).keeps = [] := by decide
  refine ⟨by decide, none, ?_⟩
  rintro ⟨opener, -, keeps⟩
  have kept : ((openingOf 2).sideAfter 1 .self 1).keeps = [(openingOf 2).fd opener.other] := keeps
  cases kept

end Quagga.Bgpd
