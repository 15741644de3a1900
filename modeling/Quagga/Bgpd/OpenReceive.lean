import Quagga.Bgpd.OpenOptions

/-!
# Receiving an OPEN

`bgp_open_receive` reads the fixed fields, looks into the options for the four-byte AS number of
the neighbour (`peek_for_as4_capability`), finds the peer that the connection belongs to, checks
the fields against its configuration and only then parses the options.

Looking into the options never fails: all of its reads stay inside the options, which have to be
complete. So whether the function reads beyond the message depends on the checks and on the
option parser. It does exactly when the OPEN passes the checks and its options come to an entry
for outbound route filtering that is cut by the end of the message
(`bgpOpenReceive_inBounds_iff`).
-/

set_option autoImplicit false

namespace Quagga.Bgpd

open Lib Library

/-! ## Looking for the four-byte AS number -/

/-- A capability has two bytes before its value. -/
theorem peeked_less {getp capdEnd : Nat} (short : ¬ getp + 2 > capdEnd) (length : Nat) :
    capdEnd - (getp + 1 + 1 + length) < capdEnd - getp := by omega

/-- The loop over the capabilities of one option. It is left with the AS number, or zero, and the
peer, whose flag says that the number was found. -/
def peekCapabilityLoop (peer : OpenPeer) (capdEnd : Nat) :
    Loop Fault Stream (UInt32 × Stream × OpenPeer) where
  guard s := s.getp < capdEnd
  body s := do
    if s.getp + 2 > capdEnd then return .leave (0, s, peer)
    let (code, s) ← streamGetc s
    let (length, s) ← streamGetc s
    if s.getp + length.toNat > capdEnd then return .leave (0, s, peer)
    if code = capabilityCodeAs4 then
      if length.toNat ≠ 4 then return .leave (0, s, peer)
      return .leave (← bgpCapabilityAs4 s peer)
    else return .again (← streamForwardGetp s length.toNat)
  measure s := capdEnd - s.getp
  falls := by
    intro s s' going passed
    split_ifs at passed with short
    · cases passed
    obtain ⟨code, passed⟩ := streamGetc_bind passed
    obtain ⟨length, passed⟩ := streamGetc_bind passed
    dsimp only at passed
    split_ifs at passed with excess as4 size
    · cases passed
    · cases passed
    · obtain ⟨found, -, passed⟩ := bind_eq_ok passed
      cases passed
    · obtain ⟨s3, forwarded, passed⟩ := bind_eq_ok passed
      obtain rfl : s3 = _ := (streamForwardGetp_advance _ _).of_ok forwarded
      cases passed
      exact peeked_less short length.toNat

theorem peekCapabilityLoop_getp {peer : OpenPeer} {capdEnd : Nat} {s s' : Stream}
    (ran : (peekCapabilityLoop peer capdEnd).run s = .ok (.again s')) : s.getp ≤ s'.getp := by
  refine (Loop.run_again (R := fun s s' => s.getp ≤ s'.getp) (fun _ => Nat.le_refl _)
    Nat.le_trans ?_ ran).1
  intro s s' going passed
  have less : capdEnd - s'.getp < capdEnd - s.getp :=
    (peekCapabilityLoop peer capdEnd).falls going passed
  omega

/-- The loop over the options. The data of an option that holds no capabilities is not passed
over. -/
def peekOptionLoop (peer : OpenPeer) (optionsEnd : Nat) :
    Loop Fault Stream (UInt32 × Stream × OpenPeer) where
  guard s := s.getp < optionsEnd
  body s := do
    if s.getp + 2 > optionsEnd then return .leave (0, s, peer)
    let (optType, s) ← streamGetc s
    let (optLength, s) ← streamGetc s
    if s.getp + optLength.toNat > optionsEnd then return .leave (0, s, peer)
    if optType = bgpOpenOptCap then (peekCapabilityLoop peer (s.getp + optLength.toNat)).run s
    else return .again s
  measure s := optionsEnd - s.getp
  falls := by
    intro s s' going passed
    split_ifs at passed with short
    · cases passed
    obtain ⟨optType, passed⟩ := streamGetc_bind passed
    obtain ⟨optLength, passed⟩ := streamGetc_bind passed
    dsimp only at passed
    split_ifs at passed with excess cap
    · cases passed
    · have further := peekCapabilityLoop_getp passed
      simp only [Stream.advance_getp] at further
      omega
    · cases passed
      simp only [Stream.advance_getp]
      omega

/-- `peek_for_as4_capability`: the AS number, or zero, and the peer. -/
def peekForAs4Capability (peer : OpenPeer) (s : Stream) (length : Nat) :
    Except Fault (UInt32 × Stream × OpenPeer) := do
  let origGetp := s.getp
  if s.readable < length then return (0, s, peer)
  match ← (peekOptionLoop peer (origGetp + length)).run s with
  | .leave (as4, s, peer) => return (as4, ← streamSetGetp s origGetp, peer)
  | .again s => return (0, ← streamSetGetp s origGetp, peer)

/-! ### Where the number is found -/

/-- A place that the search comes to: an option, or a capability of the option that ends at an
offset. -/
inductive PeekPlace where
  | option (pnt : Nat)
  | capability (capdEnd pnt : Nat)
  deriving DecidableEq

/-- Where `peek_for_as4_capability` goes on. -/
def peekNext (s : Stream) (optionsEnd : Nat) : PeekPlace → Option PeekPlace
  | .option pnt =>
    let next := pnt + 2 + (s.byte (pnt + 1)).toNat
    if pnt < optionsEnd ∧ next ≤ optionsEnd then
      if s.byte pnt = bgpOpenOptCap then some (.capability next (pnt + 2))
      else some (.option (pnt + 2))
    else none
  | .capability capdEnd pnt =>
    let next := pnt + 2 + (s.byte (pnt + 1)).toNat
    if capdEnd ≤ pnt then some (.option pnt)
    else if next ≤ capdEnd ∧ s.byte pnt ≠ capabilityCodeAs4 then some (.capability capdEnd next)
    else none

/-- The place is a capability with this four-byte AS number. -/
def As4At (s : Stream) (as4 : UInt32) : PeekPlace → Prop
  | .option _ => False
  | .capability capdEnd pnt =>
    pnt + 6 ≤ capdEnd ∧ s.byte pnt = capabilityCodeAs4 ∧ (s.byte (pnt + 1)).toNat = 4 ∧
      longOf (s.slice (pnt + 2) 4) = as4

/-- The options that start at an offset announce the four-byte AS number. -/
def AnnouncesAs4 (s : Stream) (pnt length : Nat) (as4 : UInt32) : Prop :=
  pnt + length ≤ s.endp ∧ Encounters (peekNext s (pnt + length)) (As4At s as4) (.option pnt)

theorem As4At.stop {s : Stream} {as4 : UInt32} {place : PeekPlace} (found : As4At s as4 place)
    (optionsEnd : Nat) : peekNext s optionsEnd place = none := by
  cases place with
  | option pnt => exact found.elim
  | capability capdEnd pnt =>
    obtain ⟨room, code, -⟩ := found
    have notDone : ¬ capdEnd ≤ pnt := by omega
    simp [peekNext, notDone, code]

section Peek

variable {s : Stream} (fits : s.endp ≤ s.size) {peer : OpenPeer} {optionsEnd pnt : Nat}

/-- The search comes from a place to another one. -/
def Searches (s : Stream) (optionsEnd : Nat) : PeekPlace → PeekPlace → Prop :=
  Relation.ReflTransGen fun place next => peekNext s optionsEnd place = some next

/-- What a search gives that started at a place: it is left where there is no next place, with the
number that stands there or with zero, or it goes on from an option. -/
def Peeks (s : Stream) (peer : OpenPeer) (optionsEnd : Nat) (start : PeekPlace) :
    Pass Stream (UInt32 × Stream × OpenPeer) → Prop
  | .again s' => ∃ pnt, s' = s.seek pnt ∧ pnt ≤ optionsEnd ∧ Searches s optionsEnd start (.option pnt)
  | .leave (as4, s', peer') => (∃ pnt ≤ s.endp, s' = s.seek pnt) ∧
      ∃ place, Searches s optionsEnd start place ∧ peekNext s optionsEnd place = none ∧
        ((As4At s as4 place ∧ peer' = { peer with cap := { peer.cap with as4Rcv := true } }) ∨
          ((∀ v, ¬ As4At s v place) ∧ as4 = 0 ∧ peer' = peer))

variable {start : PeekPlace}

theorem Peeks.stop {place : PeekPlace} (inside : pnt ≤ s.endp)
    (searches : Searches s optionsEnd start place) (stop : peekNext s optionsEnd place = none)
    (elsewhere : ∀ v, ¬ As4At s v place) :
    Peeks s peer optionsEnd start (.leave (0, s.seek pnt, peer)) :=
  ⟨⟨pnt, inside, rfl⟩, place, searches, stop, .inr ⟨elsewhere, rfl, rfl⟩⟩

include fits

/-- One capability: it is cut by the end of its option, the one looked for, or passed over. -/
theorem peekCapability_peeks {capdEnd : Nat} (more : pnt < capdEnd) (capdEnds : capdEnd ≤ s.endp)
    (searches : Searches s optionsEnd start (.capability capdEnd pnt)) :
    Ensures (fun _ => False)
      (Loop.PassPost (fun s' => ∃ next, s' = s.seek next ∧ next ≤ capdEnd ∧
        Searches s optionsEnd start (.capability capdEnd next)) (Peeks s peer optionsEnd start))
      ((peekCapabilityLoop peer capdEnd).body (s.seek pnt)) := by
  have notDone : ¬ capdEnd ≤ pnt := Nat.not_le.mpr more
  have cut : ¬ pnt + 2 + (s.byte (pnt + 1)).toNat ≤ capdEnd → ∀ at' ≤ s.endp,
      Peeks s peer optionsEnd start (.leave (0, s.seek at', peer)) := by
    intro cut at' inside
    refine Peeks.stop inside searches (by simp [peekNext, notDone, cut]) ?_
    rintro v ⟨room, -, size, -⟩
    omega
  have unfolded : (peekCapabilityLoop peer capdEnd).body (s.seek pnt) =
      (if pnt + 2 > capdEnd then .ok (.leave (0, s.seek pnt, peer)) else _) := rfl
  rw [unfolded]
  by_cases short : pnt + 2 > capdEnd
  · rw [if_pos short]
    exact cut (by omega) pnt (by omega)
  have codeIn : pnt + 1 ≤ s.endp := by omega
  have lengthIn : pnt + 1 + 1 ≤ s.endp := by omega
  simp only [if_neg short, streamGetc_seek fits codeIn, ok_bind, streamGetc_seek fits lengthIn,
    Stream.seek_getp]
  by_cases excess : pnt + 1 + 1 + (s.byte (pnt + 1)).toNat > capdEnd
  · rw [if_pos excess]
    exact cut (by omega) (pnt + 2) (by omega)
  rw [if_neg excess]
  by_cases as4 : s.byte pnt = capabilityCodeAs4
  · have stop : peekNext s optionsEnd (.capability capdEnd pnt) = none := by
      simp [peekNext, notDone, as4]
    rw [if_pos as4]
    by_cases size : (s.byte (pnt + 1)).toNat = 4
    · have numberIn : pnt + 1 + 1 + 4 ≤ s.endp := by omega
      rw [if_neg (not_not.mpr size), bgpCapabilityAs4, streamGetl_seek fits numberIn]
      exact ⟨⟨pnt + 6, by omega, rfl⟩, _, searches, stop,
        .inl ⟨⟨by omega, as4, size, rfl⟩, rfl⟩⟩
    · rw [if_pos size]
      exact Peeks.stop (by omega) searches stop fun v found => size found.2.2.1
  · have dataIn : pnt + 1 + 1 + (s.byte (pnt + 1)).toNat ≤ s.endp := by omega
    rw [if_neg as4, streamForwardGetp_seek fits dataIn]
    refine ⟨_, rfl, Nat.not_lt.mp excess, searches.tail ?_⟩
    simp only [peekNext]
    rw [if_neg notDone, if_pos ⟨by omega, as4⟩]

theorem peekCapabilityLoop_peeks {capdEnd : Nat} (capdEnds : capdEnd ≤ optionsEnd)
    (optionsEnds : optionsEnd ≤ s.endp) (inside : pnt ≤ capdEnd)
    (searches : Searches s optionsEnd start (.capability capdEnd pnt)) :
    Ensures (fun _ => False) (Peeks s peer optionsEnd start)
      ((peekCapabilityLoop peer capdEnd).run (s.seek pnt)) := by
  refine Loop.ensures (fun s' => ∃ next, s' = s.seek next ∧ next ≤ capdEnd ∧
    Searches s optionsEnd start (.capability capdEnd next)) ?_ ?_ _ ⟨pnt, rfl, inside, searches⟩
  · rintro _ ⟨next, rfl, -, searches'⟩ going
    exact peekCapability_peeks fits (of_decide_eq_true going) (by omega) searches'
  · rintro _ ⟨next, rfl, inside', searches'⟩ done
    have all : capdEnd ≤ next := Nat.le_of_not_lt (of_decide_eq_false done)
    exact ⟨next, rfl, by omega, searches'.tail (if_pos all)⟩

theorem peekOption_peeks (optionsEnds : optionsEnd ≤ s.endp) (more : pnt < optionsEnd)
    (searches : Searches s optionsEnd start (.option pnt)) :
    Ensures (fun _ => False) (Peeks s peer optionsEnd start)
      ((peekOptionLoop peer optionsEnd).body (s.seek pnt)) := by
  have cut : ¬ pnt + 2 + (s.byte (pnt + 1)).toNat ≤ optionsEnd → ∀ at' ≤ s.endp,
      Peeks s peer optionsEnd start (.leave (0, s.seek at', peer)) := fun cut at' inside =>
    Peeks.stop inside searches (if_neg fun both => cut both.2) fun _ => id
  have unfolded : (peekOptionLoop peer optionsEnd).body (s.seek pnt) =
      (if pnt + 2 > optionsEnd then .ok (.leave (0, s.seek pnt, peer)) else _) := rfl
  rw [unfolded]
  by_cases short : pnt + 2 > optionsEnd
  · rw [if_pos short]
    exact cut (by omega) pnt (by omega)
  have typeIn : pnt + 1 ≤ s.endp := by omega
  have lengthIn : pnt + 1 + 1 ≤ s.endp := by omega
  rw [if_neg short, streamGetc_seek fits typeIn, ok_bind]
  dsimp only
  rw [streamGetc_seek fits lengthIn]
  change Ensures _ _ (if pnt + 2 + (s.byte (pnt + 1)).toNat > optionsEnd then _
    else if s.byte pnt = bgpOpenOptCap then _ else _)
  by_cases excess : pnt + 2 + (s.byte (pnt + 1)).toNat > optionsEnd
  · rw [if_pos excess]
    exact cut (by omega) (pnt + 2) (by omega)
  have ends : pnt + 2 + (s.byte (pnt + 1)).toNat ≤ optionsEnd := by omega
  have next : peekNext s optionsEnd (.option pnt) = _ := if_pos ⟨more, ends⟩
  split_ifs with cap
  · exact peekCapabilityLoop_peeks fits ends optionsEnds (Nat.le_add_right _ _)
      (searches.tail (next.trans (if_pos cap)))
  · exact ⟨pnt + 2, rfl, by omega, searches.tail (next.trans (if_neg cap))⟩

/-- **The search returns, with `getp` as it was.** It gives the number that the options announce,
and the flag of the peer is set when there is one. -/
theorem peekForAs4Capability_spec (inside : pnt ≤ s.endp) (length : Nat) :
    ∃ as4 peer', peekForAs4Capability peer (s.seek pnt) length = .ok (as4, s.seek pnt, peer') ∧
      ((AnnouncesAs4 s pnt length as4 ∧
          peer' = { peer with cap := { peer.cap with as4Rcv := true } }) ∨
        ((∀ v, ¬ AnnouncesAs4 s pnt length v) ∧ as4 = 0 ∧ peer' = peer)) := by
  have readable_eq : (s.seek pnt).readable = s.endp - pnt := rfl
  rw [peekForAs4Capability, readable_eq, Stream.seek_getp]
  split_ifs with short
  · refine ⟨0, peer, rfl, .inr ⟨?_, rfl, rfl⟩⟩
    rintro v ⟨complete, -⟩
    omega
  have complete : pnt + length ≤ s.endp := by omega
  have back : ∀ {at' : Nat}, at' ≤ s.endp → streamSetGetp (s.seek at') pnt = .ok (s.seek pnt) :=
    fun inside' => streamSetGetp_seek_ok fits inside' inside
  have absent : ∀ {place}, Searches s (pnt + length) (.option pnt) place →
      peekNext s (pnt + length) place = none → (∀ v, ¬ As4At s v place) →
        ∀ v, ¬ AnnouncesAs4 s pnt length v := fun searches stop elsewhere v announced =>
    not_encounters stop (elsewhere v)
      ((encounters_of_walk (fun _ found => found.stop _) searches).mp announced.2)
  have searched : Ensures (fun _ => False)
      (fun ending => Peeks s peer (pnt + length) (.option pnt) ending ∧
        ∀ s', ending = .again s' → ¬ s'.getp < pnt + length)
      ((peekOptionLoop peer (pnt + length)).run (s.seek pnt)) := by
    refine Loop.ensures (fun s' => Peeks s peer (pnt + length) (.option pnt) (.again s')) ?_ ?_ _
      ⟨pnt, rfl, Nat.le_add_right _ _, .refl⟩
    · rintro _ ⟨next, rfl, -, searches⟩ going
      refine (peekOption_peeks fits complete (of_decide_eq_true going) searches).mono ?_
      rintro (s' | ending) peeks
      · exact peeks
      · exact ⟨peeks, nofun⟩
    · rintro s' peeks done
      refine ⟨peeks, ?_⟩
      rintro _ ⟨⟩
      exact of_decide_eq_false done
  obtain ⟨ending, ran, peeks, atEnd⟩ := searched.exists_ok
  rw [ran, ok_bind]
  rcases ending with s' | ⟨as4, s', peer'⟩
  · obtain ⟨at', rfl, inside', searches⟩ := peeks
    dsimp only
    rw [back (Nat.le_trans inside' complete)]
    refine ⟨0, peer, rfl, .inr ⟨absent searches (if_neg fun both => ?_) fun _ => id, rfl, rfl⟩⟩
    exact atEnd _ rfl both.1
  · obtain ⟨⟨at', inside', rfl⟩, place, searches, stop, found⟩ := peeks
    dsimp only
    rw [back inside']
    refine ⟨as4, peer', rfl, found.imp ?_ ?_⟩
    · exact fun ⟨here, flag⟩ => ⟨⟨complete, place, searches, here⟩, flag⟩
    · exact fun ⟨elsewhere, zero⟩ => ⟨absent searches stop elsewhere, zero⟩

end Peek

/-! ## The checks -/

/-- The fixed fields, with the copies of two of them for notifications. -/
structure OpenFields where
  version : UInt8
  remoteAs : UInt16
  notifyDataRemoteAs : List UInt8
  holdtime : UInt16
  remoteId : UInt32
  notifyDataRemoteId : List UInt8
  optlen : UInt8

/-- `BGP_AS_TRANS`. -/
def bgpAsTrans : Nat := 23456

/-- `bgp_notify_send_with_data`, as the reason why an OPEN is refused. -/
def refuse {α : Type} (peer : OpenPeer) (notified : List Notification) (code subcode : Nat)
    (data : List UInt8) : Except (List Notification) α :=
  .error (notified ++ [⟨peer.ptr, code, subcode, data⟩])

/-- The AS number of the neighbour, from the fixed field and the capability. -/
def openRemoteAs (peer : OpenPeer) (remoteAs as4 : Nat) : Except (List Notification) Nat :=
  if peer.cap.as4Rcv ∧ as4 = 0 then refuse peer [] bgpNotifyOpenErr 2 []
  else if remoteAs = bgpAsTrans then
    if as4 = bgpAsTrans then refuse peer [] bgpNotifyOpenErr 2 []
    else .ok (if as4 ≠ 0 then as4 else remoteAs)
  else if peer.cap.as4Rcv ∧ as4 ≠ remoteAs then refuse peer [] bgpNotifyOpenErr 2 []
  else .ok remoteAs

/-- A peer that `peer_lookup_with_open` looks at. -/
def lookedAt (su : SockUnion) (remoteAs : Nat) (peer : OpenPeer) : Bool :=
  peer.su = su ∧ ¬ peer.acceptPeer ∧ peer.as = remoteAs

/-- `peer_lookup_with_open`, over the peers of every instance: the peer, and otherwise whether
one with the AS number was seen. -/
def peerLookupWithOpen (bgps : List (List OpenPeer)) (su : SockUnion) (remoteAs remoteId : Nat) :
    Except Bool OpenPeer :=
  match bgps with
  | [] => .error false
  | peers :: rest =>
    match peers.find? fun peer => lookedAt su remoteAs peer && peer.remoteId = remoteId with
    | some peer => .ok peer
    | none =>
      match peers.find? fun peer => lookedAt su remoteAs peer && peer.remoteId = 0 with
      | some peer => .ok peer
      | none =>
        match peerLookupWithOpen rest su remoteAs remoteId with
        | .ok peer => .ok peer
        | .error as => .error (as || peers.any (lookedAt su remoteAs))

/-- `bgp_collision_detect` with the peers of the default instance: the return value and the
notification sent. A peer without connection is sent none. -/
def bgpCollisionDetect (peers : List OpenPeer) (new : OpenPeer) (remoteId : Nat) :
    Int × List Notification :=
  let colliding := peers.find? fun peer =>
    peer.ptr ≠ new.ptr ∧ (peer.status = .openConfirm ∨ peer.status = .openSent) ∧ peer.su = new.su
  let send := fun peer : OpenPeer =>
    if peer.fd ≥ 0 then [(⟨peer.ptr, bgpNotifyCease, 7, []⟩ : Notification)] else []
  match colliding with
  | none => (0, [])
  | some peer => if peer.localId < remoteId then (1, send peer) else (-1, send new)

/-- `af_cap` without a flag. -/
def AfCapFlags.none : AfCapFlags :=
  { orfPrefixSmRcv := false, orfPrefixRmRcv := false, orfPrefixSmOldRcv := false,
    orfPrefixRmOldRcv := false, restartAfRcv := false, restartAfPreserveRcv := false }

/-- `bgp_stop`, as far as it concerns the fields here. -/
def OpenPeer.stop (peer : OpenPeer) : OpenPeer :=
  { peer with
    nsfMode := if peer.status = .established ∧ ¬ peer.nsfWait then false else peer.nsfMode
    fd := -1
    families := { peer.families with afcRecv := fun _ _ => false, afcNego := fun _ _ => false }
    afCap := fun _ _ => AfCapFlags.none
    vKeepalive := if peer.configTimer then peer.keepalive else peer.defaultKeepalive
    vHoldtime := if peer.configTimer then peer.holdtime else peer.defaultHoldtime }

/-- The part of `bgp_open_receive` that hands an accepted connection to the peer it belongs to:
the peer that goes on. -/
def transferToRealpeer (peer realpeer : OpenPeer) (ret : Int) (notified : List Notification) :
    Except (List Notification) OpenPeer :=
  let keepsRoutes := realpeer.status = .established ∧ realpeer.nsfMode
  if ¬ keepsRoutes ∧ ret = 0 ∧ realpeer.status ≠ .active ∧ realpeer.status ≠ .openSent ∧
      realpeer.status ≠ .openConfirm ∧ realpeer.status ≠ .connect then
    refuse peer notified bgpNotifyCease 5 []
  else
    let waiting : OpenPeer := if keepsRoutes then { realpeer with nsfWait := true } else realpeer
    let realpeer : OpenPeer := { waiting.stop with fd := peer.fd, status := peer.status }
    if realpeer.fd < 0 then .error notified else .ok realpeer

/-- The checks of `bgp_open_receive` up to the options, for the AS number that the capability
gave: the notifications of an OPEN that is refused, or the peer and those sent so far. -/
def openChecks (bgps : List (List OpenPeer)) (peer : OpenPeer) (fields : OpenFields)
    (as4 : UInt32) : Except (List Notification) (OpenPeer × List Notification) := do
  let remoteId := fields.remoteId.toNat
  let remoteAs ← openRemoteAs peer fields.remoteAs.toNat as4.toNat
  let realpeer ←
    if peer.acceptPeer then
      match peerLookupWithOpen bgps peer.su remoteAs remoteId with
      | .ok realpeer => pure (some realpeer)
      | .error true => refuse peer [] bgpNotifyOpenErr 3 fields.notifyDataRemoteId
      | .error false => refuse peer [] bgpNotifyOpenErr 2 fields.notifyDataRemoteAs
    else pure none
  let (ret, notified) := bgpCollisionDetect (bgps.headD []) peer remoteId
  if ret < 0 then throw notified
  let peer ←
    match realpeer with
    | some realpeer => transferToRealpeer peer realpeer ret notified
    | none => pure peer
  if remoteId = 0 ∨ remoteId ≥ 0xe0000000 ∨ peer.localId = remoteId then
    refuse peer notified bgpNotifyOpenErr 3 fields.notifyDataRemoteId
  else
    let peer := { peer with remoteId := remoteId }
    if fields.version ≠ 4 then refuse peer notified bgpNotifyOpenErr 1 [4]
    else if remoteAs ≠ peer.as then
      refuse peer notified bgpNotifyOpenErr 2 fields.notifyDataRemoteAs
    else if fields.holdtime.toNat < 3 ∧ fields.holdtime.toNat ≠ 0 then
      refuse peer notified bgpNotifyOpenErr 6 []
    else
      let sendHoldtime := if peer.configTimer then peer.holdtime else peer.defaultHoldtime
      let vHoldtime := min fields.holdtime.toNat sendHoldtime
      return ({ peer with vHoldtime := vHoldtime, vKeepalive := vHoldtime / 3 }, notified)

/-! ## The function -/

/-- How `bgp_open_receive` returns: `0` with the peer that goes on and the input reset, or `-1`;
and the notifications sent. -/
structure OpenResult where
  accepted : Option (OpenPeer × Stream)
  notified : List Notification

/-- The families when there was no capability, or when they are to be overridden. -/
def OpenPeer.overrideFamilies (peer : OpenPeer) : OpenPeer :=
  let nego := fun afi safi =>
    if (afi = afiIp ∨ afi = afiIp6) ∧ (safi = safiUnicast ∨ safi = safiMulticast) then
      peer.families.afc afi safi
    else peer.families.afcNego afi safi
  { peer with families := { peer.families with afcNego := nego } }

/-- The fixed fields of an OPEN. -/
def readOpenFields (s : Stream) : Except Fault (OpenFields × Stream) := do
  let (version, s) ← streamGetc s
  let notifyDataRemoteAs ← s.fetch s.getp 2
  let (remoteAs, s) ← streamGetw s
  let (holdtime, s) ← streamGetw s
  let notifyDataRemoteId ← s.fetch s.getp 4
  let (remoteId, s) ← streamGetl s
  let (optlen, s) ← streamGetc s
  return ({ version := version, remoteAs := remoteAs, notifyDataRemoteAs := notifyDataRemoteAs
            holdtime := holdtime, remoteId := remoteId, notifyDataRemoteId := notifyDataRemoteId
            optlen := optlen }, s)

/-- The search, when there are options. -/
def openPeek (peer : OpenPeer) (s : Stream) (optlen : UInt8) :
    Except Fault (UInt32 × Stream × OpenPeer) :=
  if optlen ≠ 0 then peekForAs4Capability peer s optlen.toNat else .ok (0, s, peer)

/-- The options, where there are some. -/
def openOptions (optlen : UInt8) (st : OptionState) :
    Except Fault (Pass OptionState OptionState) :=
  if optlen ≠ 0 then bgpOpenOptionParse optlen.toNat st else .ok (.again st)

/-- `bgp_open_receive`. -/
def bgpOpenReceive (bgps : List (List OpenPeer)) (peer : OpenPeer) (s : Stream) :
    Except Fault OpenResult := do
  let (fields, s) ← readOpenFields s
  let (as4, s, peer) ← openPeek peer s fields.optlen
  match openChecks bgps peer fields as4 with
  | .error notified => return { accepted := none, notified := notified }
  | .ok (peer, notified) =>
    match ← openOptions fields.optlen ⟨s, peer, [], false, notified⟩ with
    | .leave st => return { accepted := none, notified := st.notified }
    | .again st =>
      let peer :=
        if ¬ st.capability ∨ st.peer.overrideCapability then st.peer.overrideFamilies
        else st.peer
      let s ← streamReset st.s
      return { accepted := some (peer, s), notified := st.notified }

/-! ## Reads beyond the message -/

/-- The fixed fields, read off the bytes. -/
def openFields (s : Stream) : OpenFields :=
  { version := s.byte 19
    remoteAs := word (s.byte 20) (s.byte 21)
    notifyDataRemoteAs := s.slice 20 2
    holdtime := word (s.byte 22) (s.byte 23)
    remoteId := longOf (s.slice 24 4)
    notifyDataRemoteId := s.slice 24 4
    optlen := s.byte 28 }

/-- What the options tell about the neighbour: the four-byte AS number that they announce, with
the flag of the peer, or zero. -/
def Announced (s : Stream) (peer : OpenPeer) (as4 : UInt32) (peer' : OpenPeer) : Prop :=
  (AnnouncesAs4 s 29 (s.byte 28).toNat as4 ∧
      peer' = { peer with cap := { peer.cap with as4Rcv := true } }) ∨
    ((∀ v, ¬ AnnouncesAs4 s 29 (s.byte 28).toNat v) ∧ as4 = 0 ∧ peer' = peer)

/-- The checks refuse the OPEN before its options are parsed. -/
def OpenRefused (bgps : List (List OpenPeer)) (peer : OpenPeer) (s : Stream) : Prop :=
  ∃ as4 peer' notified, Announced s peer as4 peer' ∧
    openChecks bgps peer' (openFields s) as4 = .error notified

section Receive

variable {bgps : List (List OpenPeer)} {peer : OpenPeer} {s : Stream}

theorem announcesAs4_unique {pnt length : Nat} {as4 as4' : UInt32}
    (first : AnnouncesAs4 s pnt length as4) (second : AnnouncesAs4 s pnt length as4') :
    as4 = as4' := by
  obtain ⟨place, searches, found⟩ := first.2
  have rest := (encounters_of_walk (fun _ found => found.stop _) searches).mp second.2
  rcases encounters_iff.mp rest with found' | ⟨next, step, -⟩
  · cases place with
    | option at' => exact found.elim
    | capability capdEnd at' => exact found.2.2.2.symm.trans found'.2.2.2
  · rw [found.stop] at step
    cases step

theorem Announced.unique {as4 as4' : UInt32} {peer1 peer2 : OpenPeer}
    (first : Announced s peer as4 peer1) (second : Announced s peer as4' peer2) :
    as4 = as4' ∧ peer1 = peer2 := by
  rcases first with ⟨announced, rfl⟩ | ⟨absent, rfl, rfl⟩ <;>
    rcases second with ⟨announced', rfl⟩ | ⟨absent', rfl, rfl⟩
  · exact ⟨announcesAs4_unique announced announced', rfl⟩
  · exact absurd announced (absent' _)
  · exact absurd announced' (absent _)
  · exact ⟨rfl, rfl⟩

theorem readOpenFields_ok (received : ReceivedPacket .msgOpen s) :
    readOpenFields s = .ok (openFields s, s.seek 29) := by
  have fits := received.endp_le
  have size : 29 ≤ s.endp := received.minSize_le
  have start : s = s.seek 19 := by
    have getp_eq := received.getp_eq
    rw [bgpHeaderSize] at getp_eq
    rw [← getp_eq]
    rfl
  have version : 19 + 1 ≤ s.endp := by omega
  have remoteAs : 20 + 2 ≤ s.endp := by omega
  have holdtime : 22 + 2 ≤ s.endp := by omega
  have remoteId : 24 + 4 ≤ s.endp := by omega
  have optlen : 28 + 1 ≤ s.endp := by omega
  have copied : (s.seek 20).fetch 20 2 = .ok (s.slice 20 2) := Stream.fetch_ok remoteAs
  have copied' : (s.seek 24).fetch 24 4 = .ok (s.slice 24 4) := Stream.fetch_ok remoteId
  conv_lhs => rw [start]
  simp only [readOpenFields, streamGetc_seek fits version, ok_bind, Stream.seek_getp, copied,
    streamGetw_seek fits remoteAs, streamGetw_seek fits holdtime, copied',
    streamGetl_seek fits remoteId, streamGetc_seek fits optlen]
  rfl

theorem openPeek_announced (peer : OpenPeer) (received : ReceivedPacket .msgOpen s) :
    ∃ as4 peer', openPeek peer (s.seek 29) (openFields s).optlen = .ok (as4, s.seek 29, peer') ∧
      Announced s peer as4 peer' := by
  rw [openPeek]
  split_ifs with options
  · exact peekForAs4Capability_spec received.endp_le received.minSize_le _
  · refine ⟨0, peer, rfl, .inr ⟨?_, rfl, rfl⟩⟩
    have empty : s.byte 28 = 0 := not_not.mp options
    rintro v ⟨-, met⟩
    exact not_encounters (by simp [peekNext, empty]) id met

theorem openOptions_agree (received : ReceivedPacket .msgOpen s) {st : OptionState}
    (there : st.s = s.seek 29) :
    OptionsAgree s (29 + (s.byte 28).toNat) 29 (openOptions (openFields s).optlen st) := by
  rw [openOptions]
  split_ifs with options
  · exact bgpOpenOptionParse_agrees received.endp_le there received.minSize_le _
  · have empty : s.byte 28 = 0 := not_not.mp options
    refine ⟨not_encounters (by simp [placeNext, empty]) id, fun st' again => ?_⟩
    cases again
    exact ⟨29, there, received.minSize_le⟩

/-- **Receiving an OPEN reads nothing beyond the message exactly when the checks refuse it, or
its options come to no ORF entry that passes the check of its count and is cut by the end of the
message.** -/
theorem bgpOpenReceive_inBounds_iff (received : ReceivedPacket .msgOpen s) :
    (∃ result, bgpOpenReceive bgps peer s = .ok result) ↔
      OpenRefused bgps peer s ∨ ¬ MeetsCutEntry s (29 + (s.byte 28).toNat) (.option 29) := by
  have fits := received.endp_le
  obtain ⟨as4, peer', searched, announced⟩ := openPeek_announced peer received
  rw [bgpOpenReceive, readOpenFields_ok received, ok_bind]
  dsimp only
  rw [searched, ok_bind]
  cases checked : openChecks bgps peer' (openFields s) as4 with
  | error notified =>
    exact ⟨fun _ => .inl ⟨as4, peer', notified, announced, checked⟩, fun _ => ⟨_, rfl⟩⟩
  | ok result =>
    obtain ⟨peer1, notified⟩ := result
    have notRefused : ¬ OpenRefused bgps peer s := by
      rintro ⟨as4', peer2, notified', announced', refused⟩
      obtain ⟨rfl, rfl⟩ := announced.unique announced'
      rw [checked] at refused
      cases refused
    have options := openOptions_agree received
      (show (⟨s.seek 29, peer1, [], false, notified⟩ : OptionState).s = s.seek 29 from rfl)
    dsimp only
    cases parsed : openOptions (openFields s).optlen ⟨s.seek 29, peer1, [], false, notified⟩ with
    | error fault =>
      rw [parsed] at options
      refine ⟨fun ⟨_, returned⟩ => (by cases returned), ?_⟩
      rintro (refused | free)
      · exact absurd refused notRefused
      · exact absurd options.2 free
    | ok ending =>
      rw [parsed] at options
      refine ⟨fun _ => .inr options.1, fun _ => ?_⟩
      rw [ok_bind]
      cases ending with
      | leave st => exact ⟨_, rfl⟩
      | again st =>
        obtain ⟨pnt, there, le⟩ := options.2 st rfl
        have sane : st.s.Sane := by
          rw [there]
          exact ⟨le, fits⟩
        dsimp only
        rw [streamReset, verifySane_ok sane]
        exact ⟨_, rfl⟩

end Receive

/-! ### Two messages -/

/-- An OPEN of AS 2 with the router id 10.0.0.2, a hold time of 180 seconds and some options,
with its header read. -/
def openWith (options : List UInt8) : Stream :=
  let body := [4, 0, 2, 0, 180, 10, 0, 0, 2, UInt8.ofNat options.length] ++ options
  let bytes := List.replicate 16 255 ++ wordBytes (UInt16.ofNat (19 + body.length)) ++ [1] ++ body
  { getp := 19, endp := bytes.length, data := bytes }

/-- A peer that a session for IPv4 unicast is configured with, of AS 2. -/
def configuredPeer : OpenPeer :=
  { ptr := 1, su := .inet 2, as := 2, localId := 1, remoteId := 0, status := .openSent, fd := 5
    acceptPeer := false, nsfMode := false, nsfWait := false, overrideCapability := false
    strictCapMatch := false, configTimer := false, holdtime := 0, keepalive := 0
    defaultHoldtime := 180, defaultKeepalive := 60, vHoldtime := 180, vKeepalive := 60
    vGrRestart := 0
    families := ⟨fun afi safi => afi == afiIp && safi == safiUnicast, fun _ _ => false,
      fun _ _ => false⟩
    cap := ⟨false, false, false, false, false⟩
    afCap := fun _ _ => AfCapFlags.none }

/-- An ORF capability with one entry of two pairs. -/
def oneEntry : List UInt8 := [2, 11, 3, 9, 0, 1, 0, 1, 2, 64, 3, 128, 3]

/-- An ORF capability of eleven bytes with two entries. The second entry counts three pairs, as
many as an entry that had the eleven bytes for itself could hold, and has one byte left. -/
def twoEntries : List UInt8 := [2, 13, 3, 11, 0, 1, 0, 1, 0, 0, 1, 0, 1, 3, 64]

/-- The OPEN with one entry comes to no cut entry, and so it is read without a fault. -/
theorem bgpOpenReceive_inBounds_oneEntry :
    ReceivedPacket .msgOpen (openWith oneEntry) ∧
      ∃ result, bgpOpenReceive [] configuredPeer (openWith oneEntry) = .ok result := by
  have received : ReceivedPacket .msgOpen (openWith oneEntry) := ⟨rfl, rfl, Nat.le_refl _⟩
  refine ⟨received, (bgpOpenReceive_inBounds_iff received).mpr (.inr ?_)⟩
  have whole : ¬ CutEntry (openWith oneEntry) (.orfEntry 42 33 9 33) := by
    rintro ⟨next, ends, beyond⟩
    obtain rfl : 42 = next := Option.some.inj ends
    exact absurd beyond (by decide)
  have option : placeNext (openWith oneEntry) 42 (.option 29) = some (.capability 42 31) := rfl
  have capability :
      placeNext (openWith oneEntry) 42 (.capability 42 31) = some (.orfEntry 42 33 9 33) := rfl
  have entry :
      placeNext (openWith oneEntry) 42 (.orfEntry 42 33 9 33) = some (.capability 42 42) := rfl
  have last : placeNext (openWith oneEntry) 42 (.capability 42 42) = some (.option 42) := rfl
  change ¬ MeetsCutEntry (openWith oneEntry) 42 (.option 29)
  rw [MeetsCutEntry, encounters_next option id, encounters_next capability id,
    encounters_next entry whole, encounters_next last id]
  exact not_encounters rfl id

/-- The OPEN with two entries passes the checks, and reading its second entry fails an
assertion. -/
theorem bgpOpenReceive_twoEntries :
    ReceivedPacket .msgOpen (openWith twoEntries) ∧
      bgpOpenReceive [] configuredPeer (openWith twoEntries) = .error .assertion :=
  ⟨⟨rfl, rfl, Nat.le_refl _⟩, rfl⟩

end Quagga.Bgpd
