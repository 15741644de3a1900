import Quagga.Lib.StreamBytes
import Quagga.Bgpd.Capability
import Quagga.Bgpd.Fsm

/-!
# The options of an OPEN message

An OPEN ends with options, an option of the type capability holds capabilities, and a
capability for outbound route filtering (ORF) holds entries, each with a count of pairs of
bytes. `bgp_open_option_parse`, `bgp_capability_parse` and `bgp_capability_orf` are the three
loops. Each option has to end before the message does, and each capability before its option,
so all that is read of them is there.

The count of an ORF entry is checked against the length of its whole capability. That is
enough for the first entry. A later entry can pass the check with pairs that reach beyond the
capability, and when they reach beyond the message as well, `stream_getc` fails its assertion.
`bgpOpenOptionParse_agrees` says that this is the only way in which the parser fails: it does
exactly when it comes to such an entry.
-/

set_option autoImplicit false

namespace Quagga.Bgpd

open Lib Library

/-! ## The peer -/

/-- The bits of `cap` that an OPEN sets. -/
structure CapFlags where
  refreshOldRcv : Bool
  refreshNewRcv : Bool
  dynamicRcv : Bool
  restartRcv : Bool
  as4Rcv : Bool
  deriving DecidableEq

/-- The bits of an entry of `af_cap` that an OPEN sets. -/
structure AfCapFlags where
  orfPrefixSmRcv : Bool
  orfPrefixRmRcv : Bool
  orfPrefixSmOldRcv : Bool
  orfPrefixRmOldRcv : Bool
  restartAfRcv : Bool
  restartAfPreserveRcv : Bool
  deriving DecidableEq

/-- The part of `struct peer` that an OPEN reads and writes. Router ids are in host byte order;
the default timers are those of the instance. -/
structure OpenPeer where
  ptr : Nat
  su : SockUnion
  as : Nat
  localId : Nat
  remoteId : Nat
  status : PeerStatus
  fd : Int
  acceptPeer : Bool
  nsfMode : Bool
  nsfWait : Bool
  overrideCapability : Bool
  strictCapMatch : Bool
  configTimer : Bool
  holdtime : Nat
  keepalive : Nat
  defaultHoldtime : Nat
  defaultKeepalive : Nat
  vHoldtime : Nat
  vKeepalive : Nat
  vGrRestart : Nat
  families : Families
  cap : CapFlags
  afCap : Nat → Nat → AfCapFlags

/-- Change the flags of a family. -/
def OpenPeer.setAfCap (peer : OpenPeer) (afi safi : Nat) (change : AfCapFlags → AfCapFlags) :
    OpenPeer :=
  { peer with
    afCap := fun afi' safi' =>
      if afi' = afi ∧ safi' = safi then change (peer.afCap afi safi) else peer.afCap afi' safi' }

/-- A notification, with the peer that it is sent to. -/
structure Notification where
  ptr : Nat
  code : Nat
  subcode : Nat
  data : List UInt8
  deriving DecidableEq

/-- `BGP_NOTIFY_OPEN_ERR`. -/
def bgpNotifyOpenErr : Nat := 2

/-- `BGP_NOTIFY_CEASE`. -/
def bgpNotifyCease : Nat := 6

/-- The state of the option parser: the input, the peer, the capabilities to be reported as
unsupported, whether there was a capability option, and the notifications sent. -/
structure OptionState where
  s : Stream
  peer : OpenPeer
  errorData : List UInt8
  capability : Bool
  notified : List Notification

/-- `bgp_notify_send_with_data`; `bgp_notify_send` sends no data. -/
def OptionState.notify (st : OptionState) (code subcode : Nat) (data : List UInt8) :
    OptionState :=
  { st with notified := st.notified ++ [⟨st.peer.ptr, code, subcode, data⟩] }

/-- `bgp_notify_send (peer, BGP_NOTIFY_CEASE, 0)`. -/
def OptionState.cease (st : OptionState) : OptionState := st.notify bgpNotifyCease 0 []

/-! ## Capabilities

A function that returns `0` goes on with `.again`; with `.leave` it returns `-1`. -/

/-- `CAPABILITY_CODE_REFRESH`. -/
def capabilityCodeRefresh : UInt8 := 2

/-- `CAPABILITY_CODE_ORF`. -/
def capabilityCodeOrf : UInt8 := 3

/-- `CAPABILITY_CODE_RESTART`. -/
def capabilityCodeRestart : UInt8 := 64

/-- `CAPABILITY_CODE_AS4`. -/
def capabilityCodeAs4 : UInt8 := 65

/-- `CAPABILITY_CODE_DYNAMIC`. -/
def capabilityCodeDynamic : UInt8 := 66

/-- `CAPABILITY_CODE_REFRESH_OLD`. -/
def capabilityCodeRefreshOld : UInt8 := 128

/-- `CAPABILITY_CODE_ORF_OLD`. -/
def capabilityCodeOrfOld : UInt8 := 130

variable (code : UInt8)

/-- `cap_minsizes`. Only known codes are checked, and those of refresh and of dynamic
capabilities may be empty. -/
def capMinsize : Nat :=
  if code = capabilityCodeMp then 4
  else if code = capabilityCodeOrf ∨ code = capabilityCodeOrfOld then 5
  else if code = capabilityCodeRestart then 2
  else if code = capabilityCodeAs4 then 4
  else 0

variable (s : Stream)

/-- `bgp_capability_mp_data`: the AFI and the SAFI. -/
def bgpCapabilityMpData : Except Fault ((Nat × Nat) × Stream) := do
  let (afi, s) ← streamGetw s
  let (_, s) ← streamGetc s
  let (safi, s) ← streamGetc s
  return ((afi.toNat, safi.toNat), s)

/-- `bgp_capability_mp`. -/
def bgpCapabilityMp (st : OptionState) : Except Fault (Pass OptionState OptionState) := do
  let ((afi, safi), s) ← bgpCapabilityMpData st.s
  let st := { st with s := s }
  match bgpAfiSafiValidIndices afi safi with
  | none => return .leave st
  | some safi =>
    let families := st.peer.families
    let families := { families with afcRecv := setFamily families.afcRecv afi safi true }
    if families.afc afi safi then
      let families := { families with afcNego := setFamily families.afcNego afi safi true }
      return .again { st with peer := { st.peer with families := families } }
    else return .leave { st with peer := { st.peer with families := families } }

/-- One pair of an ORF entry: the type of the filter, and whether it is sent (2), received (1)
or both (3). -/
def orfPair (afi safi : Nat) (type mode : UInt8) (peer : OpenPeer) : OpenPeer :=
  if mode ≠ 1 ∧ mode ≠ 2 ∧ mode ≠ 3 then peer
  else if ¬ ((code = capabilityCodeOrf ∧ type = 64) ∨ (code = capabilityCodeOrfOld ∧ type = 128))
  then peer
  else if ¬ ((afi = afiIp ∧ safi = safiUnicast) ∨ (afi = afiIp ∧ safi = safiMulticast) ∨
      (afi = afiIp6 ∧ safi = safiUnicast)) then peer
  else
    let sm := mode = 2 ∨ mode = 3
    let rm := mode = 1 ∨ mode = 3
    if code = capabilityCodeOrf then
      peer.setAfCap afi safi fun flags =>
        { flags with
          orfPrefixSmRcv := flags.orfPrefixSmRcv || sm
          orfPrefixRmRcv := flags.orfPrefixRmRcv || rm }
    else
      peer.setAfCap afi safi fun flags =>
        { flags with
          orfPrefixSmOldRcv := flags.orfPrefixSmOldRcv || sm
          orfPrefixRmOldRcv := flags.orfPrefixRmOldRcv || rm }

/-- The loop of `bgp_capability_orf_entry` over types and modes. -/
def orfPairs (code : UInt8) (afi safi : Nat) : Nat → OptionState → Except Fault OptionState
  | 0, st => .ok st
  | n + 1, st => do
      let (type, s) ← streamGetc st.s
      let (mode, s) ← streamGetc s
      orfPairs code afi safi n { st with s := s, peer := orfPair code afi safi type mode st.peer }

variable (length : Nat)

/-- `bgp_capability_orf_entry`. The count is checked against the length of the capability. -/
def bgpCapabilityOrfEntry (st : OptionState) : Except Fault (Pass OptionState OptionState) := do
  let ((afi, safi), s) ← bgpCapabilityMpData st.s
  let (num, s) ← streamGetc s
  let st := { st with s := s }
  match bgpAfiSafiValidIndices afi safi with
  | none => return .again st
  | some safi =>
    if 5 + num.toNat * 2 > length then return .leave st.cease
    let st ← orfPairs code afi safi num.toNat st
    return .again st

/-- The rest of the stream and the bytes below `getp` stay as they are. -/
theorem bgpCapabilityMpData_advance :
    Ensures (fun _ => True) (fun read => read.2 = s.advance 4) (bgpCapabilityMpData s) := by
  refine (streamGetw_advance s).bind ?_
  rintro ⟨afi, s'⟩ rfl
  refine (streamGetc_advance _).bind ?_
  rintro ⟨reserved, s'⟩ rfl
  refine (streamGetc_advance _).bind ?_
  rintro ⟨safi, s'⟩ rfl
  rfl

theorem orfPairs_moved (afi safi n : Nat) (st : OptionState) :
    Ensures (fun _ => True) (fun st' => st.s.Moved st'.s) (orfPairs code afi safi n st) := by
  induction n generalizing st with
  | zero => exact Stream.Moved.refl _
  | succ n ih =>
    refine (streamGetc_advance _).bind ?_
    rintro ⟨type, s⟩ rfl
    refine (streamGetc_advance _).bind ?_
    rintro ⟨mode, s⟩ rfl
    exact (ih _).mono fun st' moved => Stream.Moved.trans ⟨2, rfl⟩ moved

theorem bgpCapabilityOrfEntry_moved (st : OptionState) : Ensures (fun _ => True)
      (Loop.PassPost (fun st' => st.s.getp + 5 ≤ st'.s.getp) fun _ => True)
      (bgpCapabilityOrfEntry code length st) := by
  refine (bgpCapabilityMpData_advance _).bind ?_
  rintro ⟨⟨afi, safi⟩, s⟩ rfl
  refine (streamGetc_advance _).bind ?_
  rintro ⟨num, s⟩ rfl
  cases bgpAfiSafiValidIndices afi safi with
  | none => exact Nat.le_refl _
  | some safi =>
    dsimp only
    split_ifs with tooMany
    · trivial
    · exact (orfPairs_moved _ _ _ _ _).bind fun st' moved => moved.getp_le

/-- The loop of `bgp_capability_orf`, which ends with the capability. -/
def capabilityOrfLoop (length capabilityEnd : Nat) : Loop Fault OptionState OptionState where
  guard st := st.s.getp + 5 < capabilityEnd
  body st := bgpCapabilityOrfEntry code length st
  measure st := capabilityEnd - st.s.getp
  falls := by
    intro st st' going passed
    have inside : st.s.getp + 5 < capabilityEnd := of_decide_eq_true going
    have further : st.s.getp + 5 ≤ st'.s.getp :=
      (bgpCapabilityOrfEntry_moved code length st).of_ok passed
    omega

/-- `bgp_capability_orf`: one entry, and more as long as there is room for another one. -/
def bgpCapabilityOrf (st : OptionState) : Except Fault (Pass OptionState OptionState) := do
  let capabilityEnd := st.s.getp + length
  if st.s.getp + 5 ≤ capabilityEnd then
    match ← bgpCapabilityOrfEntry code length st with
    | .leave st => return .leave st
    | .again st => (capabilityOrfLoop code length capabilityEnd).run st
  else throw .assertion

/-- A family that `bgp_capability_restart` reads. -/
def restartFamily (afi safi : Nat) (flag : UInt8) (peer : OpenPeer) : OpenPeer :=
  match bgpAfiSafiValidIndices afi safi with
  | none => peer
  | some safi =>
    if peer.families.afc afi safi then
      peer.setAfCap afi safi fun flags =>
        { flags with
          restartAfRcv := true
          restartAfPreserveRcv := flags.restartAfPreserveRcv || flag.toNat ≥ 128 }
    else peer

/-- The loop of `bgp_capability_restart`. -/
def capabilityRestartLoop (capabilityEnd : Nat) : Loop Fault OptionState OptionState where
  guard st := st.s.getp + 4 < capabilityEnd
  body st := do
    let (afi, s) ← streamGetw st.s
    let (safi, s) ← streamGetc s
    let (flag, s) ← streamGetc s
    return .again { st with s := s, peer := restartFamily afi.toNat safi.toNat flag st.peer }
  measure st := capabilityEnd - st.s.getp
  falls := by
    intro st st' going passed
    have inside : st.s.getp + 4 < capabilityEnd := of_decide_eq_true going
    obtain ⟨⟨afi, s⟩, read, passed⟩ := bind_eq_ok passed
    obtain ⟨safi, passed⟩ := streamGetc_bind passed
    obtain ⟨flag, passed⟩ := streamGetc_bind passed
    obtain rfl : s = _ := (streamGetw_advance st.s).of_ok read
    cases passed
    simp only [Stream.advance_getp]
    omega

/-- `bgp_capability_restart`; the upper four of the sixteen bits are flags. -/
def bgpCapabilityRestart (st : OptionState) : Except Fault (Pass OptionState OptionState) := do
  let capabilityEnd := st.s.getp + length
  let (restartFlagTime, s) ← streamGetw st.s
  (capabilityRestartLoop capabilityEnd).run
    { st with
      s := s
      peer := { st.peer with
                cap := { st.peer.cap with restartRcv := true }
                vGrRestart := restartFlagTime.toNat % 4096 } }

/-- `bgp_capability_as4`. -/
def bgpCapabilityAs4 (peer : OpenPeer) : Except Fault (UInt32 × Stream × OpenPeer) := do
  let (as4, s) ← streamGetl s
  return (as4, s, { peer with cap := { peer.cap with as4Rcv := true } })

/-- Keep a capability for the report of unsupported ones. -/
def OptionState.unsupported (st : OptionState) (sp length : Nat) :
    Except Fault (Pass OptionState OptionState) := do
  let data ← st.s.fetch sp (length + 2)
  return .again { st with errorData := st.errorData ++ data }

/-- The second `switch` of `bgp_capability_parse`, for the capability at `sp`. -/
def capabilityData (sp : Nat) (code : UInt8) (length : Nat) (st : OptionState) :
    Except Fault (Pass OptionState OptionState) := do
  if code = capabilityCodeMp then
    if st.peer.overrideCapability then return .again st
    match ← bgpCapabilityMp st with
    | .again st => return .again st
    | .leave st => st.unsupported sp length
  else if code = capabilityCodeRefreshOld then
    return .again { st with peer := { st.peer with cap := { st.peer.cap with
                                                            refreshOldRcv := true } } }
  else if code = capabilityCodeRefresh then
    return .again { st with peer := { st.peer with cap := { st.peer.cap with
                                                            refreshNewRcv := true } } }
  else if code = capabilityCodeOrf ∨ code = capabilityCodeOrfOld then
    bgpCapabilityOrf code length st
  else if code = capabilityCodeRestart then bgpCapabilityRestart length st
  else if code = capabilityCodeDynamic then
    return .again { st with peer := { st.peer with cap := { st.peer.cap with
                                                            dynamicRcv := true } } }
  else if code = capabilityCodeAs4 then
    let (as4, s, peer) ← bgpCapabilityAs4 st.s st.peer
    let st := { st with s := s, peer := peer }
    if as4 = 0 then return .leave st else return .again st
  else if code.toNat > 128 then return .again st
  else st.unsupported sp length

/-- The body of the loop of `bgp_capability_parse`. Whatever was read of a capability, the next
one starts where its length says. -/
def capabilityBody (optionEnd : Nat) (st : OptionState) :
    Except Fault (Pass OptionState OptionState) := do
  let sp := st.s.getp
  if sp + 2 > optionEnd then return .leave st.cease
  let (code, s) ← streamGetc st.s
  let (length, s) ← streamGetc s
  let st := { st with s := s }
  if sp + 2 + length.toNat > optionEnd then return .leave st.cease
  if length.toNat < capMinsize code then return .leave st.cease
  match ← capabilityData sp code length.toNat st with
  | .leave st => return .leave st
  | .again st =>
    if st.s.getp = sp + 2 + length.toNat then return .again st
    let s ← streamSetGetp st.s (sp + 2 + length.toNat)
    return .again { st with s := s }

theorem capabilityBody_getp {optionEnd : Nat} {st st' : OptionState}
    (passed : capabilityBody optionEnd st = .ok (.again st')) :
    st.s.getp + 2 ≤ st'.s.getp ∧ st'.s.getp ≤ optionEnd := by
  unfold capabilityBody at passed
  dsimp only at passed
  split_ifs at passed with short
  · cases passed
  obtain ⟨⟨code, s⟩, -, passed⟩ := bind_eq_ok passed
  obtain ⟨⟨length, s1⟩, -, passed⟩ := bind_eq_ok passed
  dsimp only at passed
  split_ifs at passed with excess small
  · cases passed
  · cases passed
  obtain ⟨ending, -, passed⟩ := bind_eq_ok passed
  cases ending with
  | leave st1 => cases passed
  | again st1 =>
    dsimp only at passed
    split_ifs at passed with there
    · cases passed
      omega
    · obtain ⟨s2, set, passed⟩ := bind_eq_ok passed
      obtain rfl : s2 = _ := (streamSetGetp_seek st1.s _).of_ok set
      cases passed
      simp only [Stream.seek_getp]
      omega

/-- The loop of `bgp_capability_parse`. -/
def capabilityLoop (optionEnd : Nat) : Loop Fault OptionState OptionState where
  guard st := st.s.getp < optionEnd
  body st := capabilityBody optionEnd st
  measure st := optionEnd - st.s.getp
  falls := by
    intro st st' going passed
    have inside : st.s.getp < optionEnd := of_decide_eq_true going
    have further := (capabilityBody_getp passed).1
    omega

/-- `bgp_capability_parse`. -/
def bgpCapabilityParse (st : OptionState) : Except Fault (Pass OptionState OptionState) :=
  if st.s.readable ≥ length then (capabilityLoop (st.s.getp + length)).run st
  else .error .assertion

theorem bgpCapabilityParse_getp {length : Nat} {st st' : OptionState}
    (parsed : bgpCapabilityParse length st = .ok (.again st')) : st.s.getp ≤ st'.s.getp := by
  rw [bgpCapabilityParse] at parsed
  split_ifs at parsed with enough
  refine (Loop.run_again (R := fun st st' => st.s.getp ≤ st'.s.getp) (fun _ => Nat.le_refl _)
    Nat.le_trans ?_ parsed).1
  intro st st' _ passed
  have further := (capabilityBody_getp passed).1
  omega

/-! ## Options -/

/-- `BGP_OPEN_OPT_AUTH`. -/
def bgpOpenOptAuth : UInt8 := 1

/-- `BGP_OPEN_OPT_CAP`. -/
def bgpOpenOptCap : UInt8 := 2

/-- The body of the loop of `bgp_open_option_parse`. -/
def optionBody (st : OptionState) : Except Fault (Pass OptionState OptionState) := do
  if st.s.readable < 2 then return .leave st.cease
  let (optType, s) ← streamGetc st.s
  let (optLength, s) ← streamGetc s
  let st := { st with s := s }
  if s.readable < optLength.toNat then return .leave st.cease
  if optType = bgpOpenOptAuth then return .leave (st.notify bgpNotifyOpenErr 5 [])
  if optType = bgpOpenOptCap then
    match ← bgpCapabilityParse optLength.toNat st with
    | .leave st => return .leave { st with capability := true }
    | .again st => return .again { st with capability := true }
  else return .leave (st.notify bgpNotifyOpenErr 4 [])

variable (optionsEnd : Nat)

/-- The loop of `bgp_open_option_parse`. -/
def optionLoop : Loop Fault OptionState OptionState where
  guard st := st.s.getp < optionsEnd
  body st := optionBody st
  measure st := optionsEnd - st.s.getp
  falls := by
    intro st st' going passed
    have inside : st.s.getp < optionsEnd := of_decide_eq_true going
    unfold optionBody at passed
    split_ifs at passed with short
    · cases passed
    obtain ⟨optType, passed⟩ := streamGetc_bind passed
    obtain ⟨optLength, passed⟩ := streamGetc_bind passed
    dsimp only at passed
    split_ifs at passed with excess auth cap
    · cases passed
    · cases passed
    · obtain ⟨ending, parsed, passed⟩ := bind_eq_ok passed
      cases ending with
      | leave st1 => cases passed
      | again st1 =>
        cases passed
        have further := bgpCapabilityParse_getp parsed
        simp only [Stream.advance_getp] at further ⊢
        omega
    · cases passed

/-- `strict_capability_same`, over the families that the tables hold. -/
def strictCapabilitySame (families : Families) : Bool :=
  [afiIp, afiIp6].all fun afi => [safiUnicast, safiMulticast, 3, safiMplsVpn].all fun safi =>
    families.afc afi safi = families.afcNego afi safi

/-- What `bgp_open_option_parse` does after its loop. -/
def optionsParsed (st : OptionState) : Pass OptionState OptionState :=
  let families := st.peer.families
  if st.peer.strictCapMatch ∧ st.errorData ≠ [] then
    .leave (st.notify bgpNotifyOpenErr 7 st.errorData)
  else if st.peer.strictCapMatch ∧ ¬ strictCapabilitySame families then
    .leave (st.notify bgpNotifyOpenErr 7 [])
  else if st.capability ∧ ¬ st.peer.overrideCapability ∧ ¬ peerActiveNego families then
    .leave (st.notify bgpNotifyOpenErr 7 st.errorData)
  else .again st

/-- `bgp_open_option_parse`. -/
def bgpOpenOptionParse (st : OptionState) : Except Fault (Pass OptionState OptionState) := do
  match ← (optionLoop (st.s.getp + length)).run st with
  | .leave st => return .leave st
  | .again st => return optionsParsed st

/-! ## The places of the options

What the three loops come to, read off the bytes of the message alone. -/

/-- A place of the options: an option, a capability of the option that ends at an offset, or an
entry of an ORF capability with the start and the length of its data. -/
inductive Place where
  | option (pnt : Nat)
  | capability (optionEnd pnt : Nat)
  | orfEntry (optionEnd start length pnt : Nat)
  deriving DecidableEq

/-- The offset after an ORF entry: pairs follow the header when the family is known, and then
their count is at most what the length of the capability allows for one entry. -/
def orfEntryEnd (length pnt : Nat) : Option Nat :=
  match bgpAfiSafiValidIndices (word (s.byte pnt) (s.byte (pnt + 1))).toNat
      (s.byte (pnt + 3)).toNat with
  | none => some (pnt + 5)
  | some _ =>
    if 5 + (s.byte (pnt + 4)).toNat * 2 > length then none
    else some (pnt + 5 + (s.byte (pnt + 4)).toNat * 2)

/-- The data of the capability at an offset ends before the option does and is not shorter than
its code demands. -/
structure CompleteCapability (s : Stream) (optionEnd pnt : Nat) : Prop where
  ends : pnt + 2 + (s.byte (pnt + 1)).toNat ≤ optionEnd
  minsize : capMinsize (s.byte pnt) ≤ (s.byte (pnt + 1)).toNat

instance (s : Stream) (optionEnd pnt : Nat) : Decidable (CompleteCapability s optionEnd pnt) :=
  decidable_of_iff (pnt + 2 + (s.byte (pnt + 1)).toNat ≤ optionEnd ∧
      capMinsize (s.byte pnt) ≤ (s.byte (pnt + 1)).toNat)
    ⟨fun h => ⟨h.1, h.2⟩, fun h => ⟨h.ends, h.minsize⟩⟩

/-- The next place, when the message is not refused here. -/
def placeNext : Place → Option Place
  | .option pnt =>
    let next := pnt + 2 + (s.byte (pnt + 1)).toNat
    if pnt < optionsEnd ∧ next ≤ s.endp ∧ s.byte pnt = bgpOpenOptCap then
      some (.capability next (pnt + 2))
    else none
  | .capability optionEnd pnt =>
    let code := s.byte pnt
    let length := (s.byte (pnt + 1)).toNat
    if optionEnd ≤ pnt then some (.option pnt)
    else if CompleteCapability s optionEnd pnt then
      if code = capabilityCodeOrf ∨ code = capabilityCodeOrfOld then
        some (.orfEntry optionEnd (pnt + 2) length (pnt + 2))
      else if code = capabilityCodeAs4 ∧ longOf (s.slice (pnt + 2) 4) = 0 then none
      else some (.capability optionEnd (pnt + 2 + length))
    else none
  | .orfEntry optionEnd start length pnt =>
    match orfEntryEnd s length pnt with
    | none => none
    | some next =>
      if next + 5 < start + length then some (.orfEntry optionEnd start length next)
      else some (.capability optionEnd (start + length))

/-- An entry of an ORF capability: its family, and the type and the mode of each pair. -/
structure OrfEntry where
  afi : Nat
  safi : Nat
  pairs : List (UInt8 × UInt8)

/-- The types and modes at a place. -/
def orfPairsAt : Nat → Nat → List (UInt8 × UInt8)
  | _, 0 => []
  | pnt, n + 1 => (s.byte pnt, s.byte (pnt + 1)) :: orfPairsAt (pnt + 2) n

/-- The ORF entry at a place. -/
def orfEntryAt (pnt : Nat) : OrfEntry :=
  ⟨(word (s.byte pnt) (s.byte (pnt + 1))).toNat, (s.byte (pnt + 3)).toNat,
    orfPairsAt s (pnt + 5) (s.byte (pnt + 4)).toNat⟩

/-- What the pairs of an entry change, one after the other. -/
def orfPairsRead (afi safi : Nat) (pairs : List (UInt8 × UInt8)) (peer : OpenPeer) : OpenPeer :=
  pairs.foldl (fun peer pair => orfPair code afi safi pair.1 pair.2 peer) peer

/-- What an entry changes: one of an unknown family, nothing. -/
def OrfEntry.read (entry : OrfEntry) (peer : OpenPeer) : OpenPeer :=
  match bgpAfiSafiValidIndices entry.afi entry.safi with
  | none => peer
  | some safi => orfPairsRead code entry.afi safi entry.pairs peer

/-- The place is an ORF entry whose pairs reach beyond the message. -/
def CutEntry : Place → Prop
  | .orfEntry _ _ length pnt => ∃ next, orfEntryEnd s length pnt = some next ∧ s.endp < next
  | _ => False

/-- The options from a place on come to an ORF entry whose pairs reach beyond the message. -/
def MeetsCutEntry (place : Place) : Prop :=
  Encounters (placeNext s optionsEnd) (CutEntry s) place

/-- Whether the place is a capability with the four-byte AS number. -/
def Place.isAs4 : Place → Bool
  | .capability optionEnd pnt => pnt < optionEnd ∧ s.byte pnt = capabilityCodeAs4
  | _ => false

/-- The flag that says whether such a capability was received. -/
def OptionState.as4Rcv (st : OptionState) : Bool := st.peer.cap.as4Rcv

/-- The parser goes from a place to another one, past places that are whole, and the flag of the
four-byte AS number with it. -/
def Onwards : Place × Bool → Place × Bool → Prop :=
  Relation.ReflTransGen fun before after => ¬ CutEntry s before.1 ∧
    placeNext s optionsEnd before.1 = some after.1 ∧ after.2 = (before.2 || before.1.isAs4 s)

/-- The parser has come to an offset, and to the place that belongs to it. -/
def Reaches (start : Place × Bool) (after : Nat → Place) (stops : Nat → Prop) (st : OptionState) :
    Prop :=
  ∃ pnt, st.s = s.seek pnt ∧ stops pnt ∧ Onwards s optionsEnd start (after pnt, st.as4Rcv)

/-- What parsing gives that started at a place: it fails at a cut entry, is left where there is no
next place, and otherwise comes to a place from where it goes on. -/
def Parses (start : Place × Bool) (after : Nat → Place) (stops : Nat → Prop) :
    Except Fault (Pass OptionState OptionState) → Prop :=
  Ensures (fun fault => fault = .assertion ∧
      ∃ place, Onwards s optionsEnd start place ∧ CutEntry s place.1)
    (Loop.PassPost (Reaches s optionsEnd start after stops) fun _ =>
      ∃ place, Onwards s optionsEnd start place ∧ ¬ CutEntry s place.1 ∧
        placeNext s optionsEnd place.1 = none)

theorem Onwards.meets_iff {start place : Place × Bool} (onwards : Onwards s optionsEnd start place) :
    MeetsCutEntry s optionsEnd start.1 ↔ MeetsCutEntry s optionsEnd place.1 := by
  induction onwards with
  | refl => rfl
  | tail _ step ih => exact ih.trans (encounters_next step.2.1 step.1)

theorem OrfEntry.read_cap (entry : OrfEntry) (peer : OpenPeer) :
    (entry.read code peer).cap = peer.cap := by
  rw [OrfEntry.read]
  split
  · rfl
  · induction entry.pairs generalizing peer with
    | nil => rfl
    | cons pair pairs ih =>
      refine (ih _).trans ?_
      unfold orfPair
      dsimp only
      split_ifs <;> rfl

theorem restartFamily_cap (afi safi : Nat) (flag : UInt8) (peer : OpenPeer) :
    (restartFamily afi safi flag peer).cap = peer.cap := by
  rw [restartFamily]
  split
  · rfl
  · split_ifs <;> rfl

section Spec

variable {s : Stream} (fits : s.endp ≤ s.size) {optionsEnd : Nat}

variable {pnt : Nat}

include fits in
theorem bgpCapabilityMpData_seek (inside : pnt + 4 ≤ s.endp) :
    bgpCapabilityMpData (s.seek pnt) =
      .ok (((word (s.byte pnt) (s.byte (pnt + 1))).toNat, (s.byte (pnt + 3)).toNat),
        s.seek (pnt + 4)) := by
  have reserved : pnt + 2 + 1 ≤ s.endp := by omega
  have safi : pnt + 3 + 1 ≤ s.endp := by omega
  rw [bgpCapabilityMpData, streamGetw_seek fits (by omega)]
  simp only [ok_bind, streamGetc_seek fits reserved, streamGetc_seek fits safi]
  rfl

variable {st : OptionState}

include fits in
theorem orfPairs_seek (code : UInt8) (afi safi n : Nat) (there : st.s = s.seek pnt)
    (inside : pnt ≤ s.endp) :
    orfPairs code afi safi n st =
      if pnt + n * 2 ≤ s.endp then
        .ok { st with
              s := s.seek (pnt + n * 2)
              peer := orfPairsRead code afi safi (orfPairsAt s pnt n) st.peer }
      else .error .assertion := by
  induction n generalizing st pnt with
  | zero => simp [orfPairs, orfPairsAt, orfPairsRead, inside, ← there]
  | succ n ih =>
    rw [orfPairs, there]
    by_cases one : pnt + 1 ≤ s.endp
    · rw [streamGetc_seek fits one]
      by_cases two : pnt + 1 + 1 ≤ s.endp
      · have shift : pnt + (n + 1) * 2 = pnt + 1 + 1 + n * 2 := by omega
        simp only [ok_bind, streamGetc_seek fits two, shift]
        exact ih rfl two
      · rw [if_neg (by omega)]
        simp only [ok_bind, streamGetc_seek_fault fits one (Nat.lt_of_not_le two), error_bind]
    · rw [streamGetc_seek_fault fits inside (by omega), error_bind, if_neg (by omega)]

include fits in
theorem bgpCapabilityOrfEntry_seek (code : UInt8) (length : Nat) (there : st.s = s.seek pnt)
    (inside : pnt + 5 ≤ s.endp) : match orfEntryEnd s length pnt with
    | none => ∃ st', bgpCapabilityOrfEntry code length st = .ok (.leave st')
    | some next =>
      bgpCapabilityOrfEntry code length st =
        if next ≤ s.endp then
          .ok (.again { st with s := s.seek next, peer := (orfEntryAt s pnt).read code st.peer })
        else .error .assertion := by
  rw [bgpCapabilityOrfEntry, there, bgpCapabilityMpData_seek fits (by omega), ok_bind]
  dsimp only
  rw [streamGetc_seek fits (by omega), ok_bind, orfEntryEnd, OrfEntry.read]
  dsimp only [orfEntryAt]
  cases bgpAfiSafiValidIndices (word (s.byte pnt) (s.byte (pnt + 1))).toNat
      (s.byte (pnt + 3)).toNat with
  | none =>
    dsimp only
    rw [if_pos inside]
    rfl
  | some safi =>
    dsimp only
    split_ifs with tooMany
    · exact ⟨_, rfl⟩
    · dsimp only
      rw [orfPairs_seek fits code _ safi _ rfl inside]
      split_ifs <;> rfl

variable {optionEnd length : Nat} {start : Place × Bool}

/-- Where the parser is after an entry of the ORF capability whose data starts at an offset. -/
def afterOrfEntry (optionEnd data length next : Nat) : Place :=
  if next + 5 < data + length then .orfEntry optionEnd data length next
  else .capability optionEnd (data + length)

include fits in
theorem orfEntry_parses (code : UInt8) {data : Nat} (there : st.s = s.seek pnt)
    (inside : pnt + 5 ≤ s.endp)
    (onwards : Onwards s optionsEnd start (.orfEntry optionEnd data length pnt, st.as4Rcv)) :
    Parses s optionsEnd start (afterOrfEntry optionEnd data length) (· ≤ s.endp)
      (bgpCapabilityOrfEntry code length st) := by
  have entry := bgpCapabilityOrfEntry_seek fits code length there inside
  cases ends : orfEntryEnd s length pnt with
  | none =>
    simp only [ends] at entry
    obtain ⟨st', left⟩ := entry
    rw [left]
    exact ⟨_, onwards, by simp [CutEntry, ends], by simp [placeNext, ends]⟩
  | some next =>
    simp only [ends] at entry
    split_ifs at entry with whole
    · rw [entry]
      refine ⟨next, rfl, whole, onwards.tail ⟨by simpa [CutEntry, ends] using whole, ?_, ?_⟩⟩
      · simp only [placeNext, ends, afterOrfEntry]
        split_ifs <;> rfl
      · simp [OptionState.as4Rcv, OrfEntry.read_cap, Place.isAs4]
    · rw [entry]
      exact ⟨rfl, _, onwards, next, ends, Nat.lt_of_not_le whole⟩

theorem bgpCapabilityOrf_eq (code : UInt8) (there : st.s = s.seek pnt) (minsize : 5 ≤ length) :
    bgpCapabilityOrf code length st = bgpCapabilityOrfEntry code length st >>=
      Pass.next (capabilityOrfLoop code length (pnt + length)).run := by
  have getp_eq : st.s.getp = pnt := by rw [there, Stream.seek_getp]
  rw [bgpCapabilityOrf, getp_eq, if_pos (by omega)]
  congr 1
  funext pass
  cases pass <;> rfl

include fits in
/-- After the last entry the next capability starts where the length of this one says, wherever
the entries have ended. -/
theorem bgpCapabilityOrf_parses (code : UInt8) (there : st.s = s.seek pnt) (minsize : 5 ≤ length)
    (ends : pnt + length ≤ s.endp)
    (onwards : Onwards s optionsEnd start (.orfEntry optionEnd pnt length pnt, st.as4Rcv)) :
    Parses s optionsEnd start (fun _ => .capability optionEnd (pnt + length)) (· ≤ s.endp)
      (bgpCapabilityOrf code length st) := by
  rw [bgpCapabilityOrf_eq code there minsize]
  refine (orfEntry_parses fits code there (by omega) onwards).bind ?_
  rintro (st' | st') after
  · refine Loop.ensures
      (Reaches s optionsEnd start (afterOrfEntry optionEnd pnt length) (· ≤ s.endp)) ?_ ?_ st' after
    · rintro st' ⟨next, there', inside, onwards'⟩ going
      have room : next + 5 < pnt + length := by simpa [capabilityOrfLoop, there'] using going
      rw [afterOrfEntry, if_pos room] at onwards'
      exact orfEntry_parses fits code there' (by omega) onwards'
    · rintro st' ⟨next, there', inside, onwards'⟩ done
      have full : ¬ next + 5 < pnt + length := by simpa [capabilityOrfLoop, there'] using done
      rw [afterOrfEntry, if_neg full] at onwards'
      exact ⟨next, there', inside, onwards'⟩
  · exact after

/-- The parser is inside the message, with this flag. -/
def OptionState.Inside (s : Stream) (flag : Bool) (st : OptionState) : Prop :=
  ∃ pnt, st.s = s.seek pnt ∧ pnt ≤ s.endp ∧ st.as4Rcv = flag

include fits in
theorem bgpCapabilityRestart_inside (there : st.s = s.seek pnt) (minsize : 2 ≤ length)
    (ends : pnt + length ≤ s.endp) :
    Ensures (fun _ => False) (fun ending => ∃ st', ending = .again st' ∧ st'.Inside s st.as4Rcv)
      (bgpCapabilityRestart length st) := by
  rw [bgpCapabilityRestart, there, streamGetw_seek fits (by omega)]
  refine Loop.ensures (OptionState.Inside s st.as4Rcv) ?_
    (fun st' inside' _ => ⟨st', rfl, inside'⟩) _ ⟨pnt + 2, rfl, by omega, rfl⟩
  rintro st' ⟨next, there', -, kept⟩ going
  have room : next + 4 < pnt + length := by simpa [capabilityRestartLoop, there'] using going
  have afi : next + 2 ≤ s.endp := by omega
  have safi : next + 2 + 1 ≤ s.endp := by omega
  have flag : next + 3 + 1 ≤ s.endp := by omega
  simp only [capabilityRestartLoop, there', streamGetw_seek fits afi, ok_bind,
    streamGetc_seek fits safi, streamGetc_seek fits flag]
  exact ⟨next + 4, rfl, by omega, (congrArg CapFlags.as4Rcv (restartFamily_cap ..)).trans kept⟩

include fits in
theorem bgpCapabilityMp_inside (there : st.s = s.seek pnt) (ends : pnt + 4 ≤ s.endp) :
    ∃ st', (bgpCapabilityMp st = .ok (.again st') ∨ bgpCapabilityMp st = .ok (.leave st')) ∧
      st'.Inside s st.as4Rcv := by
  rw [bgpCapabilityMp, there, bgpCapabilityMpData_seek fits ends, ok_bind]
  dsimp only
  cases bgpAfiSafiValidIndices (word (s.byte pnt) (s.byte (pnt + 1))).toNat
      (s.byte (pnt + 3)).toNat with
  | none => exact ⟨_, .inr rfl, pnt + 4, rfl, ends, rfl⟩
  | some safi =>
    dsimp only
    split_ifs with configured
    · exact ⟨_, .inl rfl, pnt + 4, rfl, ends, rfl⟩
    · exact ⟨_, .inr rfl, pnt + 4, rfl, ends, rfl⟩

theorem OptionState.unsupported_inside {flag : Bool} (inside : st.Inside s flag) {sp : Nat}
    (ends : sp + (length + 2) ≤ s.endp) :
    ∃ st', st.unsupported sp length = .ok (.again st') ∧ st'.Inside s flag := by
  obtain ⟨pnt, there, le, kept⟩ := inside
  rw [OptionState.unsupported, there, Stream.fetch_ok (s := s.seek pnt) ends]
  exact ⟨_, rfl, pnt, rfl, le, kept⟩

section Capability

variable (optionEnds : optionEnd ≤ s.endp) (complete : CompleteCapability s optionEnd pnt)
  (there : st.s = s.seek (pnt + 2))
  (notOrf : ¬ (s.byte pnt = capabilityCodeOrf ∨ s.byte pnt = capabilityCodeOrfOld))

include fits optionEnds complete there notOrf in
/-- A capability that is read in one piece, other than the four-byte AS number. -/
theorem capabilityData_other (notAs4 : s.byte pnt ≠ capabilityCodeAs4) :
    ∃ st', capabilityData pnt (s.byte pnt) (s.byte (pnt + 1)).toNat st = .ok (.again st') ∧
      st'.Inside s st.as4Rcv := by
  have ends := complete.ends
  have minsize := complete.minsize
  have here : st.Inside s st.as4Rcv := ⟨pnt + 2, there, by omega, rfl⟩
  unfold capabilityData
  split_ifs with mp overridden refreshOld refresh restart dynamic vendor
  · exact ⟨st, rfl, here⟩
  · have size : 4 ≤ (s.byte (pnt + 1)).toNat := by simpa [capMinsize, mp] using minsize
    obtain ⟨st', again | left, inside⟩ := bgpCapabilityMp_inside fits there (by omega)
    · rw [again]
      exact ⟨st', rfl, inside⟩
    · rw [left]
      exact OptionState.unsupported_inside inside (by omega)
  · exact ⟨_, rfl, here⟩
  · exact ⟨_, rfl, here⟩
  · have size : 2 ≤ (s.byte (pnt + 1)).toNat := by
      rw [restart] at minsize
      exact minsize
    obtain ⟨ending, ran, st', rfl, inside⟩ :=
      (bgpCapabilityRestart_inside fits there size (by omega)).exists_ok
    exact ⟨st', ran, inside⟩
  · exact ⟨_, rfl, here⟩
  · exact ⟨st, rfl, here⟩
  · exact OptionState.unsupported_inside here (by omega)

end Capability

include fits in
theorem capabilityData_parses (going : pnt < optionEnd) (optionEnds : optionEnd ≤ s.endp)
    (complete : CompleteCapability s optionEnd pnt) (there : st.s = s.seek (pnt + 2))
    (onwards : Onwards s optionsEnd start (.capability optionEnd pnt, st.as4Rcv)) :
    Parses s optionsEnd start (fun _ => .capability optionEnd (pnt + 2 + (s.byte (pnt + 1)).toNat))
      (· ≤ s.endp) (capabilityData pnt (s.byte pnt) (s.byte (pnt + 1)).toNat st) := by
  have ends := complete.ends
  have minsize := complete.minsize
  have next : placeNext s optionsEnd (.capability optionEnd pnt) = _ :=
    (if_neg (Nat.not_le.mpr going)).trans (if_pos complete)
  by_cases orf : s.byte pnt = capabilityCodeOrf ∨ s.byte pnt = capabilityCodeOrfOld
  · have size : 5 ≤ (s.byte (pnt + 1)).toNat := by
      rcases orf with code | code <;> (rw [code] at minsize; exact minsize)
    have data : capabilityData pnt (s.byte pnt) (s.byte (pnt + 1)).toNat st =
        bgpCapabilityOrf (s.byte pnt) (s.byte (pnt + 1)).toNat st := by
      rcases orf with code | code <;> (rw [code]; rfl)
    rw [data]
    refine bgpCapabilityOrf_parses fits _ there size (by omega)
      (onwards.tail ⟨id, next.trans (if_pos orf), ?_⟩)
    rcases orf with code | code <;>
      simp [Place.isAs4, code, capabilityCodeOrf, capabilityCodeOrfOld, capabilityCodeAs4]
  rw [if_neg orf] at next
  by_cases as4 : s.byte pnt = capabilityCodeAs4
  · have size : 4 ≤ (s.byte (pnt + 1)).toNat := by rw [as4] at minsize; exact minsize
    have room : pnt + 2 + 4 ≤ s.endp := by omega
    have data : capabilityData pnt (s.byte pnt) (s.byte (pnt + 1)).toNat st = (do
        let (number, s', peer) ← bgpCapabilityAs4 st.s st.peer
        let st := { st with s := s', peer := peer }
        if number = 0 then return .leave st else return .again st) := by
      rw [as4]
      rfl
    have read : bgpCapabilityAs4 st.s st.peer = .ok (longOf (s.slice (pnt + 2) 4),
        s.seek (pnt + 2 + 4), { st.peer with cap := { st.peer.cap with as4Rcv := true } }) := by
      rw [bgpCapabilityAs4, there, streamGetl_seek fits room]
      rfl
    rw [data, read, ok_bind]
    dsimp only
    split_ifs with zero
    · exact ⟨_, onwards, id, next.trans (if_pos ⟨as4, zero⟩)⟩
    · refine ⟨pnt + 2 + 4, rfl, room, onwards.tail
        ⟨id, next.trans (if_neg fun both => zero both.2), ?_⟩⟩
      simp [Place.isAs4, going, as4, OptionState.as4Rcv]
  · obtain ⟨st', read, at', there', inside, kept⟩ :=
      capabilityData_other fits optionEnds complete there orf as4
    rw [read]
    refine ⟨at', there', inside, onwards.tail ⟨id, next.trans (if_neg fun both => as4 both.1), ?_⟩⟩
    simp [Place.isAs4, as4, kept]

include fits in
theorem capabilityBody_parses (going : pnt < optionEnd) (optionEnds : optionEnd ≤ s.endp)
    (there : st.s = s.seek pnt)
    (onwards : Onwards s optionsEnd start (.capability optionEnd pnt, st.as4Rcv)) :
    Parses s optionsEnd start (.capability optionEnd) (· ≤ optionEnd)
      (capabilityBody optionEnd st) := by
  have refused : ∀ {st' : OptionState}, ¬ CompleteCapability s optionEnd pnt →
      Parses s optionsEnd start (.capability optionEnd) (· ≤ optionEnd) (.ok (.leave st')) :=
    fun incomplete => ⟨_, onwards, id, (if_neg (Nat.not_le.mpr going)).trans (if_neg incomplete)⟩
  have getp_eq : st.s.getp = pnt := by rw [there, Stream.seek_getp]
  unfold capabilityBody
  rw [getp_eq]
  dsimp only
  by_cases short : pnt + 2 > optionEnd
  · rw [if_pos short]
    exact refused fun complete => by have := complete.ends; omega
  have codeIn : pnt + 1 ≤ s.endp := by omega
  have lengthIn : pnt + 1 + 1 ≤ s.endp := by omega
  rw [if_neg short, there, streamGetc_seek fits codeIn, ok_bind]
  rw [streamGetc_seek fits lengthIn, ok_bind]
  by_cases excess : pnt + 2 + (s.byte (pnt + 1)).toNat > optionEnd
  · rw [if_pos excess]
    exact refused fun complete => by have := complete.ends; omega
  rw [if_neg excess]
  by_cases small : (s.byte (pnt + 1)).toNat < capMinsize (s.byte pnt)
  · rw [if_pos small]
    exact refused fun complete => by have := complete.minsize; omega
  rw [if_neg small]
  have complete : CompleteCapability s optionEnd pnt := ⟨by omega, by omega⟩
  have here : ({ st with s := s.seek (pnt + 2) } : OptionState).s = s.seek (pnt + 2) := rfl
  refine (capabilityData_parses fits going optionEnds complete here onwards).bind ?_
  rintro (st' | st') after
  · obtain ⟨at', there', inside, onwards'⟩ := after
    dsimp only
    split_ifs with settled
    · rw [there'] at settled
      subst settled
      exact ⟨_, there', complete.ends, onwards'⟩
    · rw [there', streamSetGetp_seek_ok fits inside (Nat.le_trans complete.ends optionEnds)]
      exact ⟨_, rfl, complete.ends, onwards'⟩
  · exact after

include fits in
theorem bgpCapabilityParse_parses (there : st.s = s.seek pnt) (ends : pnt + length ≤ s.endp)
    (onwards : Onwards s optionsEnd start (.capability (pnt + length) pnt, st.as4Rcv)) :
    Parses s optionsEnd start .option (· ≤ s.endp) (bgpCapabilityParse length st) := by
  have readable_eq : st.s.readable = s.endp - pnt := by rw [there]; rfl
  have getp_eq : st.s.getp = pnt := by rw [there, Stream.seek_getp]
  rw [bgpCapabilityParse, if_pos (by omega), getp_eq]
  refine Loop.ensures
    (Reaches s optionsEnd start (.capability (pnt + length)) (· ≤ pnt + length)) ?_ ?_ st
    ⟨pnt, there, Nat.le_add_right _ _, onwards⟩
  · rintro st' ⟨at', there', -, onwards'⟩ going
    have more : at' < pnt + length := by simpa [capabilityLoop, there'] using going
    exact capabilityBody_parses fits more ends there' onwards'
  · rintro st' ⟨at', there', inside, onwards'⟩ done
    have all : pnt + length ≤ at' := by simpa [capabilityLoop, there'] using done
    refine ⟨at', there', Nat.le_trans inside ends, onwards'.tail ⟨id, if_pos all, ?_⟩⟩
    simp [Place.isAs4, Nat.not_lt.mpr all]

include fits in
theorem optionBody_parses (inside : pnt ≤ s.endp) (going : pnt < optionsEnd)
    (there : st.s = s.seek pnt) (onwards : Onwards s optionsEnd start (.option pnt, st.as4Rcv)) :
    Parses s optionsEnd start .option (· ≤ s.endp) (optionBody st) := by
  have refused : ∀ {st' : OptionState},
      (pnt + 2 + (s.byte (pnt + 1)).toNat ≤ s.endp → s.byte pnt ≠ bgpOpenOptCap) →
      Parses s optionsEnd start .option (· ≤ s.endp) (.ok (.leave st')) :=
    fun other => ⟨_, onwards, id, if_neg fun ⟨_, ends, cap⟩ => other ends cap⟩
  have readable_eq : st.s.readable = s.endp - pnt := by rw [there]; rfl
  unfold optionBody
  rw [readable_eq]
  by_cases short : s.endp - pnt < 2
  · rw [if_pos short]
    exact refused fun ends => by omega
  have typeIn : pnt + 1 ≤ s.endp := by omega
  have lengthIn : pnt + 1 + 1 ≤ s.endp := by omega
  rw [if_neg short, there, streamGetc_seek fits typeIn, ok_bind]
  dsimp only
  rw [streamGetc_seek fits lengthIn, ok_bind]
  have readable_eq' : (s.seek (pnt + 1 + 1)).readable = s.endp - (pnt + 2) := rfl
  rw [readable_eq']
  by_cases excess : s.endp - (pnt + 2) < (s.byte (pnt + 1)).toNat
  · rw [if_pos excess]
    exact refused fun ends => by omega
  rw [if_neg excess]
  by_cases auth : s.byte pnt = bgpOpenOptAuth
  · rw [if_pos auth]
    exact refused fun _ => by rw [auth]; decide
  rw [if_neg auth]
  split_ifs with cap
  · have ends : pnt + 2 + (s.byte (pnt + 1)).toNat ≤ s.endp := by omega
    have first : Onwards s optionsEnd start
        (.capability (pnt + 2 + (s.byte (pnt + 1)).toNat) (pnt + 2), st.as4Rcv) :=
      onwards.tail ⟨id, if_pos ⟨going, ends, cap⟩, (Bool.or_false _).symm⟩
    have here : ({ st with s := s.seek (pnt + 2) } : OptionState).s = s.seek (pnt + 2) := rfl
    refine (bgpCapabilityParse_parses fits here ends first).bind ?_
    rintro (st' | st') after
    · exact after
    · exact after
  · exact refused fun _ => cap

theorem optionsParsed_s {st' : OptionState} (parsed : optionsParsed st = .again st') :
    st' = st := by
  unfold optionsParsed at parsed
  dsimp only at parsed
  split_ifs at parsed
  exact (Pass.again.inj parsed).symm

include fits in
/-- **The option parser goes from place to place**: it fails at a cut entry, and returns where
there is no next place. -/
theorem bgpOpenOptionParse_parses (there : st.s = s.seek pnt) (inside : pnt ≤ s.endp)
    (length : Nat) :
    Parses s (pnt + length) (.option pnt, st.as4Rcv) .option
      (fun next => pnt + length ≤ next ∧ next ≤ s.endp) (bgpOpenOptionParse length st) := by
  have getp_eq : st.s.getp = pnt := by rw [there, Stream.seek_getp]
  have ran : Parses s (pnt + length) (.option pnt, st.as4Rcv) .option
      (fun next => pnt + length ≤ next ∧ next ≤ s.endp) ((optionLoop (pnt + length)).run st) := by
    refine Loop.ensures (Reaches s (pnt + length) (.option pnt, st.as4Rcv) .option (· ≤ s.endp))
      ?_ ?_ st ⟨pnt, there, inside, .refl⟩
    · rintro st' ⟨at', there', inside', onwards⟩ going
      have more : at' < pnt + length := by simpa [optionLoop, there'] using going
      exact optionBody_parses fits inside' more there' onwards
    · rintro st' ⟨at', there', inside', onwards⟩ done
      have all : pnt + length ≤ at' := by simpa [optionLoop, there'] using done
      exact ⟨at', there', ⟨all, inside'⟩, onwards⟩
  rw [bgpOpenOptionParse, getp_eq]
  refine ran.bind ?_
  rintro (st' | st') after
  · change Ensures _ _ (.ok (optionsParsed st'))
    cases parsed : optionsParsed st' with
    | again st'' =>
      obtain rfl := optionsParsed_s parsed
      exact after
    | leave st'' =>
      obtain ⟨at', -, ⟨all, -⟩, onwards⟩ := after
      exact ⟨_, onwards, id, if_neg fun both => absurd both.1 (Nat.not_lt.mpr all)⟩
  · exact after

/-- What the option parser gives: it faults only when a cut entry is met, and returns only when
none is. -/
def OptionsAgree (s : Stream) (optionsEnd pnt : Nat) :
    Except Fault (Pass OptionState OptionState) → Prop :=
  Ensures (fun fault => fault = .assertion ∧ MeetsCutEntry s optionsEnd (.option pnt))
    fun ending => ¬ MeetsCutEntry s optionsEnd (.option pnt) ∧
      ∀ st, ending = .again st → ∃ next, st.s = s.seek next ∧ next ≤ s.endp

include fits in
/-- **The option parser faults exactly when it comes to an ORF entry that passes the check of
its count and reaches beyond the message.** -/
theorem bgpOpenOptionParse_agrees (there : st.s = s.seek pnt) (inside : pnt ≤ s.endp)
    (length : Nat) : OptionsAgree s (pnt + length) pnt (bgpOpenOptionParse length st) := by
  have parses := bgpOpenOptionParse_parses fits there inside length
  match bgpOpenOptionParse length st, parses with
  | .error _, ⟨assertion, place, onwards, cut⟩ =>
    exact ⟨assertion, onwards.meets_iff.mpr (encounters_iff.mpr (.inl cut))⟩
  | .ok (.leave _), ⟨place, onwards, whole, stop⟩ =>
    exact ⟨mt onwards.meets_iff.mp (not_encounters stop whole), fun _ again => by cases again⟩
  | .ok (.again st'), ⟨next, there', ⟨all, inside'⟩, onwards⟩ =>
    have stop : placeNext s (pnt + length) (.option next) = none :=
      if_neg fun both => absurd both.1 (Nat.not_lt.mpr all)
    refine ⟨mt onwards.meets_iff.mp (not_encounters stop id), fun st'' again => ?_⟩
    cases again
    exact ⟨next, there', inside'⟩

end Spec

end Quagga.Bgpd
