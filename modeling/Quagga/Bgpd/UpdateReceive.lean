import Quagga.Bgpd.AttrEffect
import Quagga.Bgpd.Mplsvpn

/-!
# Receiving an UPDATE

`bgp_update_receive` takes an UPDATE apart: the withdrawn routes, the path attributes and the
NLRI field that fills the rest. The fields are checked before anything is done with them, and then
each configured address family gets those that are its own.

All reads stay inside the message, except for those of `bgp_nlri_parse_vpnv4`: nothing is read
beyond the message exactly if no VPNv4 route that the function comes to is cut by its end
(`bgpUpdateReceive_inBounds_iff`).
-/

set_option autoImplicit false

namespace Quagga.Bgpd

open Lib Library

/-! ## The function -/

/-- What is done for the routes of an UPDATE: calls of `bgp_update` and `bgp_withdraw`, for VPNv4
with the distinguisher and the label, and what an End-of-RIB marker leads to. -/
inductive UpdateCall where
  | nlri (afi safi : Nat) (call : NlriCall)
  | vpnv4 (attr : Bool) (route : VpnRoute)
  | eorReceived (afi safi : Nat)
  | clearStale (afi safi : Nat)
  deriving DecidableEq

/-- What `bgp_update_receive` has when it turns to the address families: the four fields, the
lengths, and what `bgp_attr_parse` returned. A field without bytes is all zero. -/
structure UpdateFields where
  withdrawLen : Nat
  attributeLen : Nat
  withdraw : BgpNlri
  update : BgpNlri
  ret : AttrParseRet
  parsed : Parsed

/-- How `bgp_update_receive` ends: whether it returns zero, so that the update is counted and the
event is raised, with the calls made and the notifications sent. -/
structure UpdateResult where
  accepted : Bool
  calls : List UpdateCall
  notified : List Notification
  deriving DecidableEq

/-- `BGP_NOTIFY_FSM_ERR`. -/
def bgpNotifyFsmErr : Nat := 5

/-- The field of IPv4 unicast at the cursor, which is checked and passed over. -/
def nlriField (s : Stream) (length : Nat) : Except Fault (Option (BgpNlri × Stream)) :=
  if length = 0 then .ok (some (⟨0, 0, 0, 0⟩, s))
  else do
    if ← bgpNlriSanityCheck s afiIp s.getp length then
      let s' ← streamForwardGetp s length
      return some (⟨afiIp, safiUnicast, s.getp, length⟩, s')
    else return none

variable (peer : UpdatePeer)

/-- Attributes are parsed where there are some. -/
def updateAttributes (attributeLen : Nat) (s : Stream) : Except Fault (AttrParseRet × AttrState) :=
  if attributeLen = 0 then .ok (.proceed, ⟨s, Parsed.zero⟩)
  else bgpAttrParse peer attributeLen ⟨s, Parsed.zero⟩

/-- The message is refused with a notification. -/
def refuseUpdate (p : Parsed) (err : UpdateErr) : Except (List Notification) UpdateFields :=
  .error (p.notify peer err []).notified

/-- The attributes and the NLRI field, which fills the rest of the message. -/
def updateRest (stop withdrawLen : Nat) (withdraw : BgpNlri) (s : Stream) :
    Except Fault (Except (List Notification) UpdateFields) := do
  if s.getp + 2 > stop then return refuseUpdate peer .zero .malAttr
  let (attributeLen, s) ← streamGetw s
  if s.getp + attributeLen.toNat > stop then return refuseUpdate peer .zero .malAttr
  let (ret, st) ← updateAttributes peer attributeLen.toNat s
  if ret = .error then return .error st.parsed.notified
  match ← nlriField st.s (stop - st.s.getp) with
  | none => return refuseUpdate peer st.parsed .invalNetwork
  | some (update, _) =>
    return .ok ⟨withdrawLen, attributeLen.toNat, withdraw, update, ret, st.parsed⟩

/-- The part of `bgp_update_receive` that takes the message apart: the fields, or the
notifications of a message that is refused. -/
def updateFields (size : Nat) (s : Stream) :
    Except Fault (Except (List Notification) UpdateFields) := do
  let stop := s.getp + size
  if s.getp + 2 > stop then return refuseUpdate peer .zero .malAttr
  let (withdrawLen, s) ← streamGetw s
  if s.getp + withdrawLen.toNat > stop then return refuseUpdate peer .zero .malAttr
  match ← nlriField s withdrawLen.toNat with
  | none => return refuseUpdate peer .zero .invalNetwork
  | some (withdraw, s) => updateRest peer stop withdrawLen.toNat withdraw s

/-- `NLRI_ATTR_ARG`: no attributes are passed on where the routes are to be withdrawn. -/
def UpdateFields.attrArg (fields : UpdateFields) : Bool := fields.ret ≠ .withdraw

/-- `bgp_attr_check`: the type of a well-known attribute that is missing. Of several, the one that
is looked for last. -/
def bgpAttrCheck (attr : PacketAttr) : Option UInt8 :=
  if peer.sort = .ibgp ∧ ¬ attr.has bgpAttrTypeLocalPref then some bgpAttrTypeLocalPref
  else if ¬ attr.has bgpAttrTypeNextHop then some bgpAttrTypeNextHop
  else if ¬ attr.has bgpAttrTypeAsPath then some bgpAttrTypeAsPath
  else if ¬ attr.has bgpAttrTypeOrigin then some bgpAttrTypeOrigin
  else none

/-- The calls for a field. -/
def BgpNlri.updateCalls (packet : BgpNlri) (made : List NlriCall) : List UpdateCall :=
  made.map (.nlri packet.afi packet.safi)

section Families

variable (peer : UpdatePeer) (refused : List UpdateCall → Bool) (s : Stream)
  (fields : UpdateFields)

/-- `bgp_nlri_parse` for a field with bytes, after the calls made before. -/
def parseField (attr : Bool) (packet : BgpNlri) (calls : List UpdateCall) :
    Except Fault (List UpdateCall) :=
  if packet.length = 0 then .ok calls
  else do
    let (made, _) ← bgpNlriParse s peer.status attr packet fun made =>
      refused (calls ++ packet.updateCalls made)
    return calls ++ packet.updateCalls made

/-- A multiprotocol field, if it is of the family. -/
def parseMpField (afi safi : Nat) (attr : Bool) (packet : BgpNlri) (calls : List UpdateCall) :
    Except Fault (List UpdateCall) :=
  if packet.afi = afi ∧ packet.safi = safi then parseField peer refused s attr packet calls
  else .ok calls

/-- End-of-RIB: the flag `PEER_STATUS_EOR_RECEIVED`, where it is set, and the stale routes. -/
def endOfRib (marks : Bool) (afi safi : Nat) : List UpdateCall :=
  (if marks then [.eorReceived afi safi] else []) ++
    (if peer.nsf afi safi then [.clearStale afi safi] else [])

/-- The attribute that is missing for a field of IPv4 unicast. -/
def missingForUpdate : Option UInt8 :=
  if fields.update.length = 0 then none else bgpAttrCheck peer fields.parsed.attr

/-- IPv4 unicast, the family with fields of its own. -/
def updateUnicast : Except Fault UpdateResult :=
  if ¬ peer.afc afiIp safiUnicast then .ok ⟨true, [], fields.parsed.notified⟩
  else do
    let calls ← parseField peer refused s false fields.withdraw []
    match missingForUpdate peer fields with
    | some type => return ⟨false, calls, (fields.parsed.notify peer .missAttr [type]).notified⟩
    | none =>
      let calls ← parseField peer refused s fields.attrArg fields.update calls
      let calls ← parseMpField peer refused s afiIp safiUnicast fields.attrArg
        fields.parsed.mpUpdate calls
      let calls ← parseMpField peer refused s afiIp safiUnicast false fields.parsed.mpWithdraw
        calls
      let eor :=
        if fields.attributeLen = 0 ∧ fields.withdrawLen = 0 then
          endOfRib peer true afiIp safiUnicast
        else []
      return ⟨true, calls ++ eor, fields.parsed.notified⟩

/-- A family that has only multiprotocol fields. -/
def updateFamily (marks : Bool) (afi safi : Nat) (calls : List UpdateCall) :
    Except Fault (List UpdateCall) :=
  if ¬ peer.afc afi safi then .ok calls
  else do
    let calls ← parseMpField peer refused s afi safi fields.attrArg fields.parsed.mpUpdate calls
    let calls ← parseMpField peer refused s afi safi false fields.parsed.mpWithdraw calls
    let mpWithdraw := fields.parsed.mpWithdraw
    let eor :=
      if fields.withdrawLen = 0 ∧ mpWithdraw.afi = afi ∧ mpWithdraw.safi = safi ∧
          mpWithdraw.length = 0 then
        endOfRib peer marks afi safi
      else []
    return calls ++ eor

/-- `bgp_nlri_parse_vpnv4` for a field of VPNv4. -/
def parseVpnv4Field (attr : Bool) (packet : BgpNlri) (calls : List UpdateCall) :
    Except Fault (List UpdateCall) :=
  if packet.length ≠ 0 ∧ packet.afi = afiIp ∧ packet.safi = bgpSafiVpnv4 then do
    let (routes, _) ← bgpNlriParseVpnv4 s peer.status packet
    return calls ++ routes.map (.vpnv4 attr)
  else .ok calls

/-- The family VPNv4. -/
def updateVpnv4 (calls : List UpdateCall) : Except Fault (List UpdateCall) :=
  if ¬ peer.afc afiIp safiMplsVpn then .ok calls
  else do
    let calls ← parseVpnv4Field peer s fields.attrArg fields.parsed.mpUpdate calls
    parseVpnv4Field peer s false fields.parsed.mpWithdraw calls

/-- The part of `bgp_update_receive` that goes through the families. -/
def updateFamilies : Except Fault UpdateResult := do
  let unicast ← updateUnicast peer refused s fields
  if ¬ unicast.accepted then return unicast
  let calls ← updateFamily peer refused s fields true afiIp safiMulticast unicast.calls
  let calls ← updateFamily peer refused s fields true afiIp6 safiUnicast calls
  let calls ← updateFamily peer refused s fields false afiIp6 safiMulticast calls
  let calls ← updateVpnv4 peer s fields calls
  return { unicast with calls := calls }

end Families

/-- `bgp_update_receive`. `refused` says whether the last of the calls made, one of `bgp_update`
for a family other than VPNv4, returns a negative value. -/
def bgpUpdateReceive (peer : UpdatePeer) (refused : List UpdateCall → Bool) (size : Nat)
    (s : Stream) : Except Fault UpdateResult :=
  if peer.status ≠ .established then .ok ⟨false, [], [⟨peer.ptr, bgpNotifyFsmErr, 0, []⟩]⟩
  else do
    match ← updateFields peer size s with
    | .error notified => return ⟨false, [], notified⟩
    | .ok fields => updateFamilies peer refused s fields

/-! ## The parts of a message -/

/-- Two bytes at a place as a number. -/
def wordAt (s : Stream) (pnt : Nat) : Nat := (word (s.byte pnt) (s.byte (pnt + 1))).toNat

section Layout

variable (peer : UpdatePeer) (s : Stream)

/-- The withdrawn-routes field starts behind its length. -/
def withdrawStart : Nat := bgpHeaderSize + 2

/-- The length of the withdrawn-routes field. -/
def withdrawLen : Nat := wordAt s bgpHeaderSize

/-- The attributes start behind their total length. -/
def attributesStart : Nat := withdrawStart + withdrawLen s + 2

/-- The total length of the attributes. -/
def attributeLen : Nat := wordAt s (withdrawStart + withdrawLen s)

/-- The NLRI field starts where the attributes end by their total length. -/
def nlriStart : Nat := attributesStart s + attributeLen s

/-- What the attributes of the message say. -/
def updateAttrs : AttrRead :=
  if attributeLen s = 0 then ⟨.proceed, attributesStart s, .zero⟩
  else attrsRead peer s (attributesStart s) (attributeLen s) .zero

/-- A field without bytes, or one that the check accepts. -/
def fieldSane (pnt length : Nat) : Bool :=
  length = 0 ∨ bgpNlriSanityCheck s afiIp pnt length = .ok true

/-- A field of IPv4 unicast. -/
def unicastField (pnt length : Nat) : BgpNlri :=
  if length = 0 then ⟨0, 0, 0, 0⟩ else ⟨afiIp, safiUnicast, pnt, length⟩

/-- The message passes the checks before the families. -/
structure UpdateAccepted : Prop where
  withdrawFits : withdrawStart + withdrawLen s ≤ s.endp
  withdrawSane : fieldSane s withdrawStart (withdrawLen s) = true
  lengthFits : attributesStart s ≤ s.endp
  attributesFit : nlriStart s ≤ s.endp
  attributesRead : (updateAttrs peer s).ret ≠ .error
  updateSane :
    fieldSane s (updateAttrs peer s).pnt (s.endp - (updateAttrs peer s).pnt) = true

/-- The fields that it then has. -/
def fieldsOf : UpdateFields where
  withdrawLen := withdrawLen s
  attributeLen := attributeLen s
  withdraw := unicastField withdrawStart (withdrawLen s)
  update := unicastField (updateAttrs peer s).pnt (s.endp - (updateAttrs peer s).pnt)
  ret := (updateAttrs peer s).ret
  parsed := (updateAttrs peer s).parsed

/-- What the message says behind the withdrawn routes. -/
def updateRestRead (withdraw : BgpNlri) : Except (List Notification) UpdateFields :=
  let attrs := updateAttrs peer s
  if attributesStart s > s.endp then refuseUpdate peer .zero .malAttr
  else if nlriStart s > s.endp then refuseUpdate peer .zero .malAttr
  else if attrs.ret = .error then .error attrs.parsed.notified
  else if ¬ fieldSane s attrs.pnt (s.endp - attrs.pnt) then
    refuseUpdate peer attrs.parsed .invalNetwork
  else .ok { fieldsOf peer s with withdraw := withdraw }

/-- What the message says: its fields, or why it is refused. -/
def updateFieldsRead : Except (List Notification) UpdateFields :=
  if withdrawStart + withdrawLen s > s.endp then refuseUpdate peer .zero .malAttr
  else if ¬ fieldSane s withdrawStart (withdrawLen s) then refuseUpdate peer .zero .invalNetwork
  else updateRestRead peer s (unicastField withdrawStart (withdrawLen s))

end Layout

section Fields

variable {peer : UpdatePeer} {s : Stream} (fits : s.endp ≤ s.size)

include fits in
theorem nlriField_seek {pnt length : Nat} (inside : pnt + length ≤ s.endp) :
    nlriField (s.seek pnt) length =
      .ok (if fieldSane s pnt length then
        some (unicastField pnt length, s.seek (pnt + length)) else none) := by
  rw [nlriField, fieldSane, unicastField]
  by_cases empty : length = 0
  · simp [empty]
  · obtain ⟨accepted, checked⟩ : ∃ accepted,
        bgpNlriSanityCheck s afiIp pnt length = .ok accepted := bgpNlriSanityCheck_returns inside
    have there : bgpNlriSanityCheck (s.seek pnt) afiIp (s.seek pnt).getp length = .ok accepted :=
      checked
    rw [there, checked]
    cases accepted with
    | false => simp [empty, pure, Except.pure]
    | true =>
      simp only [streamForwardGetp_seek fits inside]
      simp [empty, pure, Except.pure]

include fits in
theorem updateAttributes_seek (inside : nlriStart s ≤ s.endp) :
    updateAttributes peer (attributeLen s) (s.seek (attributesStart s)) =
      .ok ((updateAttrs peer s).on s) := by
  rw [updateAttributes, updateAttrs]
  split_ifs with empty
  · rfl
  · exact bgpAttrParse_seek fits inside Parsed.zero

theorem updateAttrs_pnt_le (handed : (updateAttrs peer s).ret ≠ .error) :
    attributesStart s ≤ (updateAttrs peer s).pnt ∧ (updateAttrs peer s).pnt ≤ nlriStart s := by
  rw [updateAttrs] at handed ⊢
  split_ifs at handed ⊢ with empty
  · exact ⟨Nat.le_refl _, Nat.le_add_right _ _⟩
  · exact attrsRead_pnt_le handed

include fits in
theorem updateRest_seek (withdraw : BgpNlri) :
    updateRest peer s.endp (withdrawLen s) withdraw (s.seek (withdrawStart + withdrawLen s)) =
      .ok (updateRestRead peer s withdraw) := by
  have start_eq : withdrawStart + withdrawLen s + 2 = attributesStart s := rfl
  rw [updateRest, updateRestRead]
  simp only [Stream.seek_getp, start_eq]
  by_cases short : attributesStart s > s.endp
  · rw [if_pos short, if_pos short]
    rfl
  have word₂ : withdrawStart + withdrawLen s + 2 ≤ s.endp := by omega
  have length_eq : (word (s.byte (withdrawStart + withdrawLen s))
      (s.byte (withdrawStart + withdrawLen s + 1))).toNat = attributeLen s := rfl
  have end_eq : attributesStart s + attributeLen s = nlriStart s := rfl
  simp only [if_neg short, streamGetw_seek fits word₂, ok_bind, start_eq, length_eq,
    Stream.seek_getp, end_eq]
  by_cases excess : nlriStart s > s.endp
  · rw [if_pos excess, if_pos excess]
    rfl
  rw [if_neg excess, if_neg excess, updateAttributes_seek fits (Nat.le_of_not_gt excess), ok_bind]
  dsimp only [AttrRead.on, Stream.seek_getp]
  show (if (updateAttrs peer s).ret = .error then _ else _) = _
  by_cases error : (updateAttrs peer s).ret = .error
  · rw [if_pos error, if_pos error]
    rfl
  have le := (updateAttrs_pnt_le error).2
  have rest : (updateAttrs peer s).pnt + (s.endp - (updateAttrs peer s).pnt) ≤ s.endp := by omega
  rw [if_neg error, if_neg error, nlriField_seek fits rest]
  by_cases sane :
      fieldSane s (updateAttrs peer s).pnt (s.endp - (updateAttrs peer s).pnt) = true
  · rw [if_pos sane, if_neg (not_not.mpr sane)]
    rfl
  · rw [if_neg sane, if_pos sane]
    rfl

include fits in
/-- **The message is taken apart without a read beyond its end.** -/
theorem updateFields_eq (getp_eq : s.getp = bgpHeaderSize) (room : bgpHeaderSize + 2 ≤ s.endp) :
    updateFields peer (s.endp - bgpHeaderSize) s = .ok (updateFieldsRead peer s) := by
  have start : s = s.seek bgpHeaderSize := by
    rw [← getp_eq]
    rfl
  have stop : bgpHeaderSize + (s.endp - bgpHeaderSize) = s.endp := by omega
  have enough : ¬ withdrawStart > s.endp := Nat.not_lt.mpr room
  have length_eq : (word (s.byte bgpHeaderSize) (s.byte (bgpHeaderSize + 1))).toNat =
      withdrawLen s := rfl
  have start_eq : bgpHeaderSize + 2 = withdrawStart := rfl
  have read : updateFields peer (s.endp - bgpHeaderSize) s =
      updateFields peer (s.endp - bgpHeaderSize) (s.seek bgpHeaderSize) := by rw [← start]
  rw [read, updateFields, updateFieldsRead]
  simp only [Stream.seek_getp, stop, streamGetw_seek fits room, ok_bind, length_eq, start_eq,
    if_neg enough]
  by_cases excess : withdrawStart + withdrawLen s > s.endp
  · rw [if_pos excess, if_pos excess]
    rfl
  have inside := Nat.le_of_not_gt excess
  rw [if_neg excess, if_neg excess, nlriField_seek fits inside]
  by_cases sane : fieldSane s withdrawStart (withdrawLen s) = true
  · rw [if_pos sane, if_neg (not_not.mpr sane)]
    exact updateRest_seek fits _
  · rw [if_neg sane, if_pos sane]
    rfl

/-- The checks accept a message exactly if it has the fields. -/
theorem updateFieldsRead_ok {fields : UpdateFields} (read : updateFieldsRead peer s = .ok fields) :
    UpdateAccepted peer s ∧ fields = fieldsOf peer s := by
  simp only [updateFieldsRead, updateRestRead, refuseUpdate] at read
  split_ifs at read with excess sane short over' error sane'
  exact ⟨⟨Nat.le_of_not_gt excess, sane, Nat.le_of_not_gt short, Nat.le_of_not_gt over', error,
    sane'⟩, (Except.ok.inj read).symm⟩

theorem updateFieldsRead_accepted (accepted : UpdateAccepted peer s) :
    updateFieldsRead peer s = .ok (fieldsOf peer s) := by
  rw [updateFieldsRead, if_neg (Nat.not_lt.mpr accepted.withdrawFits),
    if_neg (not_not.mpr accepted.withdrawSane), updateRestRead,
    if_neg (Nat.not_lt.mpr accepted.lengthFits), if_neg (Nat.not_lt.mpr accepted.attributesFit),
    if_neg accepted.attributesRead, if_neg (not_not.mpr accepted.updateSane)]
  rfl

/-- The fields that are handed over lie inside the message. -/
structure UpdateFields.Inside (fields : UpdateFields) (stop : Nat) : Prop where
  withdraw : fields.withdraw.nlri + fields.withdraw.length ≤ stop
  update : fields.update.nlri + fields.update.length ≤ stop
  mp : fields.parsed.MpInside stop

theorem unicastField_inside {pnt length stop : Nat} (inside : pnt + length ≤ stop) :
    (unicastField pnt length).nlri + (unicastField pnt length).length ≤ stop := by
  rw [unicastField]
  split_ifs
  · exact Nat.zero_le _
  · exact inside

theorem fieldsOf_inside (accepted : UpdateAccepted peer s) : (fieldsOf peer s).Inside s.endp := by
  have zero : Parsed.zero.MpInside (nlriStart s) := ⟨Nat.zero_le _, Nat.zero_le _⟩
  have handed := accepted.attributesRead
  have le := (updateAttrs_pnt_le handed).2.trans accepted.attributesFit
  have mp : (updateAttrs peer s).parsed.MpInside (nlriStart s) := by
    rw [updateAttrs] at handed ⊢
    split_ifs at handed ⊢
    · exact zero
    · exact attrsRead_mpInside handed
  exact ⟨unicastField_inside accepted.withdrawFits, unicastField_inside (by omega),
    mp.update.trans accepted.attributesFit, mp.withdraw.trans accepted.attributesFit⟩

end Fields

/-! ## The families -/

section Families

variable {peer : UpdatePeer} {refused : List UpdateCall → Bool} {s : Stream} {packet : BgpNlri}

section

variable {attr : Bool} (inside : packet.nlri + packet.length ≤ s.endp) (calls : List UpdateCall)
include inside calls

theorem parseField_ensures :
    Ensures (fun _ => False) (fun _ => True) (parseField peer refused s attr packet calls) := by
  rw [parseField]
  split_ifs
  · trivial
  · obtain ⟨result, parsed⟩ := bgpNlriParse_returns inside peer.status attr
      fun made => refused (calls ++ packet.updateCalls made)
    rw [parsed]
    trivial

theorem parseMpField_ensures {afi safi : Nat} :
    Ensures (fun _ => False) (fun _ => True)
      (parseMpField peer refused s afi safi attr packet calls) := by
  rw [parseMpField]
  split_ifs
  · exact parseField_ensures inside calls
  · trivial

end

variable {fields : UpdateFields} (inside : fields.Inside s.endp)

include inside in
theorem updateUnicast_ensures :
    Ensures (fun _ => False)
      (fun result => result.accepted = true ↔
        (peer.afc afiIp safiUnicast = true → missingForUpdate peer fields = none))
      (updateUnicast peer refused s fields) := by
  rw [updateUnicast]
  by_cases configured : peer.afc afiIp safiUnicast = true
  · rw [if_neg (not_not.mpr configured)]
    refine (parseField_ensures inside.withdraw []).bind fun calls _ => ?_
    cases missing : missingForUpdate peer fields with
    | some type => simp [pure, Except.pure, configured]
    | none =>
      refine (parseField_ensures inside.update calls).bind fun calls _ => ?_
      refine (parseMpField_ensures inside.mp.update calls).bind fun calls _ => ?_
      refine (parseMpField_ensures inside.mp.withdraw calls).bind fun calls _ => ?_
      simp [pure, Except.pure]
  · simp [configured]

include inside in
theorem updateFamily_ensures (marks : Bool) (afi safi : Nat) (calls : List UpdateCall) :
    Ensures (fun _ => False) (fun _ => True)
      (updateFamily peer refused s fields marks afi safi calls) := by
  rw [updateFamily]
  by_cases configured : peer.afc afi safi = true
  · rw [if_neg (not_not.mpr configured)]
    refine (parseMpField_ensures inside.mp.update calls).bind fun calls _ => ?_
    exact (parseMpField_ensures inside.mp.withdraw calls).bind fun _ _ => trivial
  · rw [if_pos configured]
    trivial

/-- No VPNv4 route of a field is cut by the end of the message. -/
def RoutesWhole (s : Stream) (packet : BgpNlri) : Prop :=
  packet.afi = afiIp → packet.safi = bgpSafiVpnv4 →
    ¬ Encounters (vpnNext s (packet.nlri + packet.length))
      (VpnCut s (packet.nlri + packet.length)) packet.nlri

theorem parseVpnv4Field_returns_iff (established : peer.status = .established) (attr : Bool)
    (inside : packet.nlri + packet.length ≤ s.endp) (calls : List UpdateCall) :
    (∃ calls', parseVpnv4Field peer s attr packet calls = .ok calls') ↔ RoutesWhole s packet := by
  rw [parseVpnv4Field, RoutesWhole]
  by_cases field : packet.length ≠ 0 ∧ packet.afi = afiIp ∧ packet.safi = bgpSafiVpnv4
  · obtain ⟨-, afi_eq, safi_eq⟩ := id field
    rw [if_pos field, established]
    simp only [afi_eq, safi_eq, true_imp_iff]
    rw [← bgpNlriParseVpnv4_returns_iff inside]
    constructor
    · rintro ⟨calls', returned⟩
      obtain ⟨result, parsed, -⟩ := bind_eq_ok returned
      exact ⟨result, parsed⟩
    · rintro ⟨result, parsed⟩
      rw [parsed]
      exact ⟨_, rfl⟩
  · rw [if_neg field]
    refine iff_of_true ⟨_, rfl⟩ fun afi_eq safi_eq => ?_
    have stop : ¬ packet.nlri < packet.nlri + packet.length := by omega
    exact not_encounters (if_neg fun all => stop all.1) fun cut => stop cut.below

include inside

theorem updateVpnv4_returns_iff (established : peer.status = .established)
    (calls : List UpdateCall) :
    (∃ calls', updateVpnv4 peer s fields calls = .ok calls') ↔
      (peer.afc afiIp safiMplsVpn = true →
        RoutesWhole s fields.parsed.mpUpdate ∧ RoutesWhole s fields.parsed.mpWithdraw) := by
  rw [updateVpnv4]
  by_cases configured : peer.afc afiIp safiMplsVpn = true
  · rw [if_neg (not_not.mpr configured)]
    have update := parseVpnv4Field_returns_iff established fields.attrArg inside.mp.update
    have withdraw := parseVpnv4Field_returns_iff established false inside.mp.withdraw
    constructor
    · rintro ⟨calls', returned⟩ -
      obtain ⟨calls₁, first, second⟩ := bind_eq_ok returned
      exact ⟨(update calls).mp ⟨calls₁, first⟩, (withdraw calls₁).mp ⟨calls', second⟩⟩
    · intro whole
      obtain ⟨calls₁, first⟩ := (update calls).mpr (whole configured).1
      rw [first]
      exact (withdraw calls₁).mpr (whole configured).2
  · rw [if_pos configured]
    exact iff_of_true ⟨_, rfl⟩ fun both => absurd both configured

theorem updateFamilies_returns_iff (established : peer.status = .established) :
    (∃ result, updateFamilies peer refused s fields = .ok result) ↔
      ((peer.afc afiIp safiUnicast = true → missingForUpdate peer fields = none) →
        peer.afc afiIp safiMplsVpn = true →
          RoutesWhole s fields.parsed.mpUpdate ∧ RoutesWhole s fields.parsed.mpWithdraw) := by
  obtain ⟨unicast, worked, accepted_iff⟩ : ∃ unicast,
      updateUnicast peer refused s fields = .ok unicast ∧ _ :=
    (updateUnicast_ensures inside).exists_ok
  rw [updateFamilies, worked, ok_bind]
  by_cases accepted : unicast.accepted = true
  · obtain ⟨calls₁, multicast, -⟩ :=
      (updateFamily_ensures inside true afiIp safiMulticast unicast.calls).exists_ok
    obtain ⟨calls₂, unicast6, -⟩ :=
      (updateFamily_ensures inside true afiIp6 safiUnicast calls₁).exists_ok
    obtain ⟨calls₃, multicast6, -⟩ :=
      (updateFamily_ensures inside false afiIp6 safiMulticast calls₂).exists_ok
    rw [if_neg (not_not.mpr accepted), multicast, ok_bind, unicast6, ok_bind, multicast6, ok_bind]
    rw [imp_iff_right (accepted_iff.mp accepted), ← updateVpnv4_returns_iff inside established calls₃]
    constructor
    · rintro ⟨result, returned⟩
      obtain ⟨calls', parsed, -⟩ := bind_eq_ok returned
      exact ⟨calls', parsed⟩
    · rintro ⟨calls', parsed⟩
      rw [parsed]
      exact ⟨_, rfl⟩
  · rw [if_pos accepted]
    exact iff_of_true ⟨_, rfl⟩ fun complete => absurd (accepted_iff.mpr complete) accepted

end Families

/-! ## Which calls are made -/

/-- More calls have been made, all of a kind. -/
def Adds (kind : UpdateCall → Prop) (calls calls' : List UpdateCall) : Prop :=
  ∃ more, calls' = calls ++ more ∧ ∀ call ∈ more, kind call

section Adds

variable {kind : UpdateCall → Prop} {calls calls' calls'' : List UpdateCall}

theorem Adds.refl : Adds kind calls calls := ⟨[], (List.append_nil _).symm, nofun⟩

theorem Adds.trans (first : Adds kind calls calls') (second : Adds kind calls' calls'') :
    Adds kind calls calls'' := by
  obtain ⟨more, rfl, all⟩ := first
  obtain ⟨more', rfl, all'⟩ := second
  exact ⟨more ++ more', List.append_assoc .., List.forall_mem_append.mpr ⟨all, all'⟩⟩

theorem Adds.mem_iff {call : UpdateCall} (adds : Adds kind calls calls') (other : ¬ kind call) :
    call ∈ calls' ↔ call ∈ calls := by
  obtain ⟨more, rfl, all⟩ := adds
  rw [List.mem_append, or_iff_left fun mem => other (all call mem)]

/-- A call for IPv4 unicast. -/
def UpdateCall.Unicast4 : UpdateCall → Prop
  | .nlri afi safi _ => afi = afiIp ∧ safi = safiUnicast
  | .eorReceived afi safi => afi = afiIp ∧ safi = safiUnicast
  | .clearStale afi safi => afi = afiIp ∧ safi = safiUnicast
  | .vpnv4 _ _ => False

variable {peer : UpdatePeer} {refused : List UpdateCall → Bool} {s : Stream}
  {fields : UpdateFields} {packet : BgpNlri} {attr : Bool} {afi safi : Nat}

theorem parseField_adds (kind : UpdateCall → Prop)
    (of_kind : ∀ made, kind (.nlri packet.afi packet.safi made)) :
    Ensures (fun _ => True) (Adds kind calls) (parseField peer refused s attr packet calls) := by
  rw [parseField]
  split_ifs
  · exact .refl
  · refine (ensures_any _).bind fun made _ => ⟨_, rfl, fun call mem => ?_⟩
    obtain ⟨call', -, rfl⟩ := List.mem_map.mp mem
    exact of_kind call'

theorem parseMpField_adds (kind : UpdateCall → Prop) (of_kind : ∀ made, kind (.nlri afi safi made)) :
    Ensures (fun _ => True) (Adds kind calls)
      (parseMpField peer refused s afi safi attr packet calls) := by
  rw [parseMpField]
  split_ifs with family
  · exact parseField_adds kind (family.1 ▸ family.2 ▸ of_kind)
  · exact .refl

theorem updateFamily_adds (other : ¬ (afi = afiIp ∧ safi = safiUnicast)) (marks : Bool) :
    Ensures (fun _ => True) (Adds (¬ ·.Unicast4) calls)
      (updateFamily peer refused s fields marks afi safi calls) := by
  rw [updateFamily]
  split_ifs
  · refine (parseMpField_adds (¬ ·.Unicast4) fun _ => other).bind fun calls₁ adds₁ => ?_
    refine (parseMpField_adds (¬ ·.Unicast4) fun _ => other).bind fun calls₂ adds₂ => ?_
    refine (adds₁.trans adds₂).trans ⟨_, rfl, ?_⟩
    rw [endOfRib]
    split_ifs <;> simp [UpdateCall.Unicast4, other]
  · exact .refl

theorem parseVpnv4Field_adds :
    Ensures (fun _ => True) (Adds (¬ ·.Unicast4) calls)
      (parseVpnv4Field peer s attr packet calls) := by
  rw [parseVpnv4Field]
  split_ifs
  · refine (ensures_any _).bind fun parsed _ => ⟨_, rfl, fun call mem => ?_⟩
    obtain ⟨route, -, rfl⟩ := List.mem_map.mp mem
    exact id
  · exact .refl

/-- **The families behind IPv4 unicast make no calls for it.** -/
theorem updateFamilies_adds {unicast : UpdateResult}
    (worked : updateUnicast peer refused s fields = .ok unicast) :
    Ensures (fun _ => True) (fun result => result.accepted = unicast.accepted ∧
      Adds (¬ ·.Unicast4) unicast.calls result.calls) (updateFamilies peer refused s fields) := by
  rw [updateFamilies, worked, ok_bind]
  split_ifs
  · refine (updateFamily_adds (by decide) _).bind fun calls₁ adds₁ => ?_
    refine (updateFamily_adds (by decide) _).bind fun calls₂ adds₂ => ?_
    refine (updateFamily_adds (by decide) _).bind fun calls₃ adds₃ => ?_
    have vpn : Ensures (fun _ => True) (Adds (¬ ·.Unicast4) calls₃)
        (updateVpnv4 peer s fields calls₃) := by
      rw [updateVpnv4]
      split_ifs
      · exact parseVpnv4Field_adds.bind fun calls₄ adds₄ =>
          parseVpnv4Field_adds.mono fun _ => adds₄.trans
      · exact .refl
    exact vpn.bind fun calls₄ adds₄ => ⟨rfl, adds₁.trans (adds₂.trans (adds₃.trans adds₄))⟩
  · exact ⟨rfl, .refl⟩

end Adds

/-! ## Reads beyond the message -/

/-- A field that comes to `bgp_nlri_parse_vpnv4`: the session is established and VPNv4 is
configured, the message passes the checks, and if it has an NLRI field of IPv4 unicast, which is
configured as well, no attribute is missing. -/
structure HandsVpnv4 (peer : UpdatePeer) (s : Stream) (packet : BgpNlri) : Prop where
  established : peer.status = .established
  accepted : UpdateAccepted peer s
  complete : peer.afc afiIp safiUnicast = true → missingForUpdate peer (fieldsOf peer s) = none
  configured : peer.afc afiIp safiMplsVpn = true
  field : packet = (updateAttrs peer s).parsed.mpUpdate ∨
    packet = (updateAttrs peer s).parsed.mpWithdraw

/-- **`bgp_update_receive` and `bgp_attr_parse` read nothing beyond an UPDATE, no assertion fails,
and attributes that are accepted tile their block with every handler consuming exactly the declared
length, exactly if the message ends inside none of the VPNv4 routes that are come to.** -/
theorem bgpUpdateReceive_inBounds_iff {s : Stream} (received : ReceivedPacket .msgUpdate s)
    (peer : UpdatePeer) (refused : List UpdateCall → Bool) :
    ((∃ result, bgpUpdateReceive peer refused (s.endp - bgpHeaderSize) s = .ok result) ∧
      ∀ pnt size p, pnt + size ≤ s.endp →
        ∃ ret st, bgpAttrParse peer size ⟨s.seek pnt, p⟩ = .ok (ret, st) ∧
          (ret = .proceed →
            st.s = s.seek (pnt + size) ∧ ∃ p', AttrsTile peer s (pnt + size) pnt p p')) ↔
      ∀ packet, HandsVpnv4 peer s packet → RoutesWhole s packet := by
  have room : bgpHeaderSize + 2 ≤ s.endp := Nat.le_trans (by decide) received.minSize_le
  have tiles : ∀ pnt size p, pnt + size ≤ s.endp →
      ∃ ret st, bgpAttrParse peer size ⟨s.seek pnt, p⟩ = .ok (ret, st) ∧
        (ret = .proceed →
          st.s = s.seek (pnt + size) ∧ ∃ p', AttrsTile peer s (pnt + size) pnt p p') := by
    intro pnt size p inside
    refine ⟨_, _, bgpAttrParse_seek received.endp_le inside p, fun proceed => ?_⟩
    refine bgpAttrParse_tiles received.endp_le inside ?_
    rw [bgpAttrParse_seek received.endp_le inside p, ← proceed]
    rfl
  rw [and_iff_left tiles, bgpUpdateReceive]
  by_cases established : peer.status = .established
  · rw [if_neg (not_not.mpr established), updateFields_eq received.endp_le received.getp_eq room,
      ok_bind]
    cases read : updateFieldsRead peer s with
    | error notified =>
      refine iff_of_true ⟨_, rfl⟩ fun packet hands => ?_
      rw [updateFieldsRead_accepted hands.accepted] at read
      cases read
    | ok fields =>
      obtain ⟨accepted, rfl⟩ := updateFieldsRead_ok read
      rw [updateFamilies_returns_iff (fieldsOf_inside accepted) established]
      constructor
      · intro whole packet hands
        obtain ⟨update, withdraw⟩ := whole hands.complete hands.configured
        rcases hands.field with rfl | rfl
        · exact update
        · exact withdraw
      · intro whole complete configured
        exact ⟨whole _ ⟨established, accepted, complete, configured, .inl rfl⟩,
          whole _ ⟨established, accepted, complete, configured, .inr rfl⟩⟩
  · rw [if_pos established]
    exact iff_of_true ⟨_, rfl⟩ fun packet hands => absurd hands.established established

/-- A neighbour of another AS with which IPv4 unicast and VPNv4 are configured. -/
def vpnPeer : UpdatePeer where
  ptr := 0
  status := .established
  afc afi safi := afi = afiIp ∧ (safi = safiUnicast ∨ safi = safiMplsVpn)
  nsf _ _ := false
  sort := .ebgp
  as := 65001
  as4Rcv := true
  enforceFirstAs := false
  changeLocalAs := 0
  localAsNoPrepend := false
  ibgp_localAs := by simp

/-- An UPDATE with a body. -/
def updateOf (body : List UInt8) : Stream :=
  (streamOf (List.replicate bgpMarkerSize 0xff ++
    wordBytes (UInt16.ofNat (bgpHeaderSize + body.length)) ++ [MsgType.msgUpdate.code] ++
      body)).seek bgpHeaderSize

/-- An `MP_UNREACH_NLRI` for VPNv4 with the bytes of its routes. -/
def vpnWithdraw (routes : List UInt8) : List UInt8 :=
  [0, 0] ++ wordBytes (UInt16.ofNat (6 + routes.length)) ++
    [bgpAttrFlagOptional, bgpAttrTypeMpUnreachNlri, UInt8.ofNat (3 + routes.length), 0, 1, 128] ++
      routes

/-- The withdrawal of a route of `10.0.0.0/8` that is there as a whole. -/
def wholeRoute : Stream := updateOf (vpnWithdraw [96, 0, 0, 1, 0, 0, 0, 1, 0, 0, 0, 1, 10])

theorem bgpUpdateReceive_inBounds_wholeRoute :
    ReceivedPacket .msgUpdate wholeRoute ∧
      ∃ result, bgpUpdateReceive vpnPeer (fun _ => false) 23 wholeRoute = .ok result := by
  have received : ReceivedPacket .msgUpdate wholeRoute := ⟨rfl, by decide, by decide⟩
  refine ⟨received, ((bgpUpdateReceive_inBounds_iff received vpnPeer _).mpr ?_).1⟩
  intro packet hands
  rcases hands.field with rfl | rfl
  · exact fun afi_eq => absurd afi_eq (by decide)
  · intro _ _
    have step : vpnNext wholeRoute 42 29 = some 42 := by decide
    have whole : ¬ VpnCut wholeRoute 42 29 := fun cut => absurd cut.cut (by decide)
    show ¬ Encounters (vpnNext wholeRoute 42) (VpnCut wholeRoute 42) 29
    rw [encounters_next step whole]
    exact not_encounters (by decide) fun cut => absurd cut.below (by decide)

/-- The message ends behind the length of a route. -/
theorem bgpUpdateReceive_beyond_message :
    ReceivedPacket .msgUpdate (updateOf (vpnWithdraw [96])) ∧
      bgpUpdateReceive vpnPeer (fun _ => false) 11 (updateOf (vpnWithdraw [96])) =
        .error (.arrayIndex 30) := by
  refine ⟨⟨rfl, by decide, by decide⟩, ?_⟩
  rfl

end Quagga.Bgpd
