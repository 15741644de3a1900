import Quagga.Bgpd.AttrParse

/-!
# Reading path attributes

What `bgp_attr_parse` does is a function of the message. `handlerRead` is what the handlers make of
an attribute, `attrsRead` what the parser makes of a block of attributes, in terms of the bytes
that stand there. The handlers never read beyond the attribute that they are given, and neither
does the parser leave the block: on any message it returns what `attrsRead` says, with every
assertion met (`bgpAttrParse_seek`).

When the parser accepts the attributes, they tile the block, and every handler has consumed
exactly the length that its attribute declares (`bgpAttrParse_tiles`).
-/

set_option autoImplicit false

namespace Quagga.Bgpd

open Lib Library

/-! ## What the handlers read -/

/-- What a handler returns, with the place at which it ends. -/
structure AttrRead where
  ret : AttrParseRet
  pnt : Nat
  parsed : Parsed

/-- The result of a handler on the message. -/
def AttrRead.on (s : Stream) (read : AttrRead) : AttrParseRet × AttrState :=
  (read.ret, ⟨s.seek read.pnt, read.parsed⟩)

/-- The bytes that a notification takes from the message. -/
def notifyData (s : Stream) : Option (Nat × Nat) → List UInt8
  | none => []
  | some (startp, length) => s.slice startp length

/-- What `AttrHead.refuse` gives. -/
def AttrHead.refused (head : AttrHead) (peer : UpdatePeer) (s : Stream) (pnt : Nat) (p : Parsed) :
    Refusal → AttrRead
  | .malformed type err whole =>
    if malformedNotifies peer type then
      ⟨.error, pnt, p.notify peer err
        (notifyData s (if whole then some (head.startp, head.total) else none))⟩
    else ⟨malformedRelaxed type head.flag, pnt, p⟩
  | .reset err => ⟨.error, pnt, p.notify peer err (s.slice head.startp head.total)⟩

/-- What `AttrHead.unless` gives. -/
def AttrHead.readUnless (head : AttrHead) (peer : UpdatePeer) (s : Stream) (pnt : Nat)
    (p : Parsed) (refusal : Option Refusal) (accepted : AttrRead) : AttrRead :=
  match refusal with
  | some refusal => head.refused peer s pnt p refusal
  | none => accepted

section Reads

variable (peer : UpdatePeer) (s : Stream) (head : AttrHead) (p : Parsed)

/-- What `bgpAttrOrigin` reads, and so on for each handler. -/
def originRead : AttrRead :=
  head.readUnless peer s head.value p (originRefusal head)
    (let origin := s.byte head.value
     let p := p.change fun attr => { attr with origin := origin }
     head.readUnless peer s (head.value + 1) p (originValueRefusal origin)
       ⟨.proceed, head.value + 1, p.accept bgpAttrTypeOrigin id⟩)

/-- `bgpAttrAspath`. -/
def asPathRead : AttrRead :=
  head.readUnless peer s head.value p (aspathRefusal head)
    (let path := aspathRead s peer.as4Rcv head.value head.length
     let p := p.change fun attr => { attr with aspath := path.1 }
     head.readUnless peer s path.2 p (pathRefusal bgpAttrTypeAsPath path.1)
       ⟨.proceed, path.2, p.accept bgpAttrTypeAsPath id⟩)

/-- `bgpAttrAs4Path`. -/
def as4PathRead : AttrRead :=
  head.readUnless peer s head.value p (as4PathRefusal head)
    (let path := aspathRead s true head.value head.length
     let p := { p with as4Path := path.1 }
     head.readUnless peer s path.2 p (pathRefusal bgpAttrTypeAs4Path path.1)
       ⟨.proceed, path.2, p.accept bgpAttrTypeAs4Path id⟩)

/-- `longHandler`. -/
def longRead (refusal : Option Refusal) (type : UInt8)
    (store : UInt32 → PacketAttr → PacketAttr) : AttrRead :=
  head.readUnless peer s head.value p refusal
    ⟨.proceed, head.value + 4, p.accept type (store (longOf (s.slice head.value 4)))⟩

/-- `bgpAttrLocalPref`. -/
def localPrefRead : AttrRead :=
  if peer.sort = .ebgp then
    head.readUnless peer s head.value p (localPrefRefusal head)
      ⟨.proceed, head.value + head.length, p⟩
  else if head.length = 4 then
    longRead peer s head p (localPrefRefusal head) bgpAttrTypeLocalPref
      fun localPref attr => { attr with localPref := localPref }
  else
    head.readUnless peer s head.value p (localPrefRefusal head)
      ⟨.proceed, head.value, p.accept bgpAttrTypeLocalPref fun attr => { attr with localPref := 0 }⟩

/-- `bgpAttrAtomic`. -/
def atomicRead : AttrRead :=
  head.readUnless peer s head.value p (atomicRefusal head)
    ⟨.proceed, head.value, p.accept bgpAttrTypeAtomicAggregate id⟩

/-- `bgpAttrAggregator`. -/
def aggregatorRead : AttrRead :=
  let wantedlen := asValueSize peer.as4Rcv + 4
  head.readUnless peer s head.value p
    (lengthRefusal bgpAttrTypeAggregator (head.length = wantedlen))
    ⟨.proceed, head.value + wantedlen, p.accept bgpAttrTypeAggregator fun attr =>
      { attr with
        aggregatorAs := UInt32.ofNat (asAt s peer.as4Rcv head.value)
        aggregatorAddr := longOf (s.slice (head.value + asValueSize peer.as4Rcv) 4) }⟩

/-- `bgpAttrAs4Aggregator`. -/
def as4AggregatorRead : AttrRead :=
  head.readUnless peer s head.value p (lengthRefusal bgpAttrTypeAs4Aggregator (head.length = 8))
    (let p := { p with
       as4Aggregator := longOf (s.slice head.value 4)
       as4AggregatorAddr := longOf (s.slice (head.value + 4) 4) }
     ⟨.proceed, head.value + 8, p.accept bgpAttrTypeAs4Aggregator id⟩)

/-- `bgpAttrCommunity`. -/
def communityRead : AttrRead :=
  if head.length = 0 then
    ⟨.proceed, head.value, p.change fun attr => { attr with community := none }⟩
  else
    let community := communityParse (s.slice head.value head.length)
    let p := p.change fun attr => { attr with community := community }
    head.readUnless peer s (head.value + head.length) p
      (communityRefusal bgpAttrTypeCommunities community.isSome)
      ⟨.proceed, head.value + head.length, p.accept bgpAttrTypeCommunities id⟩

/-- `bgpAttrClusterList`. -/
def clusterListRead : AttrRead :=
  head.readUnless peer s head.value p (lengthRefusal bgpAttrTypeClusterList (head.length % 4 = 0))
    ⟨.proceed, head.value + head.length, p.accept bgpAttrTypeClusterList fun attr =>
      { attr with cluster := some (s.slice head.value head.length) }⟩

/-- `bgpAttrExtCommunities`. -/
def extCommunitiesRead : AttrRead :=
  if head.length = 0 then
    ⟨.proceed, head.value, p.change fun attr => { attr with ecommunity := none }⟩
  else
    let ecommunity := ecommunityParse (s.slice head.value head.length)
    let p := p.change fun attr => { attr with ecommunity := ecommunity }
    head.readUnless peer s (head.value + head.length) p
      (communityRefusal bgpAttrTypeExtCommunities ecommunity.isSome)
      ⟨.proceed, head.value + head.length, p.accept bgpAttrTypeExtCommunities id⟩

/-- `bgpAttrUnknown`. -/
def unknownRead : AttrRead :=
  head.readUnless peer s (head.value + head.length) p (unknownRefusal head)
    ⟨.proceed, head.value + head.length,
      if ¬ checkFlag head.flag bgpAttrFlagTrans then p
      else p.change fun attr =>
        { attr with
          transit :=
            some (attr.transit.getD [] ++ withPartial (s.slice head.startp head.total)) }⟩

end Reads

/-- What the next hop of a multiprotocol attribute changes, if its length is a known one. -/
def mpNexthopChange (s : Stream) (len : UInt8) (pnt : Nat) : Option (PacketAttr → PacketAttr) :=
  if len = 4 then
    some fun attr =>
      { attr with
        mpNexthopGlobalIn := s.slice pnt 4
        nexthop := if attr.nexthop = 0 then longOf (s.slice pnt 4) else attr.nexthop }
  else if len = 12 then
    some fun attr => { attr with mpNexthopGlobalIn := s.slice (pnt + 8) 4 }
  else if len = 16 then
    some fun attr => { attr with mpNexthopGlobal := s.slice pnt 16 }
  else if len = 32 then
    some fun attr =>
      { attr with
        mpNexthopGlobal := s.slice pnt 16
        mpNexthopLocal := s.slice (pnt + 16) 16
        mpNexthopLen := if (Prefix.mk 128 (s.slice (pnt + 16) 16)).linkLocal then 32 else 16 }
  else none

/-- The NLRI of a multiprotocol attribute may go on. -/
def mpSane (s : Stream) (afi safi pnt length : Nat) : Bool :=
  mpSanityCheck s afi safi pnt length = .ok true

/-- The NLRI of a multiprotocol attribute. -/
def mpFieldRead (peer : UpdatePeer) (s : Stream) (afi safi pnt length : Nat)
    (store : BgpNlri → Parsed → Parsed) (p : Parsed) : AttrRead :=
  if mpSane s afi safi pnt length then ⟨.proceed, pnt + length, store ⟨afi, safi, pnt, length⟩ p⟩
  else ⟨.error, pnt, p.notify peer .invalNetwork []⟩

/-- The fields of a reachability attribute after a next hop that ends at an offset. -/
def mpReachRestRead (peer : UpdatePeer) (s : Stream) (afi safi start length pnt : Nat)
    (p : Parsed) : AttrRead :=
  if length - (pnt - start) = 0 then ⟨.error, pnt, p⟩
  else if length - (pnt + 1 - start) = 0 then ⟨.error, pnt + 1, p⟩
  else
    mpFieldRead peer s afi safi (pnt + 1) (length - (pnt + 1 - start))
      (fun nlri p => { p with mpUpdate := nlri }) p

/-- `bgpMpReachParse`. -/
def mpReachRead (peer : UpdatePeer) (s : Stream) (head : AttrHead) (p : Parsed) : AttrRead :=
  if head.length < 5 then ⟨.error, head.value, p⟩
  else
    let afi := (word (s.byte head.value) (s.byte (head.value + 1))).toNat
    let safi := (s.byte (head.value + 2)).toNat
    let len := s.byte (head.value + 3)
    let p := p.change fun attr => { attr with mpNexthopLen := len }
    if head.length - 4 < len.toNat then ⟨.error, head.value + 4, p⟩
    else
      match mpNexthopChange s len (head.value + 4) with
      | none => ⟨.error, head.value + 4, p⟩
      | some change =>
        mpReachRestRead peer s afi safi head.value head.length (head.value + 4 + len.toNat)
          (p.change change)

/-- `bgpMpUnreachParse`. -/
def mpUnreachRead (peer : UpdatePeer) (s : Stream) (head : AttrHead) (p : Parsed) : AttrRead :=
  if head.length < 3 then ⟨.error, head.value, p⟩
  else
    mpFieldRead peer s (word (s.byte head.value) (s.byte (head.value + 1))).toNat
      (s.byte (head.value + 2)).toNat (head.value + 3) (head.length - 3)
      (fun nlri p => { p with mpWithdraw := nlri }) p

/-- `bgpAttrNexthop`. -/
def nexthopRead (peer : UpdatePeer) (s : Stream) (head : AttrHead) (p : Parsed) : AttrRead :=
  longRead peer s head p (nexthopRefusal head) bgpAttrTypeNextHop
    fun nexthop attr => { attr with nexthop := nexthop }

/-- `bgpAttrMed`. -/
def medRead (peer : UpdatePeer) (s : Stream) (head : AttrHead) (p : Parsed) : AttrRead :=
  longRead peer s head p (medRefusal head) bgpAttrTypeMultiExitDisc
    fun med attr => { attr with med := med }

/-- `bgpAttrOriginatorId`. -/
def originatorIdRead (peer : UpdatePeer) (s : Stream) (head : AttrHead) (p : Parsed) : AttrRead :=
  longRead peer s head p (lengthRefusal bgpAttrTypeOriginatorId (head.length = 4))
    bgpAttrTypeOriginatorId fun originatorId attr => { attr with originatorId := originatorId }

/-- `attrHandler`. -/
def handlerRead (peer : UpdatePeer) (s : Stream) (head : AttrHead) (p : Parsed) : AttrRead :=
  match AttrKind.ofType head.type with
  | .origin => originRead peer s head p
  | .asPath => asPathRead peer s head p
  | .as4Path => as4PathRead peer s head p
  | .nextHop => nexthopRead peer s head p
  | .multiExitDisc => medRead peer s head p
  | .localPref => localPrefRead peer s head p
  | .atomicAggregate => atomicRead peer s head p
  | .aggregator => aggregatorRead peer s head p
  | .as4Aggregator => as4AggregatorRead peer s head p
  | .communities => communityRead peer s head p
  | .originatorId => originatorIdRead peer s head p
  | .clusterList => clusterListRead peer s head p
  | .mpReachNlri => mpReachRead peer s head p
  | .mpUnreachNlri => mpUnreachRead peer s head p
  | .extCommunities => extCommunitiesRead peer s head p
  | .unknown => unknownRead peer s head p

/-! ## The handlers read that -/

variable {refusal : Option Refusal}

variable {pnt : Nat}

section Handlers

variable {peer : UpdatePeer} {s : Stream} (fits : s.endp ≤ s.size) {head : AttrHead}
  (inside : head.value + head.length ≤ s.endp) {p : Parsed}

theorem nexthopRefusal_length (accepted : nexthopRefusal head = none) : head.length = 4 := by
  rw [nexthopRefusal] at accepted
  split_ifs at accepted with flags length
  exact not_not.mp length

theorem medRefusal_length (accepted : medRefusal head = none) : head.length = 4 := by
  rw [medRefusal] at accepted
  split_ifs at accepted with optional transitive partially length
  exact not_not.mp length

theorem lengthRefusal_ok {type : UInt8} {ok : Bool} (accepted : lengthRefusal type ok = none) :
    ok = true := by
  rw [lengthRefusal] at accepted
  split_ifs at accepted with holds
  exact holds

theorem mpSanityCheck_ok {afi safi length : Nat} (below : pnt + length ≤ s.endp) :
    mpSanityCheck s afi safi pnt length = .ok (mpSane s afi safi pnt length) := by
  obtain ⟨accepted, checked⟩ : ∃ accepted, mpSanityCheck s afi safi pnt length = .ok accepted := by
    rw [mpSanityCheck]
    split_ifs
    · exact bgpNlriSanityCheck_returns below
    · exact ⟨true, rfl⟩
  rw [mpSane, checked]
  cases accepted <;> rfl

section

include inside

theorem whole_inside : head.startp + head.total ≤ s.endp := by
  rw [AttrHead.value] at inside
  rw [AttrHead.total]
  omega

theorem readable_inside : ¬ head.length > (s.seek head.value).readable := by
  simp only [Stream.readable, Stream.seek_endp, Stream.seek_getp]
  omega

theorem bgpNotifySendWithData_seek (peer : UpdatePeer) (err : UpdateErr) (whole : Bool) (pnt : Nat)
    (p : Parsed) :
    bgpNotifySendWithData peer err (if whole then some (head.startp, head.total) else none)
        ⟨s.seek pnt, p⟩ =
      .ok ⟨s.seek pnt, p.notify peer err
        (notifyData s (if whole then some (head.startp, head.total) else none))⟩ := by
  cases whole with
  | false => rfl
  | true =>
    have there : (s.seek pnt).fetch head.startp head.total =
        .ok (s.slice head.startp head.total) := Stream.fetch_ok (whole_inside inside)
    simp only [if_true, bgpNotifySendWithData, there]
    rfl

theorem refuse_seek (pnt : Nat) (p : Parsed) (refusal : Refusal) :
    head.refuse peer ⟨s.seek pnt, p⟩ refusal = .ok ((head.refused peer s pnt p refusal).on s) := by
  cases refusal with
  | malformed type err whole =>
    rw [AttrHead.refuse, bgpAttrMalformed, AttrHead.refused]
    by_cases notifies : malformedNotifies peer type = true
    · rw [if_pos notifies, if_pos notifies, bgpNotifySendWithData_seek inside peer err whole pnt p]
      rfl
    · rw [if_neg notifies, if_neg notifies]
      rfl
  | reset err =>
    have sent := bgpNotifySendWithData_seek inside peer err true pnt p
    rw [if_pos rfl] at sent
    rw [AttrHead.refuse, sent]
    rfl

theorem unless_seek {p : Parsed}
    {accepted : Except Fault (AttrParseRet × AttrState)} {read : AttrRead}
    (agrees : refusal = none → accepted = .ok (read.on s)) :
    head.unless peer ⟨s.seek pnt, p⟩ refusal accepted =
      .ok ((head.readUnless peer s pnt p refusal read).on s) := by
  cases refusal with
  | none => exact agrees rfl
  | some refusal => exact refuse_seek inside pnt p refusal

end

include fits

theorem mpNexthop_seek {len : UInt8} (below : pnt + len.toNat ≤ s.endp) :
    mpNexthop len ⟨s.seek pnt, p⟩ =
      .ok ((mpNexthopChange s len pnt).map fun change =>
        ⟨s.seek (pnt + len.toNat), p.change change⟩) := by
  rw [mpNexthop, mpNexthopChange]
  by_cases four : len = 4
  · subst four
    have four : pnt + 4 ≤ s.endp := below
    rw [streamGet_seek fits four]
    rfl
  by_cases twelve : len = 12
  · subst twelve
    have third : pnt + 4 + 4 + 4 ≤ s.endp := below
    have first : pnt + 4 ≤ s.endp := by omega
    have second : pnt + 4 + 4 ≤ s.endp := by omega
    simp only [streamGetl_seek fits first, ok_bind, streamGetl_seek fits second,
      streamGet_seek fits third]
    rfl
  by_cases sixteen : len = 16
  · subst sixteen
    have sixteen : pnt + 16 ≤ s.endp := below
    rw [
      streamGet_seek fits sixteen]
    rfl
  by_cases thirtytwo : len = 32
  · subst thirtytwo
    have second : pnt + 16 + 16 ≤ s.endp := below
    have first : pnt + 16 ≤ s.endp := by omega
    simp only [streamGet_seek fits first, ok_bind, streamGet_seek fits second]
    rfl
  rw [if_neg four, if_neg four, if_neg twelve, if_neg twelve, if_neg sixteen, if_neg sixteen,
    if_neg thirtytwo, if_neg thirtytwo]
  rfl

theorem mpField_seek {afi safi length : Nat} (below : pnt + length ≤ s.endp)
    (store : BgpNlri → Parsed → Parsed) :
    mpField peer afi safi length store ⟨s.seek pnt, p⟩ =
      .ok ((mpFieldRead peer s afi safi pnt length store p).on s) := by
  have checked : mpSanityCheck (s.seek pnt) afi safi pnt length =
      .ok (mpSane s afi safi pnt length) := mpSanityCheck_ok below
  simp only [mpField, Stream.seek_getp, checked, ok_bind, mpFieldRead]
  split_ifs
  · simp only [streamForwardGetp_seek fits below]
    rfl
  · rfl

theorem mpReachRest_seek {afi safi start length : Nat} (from' : start ≤ pnt)
    (below : start + length ≤ s.endp) :
    mpReachRest peer afi safi start length ⟨s.seek pnt, p⟩ =
      .ok ((mpReachRestRead peer s afi safi start length pnt p).on s) := by
  simp only [mpReachRest, mpReachRestRead, Stream.seek_getp]
  by_cases short : length - (pnt - start) = 0
  · rw [if_pos short, if_pos short]
    rfl
  have here : pnt + 1 ≤ s.endp := by omega
  rw [if_neg short, if_neg short]
  simp only [streamGetc_seek fits here, ok_bind, Stream.seek_getp]
  have readable : ¬ length - (pnt + 1 - start) > (s.seek (pnt + 1)).readable := by
    simp only [Stream.readable, Stream.seek_endp, Stream.seek_getp]
    omega
  simp only [readable, or_false]
  by_cases empty : length - (pnt + 1 - start) = 0
  · rw [if_pos empty, if_pos empty]
    rfl
  · have field : pnt + 1 + (length - (pnt + 1 - start)) ≤ s.endp := by omega
    rw [if_neg empty, if_neg empty]
    exact mpField_seek fits field _

include inside

theorem bgpAttrOrigin_seek :
    bgpAttrOrigin peer head ⟨s.seek head.value, p⟩ = .ok ((originRead peer s head p).on s) := by
  refine unless_seek inside fun accepted => ?_
  have one : head.length = 1 := by
    rw [originRefusal] at accepted
    split_ifs at accepted with flags length
    exact not_not.mp length
  have here : head.value + 1 ≤ s.endp := by omega
  simp only [streamGetc_seek fits here]
  exact unless_seek inside fun _ => rfl

theorem bgpAttrAspath_seek :
    bgpAttrAspath peer head ⟨s.seek head.value, p⟩ = .ok ((asPathRead peer s head p).on s) := by
  refine unless_seek inside fun _ => ?_
  simp only [aspathParse_seek fits inside]
  exact unless_seek inside fun _ => rfl

theorem bgpAttrAs4Path_seek :
    bgpAttrAs4Path peer head ⟨s.seek head.value, p⟩ = .ok ((as4PathRead peer s head p).on s) := by
  refine unless_seek inside fun _ => ?_
  simp only [aspathParse_seek fits inside]
  exact unless_seek inside fun _ => rfl

theorem longHandler_seek (four : refusal = none → head.length = 4)
    (type : UInt8) (store : UInt32 → PacketAttr → PacketAttr) :
    longHandler peer head refusal type store ⟨s.seek head.value, p⟩ =
      .ok ((longRead peer s head p refusal type store).on s) := by
  refine unless_seek inside fun accepted => ?_
  have here : head.value + 4 ≤ s.endp := by
    have := four accepted
    omega
  simp only [streamGetl_seek fits here]
  rfl

theorem bgpAttrLocalPref_seek :
    bgpAttrLocalPref peer head ⟨s.seek head.value, p⟩ =
      .ok ((localPrefRead peer s head p).on s) := by
  rw [bgpAttrLocalPref, localPrefRead]
  split_ifs with ebgp four
  · refine unless_seek inside fun _ => ?_
    simp only [streamForwardGetp_seek fits inside]
    rfl
  · exact longHandler_seek fits inside (fun _ => four) _ _
  · exact unless_seek inside fun _ => rfl

theorem bgpAttrAggregator_seek :
    bgpAttrAggregator peer head ⟨s.seek head.value, p⟩ =
      .ok ((aggregatorRead peer s head p).on s) := by
  refine unless_seek inside fun accepted => ?_
  have wanted : head.length = asValueSize peer.as4Rcv + 4 := by
    simpa using lengthRefusal_ok accepted
  have as : head.value + asValueSize peer.as4Rcv ≤ s.endp := by omega
  have addr : head.value + asValueSize peer.as4Rcv + 4 ≤ s.endp := by omega
  simp only [readAs_seek fits as, ok_bind, streamGetl_seek fits addr]
  rfl

theorem bgpAttrAs4Aggregator_seek :
    bgpAttrAs4Aggregator peer head ⟨s.seek head.value, p⟩ =
      .ok ((as4AggregatorRead peer s head p).on s) := by
  refine unless_seek inside fun accepted => ?_
  have wanted : head.length = 8 := by simpa using lengthRefusal_ok accepted
  have as : head.value + 4 ≤ s.endp := by omega
  have addr : head.value + 4 + 4 ≤ s.endp := by omega
  simp only [streamGetl_seek fits as, ok_bind, streamGetl_seek fits addr]
  rfl

theorem copyHandler_seek
    (next : List UInt8 → AttrState → Except Fault (AttrParseRet × AttrState)) :
    copyHandler head ⟨s.seek head.value, p⟩ next =
      next (s.slice head.value head.length) ⟨s.seek (head.value + head.length), p⟩ := by
  have copied : (s.seek head.value).fetch head.value head.length =
      .ok (s.slice head.value head.length) := Stream.fetch_ok inside
  simp only [copyHandler, Stream.seek_getp, copied, ok_bind, streamForwardGetp_seek fits inside]

theorem bgpAttrCommunity_seek :
    bgpAttrCommunity peer head ⟨s.seek head.value, p⟩ =
      .ok ((communityRead peer s head p).on s) := by
  rw [bgpAttrCommunity, communityRead]
  split_ifs with empty
  · rfl
  · rw [copyHandler_seek fits inside]
    exact unless_seek inside fun _ => rfl

theorem bgpAttrClusterList_seek :
    bgpAttrClusterList peer head ⟨s.seek head.value, p⟩ =
      .ok ((clusterListRead peer s head p).on s) := by
  refine unless_seek inside fun _ => ?_
  rw [copyHandler_seek fits inside]
  rfl

theorem bgpAttrExtCommunities_seek :
    bgpAttrExtCommunities peer head ⟨s.seek head.value, p⟩ =
      .ok ((extCommunitiesRead peer s head p).on s) := by
  rw [bgpAttrExtCommunities, extCommunitiesRead]
  split_ifs with empty
  · rfl
  · rw [copyHandler_seek fits inside]
    exact unless_seek inside fun _ => rfl

theorem bgpAttrUnknown_seek :
    bgpAttrUnknown peer head ⟨s.seek head.value, p⟩ =
      .ok ((unknownRead peer s head p).on s) := by
  simp only [bgpAttrUnknown, streamForwardGetp_seek fits inside]
  refine unless_seek inside fun _ => ?_
  have copied : (s.seek (head.value + head.length)).fetch head.startp head.total =
      .ok (s.slice head.startp head.total) := Stream.fetch_ok (whole_inside inside)
  split_ifs with transitive
  · simp only [copied]
    rfl
  · rfl

theorem bgpMpReachParse_seek :
    bgpMpReachParse peer head ⟨s.seek head.value, p⟩ =
      .ok ((mpReachRead peer s head p).on s) := by
  simp only [bgpMpReachParse, mpReachRead, readable_inside inside, false_or]
  by_cases short : head.length < 5
  · rw [if_pos short, if_pos short]
    rfl
  have afi : head.value + 2 ≤ s.endp := by omega
  have safi : head.value + 2 + 1 ≤ s.endp := by omega
  have len : head.value + 2 + 1 + 1 ≤ s.endp := by omega
  rw [if_neg short, if_neg short]
  simp only [streamGetw_seek fits afi, ok_bind, streamGetc_seek fits safi,
    streamGetc_seek fits len, Stream.seek_getp,
    show head.value + 2 + 1 + 1 - head.value = 4 by omega]
  by_cases excess : head.length - 4 < (s.byte (head.value + 2 + 1)).toNat
  · rw [if_pos excess, if_pos excess]
    rfl
  rw [if_neg excess, if_neg excess]
  have nexthop : head.value + 2 + 1 + 1 + (s.byte (head.value + 2 + 1)).toNat ≤ s.endp := by omega
  rw [mpNexthop_seek fits nexthop, ok_bind]
  cases mpNexthopChange s (s.byte (head.value + 2 + 1)) (head.value + 2 + 1 + 1) with
  | none => rfl
  | some change =>
    have from' : head.value ≤
        head.value + 2 + 1 + 1 + (s.byte (head.value + 2 + 1)).toNat := by omega
    simp only [Option.map_some]
    rw [mpReachRest_seek fits from' inside]

theorem bgpMpUnreachParse_seek :
    bgpMpUnreachParse peer head ⟨s.seek head.value, p⟩ =
      .ok ((mpUnreachRead peer s head p).on s) := by
  simp only [bgpMpUnreachParse, mpUnreachRead, readable_inside inside, false_or]
  split_ifs with short
  · rfl
  have afi : head.value + 2 ≤ s.endp := by omega
  have safi : head.value + 2 + 1 ≤ s.endp := by omega
  have field : head.value + 2 + 1 + (head.length - 3) ≤ s.endp := by omega
  simp only [streamGetw_seek fits afi, ok_bind, streamGetc_seek fits safi]
  exact mpField_seek fits field _

/-- **Every handler does what the bytes of its attribute say.** -/
theorem attrHandler_seek :
    attrHandler peer head ⟨s.seek head.value, p⟩ = .ok ((handlerRead peer s head p).on s) := by
  rw [attrHandler, handlerRead]
  cases AttrKind.ofType head.type with
  | origin => exact bgpAttrOrigin_seek fits inside
  | asPath => exact bgpAttrAspath_seek fits inside
  | as4Path => exact bgpAttrAs4Path_seek fits inside
  | nextHop => exact longHandler_seek fits inside nexthopRefusal_length _ _
  | multiExitDisc => exact longHandler_seek fits inside medRefusal_length _ _
  | localPref => exact bgpAttrLocalPref_seek fits inside
  | atomicAggregate => exact unless_seek inside fun _ => rfl
  | aggregator => exact bgpAttrAggregator_seek fits inside
  | as4Aggregator => exact bgpAttrAs4Aggregator_seek fits inside
  | communities => exact bgpAttrCommunity_seek fits inside
  | originatorId =>
    exact longHandler_seek fits inside (fun accepted => by simpa using lengthRefusal_ok accepted)
      _ _
  | clusterList => exact bgpAttrClusterList_seek fits inside
  | mpReachNlri => exact bgpMpReachParse_seek fits inside
  | mpUnreachNlri => exact bgpMpUnreachParse_seek fits inside
  | extCommunities => exact bgpAttrExtCommunities_seek fits inside
  | unknown => exact bgpAttrUnknown_seek fits inside

end Handlers

/-! ## What the parser reads -/

/-- The header of the attribute at a place. -/
def headAt (s : Stream) (pnt : Nat) : AttrHead where
  flag := s.byte pnt
  type := s.byte (pnt + 1)
  length :=
    if checkFlag (s.byte pnt) bgpAttrFlagExtlen then
      (word (s.byte (pnt + 2)) (s.byte (pnt + 3))).toNat
    else (s.byte (pnt + 2)).toNat
  startp := pnt

/-- Where the attribute ends. -/
def AttrHead.attrEnd (head : AttrHead) : Nat := head.value + head.length

theorem AttrHead.size_pos (flag : UInt8) : 3 ≤ AttrHead.size flag := by
  rw [AttrHead.size]
  split_ifs <;> omega

/-- An error that is reported without data. -/
def errorRead (peer : UpdatePeer) (err : UpdateErr) (pnt : Nat) (p : Parsed) : AttrRead :=
  ⟨.error, pnt, p.notify peer err []⟩

/-- What follows from what a handler has read. -/
def afterRead (peer : UpdatePeer) (attrEnd : Nat) (read : AttrRead) :
    Pass (Nat × Parsed) AttrRead :=
  match read.ret with
  | .error => .leave (errorRead peer .malAttr read.pnt read.parsed)
  | .withdraw => .leave read
  | .proceed =>
    if read.pnt ≠ attrEnd then .leave (errorRead peer .attrLengErr read.pnt read.parsed)
    else .again (read.pnt, read.parsed)

/-- What is made of an attribute after its header. -/
def valueRead (peer : UpdatePeer) (s : Stream) (stop : Nat) (head : AttrHead) (p : Parsed) :
    Pass (Nat × Parsed) AttrRead :=
  if head.type ∈ p.seen then .leave (errorRead peer .malAttr head.value p)
  else
    let p := { p with seen := head.type :: p.seen }
    if head.attrEnd > stop then .leave (errorRead peer .attrLengErr head.value p)
    else afterRead peer head.attrEnd (handlerRead peer s head p)

/-- What is made of the attribute at a place. -/
def attrStep (peer : UpdatePeer) (s : Stream) (stop : Nat) (t : Nat × Parsed) :
    Pass (Nat × Parsed) AttrRead :=
  if stop - t.1 < 3 then .leave (errorRead peer .attrLengErr t.1 t.2)
  else
    let head := headAt s t.1
    let p := { t.2 with flag := head.flag }
    if checkFlag head.flag bgpAttrFlagExtlen ∧ stop - t.1 < 4 then
      .leave (errorRead peer .attrLengErr (t.1 + 2) p)
    else valueRead peer s stop head p

/-- What the parser has noted when it calls the handler of an attribute. -/
def Parsed.begin (p : Parsed) (head : AttrHead) : Parsed :=
  { p with flag := head.flag, seen := head.type :: p.seen }

variable {stop : Nat}

/-- A step is an error, or follows from what the handler of a new attribute inside the block
reads. -/
theorem attrStep_cases (stop : Nat) (peer : UpdatePeer) (s : Stream) (t : Nat × Parsed) :
    (∃ err pnt p, attrStep peer s stop t = .leave (errorRead peer err pnt p)) ∨
      (headAt s t.1).type ∉ t.2.seen ∧ (headAt s t.1).attrEnd ≤ stop ∧
        attrStep peer s stop t = afterRead peer (headAt s t.1).attrEnd
          (handlerRead peer s (headAt s t.1) (t.2.begin (headAt s t.1))) := by
  simp only [attrStep, valueRead]
  split_ifs with short extended twice excess
  · exact .inl ⟨_, _, _, rfl⟩
  · exact .inl ⟨_, _, _, rfl⟩
  · exact .inl ⟨_, _, _, rfl⟩
  · exact .inl ⟨_, _, _, rfl⟩
  · exact .inr ⟨twice, Nat.le_of_not_gt excess, rfl⟩

variable {t t' : Nat × Parsed}

/-- Only an attribute that its handler accepts and consumes is followed by another one. -/
theorem attrStep_again {peer : UpdatePeer} {s : Stream}
    (stepped : attrStep peer s stop t = .again t') :
    (headAt s t.1).type ∉ t.2.seen ∧ (headAt s t.1).attrEnd ≤ stop ∧
      t'.1 = (headAt s t.1).attrEnd ∧
      handlerRead peer s (headAt s t.1) (t.2.begin (headAt s t.1)) =
        ⟨.proceed, (headAt s t.1).attrEnd, t'.2⟩ := by
  obtain ⟨err, pnt, p, left⟩ | ⟨new, inside, read⟩ := attrStep_cases stop peer s t
  · rw [left] at stepped
    cases stepped
  refine ⟨new, inside, ?_⟩
  rw [read] at stepped
  generalize handlerRead peer s (headAt s t.1) (t.2.begin (headAt s t.1)) = read at stepped
  obtain ⟨ret, pnt, parsed⟩ := read
  cases ret with
  | error => cases stepped
  | withdraw => cases stepped
  | proceed =>
    rw [afterRead] at stepped
    split_ifs at stepped with there
    obtain rfl := not_not.mp there
    cases stepped
    exact ⟨rfl, rfl⟩

/-- The loop of `bgp_attr_parse` as a walk over places. -/
def attrWalk (peer : UpdatePeer) (s : Stream) (stop : Nat) : Walk (Nat × Parsed) AttrRead where
  guard t := t.1 < stop
  step := attrStep peer s stop
  measure t := stop - t.1
  falls := by
    intro t t' going stepped
    have inside : t.1 < stop := of_decide_eq_true going
    have next := (attrStep_again stepped).2.2.1
    have size := AttrHead.size_pos (headAt s t.1).flag
    have start : (headAt s t.1).startp = t.1 := rfl
    rw [AttrHead.attrEnd, AttrHead.value] at next
    omega

/-- What `bgp_attr_parse` makes of the attributes in a block. -/
def attrsRead (peer : UpdatePeer) (s : Stream) (pnt size : Nat) (p : Parsed) : AttrRead :=
  match (attrWalk peer s (pnt + size)).run (pnt, p) with
  | .leave read => read
  | .again t => ⟨(attrsParsed peer t.2).1, t.1, (attrsParsed peer t.2).2⟩

section Parser

variable {peer : UpdatePeer} {s : Stream} (fits : s.endp ≤ s.size)

/-- The state of the loop at a place. -/
def attrView (s : Stream) (t : Nat × Parsed) : AttrState := ⟨s.seek t.1, t.2⟩

theorem afterHandler_on (attrEnd : Nat) (read : AttrRead) :
    afterHandler peer attrEnd (read.on s) =
      (afterRead peer attrEnd read).map (attrView s) (AttrRead.on s) := by
  obtain ⟨ret, pnt, parsed⟩ := read
  cases ret with
  | error => rfl
  | withdraw => rfl
  | proceed =>
    by_cases there : pnt = attrEnd
    · simp only [AttrRead.on, afterHandler, afterRead, Stream.seek_getp, there, ne_eq]
      rfl
    · simp only [AttrRead.on, afterHandler, afterRead, Stream.seek_getp, there, ne_eq]
      rfl

include fits in
theorem attrValue_seek (inside : stop ≤ s.endp) (head : AttrHead) (p : Parsed) :
    attrValue peer stop head ⟨s.seek head.value, p⟩ =
      .ok ((valueRead peer s stop head p).map (attrView s) (AttrRead.on s)) := by
  rw [attrValue, valueRead]
  dsimp only
  rw [Stream.seek_getp, ← AttrHead.attrEnd]
  split_ifs with twice excess
  · rfl
  · rfl
  · have within : head.value + head.length ≤ s.endp := by
      rw [AttrHead.attrEnd] at excess
      omega
    rw [attrHandler_seek fits within, ok_bind, afterHandler_on]
    rfl

include fits in
theorem readAttrLength_seek (inside : pnt + AttrHead.size (s.byte pnt) ≤ s.endp) :
    readAttrLength (s.byte pnt) (s.seek (pnt + 2)) =
      .ok ((headAt s pnt).length, s.seek (headAt s pnt).value) := by
  simp only [readAttrLength, headAt, AttrHead.value]
  by_cases extended : checkFlag (s.byte pnt) bgpAttrFlagExtlen = true
  · simp only [AttrHead.size, extended] at inside ⊢
    have two : pnt + 2 + 2 ≤ s.endp := inside
    simp only [streamGetw_seek fits two]
    rfl
  · simp only [AttrHead.size, extended] at inside ⊢
    have one : pnt + 2 + 1 ≤ s.endp := inside
    simp only [streamGetc_seek fits one]
    rfl

include fits in
theorem attrBody_seek (inside : stop ≤ s.endp) (t : Nat × Parsed) :
    attrBody peer stop (attrView s t) =
      .ok ((attrStep peer s stop t).map (attrView s) (AttrRead.on s)) := by
  obtain ⟨pnt, p⟩ := t
  have getp_eq : (attrView s (pnt, p)).s.getp = pnt := rfl
  rw [attrBody, attrStep, getp_eq]
  split_ifs with short
  · rfl
  have flag : pnt + 1 ≤ s.endp := by omega
  have type : pnt + 1 + 1 ≤ s.endp := by omega
  simp only [attrView, streamGetc_seek fits flag, ok_bind, streamGetc_seek fits type]
  have flag_eq : (headAt s pnt).flag = s.byte pnt := rfl
  rw [flag_eq]
  split_ifs with extended
  · rfl
  · have header : pnt + AttrHead.size (s.byte pnt) ≤ s.endp := by
      rw [AttrHead.size]
      split_ifs with extlen
      · have enough : ¬ stop - pnt < 4 := fun few => extended ⟨extlen, few⟩
        omega
      · omega
    rw [readAttrLength_seek fits header]
    exact attrValue_seek fits inside (headAt s pnt) _

theorem attrWalk_end (le : t.1 ≤ stop)
    (walked : (attrWalk peer s stop).run t = .again t') : t'.1 = stop := by
  have below : ∀ t t' : Nat × Parsed, t.1 ≤ stop → (attrWalk peer s stop).guard t = true →
      (attrWalk peer s stop).step t = .again t' → t'.1 ≤ stop := by
    intro t t' _ _ stepped
    obtain ⟨-, ends, there, -⟩ := attrStep_again stepped
    exact there.trans_le ends
  obtain ⟨le', done⟩ := Walk.run_again (fun t => t.1 ≤ stop) below le walked
  have notBelow : ¬ t'.1 < stop := of_decide_eq_false done
  omega

include fits in
/-- **The parser reads what the bytes of the attributes say.** It reads nothing beyond them, and
no assertion fails. -/
theorem bgpAttrParse_seek {size : Nat} (inside : pnt + size ≤ s.endp) (p : Parsed) :
    bgpAttrParse peer size ⟨s.seek pnt, p⟩ = .ok ((attrsRead peer s pnt size p).on s) := by
  have walked : (attrLoop peer (pnt + size)).run (attrView s (pnt, p)) = _ :=
    Loop.run_eq_walk _ (attrWalk peer s (pnt + size)) (fun _ => True) (attrView s) (AttrRead.on s)
      (fun _ _ => rfl) (fun t _ _ => attrBody_seek fits inside t) (fun _ _ _ _ _ => trivial)
      (pnt, p) trivial
  rw [bgpAttrParse, attrsRead]
  simp only [attrView, Stream.seek_getp] at walked ⊢
  rw [walked, ok_bind]
  cases ended : (attrWalk peer s (pnt + size)).run (pnt, p) with
  | leave read => rfl
  | again t =>
    have atEnd : t.1 = pnt + size := attrWalk_end (Nat.le_add_right _ _) ended
    have there : ¬ (attrView s t).s.getp ≠ pnt + size := not_not.mpr atEnd
    simp only [Pass.map, there]
    rfl

end Parser

/-! ## Attributes that tile the block -/

/-- The attributes from an offset on tile a block up to its end: each starts where the one before
it ends, and its handler accepts it and leaves the input at its declared end. -/
inductive AttrsTile (peer : UpdatePeer) (s : Stream) (stop : Nat) : Nat → Parsed → Parsed → Prop
  | done (p : Parsed) : AttrsTile peer s stop stop p p
  | attr {pnt : Nat} {p p' p'' : Parsed}
      (handled : attrHandler peer (headAt s pnt)
          ⟨s.seek (headAt s pnt).value, p.begin (headAt s pnt)⟩ =
        .ok (.proceed, ⟨s.seek (headAt s pnt).attrEnd, p'⟩))
      (rest : AttrsTile peer s stop (headAt s pnt).attrEnd p' p'') :
      AttrsTile peer s stop pnt p p''

section Tiles

variable {peer : UpdatePeer} {s : Stream} (fits : s.endp ≤ s.size)

theorem afterRead_leave {attrEnd : Nat} {read read' : AttrRead}
    (left : afterRead peer attrEnd read = .leave read') :
    read'.ret ≠ .proceed ∧ (read'.ret = .withdraw → read.ret = .withdraw ∧ read' = read) := by
  obtain ⟨ret, pnt, parsed⟩ := read
  cases ret with
  | error =>
    cases left
    exact ⟨by simp [errorRead], by simp [errorRead]⟩
  | withdraw =>
    cases left
    exact ⟨by simp, by simp⟩
  | proceed =>
    rw [afterRead] at left
    split_ifs at left
    cases left
    exact ⟨by simp [errorRead], by simp [errorRead]⟩

/-- The walk is left with an error, or because a handler asks for it. -/
theorem attrStep_leave {t : Nat × Parsed} {read : AttrRead}
    (left : attrStep peer s stop t = .leave read) :
    read.ret ≠ .proceed ∧
      (read.ret = .withdraw →
        (headAt s t.1).type ∉ t.2.seen ∧ (headAt s t.1).attrEnd ≤ stop ∧
          handlerRead peer s (headAt s t.1) (t.2.begin (headAt s t.1)) = read) := by
  obtain ⟨err, pnt, p, error⟩ | ⟨new, inside, stepped⟩ := attrStep_cases stop peer s t
  · cases error.symm.trans left
    exact ⟨by simp [errorRead], by simp [errorRead]⟩
  · obtain ⟨notProceed, handler⟩ := afterRead_leave (stepped.symm.trans left)
    exact ⟨notProceed, fun withdraw => ⟨new, inside, ((handler withdraw).2).symm⟩⟩

include fits

/-- Attributes that the walk passes tile the block. -/
theorem attrWalk_tiles (inside : stop ≤ s.endp)
    (le : t.1 ≤ stop) (walked : (attrWalk peer s stop).run t = .again t') :
    AttrsTile peer s stop t.1 t.2 t'.2 := by
  induction t using Walk.induction (attrWalk peer s stop) with
  | step t ih =>
    cases going : (attrWalk peer s stop).guard t with
    | false =>
      have atEnd : t.1 = stop := by
        have notBelow : ¬ t.1 < stop := of_decide_eq_false going
        omega
      rw [Walk.run_of_done going] at walked
      cases walked
      rw [atEnd]
      exact .done _
    | true =>
      cases stepped : (attrWalk peer s stop).step t with
      | leave read =>
        rw [Walk.run_of_leave going stepped] at walked
        cases walked
      | again next =>
        rw [Walk.run_of_again going stepped] at walked
        obtain ⟨-, below, there, read⟩ := attrStep_again stepped
        have within : (headAt s t.1).value + (headAt s t.1).length ≤ s.endp :=
          Nat.le_trans below inside
        have rest := ih next going stepped (there.trans_le below) walked
        rw [there] at rest
        refine .attr ?_ rest
        rw [attrHandler_seek fits within]
        exact congrArg (fun r => Except.ok (AttrRead.on s r)) read

/-- **Attributes that are accepted tile the block, and every handler has consumed exactly the
length that its attribute declares.** -/
theorem bgpAttrParse_tiles {size : Nat} (inside : pnt + size ≤ s.endp) {p : Parsed}
    {st : AttrState} (accepted : bgpAttrParse peer size ⟨s.seek pnt, p⟩ = .ok (.proceed, st)) :
    st.s = s.seek (pnt + size) ∧ ∃ p', AttrsTile peer s (pnt + size) pnt p p' := by
  rw [bgpAttrParse_seek fits inside] at accepted
  have read := Except.ok.inj accepted
  rw [attrsRead] at read
  cases walked : (attrWalk peer s (pnt + size)).run (pnt, p) with
  | leave left =>
    obtain ⟨t', -, -, stepped⟩ :=
      Walk.run_leave (fun _ => True) (fun _ _ _ _ _ => trivial) trivial walked
    rw [walked] at read
    exact absurd (congrArg Prod.fst read) (attrStep_leave stepped).1
  | again t =>
    have atEnd : t.1 = pnt + size := attrWalk_end (Nat.le_add_right _ _) walked
    rw [walked] at read
    have there : s.seek t.1 = st.s := congrArg (fun r => r.2.s) read
    rw [atEnd] at there
    exact ⟨there.symm, t.2, attrWalk_tiles fits inside (Nat.le_add_right _ _) walked⟩

end Tiles

/-! ## Requests to withdraw -/

/-- The `AS4_PATH` that makes `bgp_attr_parse` ask for the routes to be withdrawn. -/
structure MalformedAs4Path (peer : UpdatePeer) (s : Stream) (head : AttrHead) : Prop where
  ebgp : peer.sort = .ebgp
  type_eq : head.type = bgpAttrTypeAs4Path
  optional : checkFlag head.flag bgpAttrFlagOptional = true
  transitive : checkFlag head.flag bgpAttrFlagTrans = true
  partially : checkFlag head.flag bgpAttrFlagPartial = true
  noPath : (aspathRead s true head.value head.length).1 = none

theorem attrsParsed_ne_withdraw (peer : UpdatePeer) (p : Parsed) :
    (attrsParsed peer p).1 ≠ .withdraw := by
  have checked : ∀ aspath p, (bgpAttrAspathCheck peer aspath p).1 ≠ .withdraw := by
    intro aspath p
    rw [bgpAttrAspathCheck]
    split_ifs <;> simp
  rw [attrsParsed]
  split
  · split
    · split_ifs
      · exact checked _ _
      · simp
    · simp
  · simp

end Quagga.Bgpd
