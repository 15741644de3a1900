import Quagga.Bgpd.AspathWire
import Quagga.Bgpd.Nlri
import Quagga.Bgpd.OpenReceive

/-!
# The path attributes of an UPDATE

`bgp_attr_parse` goes through the attributes of an UPDATE. Each has a byte of flags, a type, a
length of one or two bytes and a value, which the handler of its type reads. A handler may accept
the attribute, refuse it, or ask that the routes be withdrawn, and afterwards the cursor has to
stand at the end of the attribute.

A refusal mostly resets the session. For a neighbour of another AS some errors are passed over,
and one makes the parser return early with the request to withdraw (`bgp_attr_malformed`).
-/

set_option autoImplicit false

namespace Quagga.Bgpd

open Lib Library

/-! ## Attribute types, flags and errors -/

/-- `BGP_ATTR_ORIGIN`. -/
def bgpAttrTypeOrigin : UInt8 := 1

/-- `BGP_ATTR_AS_PATH`. -/
def bgpAttrTypeAsPath : UInt8 := 2

/-- `BGP_ATTR_NEXT_HOP`. -/
def bgpAttrTypeNextHop : UInt8 := 3

/-- `BGP_ATTR_MULTI_EXIT_DISC`. -/
def bgpAttrTypeMultiExitDisc : UInt8 := 4

/-- `BGP_ATTR_LOCAL_PREF`. -/
def bgpAttrTypeLocalPref : UInt8 := 5

/-- `BGP_ATTR_ATOMIC_AGGREGATE`. -/
def bgpAttrTypeAtomicAggregate : UInt8 := 6

/-- `BGP_ATTR_AGGREGATOR`. -/
def bgpAttrTypeAggregator : UInt8 := 7

/-- `BGP_ATTR_COMMUNITIES`. -/
def bgpAttrTypeCommunities : UInt8 := 8

/-- `BGP_ATTR_ORIGINATOR_ID`. -/
def bgpAttrTypeOriginatorId : UInt8 := 9

/-- `BGP_ATTR_CLUSTER_LIST`. -/
def bgpAttrTypeClusterList : UInt8 := 10

/-- `BGP_ATTR_MP_REACH_NLRI`. -/
def bgpAttrTypeMpReachNlri : UInt8 := 14

/-- `BGP_ATTR_MP_UNREACH_NLRI`. -/
def bgpAttrTypeMpUnreachNlri : UInt8 := 15

/-- `BGP_ATTR_EXT_COMMUNITIES`. -/
def bgpAttrTypeExtCommunities : UInt8 := 16

/-- `BGP_ATTR_AS4_PATH`. -/
def bgpAttrTypeAs4Path : UInt8 := 17

/-- `BGP_ATTR_AS4_AGGREGATOR`. -/
def bgpAttrTypeAs4Aggregator : UInt8 := 18

/-- `BGP_ATTR_FLAG_OPTIONAL`. -/
def bgpAttrFlagOptional : UInt8 := 0x80

/-- `BGP_ATTR_FLAG_TRANS`. -/
def bgpAttrFlagTrans : UInt8 := 0x40

/-- `BGP_ATTR_FLAG_PARTIAL`. -/
def bgpAttrFlagPartial : UInt8 := 0x20

/-- `BGP_ATTR_FLAG_EXTLEN`: the length takes two bytes. -/
def bgpAttrFlagExtlen : UInt8 := 0x10

/-- `CHECK_FLAG`. -/
def checkFlag (flag mask : UInt8) : Bool := flag &&& mask ≠ 0

/-- `BGP_NOTIFY_UPDATE_ERR`. -/
def bgpNotifyUpdateErr : Nat := 3

/-- The subcodes of an UPDATE error. -/
inductive UpdateErr where
  | malAttr
  | unrecAttr
  | missAttr
  | attrFlagErr
  | attrLengErr
  | invalOrigin
  | optAttrErr
  | invalNetwork
  | malAsPath
  deriving DecidableEq

/-- Their numbers. -/
def UpdateErr.subcode : UpdateErr → Nat
  | .malAttr => 1
  | .unrecAttr => 2
  | .missAttr => 3
  | .attrFlagErr => 4
  | .attrLengErr => 5
  | .invalOrigin => 6
  | .optAttrErr => 9
  | .invalNetwork => 10
  | .malAsPath => 11

/-! ## What is parsed -/

/-- `struct attr` with its `extra` part, as the parser fills it. Addresses are in host byte
order; an extended community is eight bytes, and the cluster list and the unknown attributes are
the bytes that were copied. -/
structure PacketAttr where
  flag : Nat
  origin : UInt8
  aspath : Option Aspath
  nexthop : UInt32
  med : UInt32
  localPref : UInt32
  community : Option (List UInt32)
  aggregatorAs : UInt32
  aggregatorAddr : UInt32
  originatorId : UInt32
  cluster : Option (List UInt8)
  ecommunity : Option (List (List UInt8))
  transit : Option (List UInt8)
  mpNexthopLen : UInt8
  mpNexthopGlobalIn : List UInt8
  mpNexthopGlobal : List UInt8
  mpNexthopLocal : List UInt8
  deriving DecidableEq

namespace PacketAttr

/-- After `memset`. -/
def zero : PacketAttr :=
  { flag := 0, origin := 0, aspath := none, nexthop := 0, med := 0, localPref := 0
    community := none, aggregatorAs := 0, aggregatorAddr := 0, originatorId := 0, cluster := none
    ecommunity := none, transit := none, mpNexthopLen := 0, mpNexthopGlobalIn := [0, 0, 0, 0]
    mpNexthopGlobal := List.replicate 16 0, mpNexthopLocal := List.replicate 16 0 }

/-- Whether `ATTR_FLAG_BIT (type)` is set. -/
def has (attr : PacketAttr) (type : UInt8) : Bool := attr.flag.testBit (type.toNat - 1)

/-- `attr->flag |= ATTR_FLAG_BIT (type)`. -/
def set (attr : PacketAttr) (type : UInt8) : PacketAttr :=
  { attr with flag := attr.flag ||| 1 <<< (type.toNat - 1) }

theorem has_set (attr : PacketAttr) (type type' : UInt8) :
    (attr.set type).has type' =
      (attr.has type' || decide (type.toNat - 1 = type'.toNat - 1)) := by
  rw [has, set, Nat.testBit_or, Nat.one_shiftLeft, Nat.testBit_two_pow]
  rfl

end PacketAttr

/-- What `bgp_attr_parse` has besides its input: the attributes, the fields for multiprotocol
NLRI, its own variables and the notifications sent. -/
structure Parsed where
  attr : PacketAttr
  flag : UInt8
  seen : List UInt8
  as4Path : Option Aspath
  as4Aggregator : UInt32
  as4AggregatorAddr : UInt32
  mpUpdate : BgpNlri
  mpWithdraw : BgpNlri
  notified : List Notification
  deriving DecidableEq

namespace Parsed

/-- Before anything is parsed. -/
def zero : Parsed :=
  { attr := PacketAttr.zero, flag := 0, seen := [], as4Path := none, as4Aggregator := 0
    as4AggregatorAddr := 0, mpUpdate := ⟨0, 0, 0, 0⟩, mpWithdraw := ⟨0, 0, 0, 0⟩, notified := [] }

/-- Change the attributes and set the flag of a type. -/
def accept (p : Parsed) (type : UInt8) (change : PacketAttr → PacketAttr) : Parsed :=
  { p with attr := (change p.attr).set type }

/-- Change the attributes only. -/
def change (p : Parsed) (change : PacketAttr → PacketAttr) : Parsed :=
  { p with attr := change p.attr }

end Parsed

/-- What is read of `struct peer` for an UPDATE. `sort` is what `peer_sort` gives. A local AS of
its own is refused for a peer of the same AS. -/
structure UpdatePeer where
  ptr : Nat
  status : PeerStatus
  afc : Nat → Nat → Bool
  nsf : Nat → Nat → Bool
  sort : PeerSort
  as : Nat
  as4Rcv : Bool
  enforceFirstAs : Bool
  changeLocalAs : Nat
  localAsNoPrepend : Bool
  ibgp_localAs : sort = .ibgp → changeLocalAs = 0

/-- `bgp_attr_parse_ret_t`. -/
inductive AttrParseRet where
  | proceed
  | error
  | withdraw
  deriving DecidableEq

/-- The input and what has been parsed of it. -/
structure AttrState where
  s : Stream
  parsed : Parsed

/-- The header of an attribute with the place at which it starts. -/
structure AttrHead where
  flag : UInt8
  type : UInt8
  length : Nat
  startp : Nat
  deriving DecidableEq

/-- The bytes before the value. -/
def AttrHead.size (flag : UInt8) : Nat := if checkFlag flag bgpAttrFlagExtlen then 4 else 3

variable (head : AttrHead)

/-- `total`: the attribute with its header. -/
def AttrHead.total : Nat := head.length + AttrHead.size head.flag

/-- Where the value starts. -/
def AttrHead.value : Nat := head.startp + AttrHead.size head.flag

/-! ## Attributes that are refused -/

/-- `bgp_notify_send_with_data` for an error in an UPDATE. -/
def Parsed.notify (p : Parsed) (peer : UpdatePeer) (err : UpdateErr) (data : List UInt8) : Parsed :=
  { p with notified := p.notified ++ [⟨peer.ptr, bgpNotifyUpdateErr, err.subcode, data⟩] }

variable (peer : UpdatePeer)

/-- Send a notification with bytes of the message, if a pointer to them is given. -/
def bgpNotifySendWithData (err : UpdateErr) (data : Option (Nat × Nat))
    (st : AttrState) : Except Fault AttrState :=
  match data with
  | none => .ok { st with parsed := st.parsed.notify peer err [] }
  | some (startp, length) => do
      let bytes ← st.s.fetch startp length
      return { st with parsed := st.parsed.notify peer err bytes }

/-- The types whose errors always reset the session. -/
def coreAttributes : List UInt8 :=
  [bgpAttrTypeOrigin, bgpAttrTypeAsPath, bgpAttrTypeNextHop, bgpAttrTypeMultiExitDisc,
    bgpAttrTypeLocalPref, bgpAttrTypeCommunities, bgpAttrTypeOriginatorId, bgpAttrTypeClusterList,
    bgpAttrTypeMpReachNlri, bgpAttrTypeMpUnreachNlri, bgpAttrTypeExtCommunities]

/-- The types whose errors are passed over. -/
def inconsequentialAttributes : List UInt8 :=
  [bgpAttrTypeAs4Aggregator, bgpAttrTypeAggregator, bgpAttrTypeAtomicAggregate]

theorem forall_mem_of_all {P : UInt8 → Prop} [DecidablePred P] {types : List UInt8}
    (all : (types.all fun type => decide (P type)) = true) : ∀ type ∈ types, P type := by
  simpa using all

variable (type : UInt8)

/-- Whether `bgp_attr_malformed` sends a notification. -/
def malformedNotifies : Bool :=
  peer.sort ≠ .ebgp ∨ type ∈ coreAttributes

/-- What `bgp_attr_malformed` returns otherwise. -/
def malformedRelaxed (type flag : UInt8) : AttrParseRet :=
  if type ∈ inconsequentialAttributes then .proceed
  else if checkFlag flag bgpAttrFlagTrans ∧ checkFlag flag bgpAttrFlagOptional ∧
      checkFlag flag bgpAttrFlagPartial then .withdraw
  else .error

/-- `bgp_attr_malformed`. -/
def bgpAttrMalformed (type flag : UInt8) (err : UpdateErr)
    (data : Option (Nat × Nat)) (st : AttrState) : Except Fault (AttrParseRet × AttrState) :=
  if malformedNotifies peer type then do
    let st ← bgpNotifySendWithData peer err data st
    return (.error, st)
  else .ok (malformedRelaxed type flag, st)

/-- How a handler refuses an attribute: through `bgp_attr_malformed` under some type, with the
whole attribute as data or without data, or with a notification of its own. -/
inductive Refusal where
  | malformed (type : UInt8) (err : UpdateErr) (whole : Bool)
  | reset (err : UpdateErr)
  deriving DecidableEq

/-- What a handler returns when it refuses an attribute. -/
def AttrHead.refuse (peer : UpdatePeer) (st : AttrState) :
    Refusal → Except Fault (AttrParseRet × AttrState)
  | .malformed type err whole =>
    bgpAttrMalformed peer type head.flag err
      (if whole then some (head.startp, head.total) else none) st
  | .reset err => do
      let st ← bgpNotifySendWithData peer err (some (head.startp, head.total)) st
      return (.error, st)

/-- Go on unless there is a reason to refuse. -/
def AttrHead.unless (peer : UpdatePeer) (st : AttrState)
    (refusal : Option Refusal) (accepted : Except Fault (AttrParseRet × AttrState)) :
    Except Fault (AttrParseRet × AttrState) :=
  match refusal with
  | some refusal => head.refuse peer st refusal
  | none => accepted

/-! ## The handlers -/

/-- The flags of a well-known attribute. -/
def wellKnownFlags (flag : UInt8) : Bool :=
  ¬ checkFlag flag bgpAttrFlagOptional ∧ checkFlag flag bgpAttrFlagTrans

/-- The checks of `bgp_attr_origin` on the header. -/
def originRefusal : Option Refusal :=
  if head.flag ≠ bgpAttrFlagTrans then some (.malformed bgpAttrTypeOrigin .attrFlagErr true)
  else if head.length ≠ 1 then some (.malformed bgpAttrTypeOrigin .attrLengErr true)
  else none

/-- The values `BGP_ORIGIN_IGP`, `BGP_ORIGIN_EGP` and `BGP_ORIGIN_INCOMPLETE`. -/
def originValueRefusal (origin : UInt8) : Option Refusal :=
  if origin ≠ 0 ∧ origin ≠ 1 ∧ origin ≠ 2 then
    some (.malformed bgpAttrTypeOrigin .invalOrigin true)
  else none

section Handlers

variable (head : AttrHead) (st : AttrState)

/-- `bgp_attr_origin`. -/
def bgpAttrOrigin : Except Fault (AttrParseRet × AttrState) :=
  head.unless peer st (originRefusal head) do
    let (origin, s) ← streamGetc st.s
    let st : AttrState := ⟨s, st.parsed.change fun attr => { attr with origin := origin }⟩
    head.unless peer st (originValueRefusal origin)
      (.ok (.proceed, { st with parsed := st.parsed.accept bgpAttrTypeOrigin id }))

/-- The check of `bgp_attr_aspath` on the header. -/
def aspathRefusal : Option Refusal :=
  if ¬ wellKnownFlags head.flag then some (.malformed bgpAttrTypeAsPath .attrFlagErr true)
  else none

/-- The path of an attribute. One that is missing is refused without data. -/
def pathRefusal (path : Option Aspath) : Option Refusal :=
  if path.isNone then some (.malformed type .malAsPath false) else none

/-- `bgp_attr_aspath`. -/
def bgpAttrAspath : Except Fault (AttrParseRet × AttrState) :=
  head.unless peer st (aspathRefusal head) do
    let (path, s) ← aspathParse st.s head.length peer.as4Rcv
    let st : AttrState := ⟨s, st.parsed.change fun attr => { attr with aspath := path }⟩
    head.unless peer st (pathRefusal bgpAttrTypeAsPath path)
      (.ok (.proceed, { st with parsed := st.parsed.accept bgpAttrTypeAsPath id }))

/-- The error in the flags is reported under the type of the AS path. -/
def as4PathRefusal : Option Refusal :=
  if ¬ checkFlag head.flag bgpAttrFlagOptional ∨ ¬ checkFlag head.flag bgpAttrFlagTrans then
    some (.malformed bgpAttrTypeAsPath .attrFlagErr true)
  else none

/-- `bgp_attr_as4_path`. -/
def bgpAttrAs4Path : Except Fault (AttrParseRet × AttrState) :=
  head.unless peer st (as4PathRefusal head) do
    let (path, s) ← aspathParse st.s head.length true
    let st : AttrState := ⟨s, { st.parsed with as4Path := path }⟩
    head.unless peer st (pathRefusal bgpAttrTypeAs4Path path)
      (.ok (.proceed, { st with parsed := st.parsed.accept bgpAttrTypeAs4Path id }))

/-- The checks of `bgp_attr_nexthop`. -/
def nexthopRefusal : Option Refusal :=
  if ¬ wellKnownFlags head.flag then some (.malformed bgpAttrTypeNextHop .attrFlagErr true)
  else if head.length ≠ 4 then some (.malformed bgpAttrTypeNextHop .attrLengErr true)
  else none

/-- A handler of a value of four bytes. -/
def longHandler (head : AttrHead) (refusal : Option Refusal) (type : UInt8)
    (store : UInt32 → PacketAttr → PacketAttr) (st : AttrState) :
    Except Fault (AttrParseRet × AttrState) :=
  head.unless peer st refusal do
    let (value, s) ← streamGetl st.s
    return (.proceed, ⟨s, st.parsed.accept type (store value)⟩)

/-- `bgp_attr_nexthop`. -/
def bgpAttrNexthop : Except Fault (AttrParseRet × AttrState) :=
  longHandler peer head (nexthopRefusal head) bgpAttrTypeNextHop
    (fun nexthop attr => { attr with nexthop := nexthop }) st

/-- The checks of `bgp_attr_med`. -/
def medRefusal : Option Refusal :=
  if ¬ checkFlag head.flag bgpAttrFlagOptional then some (.reset .attrFlagErr)
  else if checkFlag head.flag bgpAttrFlagTrans then some (.reset .attrFlagErr)
  else if checkFlag head.flag bgpAttrFlagPartial then some (.reset .attrFlagErr)
  else if head.length ≠ 4 then some (.malformed bgpAttrTypeMultiExitDisc .attrLengErr true)
  else none

/-- `bgp_attr_med`. -/
def bgpAttrMed : Except Fault (AttrParseRet × AttrState) :=
  longHandler peer head (medRefusal head) bgpAttrTypeMultiExitDisc
    (fun med attr => { attr with med := med }) st

/-- The checks of `bgp_attr_local_pref`, none of them on the length. -/
def localPrefRefusal : Option Refusal :=
  if checkFlag head.flag bgpAttrFlagOptional then some (.reset .attrFlagErr)
  else if ¬ checkFlag head.flag bgpAttrFlagTrans then some (.reset .attrFlagErr)
  else none

/-- `bgp_attr_local_pref`. A value that is not four bytes long is not read, and counts as zero. -/
def bgpAttrLocalPref : Except Fault (AttrParseRet × AttrState) :=
  if peer.sort = .ebgp then
    head.unless peer st (localPrefRefusal head) do
      let s ← streamForwardGetp st.s head.length
      return (.proceed, ⟨s, st.parsed⟩)
  else if head.length = 4 then
    longHandler peer head (localPrefRefusal head) bgpAttrTypeLocalPref
      (fun localPref attr => { attr with localPref := localPref }) st
  else
    head.unless peer st (localPrefRefusal head)
      (.ok (.proceed,
        ⟨st.s, st.parsed.accept bgpAttrTypeLocalPref fun attr => { attr with localPref := 0 }⟩))

/-- The checks of `bgp_attr_atomic`. -/
def atomicRefusal : Option Refusal :=
  if checkFlag head.flag bgpAttrFlagOptional then some (.reset .attrFlagErr)
  else if ¬ checkFlag head.flag bgpAttrFlagTrans then some (.reset .attrFlagErr)
  else if checkFlag head.flag bgpAttrFlagPartial then some (.reset .attrFlagErr)
  else if head.length ≠ 0 then some (.malformed bgpAttrTypeAtomicAggregate .attrLengErr false)
  else none

/-- `bgp_attr_atomic`. -/
def bgpAttrAtomic : Except Fault (AttrParseRet × AttrState) :=
  head.unless peer st (atomicRefusal head)
    (.ok (.proceed, { st with parsed := st.parsed.accept bgpAttrTypeAtomicAggregate id }))

/-- The length of an attribute has to be one that its type demands. -/
def lengthRefusal (ok : Bool) : Option Refusal :=
  if ¬ ok then some (.malformed type .attrLengErr false) else none

/-- `bgp_attr_aggregator`. -/
def bgpAttrAggregator : Except Fault (AttrParseRet × AttrState) :=
  let wantedlen := asValueSize peer.as4Rcv + 4
  head.unless peer st (lengthRefusal bgpAttrTypeAggregator (head.length = wantedlen)) do
    let (as, s) ← readAs peer.as4Rcv st.s
    let (addr, s) ← streamGetl s
    return (.proceed, ⟨s, st.parsed.accept bgpAttrTypeAggregator fun attr =>
      { attr with aggregatorAs := UInt32.ofNat as, aggregatorAddr := addr }⟩)

/-- `bgp_attr_as4_aggregator`. -/
def bgpAttrAs4Aggregator : Except Fault (AttrParseRet × AttrState) :=
  head.unless peer st (lengthRefusal bgpAttrTypeAs4Aggregator (head.length = 8)) do
    let (as, s) ← streamGetl st.s
    let (addr, s) ← streamGetl s
    let parsed := { st.parsed with as4Aggregator := as, as4AggregatorAddr := addr }
    return (.proceed, ⟨s, parsed.accept bgpAttrTypeAs4Aggregator id⟩)

/-- Bytes cut into pieces of one width. -/
def pieces (width : Nat) : Nat → List UInt8 → List (List UInt8)
  | 0, _ => []
  | n + 1, bytes => bytes.take width :: pieces width n (bytes.drop width)

/-- `community_uniq_sort`. -/
def communityUniqSort (values : List UInt32) : List UInt32 :=
  (values.foldl (fun new val => if val ∈ new then new else new ++ [val]) []).insertionSort
    fun v1 v2 => v1.toNat ≤ v2.toNat

/-- `community_parse`. -/
def communityParse (bytes : List UInt8) : Option (List UInt32) :=
  if bytes.length % 4 ≠ 0 then none
  else some (communityUniqSort ((pieces 4 (bytes.length / 4) bytes).map longOf))

/-- `ecommunity_add_val`: `memcmp` compares the bytes from the first on. -/
def ecommunityAddVal (ecom : List (List UInt8)) (eval : List UInt8) : List (List UInt8) :=
  match ecom with
  | [] => [eval]
  | p :: rest =>
    if memcmp p eval = 0 then p :: rest
    else if memcmp p eval > 0 then eval :: p :: rest
    else p :: ecommunityAddVal rest eval

/-- `ecommunity_parse`. -/
def ecommunityParse (bytes : List UInt8) : Option (List (List UInt8)) :=
  if bytes.length % 8 ≠ 0 then none
  else some ((pieces 8 (bytes.length / 8) bytes).foldl ecommunityAddVal [])

/-- A handler that copies the value through the pointer into the message and then forwards the
input. -/
def copyHandler (st : AttrState)
    (next : List UInt8 → AttrState → Except Fault (AttrParseRet × AttrState)) :
    Except Fault (AttrParseRet × AttrState) := do
  let bytes ← st.s.fetch st.s.getp head.length
  let s ← streamForwardGetp st.s head.length
  next bytes { st with s := s }

/-- A list of communities that cannot be made is refused with the attribute as data. -/
def communityRefusal (made : Bool) : Option Refusal :=
  if ¬ made then some (.malformed type .optAttrErr true) else none

/-- `bgp_attr_community`. -/
def bgpAttrCommunity : Except Fault (AttrParseRet × AttrState) :=
  if head.length = 0 then
    .ok (.proceed, { st with parsed := st.parsed.change fun attr => { attr with community := none } })
  else
    copyHandler head st fun bytes st =>
      let community := communityParse bytes
      let st := { st with
        parsed := st.parsed.change fun attr => { attr with community := community } }
      head.unless peer st (communityRefusal bgpAttrTypeCommunities community.isSome)
        (.ok (.proceed, { st with parsed := st.parsed.accept bgpAttrTypeCommunities id }))

/-- `bgp_attr_originator_id`. -/
def bgpAttrOriginatorId : Except Fault (AttrParseRet × AttrState) :=
  longHandler peer head (lengthRefusal bgpAttrTypeOriginatorId (head.length = 4))
    bgpAttrTypeOriginatorId (fun originatorId attr => { attr with originatorId := originatorId }) st

/-- `bgp_attr_cluster_list`. -/
def bgpAttrClusterList : Except Fault (AttrParseRet × AttrState) :=
  head.unless peer st (lengthRefusal bgpAttrTypeClusterList (head.length % 4 = 0))
    (copyHandler head st fun bytes st =>
      .ok (.proceed, { st with
        parsed := st.parsed.accept bgpAttrTypeClusterList fun attr =>
          { attr with cluster := some bytes } }))

/-- `bgp_attr_ext_communities`. -/
def bgpAttrExtCommunities : Except Fault (AttrParseRet × AttrState) :=
  if head.length = 0 then
    .ok (.proceed,
      { st with parsed := st.parsed.change fun attr => { attr with ecommunity := none } })
  else
    copyHandler head st fun bytes st =>
      let ecommunity := ecommunityParse bytes
      let st := { st with
        parsed := st.parsed.change fun attr => { attr with ecommunity := ecommunity } }
      head.unless peer st (communityRefusal bgpAttrTypeExtCommunities ecommunity.isSome)
        (.ok (.proceed, { st with parsed := st.parsed.accept bgpAttrTypeExtCommunities id }))

/-- The next hop of `bgp_mp_reach_parse`, by its length. With four bytes it also serves as the
next hop of the route, if there is none yet. Of two IPv6 addresses the second one is dropped
unless it is link-local. -/
def mpNexthop (len : UInt8) (st : AttrState) : Except Fault (Option AttrState) :=
  if len = 4 then do
    let (bytes, s) ← streamGet st.s 4
    return some ⟨s, st.parsed.change fun attr =>
      { attr with
        mpNexthopGlobalIn := bytes
        nexthop := if attr.nexthop = 0 then longOf bytes else attr.nexthop }⟩
  else if len = 12 then do
    let (_, s) ← streamGetl st.s
    let (_, s) ← streamGetl s
    let (bytes, s) ← streamGet s 4
    return some ⟨s, st.parsed.change fun attr => { attr with mpNexthopGlobalIn := bytes }⟩
  else if len = 16 then do
    let (bytes, s) ← streamGet st.s 16
    return some ⟨s, st.parsed.change fun attr => { attr with mpNexthopGlobal := bytes }⟩
  else if len = 32 then do
    let (global, s) ← streamGet st.s 16
    let (locally, s) ← streamGet s 16
    return some ⟨s, st.parsed.change fun attr =>
      { attr with
        mpNexthopGlobal := global
        mpNexthopLocal := locally
        mpNexthopLen := if (Prefix.mk 128 locally).linkLocal then 32 else 16 }⟩
  else .ok none

/-- Whether the NLRI of an attribute may go on: that of VPNv4 is not checked. -/
def mpSanityCheck (s : Stream) (afi safi pnt length : Nat) : Except Fault Bool :=
  if safi ≠ bgpSafiVpnv4 then bgpNlriSanityCheck s afi pnt length else .ok true

/-- The NLRI of a multiprotocol attribute: it is checked, stored and passed over. -/
def mpField (afi safi length : Nat) (store : BgpNlri → Parsed → Parsed)
    (st : AttrState) : Except Fault (AttrParseRet × AttrState) := do
  if ← mpSanityCheck st.s afi safi st.s.getp length then
    let s ← streamForwardGetp st.s length
    return (.proceed, ⟨s, store ⟨afi, safi, st.s.getp, length⟩ st.parsed⟩)
  else return (.error, { st with parsed := st.parsed.notify peer .invalNetwork [] })

/-- The fields of `bgp_mp_reach_parse` after the next hop. -/
def mpReachRest (afi safi start length : Nat) (st : AttrState) :
    Except Fault (AttrParseRet × AttrState) :=
  if length - (st.s.getp - start) = 0 then .ok (.error, st)
  else do
    let (_, s) ← streamGetc st.s
    let nlriLen := length - (s.getp - start)
    if nlriLen = 0 ∨ nlriLen > s.readable then return (.error, { st with s := s })
    mpField peer afi safi nlriLen (fun nlri p => { p with mpUpdate := nlri }) { st with s := s }

/-- `bgp_mp_reach_parse`. -/
def bgpMpReachParse : Except Fault (AttrParseRet × AttrState) :=
  let start := st.s.getp
  if head.length > st.s.readable ∨ head.length < 5 then .ok (.error, st)
  else do
    let (afi, s) ← streamGetw st.s
    let (safi, s) ← streamGetc s
    let (len, s) ← streamGetc s
    let st : AttrState := ⟨s, st.parsed.change fun attr => { attr with mpNexthopLen := len }⟩
    if head.length - (s.getp - start) < len.toNat then return (.error, st)
    match ← mpNexthop len st with
    | none => return (.error, st)
    | some st => mpReachRest peer afi.toNat safi.toNat start head.length st

/-- `bgp_mp_unreach_parse`. -/
def bgpMpUnreachParse : Except Fault (AttrParseRet × AttrState) :=
  if head.length > st.s.readable ∨ head.length < 3 then .ok (.error, st)
  else do
    let (afi, s) ← streamGetw st.s
    let (safi, s) ← streamGetc s
    mpField peer afi.toNat safi.toNat (head.length - 3) (fun nlri p => { p with mpWithdraw := nlri })
      { st with s := s }

/-- The check of `bgp_attr_unknown`. -/
def unknownRefusal : Option Refusal :=
  if ¬ checkFlag head.flag bgpAttrFlagOptional then some (.malformed head.type .unrecAttr true)
  else none

/-- The attribute as it is passed on: `SET_FLAG (*startp, BGP_ATTR_FLAG_PARTIAL)`. The byte is
changed in the message itself, where it is not read again. -/
def withPartial : List UInt8 → List UInt8
  | [] => []
  | flag :: rest => (flag ||| bgpAttrFlagPartial) :: rest

/-- `bgp_attr_unknown`. -/
def bgpAttrUnknown : Except Fault (AttrParseRet × AttrState) := do
  let s ← streamForwardGetp st.s head.length
  let st := { st with s := s }
  head.unless peer st (unknownRefusal head) do
    if ¬ checkFlag head.flag bgpAttrFlagTrans then return (.proceed, st)
    let bytes ← st.s.fetch head.startp head.total
    return (.proceed, { st with
      parsed := st.parsed.change fun attr =>
        { attr with transit := some (attr.transit.getD [] ++ withPartial bytes) } })

/-- The cases of the `switch` over the type. -/
inductive AttrKind where
  | origin
  | asPath
  | as4Path
  | nextHop
  | multiExitDisc
  | localPref
  | atomicAggregate
  | aggregator
  | as4Aggregator
  | communities
  | originatorId
  | clusterList
  | mpReachNlri
  | mpUnreachNlri
  | extCommunities
  | unknown
  deriving DecidableEq

/-- The types that have a case of their own. -/
def attrKinds : List (UInt8 × AttrKind) :=
  [(bgpAttrTypeOrigin, .origin), (bgpAttrTypeAsPath, .asPath), (bgpAttrTypeAs4Path, .as4Path),
    (bgpAttrTypeNextHop, .nextHop), (bgpAttrTypeMultiExitDisc, .multiExitDisc),
    (bgpAttrTypeLocalPref, .localPref), (bgpAttrTypeAtomicAggregate, .atomicAggregate),
    (bgpAttrTypeAggregator, .aggregator), (bgpAttrTypeAs4Aggregator, .as4Aggregator),
    (bgpAttrTypeCommunities, .communities), (bgpAttrTypeOriginatorId, .originatorId),
    (bgpAttrTypeClusterList, .clusterList), (bgpAttrTypeMpReachNlri, .mpReachNlri),
    (bgpAttrTypeMpUnreachNlri, .mpUnreachNlri), (bgpAttrTypeExtCommunities, .extCommunities)]

/-- The handler that a type selects. -/
def AttrKind.ofType : AttrKind :=
  match attrKinds.find? fun entry => entry.1 = type with
  | some entry => entry.2
  | none => .unknown

theorem AttrKind.mem_of_ofType {type : UInt8} {kind : AttrKind} (known : kind ≠ .unknown)
    (isKind : AttrKind.ofType type = kind) : (type, kind) ∈ attrKinds := by
  rw [AttrKind.ofType] at isKind
  cases found : attrKinds.find? fun entry => entry.1 = type with
  | none =>
    rw [found] at isKind
    exact absurd isKind.symm known
  | some entry =>
    rw [found] at isKind
    have same : entry.1 = type := by simpa using List.find?_some found
    have member := List.mem_of_find?_eq_some found
    rwa [← same, ← isKind]

theorem AttrKind.type_eq {type type' : UInt8} {kind : AttrKind} (known : kind ≠ .unknown)
    (isKind : AttrKind.ofType type = kind) (isKind' : AttrKind.ofType type' = kind) :
    type = type' := by
  have unique : ∀ entry ∈ attrKinds, ∀ entry' ∈ attrKinds, entry.2 = entry'.2 →
      entry.1 = entry'.1 := by decide
  exact unique _ (mem_of_ofType known isKind) _ (mem_of_ofType known isKind') rfl

/-- The `switch` of `bgp_attr_parse`. -/
def attrHandler : Except Fault (AttrParseRet × AttrState) :=
  match AttrKind.ofType head.type with
  | .origin => bgpAttrOrigin peer head st
  | .asPath => bgpAttrAspath peer head st
  | .as4Path => bgpAttrAs4Path peer head st
  | .nextHop => bgpAttrNexthop peer head st
  | .multiExitDisc => bgpAttrMed peer head st
  | .localPref => bgpAttrLocalPref peer head st
  | .atomicAggregate => bgpAttrAtomic peer head st
  | .aggregator => bgpAttrAggregator peer head st
  | .as4Aggregator => bgpAttrAs4Aggregator peer head st
  | .communities => bgpAttrCommunity peer head st
  | .originatorId => bgpAttrOriginatorId peer head st
  | .clusterList => bgpAttrClusterList peer head st
  | .mpReachNlri => bgpMpReachParse peer head st
  | .mpUnreachNlri => bgpMpUnreachParse peer head st
  | .extCommunities => bgpAttrExtCommunities peer head st
  | .unknown => bgpAttrUnknown peer head st

end Handlers

/-! ## The parser -/

/-- The length of an attribute, in one byte or in two. -/
def readAttrLength (flag : UInt8) (s : Stream) : Except Fault (Nat × Stream) :=
  if checkFlag flag bgpAttrFlagExtlen then do
    let (length, s) ← streamGetw s
    return (length.toNat, s)
  else do
    let (length, s) ← streamGetc s
    return (length.toNat, s)

/-- An error of the parser itself, for which a notification is sent. -/
def attrError (err : UpdateErr) (st : AttrState) : Pass AttrState (AttrParseRet × AttrState) :=
  .leave (.error, { st with parsed := st.parsed.notify peer err [] })

/-- What the parser does with the result of a handler. -/
def afterHandler (attrEndp : Nat) :
    AttrParseRet × AttrState → Pass AttrState (AttrParseRet × AttrState)
  | (.error, st) => attrError peer .malAttr st
  | (.withdraw, st) => .leave (.withdraw, st)
  | (.proceed, st) => if st.s.getp ≠ attrEndp then attrError peer .attrLengErr st else .again st

/-- An attribute whose header has been read: no type may come twice, and the value has to end
before the attributes do. -/
def attrValue (endp : Nat) (head : AttrHead) (st : AttrState) :
    Except Fault (Pass AttrState (AttrParseRet × AttrState)) :=
  if head.type ∈ st.parsed.seen then .ok (attrError peer .malAttr st)
  else
    let st := { st with parsed := { st.parsed with seen := head.type :: st.parsed.seen } }
    if st.s.getp + head.length > endp then .ok (attrError peer .attrLengErr st)
    else do
      let result ← attrHandler peer head st
      return afterHandler peer (st.s.getp + head.length) result

/-- The body of the loop of `bgp_attr_parse`. -/
def attrBody (endp : Nat) (st : AttrState) :
    Except Fault (Pass AttrState (AttrParseRet × AttrState)) := do
  if endp - st.s.getp < 3 then return attrError peer .attrLengErr st
  let startp := st.s.getp
  let (flag, s) ← streamGetc st.s
  let (type, s) ← streamGetc s
  let parsed := { st.parsed with flag := flag }
  if checkFlag flag bgpAttrFlagExtlen ∧ endp - startp < 4 then
    return attrError peer .attrLengErr ⟨s, parsed⟩
  let (length, s) ← readAttrLength flag s
  attrValue peer endp ⟨flag, type, length, startp⟩ ⟨s, parsed⟩

theorem readAttrLength_advance (flag : UInt8) (s : Stream) :
    Ensures (fun _ => True) (fun read => s.getp + 1 ≤ read.2.getp) (readAttrLength flag s) := by
  rw [readAttrLength]
  split_ifs
  · refine (streamGetw_advance s).bind ?_
    rintro ⟨length, s'⟩ rfl
    exact Nat.le_succ _
  · refine (streamGetc_advance s).bind ?_
    rintro ⟨length, s'⟩ rfl
    exact Nat.le_refl _

theorem attrValue_again {peer : UpdatePeer} {endp : Nat} {head : AttrHead} {st st' : AttrState}
    (passed : attrValue peer endp head st = .ok (.again st')) :
    st'.s.getp = st.s.getp + head.length := by
  rw [attrValue] at passed
  split_ifs at passed with twice
  · cases passed
  dsimp only at passed
  split_ifs at passed with excess
  · cases passed
  obtain ⟨⟨ret, st1⟩, -, passed⟩ := bind_eq_ok passed
  have after : afterHandler peer (st.s.getp + head.length) (ret, st1) = .again st' :=
    Except.ok.inj passed
  cases ret with
  | error => cases after
  | withdraw => cases after
  | proceed =>
    rw [afterHandler] at after
    split_ifs at after with there
    · cases after
    · cases after
      exact not_not.mp there

/-- The loop of `bgp_attr_parse`. -/
def attrLoop (endp : Nat) : Loop Fault AttrState (AttrParseRet × AttrState) where
  guard st := st.s.getp < endp
  body st := attrBody peer endp st
  measure st := endp - st.s.getp
  falls := by
    intro st st' going passed
    unfold attrBody at passed
    split_ifs at passed with short
    · cases passed
    obtain ⟨flag, passed⟩ := streamGetc_bind passed
    obtain ⟨type, passed⟩ := streamGetc_bind passed
    split_ifs at passed with extended
    · cases passed
    obtain ⟨⟨length, s3⟩, read3, passed⟩ := bind_eq_ok passed
    have further : ((st.s.advance 1).advance 1).getp + 1 ≤ s3.getp :=
      (readAttrLength_advance flag _).of_ok read3
    have next : st'.s.getp = s3.getp + length := attrValue_again passed
    simp only [Stream.advance_getp] at further
    omega

/-- `bgp_attr_aspath_check`, for the path that the attributes have. -/
def bgpAttrAspathCheck (aspath : Aspath) (p : Parsed) : AttrParseRet × Parsed :=
  let malformed := p.notify peer .malAsPath []
  if (peer.sort = .confed ∧ ¬ aspathLeftConfedCheck aspath) ∨
      (peer.sort = .ebgp ∧ aspathConfedCheck aspath) then (.error, malformed)
  else if peer.enforceFirstAs ∧ peer.sort = .ebgp ∧ ¬ aspathFirstasCheck aspath peer.as then
    (.error, malformed)
  else if peer.changeLocalAs ≠ 0 ∧ ¬ peer.localAsNoPrepend then
    (.proceed, p.change fun attr =>
      { attr with aspath := some (aspathAddSeq aspath peer.changeLocalAs) })
  else (.proceed, p)

/-- The aggregator of `bgp_attr_munge_as4_attrs`, and whether the `AS4_PATH` is ignored. Where
only the new attribute was sent, its address is not taken over. -/
def mungeAggregator (p : Parsed) : Bool × Parsed :=
  if p.attr.has bgpAttrTypeAs4Aggregator then
    if p.attr.has bgpAttrTypeAggregator then
      if p.attr.aggregatorAs.toNat ≠ bgpAsTrans then (true, p)
      else (false, p.change fun attr =>
        { attr with aggregatorAs := p.as4Aggregator, aggregatorAddr := p.as4AggregatorAddr })
    else (false, p.accept bgpAttrTypeAggregator fun attr =>
      { attr with aggregatorAs := p.as4Aggregator })
  else (false, p)

/-- Reconcile the path with the `AS4_PATH`, if there is one. -/
def mungePath (p : Parsed) : Parsed :=
  match p.attr.aspath, p.as4Path with
  | some aspath, some as4Path =>
    p.change fun attr => { attr with aspath := some (aspathReconcileAs4 aspath as4Path) }
  | _, _ => p

/-- `bgp_attr_munge_as4_attrs`. Its one error is reported under the type of the AS path, so the
session is always reset. -/
def bgpAttrMungeAs4Attrs (p : Parsed) : AttrParseRet × Parsed :=
  if peer.as4Rcv then (.proceed, p)
  else if p.attr.has bgpAttrTypeAs4Path ∧ ¬ p.attr.has bgpAttrTypeAsPath then
    (.error, p.notify peer .malAttr [])
  else
    match mungeAggregator p with
    | (ignoreAs4Path, p) =>
      (.proceed, if ¬ ignoreAs4Path ∧ p.attr.has bgpAttrTypeAs4Path then mungePath p else p)

/-- What `bgp_attr_parse` does after its loop. -/
def attrsParsed (p : Parsed) : AttrParseRet × Parsed :=
  match bgpAttrMungeAs4Attrs peer p with
  | (.proceed, p) =>
    match p.attr.aspath with
    | some aspath =>
      if p.attr.has bgpAttrTypeAsPath then bgpAttrAspathCheck peer aspath p else (.proceed, p)
    | none => (.proceed, p)
  | (_, p) => (.error, p)

/-- `bgp_attr_parse`. -/
def bgpAttrParse (size : Nat) (st : AttrState) : Except Fault (AttrParseRet × AttrState) := do
  let endp := st.s.getp + size
  match ← (attrLoop peer endp).run st with
  | .leave result => return result
  | .again st =>
    if st.s.getp ≠ endp then
      return (.error, { st with parsed := st.parsed.notify peer .attrLengErr [] })
    match attrsParsed peer st.parsed with
    | (ret, parsed) => return (ret, ⟨st.s, parsed⟩)

end Quagga.Bgpd
