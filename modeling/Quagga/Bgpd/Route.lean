import Mathlib.Algebra.Group.Nat.Defs
import Quagga.Bgpd.Aspath
import Quagga.Bgpd.Peer

/-!
# Routes of a RIB node

`struct attr` and `struct bgp_info`, with the values that the decision process reads from
them. A node's routes form a linked list; a route is known by its address in memory, which
is the field `ptr` here, and two routes of one node never share it.

Attribute flags that say whether a value is present are `Option` here. `ORIGINATOR_ID` and
`CLUSTER_LIST` are set only on attributes with an `extra` part, so their values live there.
-/

set_option autoImplicit false

namespace Quagga.Bgpd

/-- `struct attr_extra`; a cluster list by its length. -/
structure AttrExtra where
  weight : Nat
  originatorId : Option Nat
  clusterLength : Option Nat
  deriving DecidableEq

/-- `struct attr`. -/
structure Attr where
  origin : Nat
  aspath : Aspath
  localPref : Option Nat
  med : Option Nat
  extra : Option AttrExtra
  deriving DecidableEq

/-- The bits of `flags` in `struct bgp_info` that selection and route updates read. -/
structure InfoFlags where
  damped : Bool
  history : Bool
  selected : Bool
  valid : Bool
  attrChanged : Bool
  dmedCheck : Bool
  dmedSelected : Bool
  stale : Bool
  removed : Bool
  deriving DecidableEq

/-- `BGP_ROUTE_NORMAL`, `BGP_ROUTE_STATIC`, `BGP_ROUTE_AGGREGATE` and
`BGP_ROUTE_REDISTRIBUTE`. -/
inductive SubType where
  | normal
  | static
  | aggregate
  | redistribute
  deriving DecidableEq, Repr

/-- `struct bgp_info`; `extra` is the IGP metric of `struct bgp_info_extra`. -/
structure BgpInfo where
  ptr : Nat
  peer : Peer
  attr : Attr
  extra : Option Nat
  flags : InfoFlags
  type : Nat
  subType : SubType
  deriving DecidableEq

variable (ri : BgpInfo)

/-- `BGP_INFO_HOLDDOWN`. -/
def BgpInfo.holddown : Bool :=
  !ri.flags.valid || ri.flags.history || ri.flags.damped || ri.flags.removed

/-- A route that may be selected. -/
def BgpInfo.Eligible : Prop := ri.holddown = false

instance (ri : BgpInfo) : Decidable ri.Eligible := inferInstanceAs (Decidable (_ = _))

/-- A route learned from a configured neighbour whose AS number is in `1..10`. -/
structure BgpInfo.Learned (ri : BgpInfo) : Prop where
  subType_eq : ri.subType = .normal
  configured : ri.peer.Configured

instance (ri : BgpInfo) : Decidable ri.Learned :=
  decidable_of_iff (ri.subType = .normal ∧ ri.peer.Configured)
    ⟨fun h => ⟨h.1, h.2⟩, fun h => ⟨h.subType_eq, h.configured⟩⟩

/-! ## What the decision process reads -/

/-- The weight, zero without an `extra` part. -/
def BgpInfo.weight : Nat := (ri.attr.extra.map AttrExtra.weight).getD 0

/-- The local preference, or the default. -/
def BgpInfo.pref (bgp : Bgp) (ri : BgpInfo) : Nat := ri.attr.localPref.getD bgp.defaultLocalPref

/-- `BGP_MED_MAX`. -/
def bgpMedMax : Nat := 2 ^ 32 - 1

/-- `bgp_med_value`. -/
def bgpMedValue (bgp : Bgp) (attr : Attr) : Nat :=
  match attr.med with
  | some med => med
  | none => if bgp.medMissingAsWorst then bgpMedMax else 0

/-- The IGP metric of the next hop, zero without an `extra` part. -/
def BgpInfo.igpmetric : Nat := ri.extra.getD 0

/-- The originator id, or the router id of the peer. -/
def BgpInfo.routerId : Nat :=
  (ri.attr.extra.bind AttrExtra.originatorId).getD ri.peer.remoteId

/-- The length of the cluster list, zero without one. -/
def BgpInfo.cluster : Nat :=
  (ri.attr.extra.bind AttrExtra.clusterLength).getD 0

end Quagga.Bgpd
