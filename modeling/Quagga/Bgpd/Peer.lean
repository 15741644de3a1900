import Mathlib.Data.List.Lex
import Mathlib.Order.Lattice

/-!
# The BGP instance, its peers and their addresses

The part of `struct bgp` and `struct peer` that route selection reads, with `peer_sort` and
`sockunion_cmp`. A configured neighbour is one that `peer_create` made: it is not a peer
group and has a local AS number, so it is never sorted as internal
(`Peer.Configured.sort_ne_internal`). The peer `bgp->peer_self`, under which local routes
are stored, comes from `peer_new` alone, with every number zero.

`sockunion_cmp` compares the family first and then the address. It is a comparison of keys
in a linear order (`sockunionCmp_eq`), and different addresses have different keys
(`addressKey_injective`).
-/

set_option autoImplicit false

namespace Quagga.Bgpd

/-! ## Addresses -/

/-- `struct in6_addr`: sixteen bytes. -/
structure In6Addr where
  bytes : List UInt8
  length_eq : bytes.length = 16
  deriving DecidableEq

/-- `union sockunion`; an IPv4 address in host byte order. -/
inductive SockUnion where
  | inet (addr : Nat)
  | inet6 (addr : In6Addr)
  deriving DecidableEq

/-- `sa_family`: `AF_INET` or `AF_INET6`. -/
def SockUnion.family : SockUnion → Nat
  | .inet _ => 2
  | .inet6 _ => 10

/-- `memcmp` of as many bytes, where only the sign of the result is used. -/
def memcmp : List UInt8 → List UInt8 → Int
  | p1 :: rest1, p2 :: rest2 =>
    if p1.toNat > p2.toNat then 1
    else if p1.toNat < p2.toNat then -1
    else memcmp rest1 rest2
  | _, _ => 0

/-- `in6addr_cmp`, whose loop is the one of `memcmp`. -/
def in6addrCmp (addr1 addr2 : In6Addr) : Int := memcmp addr1.bytes addr2.bytes

/-- `sockunion_cmp`. -/
def sockunionCmp (su1 su2 : SockUnion) : Int :=
  if su1.family > su2.family then 1
  else if su1.family < su2.family then -1
  else
    match su1, su2 with
    | .inet a1, .inet a2 => if a1 = a2 then 0 else if a1 > a2 then 1 else -1
    | .inet6 a1, .inet6 a2 => in6addrCmp a1 a2
    | _, _ => 0

/-- What `sockunion_cmp` orders by. -/
def addressKey : SockUnion → List Nat
  | .inet a => [2, a]
  | .inet6 a => 10 :: a.bytes.map UInt8.toNat

attribute [local simp] addressKey sockunionCmp SockUnion.family

theorem addressKey_injective : Function.Injective addressKey := by
  intro su1 su2 same
  match su1, su2 with
  | .inet a1, .inet a2 => simpa using same
  | .inet _, .inet6 _ => simp at same
  | .inet6 _, .inet _ => simp at same
  | .inet6 ⟨b1, _⟩, .inet6 ⟨b2, _⟩ =>
    have bytes : b1.map UInt8.toNat = b2.map UInt8.toNat := by
      simpa using same
    have : b1 = b2 := List.map_injective_iff.mpr (fun _ _ h => UInt8.toNat_inj.mp h) bytes
    subst this
    rfl

/-- A comparison as a sign. -/
def orderSign {κ : Type} [LinearOrder κ] (first second : κ) : Int :=
  if second < first then 1 else if first < second then -1 else 0

section OrderSign

variable {κ : Type} [LinearOrder κ] {first second : κ}

theorem orderSign_neg_iff : orderSign first second < 0 ↔ first < second := by
  rw [orderSign]
  split_ifs with greater less
  · simp [greater.not_gt]
  · simp [less]
  · simp [less]

theorem orderSign_pos_iff : 0 < orderSign first second ↔ second < first := by
  rw [orderSign]
  split_ifs with greater <;> simp [greater]

theorem orderSign_eq_zero_iff : orderSign first second = 0 ↔ first = second := by
  rw [orderSign]
  split_ifs with greater less
  · simp [greater.ne']
  · simp [less.ne]
  · simp [le_antisymm (not_lt.mp greater) (not_lt.mp less)]

end OrderSign

theorem orderSign_cons (a b : Nat) (as bs : List Nat) :
    orderSign (a :: as) (b :: bs) =
      if b < a then 1 else if a < b then -1 else orderSign as bs := by
  rcases lt_trichotomy a b with less | same | greater
  · simp [orderSign, List.cons_lt_cons_iff, less, less.ne']
  · subst same
    simp only [orderSign, List.cons_lt_cons_self, lt_irrefl, if_false]
    split_ifs <;> rfl
  · simp [orderSign, List.cons_lt_cons_iff, greater]

theorem memcmp_eq : ∀ {bytes1 bytes2 : List UInt8}, bytes1.length = bytes2.length →
    memcmp bytes1 bytes2 =
      orderSign (bytes1.map UInt8.toNat) (bytes2.map UInt8.toNat) := by
  intro bytes1
  induction bytes1 with
  | nil =>
    intro bytes2 sameLength
    obtain rfl : bytes2 = [] := List.length_eq_zero_iff.mp sameLength.symm
    simp [memcmp, orderSign]
  | cons p1 rest1 ih =>
    intro bytes2 sameLength
    cases bytes2 with
    | nil => simp at sameLength
    | cons p2 rest2 =>
      have tails : rest1.length = rest2.length := by simpa using sameLength
      rw [memcmp, ih tails, List.map_cons, List.map_cons, orderSign_cons]

/-- **`sockunion_cmp` compares address keys.** -/
theorem sockunionCmp_eq (su1 su2 : SockUnion) :
    sockunionCmp su1 su2 = orderSign (addressKey su1) (addressKey su2) := by
  match su1, su2 with
  | .inet a1, .inet a2 =>
    rcases lt_trichotomy a1 a2 with less | same | greater
    · simp [orderSign_cons, less, less.ne]
    · subst same
      simp [orderSign]
    · simp [orderSign_cons, greater, greater.ne']
  | .inet _, .inet6 _ => simp [orderSign_cons]
  | .inet6 _, .inet _ => simp [orderSign_cons]
  | .inet6 a1, .inet6 a2 =>
    have sameLength : a1.bytes.length = a2.bytes.length := by
      rw [a1.length_eq, a2.length_eq]
    simp [orderSign_cons, in6addrCmp, memcmp_eq sameLength]

/-! ## The instance and its peers -/

/-- The configuration in `struct bgp` that route selection reads. -/
structure Bgp where
  as : Nat
  defaultLocalPref : Nat
  alwaysCompareMed : Bool
  deterministicMed : Bool
  medMissingAsWorst : Bool
  medConfed : Bool
  compareRouterId : Bool
  aspathIgnore : Bool
  aspathConfed : Bool
  confederation : Bool
  confedId : Nat
  confedPeers : List Nat
  deriving DecidableEq

/-- The numbers that `peer_sort` reads of the first member of a peer group. -/
structure GroupMember where
  as : Nat
  localAs : Nat
  deriving DecidableEq

/-- `struct peer`. The field `group` is present exactly on a peer with
`PEER_STATUS_GROUP`, and holds the head of the group's member list. -/
structure Peer where
  host : Nat
  as : Nat
  localAs : Nat
  group : Option (Option GroupMember)
  remoteId : Nat
  suRemote : SockUnion
  deriving DecidableEq

/-- `BGP_PEER_IBGP`, `BGP_PEER_EBGP`, `BGP_PEER_INTERNAL` and `BGP_PEER_CONFED`. -/
inductive PeerSort where
  | ibgp
  | ebgp
  | internal
  | confed
  deriving DecidableEq, Repr

/-- `peer_sort`. -/
def peerSort (bgp : Bgp) (peer : Peer) : PeerSort :=
  match peer.group with
  | some head =>
    if peer.as ≠ 0 then
      if bgp.as = peer.as then .ibgp else .ebgp
    else
      match head with
      | some peer1 => if peer1.localAs = peer1.as then .ibgp else .ebgp
      | none => .internal
  | none =>
    if bgp.confederation then
      if peer.localAs = 0 then .internal
      else if peer.localAs = peer.as then
        if peer.localAs = bgp.confedId then .ebgp else .ibgp
      else if peer.as ∈ bgp.confedPeers then .confed
      else .ebgp
    else
      if peer.localAs = 0 then .internal
      else if peer.localAs = peer.as then .ibgp else .ebgp

/-- A neighbour made by `peer_create` whose AS number is in `1..10`. -/
structure Peer.Configured (peer : Peer) : Prop where
  as_pos : 1 ≤ peer.as
  as_le : peer.as ≤ 10
  localAs_ne : peer.localAs ≠ 0
  not_group : peer.group = none

instance (peer : Peer) : Decidable peer.Configured :=
  decidable_of_iff (1 ≤ peer.as ∧ peer.as ≤ 10 ∧ peer.localAs ≠ 0 ∧ peer.group = none)
    ⟨fun h => ⟨h.1, h.2.1, h.2.2.1, h.2.2.2⟩,
      fun h => ⟨h.as_pos, h.as_le, h.localAs_ne, h.not_group⟩⟩

theorem Peer.Configured.sort_ne_internal {peer : Peer} (configured : peer.Configured)
    (bgp : Bgp) : peerSort bgp peer ≠ .internal := by
  unfold peerSort
  simp only [configured.not_group, configured.localAs_ne, if_false]
  split_ifs <;> simp

end Quagga.Bgpd
