import Mathlib.Data.List.TakeWhile
import Quagga.Lib.StreamPut
import Quagga.Bgpd.Capability
import Quagga.Bgpd.Fsm

/-!
# Network layer reachability information

An NLRI field is a sequence of prefixes, each encoded as its length in bits and as many bytes
as that length needs. `bgp_nlri_sanity_check` walks the field through the pointer into the
message and accepts it exactly when it is such a sequence (`sanityCheck_iff`).
`bgp_nlri_parse` walks it again and calls `bgp_update` or `bgp_withdraw` for each prefix.

A prefix of IPv4 unicast that is a multicast address is to be ignored, as the comment at the
check says. But the check returns from the function, so that the prefixes after it are lost as
well: all others are handled exactly when no multicast address stands before another prefix
(`bgpNlriParse_all_iff`).
-/

set_option autoImplicit false

namespace Quagga.Bgpd

open Lib Library

/-! ## Prefixes -/

/-- `PSIZE`: the bytes that a number of bits needs. -/
def psize (bits : Nat) : Nat := (bits + 7) / 8

/-- `struct prefix`: the bytes that were copied into it; the others are zero. -/
structure Prefix where
  prefixlen : UInt8
  bytes : List UInt8
  deriving DecidableEq

/-- `IN_CLASSD`. -/
def Prefix.classD (p : Prefix) : Bool := (p.bytes.headD 0).toNat / 16 = 14

/-- `IN6_IS_ADDR_LINKLOCAL`. -/
def Prefix.linkLocal (p : Prefix) : Bool :=
  (p.bytes.headD 0).toNat = 0xfe ∧ (p.bytes.getD 1 0).toNat / 64 = 2

/-- The check of the length of a prefix. -/
def prefixTooLong (afi prefixlen : Nat) : Bool :=
  (afi = afiIp ∧ prefixlen > 32) ∨ (afi = afiIp6 ∧ prefixlen > 128)

variable (s : Stream)

/-- Read the length of the prefix at a pointer, and check that the prefix ends before the
field does. -/
def readPrefixlen (afi lim pnt : Nat) : Except Fault (Option UInt8) := do
  let prefixlen ← s.fetchByte pnt
  if prefixTooLong afi prefixlen.toNat then return none
  if pnt + 1 + psize prefixlen.toNat > lim then return none
  return some prefixlen

theorem readPrefixlen_some {s : Stream} {afi lim pnt : Nat} {prefixlen : UInt8}
    (read : readPrefixlen s afi lim pnt = .ok (some prefixlen)) :
    pnt < s.endp ∧ s.byte pnt = prefixlen ∧ prefixTooLong afi prefixlen.toNat = false ∧
      pnt + 1 + psize prefixlen.toNat ≤ lim := by
  obtain ⟨first, fetched, read⟩ := bind_eq_ok read
  rw [Stream.fetchByte] at fetched
  split_ifs at fetched with below
  cases fetched
  split_ifs at read with long excess
  · cases read
  · cases read
  · cases read
    exact ⟨below, rfl, Bool.eq_false_iff.mpr long, Nat.le_of_not_gt excess⟩

/-! ## The check -/

/-- The loop of `bgp_nlri_sanity_check`. It is left with the return value `-1`. -/
def sanityCheckLoop (afi lim : Nat) : Loop Fault Nat Unit where
  guard pnt := pnt < lim
  body pnt := do
    match ← readPrefixlen s afi lim pnt with
    | none => return .leave ()
    | some prefixlen => return .again (pnt + 1 + psize prefixlen.toNat)
  measure pnt := lim - pnt
  falls := by
    intro pnt pnt' going passed
    obtain ⟨prefixlen, -, passed⟩ := bind_eq_ok passed
    cases prefixlen with
    | none => cases passed
    | some prefixlen =>
      have next : pnt + 1 + psize prefixlen.toNat = pnt' := by
        simpa [pure, Except.pure] using passed
      have below : pnt < lim := by simpa using going
      omega

/-- `bgp_nlri_sanity_check`: whether it returns zero. -/
def bgpNlriSanityCheck (afi pnt length : Nat) : Except Fault Bool := do
  match ← (sanityCheckLoop s afi (pnt + length)).run pnt with
  | .leave () => return false
  | .again pnt' => return pnt' = pnt + length

theorem readPrefixlen_returns {s : Stream} {afi lim pnt : Nat} (below : pnt < s.endp) :
    ∃ prefixlen, readPrefixlen s afi lim pnt = .ok prefixlen := by
  rw [readPrefixlen, Stream.fetchByte_ok below, ok_bind]
  split_ifs <;> exact ⟨_, rfl⟩

theorem bgpNlriSanityCheck_returns {s : Stream} {afi pnt length : Nat}
    (inside : pnt + length ≤ s.endp) :
    ∃ accepted, bgpNlriSanityCheck s afi pnt length = .ok accepted := by
  obtain ⟨ending, ended⟩ := (sanityCheckLoop s afi (pnt + length)).returns (fun at' going => by
    have below : at' < pnt + length := of_decide_eq_true going
    obtain ⟨prefixlen, read⟩ : ∃ prefixlen,
        readPrefixlen s afi (pnt + length) at' = .ok prefixlen :=
      readPrefixlen_returns (below.trans_le inside)
    simp only [sanityCheckLoop, read]
    cases prefixlen <;> exact ⟨_, rfl⟩) pnt
  rw [bgpNlriSanityCheck, ended]
  cases ending <;> exact ⟨_, rfl⟩

/-! ## The parser -/

/-- `struct bgp_nlri`, with the field as an offset into the message. -/
structure BgpNlri where
  afi : Nat
  safi : Nat
  nlri : Nat
  length : Nat
  deriving DecidableEq

/-- The calls that the parser makes. -/
inductive NlriCall where
  | update (p : Prefix)
  | withdraw (p : Prefix)
  deriving DecidableEq

/-- Withdraw is recognised by the null pointer for the attributes. -/
def nlriCall (attr : Bool) (p : Prefix) : NlriCall := if attr then .update p else .withdraw p

/-- The pointer and the calls made so far. -/
structure NlriState where
  pnt : Nat
  calls : List NlriCall
  deriving DecidableEq

/-- One pass of `bgp_nlri_parse` when a prefix has been read. `refused` says whether the last of
the calls, one of `bgp_update`, returned a negative value; `bgp_withdraw` returns zero. -/
def parsePrefix (attr : Bool) (packet : BgpNlri) (refused : List NlriCall → Bool) (st : NlriState)
    (p : Prefix) : Pass NlriState (List NlriCall) :=
  let next := st.pnt + 1 + psize p.prefixlen.toNat
  if packet.afi = afiIp ∧ packet.safi = safiUnicast ∧ p.classD then .leave st.calls
  else if packet.afi = afiIp6 ∧ packet.safi = safiUnicast ∧ p.linkLocal then
    .again { st with pnt := next }
  else
    let calls := st.calls ++ [nlriCall attr p]
    if attr ∧ refused calls then .leave calls else .again { pnt := next, calls := calls }

/-- The loop of `bgp_nlri_parse`. It is left with the return value `-1`. -/
def nlriParseLoop (attr : Bool) (packet : BgpNlri) (refused : List NlriCall → Bool) :
    Loop Fault NlriState (List NlriCall) where
  guard st := st.pnt < packet.nlri + packet.length
  body st := do
    match ← readPrefixlen s packet.afi (packet.nlri + packet.length) st.pnt with
    | none => return .leave st.calls
    | some prefixlen =>
      let bytes ← s.fetch (st.pnt + 1) (psize prefixlen.toNat)
      return parsePrefix attr packet refused st { prefixlen := prefixlen, bytes := bytes }
  measure st := packet.nlri + packet.length - st.pnt
  falls := by
    intro st st' going passed
    have below : st.pnt < packet.nlri + packet.length := by simpa using going
    obtain ⟨prefixlen, -, passed⟩ := bind_eq_ok passed
    cases prefixlen with
    | none => cases passed
    | some prefixlen =>
      obtain ⟨bytes, -, passed⟩ := bind_eq_ok passed
      have parsed : parsePrefix attr packet refused st ⟨prefixlen, bytes⟩ = .again st' := by
        simpa [pure, Except.pure] using passed
      have next : st'.pnt = st.pnt + 1 + psize prefixlen.toNat := by
        unfold parsePrefix at parsed
        dsimp only at parsed
        split_ifs at parsed <;> cases parsed <;> rfl
      omega

/-- `bgp_nlri_parse`: the calls, and whether it returns zero. -/
def bgpNlriParse (status : PeerStatus) (attr : Bool) (packet : BgpNlri)
    (refused : List NlriCall → Bool) : Except Fault (List NlriCall × Bool) :=
  if status ≠ .established then .ok ([], true)
  else do
    match ← (nlriParseLoop s attr packet refused).run { pnt := packet.nlri, calls := [] } with
    | .leave calls => return (calls, false)
    | .again st => return (st.calls, st.pnt = packet.nlri + packet.length)

theorem bgpNlriParse_returns {s : Stream} {packet : BgpNlri}
    (inside : packet.nlri + packet.length ≤ s.endp) (status : PeerStatus) (attr : Bool)
    (refused : List NlriCall → Bool) :
    ∃ result, bgpNlriParse s status attr packet refused = .ok result := by
  obtain ⟨ending, ended⟩ := (nlriParseLoop s attr packet refused).returns (fun st going => by
    have below : st.pnt < packet.nlri + packet.length := of_decide_eq_true going
    obtain ⟨prefixlen, read⟩ : ∃ prefixlen,
        readPrefixlen s packet.afi (packet.nlri + packet.length) st.pnt = .ok prefixlen :=
      readPrefixlen_returns (below.trans_le inside)
    simp only [nlriParseLoop, read]
    cases prefixlen with
    | none => exact ⟨_, rfl⟩
    | some prefixlen =>
      have ends := (readPrefixlen_some read).2.2.2
      exact ⟨_, by simp only [Stream.fetch_ok (ends.trans inside), ok_bind]; rfl⟩)
    { pnt := packet.nlri, calls := [] }
  rw [bgpNlriParse]
  split_ifs
  · exact ⟨_, rfl⟩
  · rw [ended]
    cases ending <;> exact ⟨_, rfl⟩

/-! ## Encoded prefixes -/

/-- A prefix of an address family as it can stand in a field. -/
structure WirePrefix (afi : Nat) extends Prefix where
  short : prefixTooLong afi prefixlen.toNat = false
  length_eq : bytes.length = psize prefixlen.toNat

namespace WirePrefix

variable {afi : Nat}

/-- The bytes of a prefix. -/
def encode (p : WirePrefix afi) : List UInt8 := p.prefixlen :: p.bytes

@[simp] theorem length_encode (p : WirePrefix afi) :
    p.encode.length = 1 + psize p.prefixlen.toNat := by
  rw [encode, List.length_cons, p.length_eq, Nat.add_comm]

theorem readPrefixlen_eq {s : Stream} {pnt lim : Nat} (p : WirePrefix afi)
    (holds : s.Holds pnt p.encode) (ends : pnt + p.encode.length ≤ lim) :
    readPrefixlen s afi lim pnt = .ok (some p.prefixlen) := by
  rw [length_encode] at ends
  rw [readPrefixlen, holds.fetchByte, ok_bind, p.short, if_neg Bool.false_ne_true,
    if_neg (by omega)]
  rfl

theorem fetch_eq {s : Stream} {pnt : Nat} (p : WirePrefix afi) (holds : s.Holds pnt p.encode) :
    s.fetch (pnt + 1) (psize p.prefixlen.toNat) = .ok p.bytes := by
  have parts : s.Holds pnt ([p.prefixlen] ++ p.bytes) := holds
  have bytes : s.Holds (pnt + 1) p.bytes := parts.right
  rw [← p.length_eq, bytes.fetch]

end WirePrefix

/-- The field of a sequence of prefixes. -/
def encodeAll {afi : Nat} (prefixes : List (WirePrefix afi)) : List UInt8 :=
  prefixes.flatMap WirePrefix.encode

@[simp] theorem encodeAll_cons {afi : Nat} (p : WirePrefix afi) (rest : List (WirePrefix afi)) :
    encodeAll (p :: rest) = p.encode ++ encodeAll rest := rfl

/-! ## The check accepts encoded prefixes -/

section Check

variable {s : Stream} {afi : Nat}

theorem sanityCheckLoop_encodeAll (prefixes : List (WirePrefix afi)) : ∀ {pnt : Nat},
    s.Holds pnt (encodeAll prefixes) →
      (sanityCheckLoop s afi (pnt + (encodeAll prefixes).length)).run pnt =
        .ok (.again (pnt + (encodeAll prefixes).length)) := by
  induction prefixes with
  | nil => exact fun _ => Loop.run_of_done (by simp [sanityCheckLoop, encodeAll])
  | cons p rest ih =>
    intro pnt holds
    rw [encodeAll_cons] at holds ⊢
    have next := ih holds.right
    rw [List.length_append, ← Nat.add_assoc]
    refine Eq.trans (Loop.run_of_again ?_ ?_) next
    · simp [sanityCheckLoop]
      omega
    · show (readPrefixlen _ _ _ _ >>= _) = _
      rw [p.readPrefixlen_eq holds.left (by omega), p.length_encode, ← Nat.add_assoc]
      rfl

theorem encodeAll_of_sanityCheckLoop (sane : s.Sane) {lim : Nat} (inside : lim ≤ s.endp) :
    ∀ pnt : Nat, pnt ≤ lim → (sanityCheckLoop s afi lim).run pnt = .ok (.again lim) →
      ∃ prefixes : List (WirePrefix afi), s.slice pnt (lim - pnt) = encodeAll prefixes := by
  intro pnt
  induction pnt using Loop.induction (sanityCheckLoop s afi lim) with
  | step pnt ih =>
    intro below accepted
    cases going : (sanityCheckLoop s afi lim).guard pnt with
    | false =>
      have done : lim ≤ pnt := by simpa [sanityCheckLoop] using going
      refine ⟨[], ?_⟩
      rw [Nat.sub_eq_zero_of_le done, Stream.slice]
      rfl
    | true =>
      rw [Loop.run_of_guard going] at accepted
      obtain ⟨pass, passed, accepted⟩ := bind_eq_ok accepted
      obtain ⟨outcome, read, returned⟩ := bind_eq_ok passed
      cases outcome with
      | none =>
        cases returned
        cases accepted
      | some prefixlen =>
        cases returned
        obtain ⟨here, byte_eq, short, ends⟩ := readPrefixlen_some read
        obtain ⟨rest, rest_eq⟩ := ih _ going passed ends accepted
        let p : WirePrefix afi :=
          { prefixlen := prefixlen
            bytes := s.slice (pnt + 1) (psize prefixlen.toNat)
            short := short
            length_eq := Stream.length_slice sane (by omega) }
        refine ⟨p :: rest, ?_⟩
        rw [encodeAll_cons, ← rest_eq, show lim - pnt = psize prefixlen.toNat +
          (lim - (pnt + 1 + psize prefixlen.toNat)) + 1 by omega,
          Stream.slice_succ sane here, Stream.slice_add, byte_eq]
        rfl

/-- **The check accepts exactly the fields that are sequences of encoded prefixes.** -/
theorem sanityCheck_iff (sane : s.Sane) {pnt length : Nat} (inside : pnt + length ≤ s.endp) :
    bgpNlriSanityCheck s afi pnt length = .ok true ↔
      ∃ prefixes : List (WirePrefix afi), s.slice pnt length = encodeAll prefixes := by
  constructor
  · intro accepted
    obtain ⟨pass, walked, returned⟩ := bind_eq_ok accepted
    cases pass with
    | leave _ => cases returned
    | again pnt' =>
      have atEnd : pnt' = pnt + length := by simpa [pure, Except.pure] using returned
      subst atEnd
      have found := encodeAll_of_sanityCheckLoop sane inside pnt (Nat.le_add_right _ _) walked
      rwa [Nat.add_sub_cancel_left] at found
  · rintro ⟨prefixes, encoded⟩
    have holds := s.holds_slice pnt length
    have size : length = (encodeAll prefixes).length := by
      rw [← encoded, Stream.length_slice sane inside]
    rw [encoded] at holds
    rw [bgpNlriSanityCheck, size, sanityCheckLoop_encodeAll prefixes holds]
    simp [pure, Except.pure]

end Check

/-! ## What the parser calls -/

section Parse

variable {s : Stream} {attr : Bool} {packet : BgpNlri} {refused : List NlriCall → Bool}

/-- A field of IPv4 unicast. -/
structure BgpNlri.Unicast4 (packet : BgpNlri) : Prop where
  afi_eq : packet.afi = afiIp
  safi_eq : packet.safi = safiUnicast

/-- The calls for some prefixes. -/
def nlriCalls (attr : Bool) (prefixes : List (WirePrefix afiIp)) : List NlriCall :=
  prefixes.map fun p => nlriCall attr p.toPrefix

/-- The prefixes before the first multicast address. -/
def beforeClassD (prefixes : List (WirePrefix afiIp)) : List (WirePrefix afiIp) :=
  prefixes.takeWhile fun p => !p.classD

/-- The prefixes that are no multicast address. -/
def withoutClassD (prefixes : List (WirePrefix afiIp)) : List (WirePrefix afiIp) :=
  prefixes.filter fun p => !p.classD

section

variable {afi : Nat} (family : packet.afi = afi)

include family in
theorem nlriParseLoop_body (p : WirePrefix afi) {st : NlriState} (holds : s.Holds st.pnt p.encode)
    (ends : st.pnt + p.encode.length ≤ packet.nlri + packet.length) :
    (nlriParseLoop s attr packet refused).body st =
      .ok (parsePrefix attr packet refused st p.toPrefix) := by
  show (readPrefixlen _ _ _ _ >>= _) = _
  rw [family, p.readPrefixlen_eq holds ends, ok_bind]
  dsimp only
  rw [p.fetch_eq holds]
  rfl

/-- The parser stops at a multicast address of IPv4 unicast. -/
def BgpNlri.stops (packet : BgpNlri) (p : Prefix) : Bool :=
  packet.afi = afiIp ∧ packet.safi = safiUnicast ∧ p.classD

/-- The parser passes over a link-local address of IPv6 unicast. -/
def BgpNlri.skips (packet : BgpNlri) (p : Prefix) : Bool :=
  packet.afi = afiIp6 ∧ packet.safi = safiUnicast ∧ p.linkLocal

include family

/-- **The parser makes the calls for the prefixes before the first one at which it stops**, where it
passes over none. -/
theorem nlriParseLoop_run (accepting : ∀ calls, refused calls = false)
    (prefixes : List (WirePrefix afi)) (visited : ∀ p ∈ prefixes, packet.skips p.toPrefix = false) :
    ∀ {st : NlriState}, s.Holds st.pnt (encodeAll prefixes) →
      packet.nlri + packet.length = st.pnt + (encodeAll prefixes).length →
      (nlriParseLoop s attr packet refused).run st =
        let calls := st.calls ++ (prefixes.takeWhile fun p => !packet.stops p.toPrefix).map
          fun p => nlriCall attr p.toPrefix
        .ok (if prefixes.any fun p => packet.stops p.toPrefix then .leave calls
          else .again { pnt := packet.nlri + packet.length, calls := calls }) := by
  induction prefixes with
  | nil =>
    intro st holds ends
    have atEnd : packet.nlri + packet.length = st.pnt := by simpa [encodeAll] using ends
    rw [Loop.run_of_done (by simp [nlriParseLoop, atEnd])]
    simp [atEnd]
  | cons p rest ih =>
    intro st holds ends
    obtain ⟨here, others⟩ := List.forall_mem_cons.mp visited
    rw [encodeAll_cons] at holds ends
    rw [List.length_append] at ends
    have going : (nlriParseLoop s attr packet refused).guard st = true := by
      have below : st.pnt < packet.nlri + packet.length := by
        rw [ends, p.length_encode]
        omega
      simpa [nlriParseLoop] using below
    have passed : (nlriParseLoop s attr packet refused).body st =
        .ok (parsePrefix attr packet refused st p.toPrefix) :=
      nlriParseLoop_body family p holds.left (by omega)
    rw [parsePrefix] at passed
    cases stops : packet.stops p.toPrefix with
    | true =>
      rw [if_pos (of_decide_eq_true stops)] at passed
      rw [Loop.run_of_leave going passed]
      simp [stops]
    | false =>
      rw [if_neg (of_decide_eq_false stops), if_neg (of_decide_eq_false here),
        if_neg (by simp [accepting])] at passed
      rw [Loop.run_of_again going passed, ih others]
      · simp [stops]
      · have next := holds.right
        rwa [p.length_encode, ← Nat.add_assoc] at next
      · rw [ends, p.length_encode]
        dsimp only
        omega

theorem bgpNlriParse_run (accepting : ∀ calls, refused calls = false)
    {prefixes : List (WirePrefix afi)} (visited : ∀ p ∈ prefixes, packet.skips p.toPrefix = false)
    (holds : s.Holds packet.nlri (encodeAll prefixes))
    (length_eq : packet.length = (encodeAll prefixes).length) :
    bgpNlriParse s .established attr packet refused =
      .ok ((prefixes.takeWhile fun p => !packet.stops p.toPrefix).map
        fun p => nlriCall attr p.toPrefix, !prefixes.any fun p => packet.stops p.toPrefix) := by
  let start : NlriState := { pnt := packet.nlri, calls := [] }
  have startHolds : s.Holds start.pnt (encodeAll prefixes) := holds
  have walked : (nlriParseLoop s attr packet refused).run start = _ :=
    nlriParseLoop_run family accepting prefixes visited startHolds (by rw [length_eq])
  rw [bgpNlriParse, walked]
  cases stops : prefixes.any fun p => packet.stops p.toPrefix <;> simp [start, pure, Except.pure]

end

theorem bgpNlriParse_established (unicast : packet.Unicast4)
    (accepting : ∀ calls, refused calls = false) {prefixes : List (WirePrefix afiIp)}
    (holds : s.Holds packet.nlri (encodeAll prefixes))
    (length_eq : packet.length = (encodeAll prefixes).length) :
    bgpNlriParse s .established attr packet refused =
      .ok (nlriCalls attr (beforeClassD prefixes), !prefixes.any fun p => p.classD) := by
  have stops : ∀ p : Prefix, packet.stops p = p.classD := by
    simp [BgpNlri.stops, unicast.afi_eq, unicast.safi_eq]
  have visited : ∀ p : Prefix, packet.skips p = false := by
    simp [BgpNlri.skips, unicast.afi_eq, afiIp, afiIp6]
  rw [bgpNlriParse_run unicast.afi_eq accepting (fun p _ => visited p.toPrefix) holds length_eq]
  simp only [stops]
  rfl

end Parse

/-! ## All prefixes -/

variable {prefixes : List (WirePrefix afiIp)}

/-- No multicast address stands before another prefix. -/
def ClassDLast (prefixes : List (WirePrefix afiIp)) : Prop :=
  prefixes.Pairwise fun first second => first.classD = true → second.classD = true

attribute [local simp] withoutClassD beforeClassD

theorem beforeClassD_eq (last : ClassDLast prefixes) :
    beforeClassD prefixes = withoutClassD prefixes := by
  induction prefixes with
  | nil => rfl
  | cons p rest ih =>
    obtain ⟨here, restLast⟩ := List.pairwise_cons.mp last
    cases isClassD : p.classD with
    | false => simpa [isClassD] using ih restLast
    | true =>
      have none : withoutClassD rest = [] := by
        simpa using fun q member => here q member isClassD
      simpa [isClassD] using none.symm

theorem classDLast_of_all (all : ∀ p ∈ prefixes, p.classD = true) : ClassDLast prefixes :=
  List.pairwise_of_forall_mem_list fun _ _ second member _ => all second member

theorem classDLast_of_length
    (same : (beforeClassD prefixes).length = (withoutClassD prefixes).length) :
    ClassDLast prefixes := by
  induction prefixes with
  | nil => exact List.Pairwise.nil
  | cons p rest ih =>
    cases isClassD : p.classD with
    | false =>
      have rest_eq : (beforeClassD rest).length = (withoutClassD rest).length := by
        simpa [isClassD] using same
      exact List.pairwise_cons.mpr
        ⟨fun q _ first => absurd first (by simp [isClassD]), ih rest_eq⟩
    | true =>
      have all : ∀ q ∈ rest, q.classD = true := by
        simpa [isClassD] using same.symm
      exact List.pairwise_cons.mpr ⟨fun q member _ => all q member, classDLast_of_all all⟩

/-- **Of a field that the check accepts, the parser handles each prefix that is no multicast
address exactly when there is none, or the session is established and no multicast address
stands before another prefix.** -/
theorem bgpNlriParse_all_iff {s : Stream} (sane : s.Sane) {pnt length : Nat}
    (inside : pnt + length ≤ s.endp) (accepted : bgpNlriSanityCheck s afiIp pnt length = .ok true)
    (status : PeerStatus) (attr : Bool) {refused : List NlriCall → Bool}
    (accepting : ∀ calls, refused calls = false) :
    (∃ prefixes : List (WirePrefix afiIp), s.slice pnt length = encodeAll prefixes) ∧
      ∀ prefixes : List (WirePrefix afiIp), s.slice pnt length = encodeAll prefixes →
        ((∃ ret, bgpNlriParse s status attr
            { afi := afiIp, safi := safiUnicast, nlri := pnt, length := length } refused =
              .ok (nlriCalls attr (withoutClassD prefixes), ret)) ↔
          (∀ p ∈ prefixes, p.classD = true) ∨ (status = .established ∧ ClassDLast prefixes)) := by
  refine ⟨(sanityCheck_iff sane inside).mp accepted, fun prefixes encoded => ?_⟩
  by_cases established : status = .established
  · subst established
    have length_eq : length = (encodeAll prefixes).length := by
      rw [← encoded, Stream.length_slice sane inside]
    have holds : s.Holds pnt (encodeAll prefixes) := encoded ▸ s.holds_slice pnt length
    have parsed : bgpNlriParse s .established attr
        { afi := afiIp, safi := safiUnicast, nlri := pnt, length := length } refused =
          .ok (nlriCalls attr (beforeClassD prefixes), !prefixes.any fun p => p.classD) :=
      bgpNlriParse_established ⟨rfl, rfl⟩ accepting holds length_eq
    rw [parsed]
    constructor
    · rintro ⟨ret, same⟩
      have calls := congrArg Prod.fst (Except.ok.inj same)
      refine .inr ⟨rfl, classDLast_of_length ?_⟩
      simpa [nlriCalls] using congrArg List.length calls
    · intro condition
      have last : ClassDLast prefixes := by
        rcases condition with all | ⟨-, last⟩
        · exact classDLast_of_all all
        · exact last
      exact ⟨_, by rw [beforeClassD_eq last]⟩
  · rw [bgpNlriParse, if_pos established]
    have nothing : nlriCalls attr (withoutClassD prefixes) = [] ↔
        ∀ p ∈ prefixes, p.classD = true := by
      simp [nlriCalls]
    constructor
    · rintro ⟨ret, same⟩
      exact .inl (nothing.mp (congrArg Prod.fst (Except.ok.inj same)).symm)
    · intro condition
      have all := condition.resolve_right fun both => established both.1
      exact ⟨true, by rw [nothing.mpr all]⟩

/-- `10.0.0.0/8` and `20.0.0.0/8`, then `224.0.0.0/4`. -/
theorem bgpNlriParse_all_iff_last :
    ∃ prefixes : List (WirePrefix afiIp), encodeAll prefixes = [8, 10, 8, 20, 4, 224] ∧
      ∃ ret, bgpNlriParse (streamOf [8, 10, 8, 20, 4, 224]) .established true
        { afi := afiIp, safi := safiUnicast, nlri := 0, length := 6 } (fun _ => false) =
          .ok (nlriCalls true (withoutClassD prefixes), ret) := by
  let ten : WirePrefix afiIp := ⟨⟨8, [10]⟩, by decide, rfl⟩
  let twenty : WirePrefix afiIp := ⟨⟨8, [20]⟩, by decide, rfl⟩
  let multicast : WirePrefix afiIp := ⟨⟨4, [224]⟩, by decide, rfl⟩
  have last : ClassDLast [ten, twenty, multicast] := by
    simp [ClassDLast, ten, multicast, Prefix.classD]
  exact ⟨[ten, twenty, multicast], rfl,
    ((bgpNlriParse_all_iff (by decide) (by decide) (by decide) .established true
      (fun _ => rfl)).2 [ten, twenty, multicast] rfl).mpr (.inr ⟨rfl, last⟩)⟩

/-- `224.0.0.0/4` before `10.0.0.0/8`: the field is accepted, and no route is updated. -/
theorem classD_first_loses_prefix :
    bgpNlriSanityCheck (streamOf [4, 224, 8, 10]) afiIp 0 4 = .ok true ∧
      bgpNlriParse (streamOf [4, 224, 8, 10]) .established true
        { afi := afiIp, safi := safiUnicast, nlri := 0, length := 4 } (fun _ => false) =
          .ok ([], false) ∧
      ∃ other : WirePrefix afiIp, other.encode = [8, 10] ∧ other.classD = false := by
  exact ⟨by decide, by decide, ⟨⟨8, [10]⟩, by decide, rfl⟩, rfl, by decide⟩

/-! ## The grammar -/

section Grammar

variable {afi : Nat}

theorem WirePrefix.encode_inj {p q : WirePrefix afi} {rest rest' : List UInt8}
    (same : p.encode ++ rest = q.encode ++ rest') : p = q ∧ rest = rest' := by
  obtain ⟨⟨prefixlen, bytes⟩, _, length⟩ := p
  obtain ⟨⟨prefixlen', bytes'⟩, _, length'⟩ := q
  obtain ⟨rfl, behind⟩ := List.cons.inj same
  obtain ⟨rfl, rest_eq⟩ := List.append_inj behind (length.trans length'.symm)
  exact ⟨rfl, rest_eq⟩

/-- A field is the encoding of one sequence of prefixes. -/
theorem encodeAll_injective : Function.Injective (@encodeAll afi) := by
  intro first
  induction first with
  | nil =>
    rintro (- | ⟨q, second⟩) same
    · rfl
    · cases same
  | cons p first ih =>
    rintro (- | ⟨q, second⟩) same
    · cases same
    · obtain ⟨rfl, rest⟩ := WirePrefix.encode_inj same
      rw [ih rest]

/-- The parser neither stops at the prefix nor passes over it: it is no multicast address of IPv4
unicast and no link-local address of IPv6 unicast. -/
def BgpNlri.Visits (packet : BgpNlri) (p : Prefix) : Prop :=
  packet.stops p = false ∧ packet.skips p = false

theorem bgpNlriParse_visits {s : Stream} {attr : Bool} {packet : BgpNlri}
    {refused : List NlriCall → Bool} (family : packet.afi = afi)
    (accepting : ∀ calls, refused calls = false) {prefixes : List (WirePrefix afi)}
    (holds : s.Holds packet.nlri (encodeAll prefixes))
    (length_eq : packet.length = (encodeAll prefixes).length)
    (visits : ∀ p ∈ prefixes, packet.Visits p.toPrefix) :
    bgpNlriParse s .established attr packet refused =
      .ok (prefixes.map fun p => nlriCall attr p.toPrefix, true) := by
  rw [bgpNlriParse_run family accepting (fun p inside => (visits p inside).2) holds length_eq,
    List.takeWhile_eq_self_iff.mpr fun p inside => by rw [(visits p inside).1]; rfl,
    List.any_eq_false.mpr fun p inside => by simp [(visits p inside).1]]
  rfl

/-- **The check, the parser and the writer of prefixes have one grammar.** The check accepts the
sequences of encoded prefixes, the parser visits their prefixes, and what is written for a list of
prefixes is such a sequence, of this list and of no other. -/
theorem nlri_grammar {s : Stream} (sane : s.Sane) (afi safi : Nat) (attr : Bool)
    {refused : List NlriCall → Bool} (accepting : ∀ calls, refused calls = false) :
    (∀ pnt length, pnt + length ≤ s.endp →
      (bgpNlriSanityCheck s afi pnt length = .ok true ↔
        ∃ prefixes : List (WirePrefix afi), s.slice pnt length = encodeAll prefixes) ∧
      ∀ prefixes : List (WirePrefix afi), s.slice pnt length = encodeAll prefixes →
        (∀ p ∈ prefixes, BgpNlri.Visits ⟨afi, safi, pnt, length⟩ p.toPrefix) →
        bgpNlriParse s .established attr ⟨afi, safi, pnt, length⟩ refused =
          .ok (prefixes.map fun p => nlriCall attr p.toPrefix, true)) ∧
    ∀ prefixes : List (WirePrefix afi), (encodeAll prefixes).length ≤ s.writeable →
      ∃ s', prefixes.foldlM (fun s p => streamPutPrefix s p.prefixlen p.bytes) s = .ok s' ∧
        bgpNlriSanityCheck s' afi s.endp (s'.endp - s.endp) = .ok true ∧
        (∀ decoded : List (WirePrefix afi),
          s'.slice s.endp (s'.endp - s.endp) = encodeAll decoded ↔ decoded = prefixes) ∧
        ((∀ p ∈ prefixes, BgpNlri.Visits ⟨afi, safi, s.endp, s'.endp - s.endp⟩ p.toPrefix) →
          bgpNlriParse s' .established attr ⟨afi, safi, s.endp, s'.endp - s.endp⟩ refused =
            .ok (prefixes.map fun p => nlriCall attr p.toPrefix, true)) := by
  refine ⟨fun pnt length inside => ⟨sanityCheck_iff sane inside, fun prefixes encoded visits => ?_⟩,
    fun prefixes room => ?_⟩
  · refine bgpNlriParse_visits rfl accepting (encoded ▸ s.holds_slice pnt length) ?_ visits
    rw [← encoded, Stream.length_slice sane inside]
  · have written : prefixes.foldlM (fun s p => streamPutPrefix s p.prefixlen p.bytes) s =
        .ok (s.append (encodeAll prefixes)) :=
      (Appends.foldlM (fun p => appends_streamPutPrefix _ _) prefixes).fits sane room
    have holds := Stream.holds_append sane room
    have length : (s.append (encodeAll prefixes)).endp - s.endp = (encodeAll prefixes).length := by
      rw [Stream.append_endp, Nat.add_sub_cancel_left]
    have slice := holds.slice_eq
    rw [← length] at slice
    refine ⟨_, written, ?_, fun decoded => ?_, fun visits => ?_⟩
    · refine (sanityCheck_iff (Stream.append_sane sane room) ?_).mpr ⟨prefixes, slice⟩
      rw [length, Stream.append_endp]
    · rw [slice, encodeAll_injective.eq_iff, eq_comm]
    · exact bgpNlriParse_visits rfl accepting holds length visits

/-- `10.0.0.0/8` and `20.0.0.0/8` are written and visited. -/
theorem nlri_grammar_two :
    ∃ s' : Stream, ∃ prefixes : List (WirePrefix afiIp),
      encodeAll prefixes = [8, 10, 8, 20] ∧ s'.endp = 4 ∧
      bgpNlriParse s' .established true ⟨afiIp, safiUnicast, 0, 4⟩ (fun _ => false) =
        .ok ([.update ⟨8, [10]⟩, .update ⟨8, [20]⟩], true) := by
  let ten : WirePrefix afiIp := ⟨⟨8, [10]⟩, by decide, rfl⟩
  let twenty : WirePrefix afiIp := ⟨⟨8, [20]⟩, by decide, rfl⟩
  obtain ⟨-, written⟩ := @nlri_grammar (streamNew 16) ⟨by decide, by decide⟩ afiIp safiUnicast true
    (fun _ => false) fun _ => rfl
  obtain ⟨s', put, -, -, visits⟩ := written [ten, twenty] (by decide)
  have size : s'.endp = 4 := by
    rw [show s' = _ from (Except.ok.inj put).symm]
    rfl
  have visited := visits (by
    simp [ten, twenty, BgpNlri.Visits, BgpNlri.stops, BgpNlri.skips, Prefix.classD,
      Prefix.linkLocal])
  exact ⟨s', [ten, twenty], rfl, size, size ▸ visited⟩

end Grammar

end Quagga.Bgpd
