import Quagga.Bgpd.Nlri

/-!
# VPNv4 routes

A route of a VPN over IPv4 is encoded as its length in bits, a label of three bytes, a route
distinguisher of eight bytes and the bytes of the prefix. `bgp_nlri_parse_vpnv4` reads such routes
through the pointer into the message.

It compares the end of a route with the end of the field only after it has copied all of its
bytes. A route at the end of a message that declares more bytes than there are is therefore read
beyond the message: the parser stays inside exactly if it comes to no such route
(`bgpNlriParseVpnv4_returns_iff`).

Nothing compares the length of a route with that of an address, although the parser for the other
families does. A route of more than 120 bits gives a prefix that is longer than an address
(`vpnv4Bounded_iff`).
-/

set_option autoImplicit false

namespace Quagga.Bgpd

open Lib Library

/-! ## The parser -/

/-- A route with its distinguisher and label, as it is passed to `bgp_update` or
`bgp_withdraw`. -/
structure VpnRoute where
  prd : List UInt8
  tag : List UInt8
  p : Prefix
  deriving DecidableEq

/-- `decode_rd_type`. -/
def decodeRdType (prd : List UInt8) : UInt16 := word (prd.getD 0 0) (prd.getD 1 0)

/-- The types of a distinguisher that are known: `RD_TYPE_AS` and `RD_TYPE_IP`. -/
def rdTypeKnown (prd : List UInt8) : Bool := decodeRdType prd = 0 ∨ decodeRdType prd = 1

/-- The pointer and the routes so far. -/
structure VpnState where
  pnt : Nat
  routes : List VpnRoute
  deriving DecidableEq

variable (s : Stream)

/-- The body of the loop of `bgp_nlri_parse_vpnv4`. -/
def vpnv4Body (lim : Nat) (st : VpnState) : Except Fault (Pass VpnState (List VpnRoute)) := do
  let prefixlen ← s.fetchByte st.pnt
  if prefixlen.toNat < 88 then return .leave st.routes
  let tag ← s.fetch (st.pnt + 1) 3
  let prd ← s.fetch (st.pnt + 4) 8
  if ¬ rdTypeKnown prd then return .leave st.routes
  let bytes ← s.fetch (st.pnt + 12) (psize prefixlen.toNat - 11)
  -- only now is the route compared with the end of the field
  if st.pnt + 1 + psize prefixlen.toNat > lim then return .leave st.routes
  let p : Prefix := { prefixlen := UInt8.ofNat (prefixlen.toNat - 88), bytes := bytes }
  return .again
    { pnt := st.pnt + 1 + psize prefixlen.toNat
      routes := st.routes ++ [{ prd := prd, tag := tag, p := p }] }

/-- The loop of `bgp_nlri_parse_vpnv4`. It is left with the return value `-1`. -/
def vpnv4Loop (lim : Nat) : Loop Fault VpnState (List VpnRoute) where
  guard st := st.pnt < lim
  body := vpnv4Body s lim
  measure st := lim - st.pnt
  falls := by
    intro st st' going passed
    obtain ⟨prefixlen, -, passed⟩ := bind_eq_ok passed
    by_cases short : prefixlen.toNat < 88
    · rw [if_pos short] at passed
      cases passed
    rw [if_neg short] at passed
    obtain ⟨tag, -, passed⟩ := bind_eq_ok passed
    obtain ⟨prd, -, passed⟩ := bind_eq_ok passed
    by_cases known : rdTypeKnown prd = true
    · rw [if_neg (not_not.mpr known)] at passed
      obtain ⟨bytes, -, passed⟩ := bind_eq_ok passed
      split_ifs at passed
      · cases passed
      · cases passed
        dsimp only
        omega
    · rw [if_pos known] at passed
      cases passed

/-- `bgp_nlri_parse_vpnv4`: the routes, and whether it returns zero. -/
def bgpNlriParseVpnv4 (status : PeerStatus) (packet : BgpNlri) :
    Except Fault (List VpnRoute × Bool) :=
  if status ≠ .established then .ok ([], true)
  else do
    match ← (vpnv4Loop s (packet.nlri + packet.length)).run ⟨packet.nlri, []⟩ with
    | .leave routes => return (routes, false)
    | .again st => return (st.routes, st.pnt = packet.nlri + packet.length)

/-- The routes that were passed on when the loop has ended. -/
def vpnv4Routes : Pass VpnState (List VpnRoute) → List VpnRoute
  | .again st => st.routes
  | .leave routes => routes

theorem bgpNlriParseVpnv4_iff (packet : BgpNlri) (good : List VpnRoute → Prop) :
    (∃ result, bgpNlriParseVpnv4 s .established packet = .ok result ∧ good result.1) ↔
      ∃ ending, (vpnv4Loop s (packet.nlri + packet.length)).run ⟨packet.nlri, []⟩ = .ok ending ∧
        good (vpnv4Routes ending) := by
  rw [bgpNlriParseVpnv4]
  cases (vpnv4Loop s (packet.nlri + packet.length)).run ⟨packet.nlri, []⟩ with
  | error fault => simp
  | ok ending => cases ending <;> simp [vpnv4Routes, pure, Except.pure]

/-! ## Routes that are cut by the end of the message -/

/-- Where the route at an offset ends by its declared length. -/
def vpnRouteEnd (pnt : Nat) : Nat := pnt + 1 + psize (s.byte pnt).toNat

/-- The distinguisher of the route at an offset is of a known type. -/
def rdKnownAt (pnt : Nat) : Bool := rdTypeKnown (s.slice (pnt + 4) 8)

/-- The next route, if the one at an offset is in order. -/
def vpnNext (lim pnt : Nat) : Option Nat :=
  if pnt < lim ∧ 88 ≤ (s.byte pnt).toNat ∧ rdKnownAt s pnt ∧ vpnRouteEnd s pnt ≤ lim then
    some (vpnRouteEnd s pnt)
  else none

/-- The route at an offset. -/
def vpnRouteAt (pnt : Nat) : VpnRoute where
  prd := s.slice (pnt + 4) 8
  tag := s.slice (pnt + 1) 3
  p :=
    { prefixlen := UInt8.ofNat ((s.byte pnt).toNat - 88)
      bytes := s.slice (pnt + 12) (psize (s.byte pnt).toNat - 11) }

/-- The message ends inside the route at an offset: before the end of the distinguisher, or, if
that is of a known type, before the end of the prefix. -/
structure VpnCut (s : Stream) (lim pnt : Nat) : Prop where
  below : pnt < lim
  long : 88 ≤ (s.byte pnt).toNat
  cut : s.endp < pnt + 12 ∨ (rdKnownAt s pnt = true ∧ s.endp < vpnRouteEnd s pnt)

section Cut

variable {s : Stream} {lim : Nat} (inside : lim ≤ s.endp) {st : VpnState}

theorem fetch_bind_fault {β : Type} {next : List UInt8 → Except Fault β} {pnt n : Nat}
    (pos : n ≠ 0) (excess : s.endp < pnt + n) :
    ∃ fault, (s.fetch pnt n >>= next) = .error fault := by
  rw [Stream.fetch, if_neg (by omega)]
  exact ⟨_, rfl⟩

include inside in
theorem vpnv4Body_cut (cut : VpnCut s lim st.pnt) :
    ∃ fault, vpnv4Body s lim st = .error fault := by
  obtain ⟨below, long, cut⟩ := cut
  rw [vpnv4Body, Stream.fetchByte_ok (by omega), ok_bind, if_neg (by omega)]
  by_cases label : st.pnt + 1 + 3 ≤ s.endp
  · rw [Stream.fetch_ok label, ok_bind]
    by_cases distinguisher : st.pnt + 4 + 8 ≤ s.endp
    · rcases cut with short | ⟨known, short⟩
      · omega
      · rw [vpnRouteEnd] at short
        rw [rdKnownAt] at known
        rw [Stream.fetch_ok distinguisher, ok_bind, if_neg (not_not.mpr known)]
        exact fetch_bind_fault (by omega) (by omega)
    · exact fetch_bind_fault (by decide) (by omega)
  · exact fetch_bind_fault (by decide) (by omega)

include inside in
/-- A route that is not cut is read, and the loop goes on behind it or is left. -/
theorem vpnv4Body_whole (below : st.pnt < lim) (whole : ¬ VpnCut s lim st.pnt) :
    match vpnNext s lim st.pnt with
    | none => vpnv4Body s lim st = .ok (.leave st.routes)
    | some next => vpnv4Body s lim st =
        .ok (.again { pnt := next, routes := st.routes ++ [vpnRouteAt s st.pnt] }) := by
  rw [vpnv4Body, Stream.fetchByte_ok (by omega), ok_bind, vpnNext]
  by_cases short : (s.byte st.pnt).toNat < 88
  · rw [if_pos short, if_neg (by omega)]
    rfl
  have twelve : st.pnt + 4 + 8 ≤ s.endp := by
    by_contra excess
    exact whole ⟨below, by omega, .inl (by omega)⟩
  rw [if_neg short, Stream.fetch_ok (show st.pnt + 1 + 3 ≤ s.endp by omega), ok_bind,
    Stream.fetch_ok twelve, ok_bind]
  by_cases known : rdTypeKnown (s.slice (st.pnt + 4) 8) = true
  · have there : vpnRouteEnd s st.pnt ≤ s.endp := by
      by_contra excess
      exact whole ⟨below, by omega, .inr ⟨known, by omega⟩⟩
    rw [vpnRouteEnd] at there ⊢
    have bytes : st.pnt + 12 + (psize (s.byte st.pnt).toNat - 11) ≤ s.endp := by omega
    rw [if_neg (not_not.mpr known), Stream.fetch_ok bytes, ok_bind]
    by_cases excess : st.pnt + 1 + psize (s.byte st.pnt).toNat > lim
    · rw [if_pos excess, if_neg (by omega)]
      rfl
    · rw [if_neg excess, if_pos ⟨below, by omega, known, by omega⟩]
      rfl
  · rw [if_pos known, if_neg fun all => known all.2.2.1]
    rfl

/-- **The parser of VPNv4 routes reads nothing beyond the message exactly if the message ends
inside none of the routes that it comes to.** -/
theorem bgpNlriParseVpnv4_returns_iff {packet : BgpNlri}
    (inside : packet.nlri + packet.length ≤ s.endp) :
    (∃ result, bgpNlriParseVpnv4 s .established packet = .ok result) ↔
      ¬ Encounters (vpnNext s (packet.nlri + packet.length))
        (VpnCut s (packet.nlri + packet.length)) packet.nlri := by
  have runs := Loop.endsWell_iff (vpnv4Loop s (packet.nlri + packet.length)) VpnState.pnt
    (vpnNext s (packet.nlri + packet.length)) (VpnCut s (packet.nlri + packet.length))
    (fun _ => True) (fun _ => True) ?done ?wrong ?leaves ?again ⟨packet.nlri, []⟩
  case done =>
    intro st done
    have atEnd : ¬ st.pnt < packet.nlri + packet.length := of_decide_eq_false done
    exact ⟨if_neg fun all => atEnd all.1, fun cut => atEnd cut.below, Iff.rfl⟩
  case wrong =>
    intro st ending _ cut passed
    obtain ⟨fault, failed⟩ := vpnv4Body_cut inside cut
    cases failed.symm.trans passed
  case leaves =>
    intro st going whole stop
    have read := vpnv4Body_whole inside (of_decide_eq_true going) whole
    rw [stop] at read
    exact ⟨_, read, Iff.rfl⟩
  case again =>
    intro st next going whole step
    have read := vpnv4Body_whole inside (of_decide_eq_true going) whole
    rw [step] at read
    exact ⟨_, read, rfl, Iff.rfl⟩
  rw [true_and] at runs
  rw [← runs]
  simpa using bgpNlriParseVpnv4_iff s packet fun _ => True

end Cut

/-! ## Routes that are longer than an address -/

/-- A prefix that an IPv4 address has room for. -/
def VpnRoute.Short (route : VpnRoute) : Prop :=
  route.p.prefixlen.toNat ≤ 32 ∧ route.p.bytes.length ≤ 4

/-- The route at an offset is in order and is longer than an address with its label and
distinguisher. -/
structure VpnLong (s : Stream) (lim pnt : Nat) : Prop where
  below : pnt < lim
  long : 120 < (s.byte pnt).toNat
  known : rdKnownAt s pnt = true
  whole : vpnRouteEnd s pnt ≤ lim

/-- The parser reads nothing beyond the field, which it would if it failed in a buffer that ends with
the field, and the prefixes that it passes on are at most as long as an address. -/
def Vpnv4Bounded (s : Stream) (status : PeerStatus) (packet : BgpNlri) : Prop :=
  ∃ result, bgpNlriParseVpnv4 { s with endp := packet.nlri + packet.length } status packet =
    .ok result ∧ ∀ route ∈ result.1, route.Short

theorem vpnRouteAt_short_iff (s : Stream) {pnt : Nat} (long : 88 ≤ (s.byte pnt).toNat) :
    (vpnRouteAt s pnt).Short ↔ (s.byte pnt).toNat ≤ 120 := by
  have small := (s.byte pnt).toNat_lt
  have length : (UInt8.ofNat ((s.byte pnt).toNat - 88)).toNat = (s.byte pnt).toNat - 88 := by
    rw [UInt8.toNat_ofNat']
    omega
  constructor
  · rintro ⟨short, -⟩
    rw [vpnRouteAt, length] at short
    omega
  · intro le
    refine ⟨by rw [vpnRouteAt, length]; omega, ?_⟩
    have bytes : (vpnRouteAt s pnt).p.bytes.length ≤ psize (s.byte pnt).toNat - 11 :=
      List.length_take_le _ _
    rw [psize] at bytes
    omega

/-- **The parser stays inside the field and passes on prefixes of addresses exactly if it comes to
no route that the field cuts or that is longer than an address.** -/
theorem vpnv4Bounded_iff (s : Stream) (status : PeerStatus) (packet : BgpNlri) :
    Vpnv4Bounded s status packet ↔ (status = .established →
      ¬ Encounters
        (vpnNext { s with endp := packet.nlri + packet.length } (packet.nlri + packet.length))
        (fun pnt =>
          VpnCut { s with endp := packet.nlri + packet.length } (packet.nlri + packet.length) pnt ∨
          VpnLong { s with endp := packet.nlri + packet.length } (packet.nlri + packet.length) pnt)
        packet.nlri) := by
  by_cases established : status = .established
  swap
  · refine iff_of_true ⟨([], true), ?_, by simp⟩ fun same => absurd same established
    rw [bgpNlriParseVpnv4, if_pos established]
  subst established
  unfold Vpnv4Bounded
  generalize packetEnd : packet.nlri + packet.length = lim
  generalize field : ({ s with endp := lim } : Stream) = t
  have inside : lim ≤ t.endp := by rw [← field]
  have runs := Loop.endsWell_iff (vpnv4Loop t lim) VpnState.pnt (vpnNext t lim)
    (fun pnt => VpnCut t lim pnt ∨ VpnLong t lim pnt) (fun st => ∀ route ∈ st.routes, route.Short)
    (fun ending => ∀ route ∈ vpnv4Routes ending, route.Short) ?done ?wrong ?leaves ?again
    ⟨packet.nlri, []⟩
  case done =>
    intro st done
    have atEnd : ¬ st.pnt < lim := of_decide_eq_false done
    refine ⟨if_neg fun all => atEnd all.1, ?_, Iff.rfl⟩
    rintro (cut | long)
    · exact atEnd cut.below
    · exact atEnd long.below
  case wrong =>
    intro st ending going here passed
    by_cases cut : VpnCut t lim st.pnt
    · obtain ⟨fault, failed⟩ := vpnv4Body_cut inside cut
      have none : vpnv4Body t lim st = .ok ending := passed
      rw [failed] at none
      cases none
    · obtain ⟨below, long, known, whole⟩ := here.resolve_left cut
      have next : vpnNext t lim st.pnt = some (vpnRouteEnd t st.pnt) :=
        if_pos ⟨below, by omega, known, whole⟩
      have read := vpnv4Body_whole inside below cut
      rw [next] at read
      cases Except.ok.inj (passed.symm.trans read)
      intro good
      have short := good (vpnRouteAt t st.pnt) (by simp)
      have := (vpnRouteAt_short_iff t (by omega)).mp short
      omega
  case leaves =>
    intro st going here stop
    have read := vpnv4Body_whole inside (of_decide_eq_true going) fun cut => here (.inl cut)
    rw [stop] at read
    exact ⟨_, read, Iff.rfl⟩
  case again =>
    intro st next going here step
    have read := vpnv4Body_whole inside (of_decide_eq_true going) fun cut => here (.inl cut)
    rw [step] at read
    refine ⟨_, read, rfl, ?_⟩
    rw [vpnNext] at step
    split_ifs at step with whole
    obtain ⟨below, long, known, whole⟩ := whole
    have short : (vpnRouteAt t st.pnt).Short := by
      rw [vpnRouteAt_short_iff t long]
      by_contra excess
      exact here (.inr ⟨below, by omega, known, whole⟩)
    simp only [List.mem_append, List.mem_singleton, or_imp, forall_and, forall_eq]
    exact and_iff_left short
  have start : ∀ route ∈ ([] : List VpnRoute), route.Short := by simp
  rw [imp_iff_right rfl, bgpNlriParseVpnv4_iff t packet fun routes => ∀ route ∈ routes, route.Short,
    packetEnd]
  exact runs.trans (and_iff_right start)

/-- The length 96 of a route, and nothing after it. -/
def loneLength : Stream := { data := [96], getp := 0, endp := 1 }

/-- A route of 136 bits: a label, the distinguisher 0:1:1 and six bytes. -/
def overlongRoute : Stream :=
  { data := [136, 0, 0, 1, 0, 0, 0, 1, 0, 0, 0, 1, 10, 1, 2, 3, 4, 5], getp := 0, endp := 18 }

/-- The first field is read beyond its end; of the second one a prefix of 48 bits is passed on. -/
theorem vpnv4_unbounded :
    ¬ Vpnv4Bounded loneLength .established ⟨1, 128, 0, 1⟩ ∧
      ¬ Vpnv4Bounded overlongRoute .established ⟨1, 128, 0, 18⟩ := by
  constructor
  · rintro ⟨result, returned, -⟩
    have failed : bgpNlriParseVpnv4 loneLength .established ⟨1, 128, 0, 1⟩ =
        .error (.arrayIndex 1) := by rfl
    cases failed.symm.trans returned
  · rintro ⟨result, returned, short⟩
    have passed : bgpNlriParseVpnv4 overlongRoute .established ⟨1, 128, 0, 18⟩ =
        .ok ([vpnRouteAt overlongRoute 0], true) := by rfl
    cases passed.symm.trans returned
    exact absurd (short _ (List.mem_singleton_self _)).1 (by decide)

end Quagga.Bgpd
