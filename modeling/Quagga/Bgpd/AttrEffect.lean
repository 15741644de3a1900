import Quagga.Bgpd.AttrRead

/-!
# What accepted attributes do

An attribute is accepted if its header and its value are in order for its type (`attrAccepted`).
What it then does to the parsed attributes is `attrEffect`. `handlerRead_handled` says all that the
handlers can do: a handler that lets the parser proceed has accepted its attribute, or it has passed
over an error in one that does not matter (`handlerRead_proceed`); and one that asks for the routes
to be withdrawn has an `AS4_PATH` that is malformed (`handlerRead_withdraw`).

So what the parser has noted at some place is a function of the attributes before it
(`Walked`). It hands over either all attributes of the block (`attrsRead_proceed`), or those before
an `AS4_PATH` that is malformed, with the request to withdraw the routes (`attrsRead_withdrawn`).
-/

set_option autoImplicit false

namespace Quagga.Bgpd

open Lib Library

/-! ## Accepted attributes -/

/-- The NLRI field of an `MP_REACH_NLRI`, behind the next hop and a reserved byte. -/
def mpReachField (s : Stream) (head : AttrHead) : BgpNlri where
  afi := (word (s.byte head.value) (s.byte (head.value + 1))).toNat
  safi := (s.byte (head.value + 2)).toNat
  nlri := head.value + 4 + (s.byte (head.value + 3)).toNat + 1
  length := head.length - (4 + (s.byte (head.value + 3)).toNat + 1)

/-- The NLRI field of an `MP_UNREACH_NLRI`. -/
def mpUnreachField (s : Stream) (head : AttrHead) : BgpNlri where
  afi := (word (s.byte head.value) (s.byte (head.value + 1))).toNat
  safi := (s.byte (head.value + 2)).toNat
  nlri := head.value + 3
  length := head.length - 3

/-- A field of a multiprotocol attribute that may go on. -/
def BgpNlri.sane (packet : BgpNlri) (s : Stream) : Bool :=
  mpSane s packet.afi packet.safi packet.nlri packet.length

/-- What an `MP_REACH_NLRI` changes in the attributes. -/
def mpReachChange (s : Stream) (head : AttrHead) (attr : PacketAttr) : PacketAttr :=
  let len := s.byte (head.value + 3)
  (mpNexthopChange s len (head.value + 4)).getD id { attr with mpNexthopLen := len }

section Effects

variable (peer : UpdatePeer) (s : Stream) (head : AttrHead)

/-- The header and the value of an attribute are in order. -/
def attrAccepted : Prop :=
  match AttrKind.ofType head.type with
  | .origin => originRefusal head = none ∧ originValueRefusal (s.byte head.value) = none
  | .asPath =>
    aspathRefusal head = none ∧ (aspathRead s peer.as4Rcv head.value head.length).1.isSome
  | .as4Path => as4PathRefusal head = none ∧ (aspathRead s true head.value head.length).1.isSome
  | .nextHop => nexthopRefusal head = none
  | .multiExitDisc => medRefusal head = none
  | .localPref =>
    localPrefRefusal head = none ∧ (peer.sort = .ebgp ∨ head.length = 4 ∨ head.length = 0)
  | .atomicAggregate => atomicRefusal head = none
  | .aggregator => head.length = asValueSize peer.as4Rcv + 4
  | .as4Aggregator => head.length = 8
  | .communities =>
    head.length = 0 ∨ (communityParse (s.slice head.value head.length)).isSome
  | .originatorId => head.length = 4
  | .clusterList => head.length % 4 = 0
  | .mpReachNlri =>
    5 ≤ head.length ∧ s.byte (head.value + 3) ∈ ([4, 12, 16, 32] : List UInt8) ∧
      0 < (mpReachField s head).length ∧ (mpReachField s head).sane s
  | .mpUnreachNlri => 3 ≤ head.length ∧ (mpUnreachField s head).sane s
  | .extCommunities =>
    head.length = 0 ∨ (ecommunityParse (s.slice head.value head.length)).isSome
  | .unknown => checkFlag head.flag bgpAttrFlagOptional

instance : Decidable (attrAccepted peer s head) := by
  unfold attrAccepted
  split <;> infer_instance

/-- What an accepted attribute does to what has been parsed. -/
def attrEffect (p : Parsed) : Parsed :=
  match AttrKind.ofType head.type with
  | .origin =>
    (p.change fun attr => { attr with origin := s.byte head.value }).accept bgpAttrTypeOrigin id
  | .asPath =>
    (p.change fun attr =>
      { attr with aspath := (aspathRead s peer.as4Rcv head.value head.length).1 }).accept
        bgpAttrTypeAsPath id
  | .as4Path =>
    ({ p with as4Path := (aspathRead s true head.value head.length).1 } : Parsed).accept
      bgpAttrTypeAs4Path id
  | .nextHop =>
    p.accept bgpAttrTypeNextHop fun attr =>
      { attr with nexthop := longOf (s.slice head.value 4) }
  | .multiExitDisc =>
    p.accept bgpAttrTypeMultiExitDisc fun attr =>
      { attr with med := longOf (s.slice head.value 4) }
  | .localPref =>
    if peer.sort = .ebgp then p
    else
      p.accept bgpAttrTypeLocalPref fun attr =>
        { attr with
          localPref := if head.length = 4 then longOf (s.slice head.value 4) else 0 }
  | .atomicAggregate => p.accept bgpAttrTypeAtomicAggregate id
  | .aggregator =>
    p.accept bgpAttrTypeAggregator fun attr =>
      { attr with
        aggregatorAs := UInt32.ofNat (asAt s peer.as4Rcv head.value)
        aggregatorAddr := longOf (s.slice (head.value + asValueSize peer.as4Rcv) 4) }
  | .as4Aggregator =>
    ({ p with
      as4Aggregator := longOf (s.slice head.value 4)
      as4AggregatorAddr := longOf (s.slice (head.value + 4) 4) } : Parsed).accept
        bgpAttrTypeAs4Aggregator id
  | .communities =>
    if head.length = 0 then p.change fun attr => { attr with community := none }
    else
      (p.change fun attr =>
        { attr with community := communityParse (s.slice head.value head.length) }).accept
          bgpAttrTypeCommunities id
  | .originatorId =>
    p.accept bgpAttrTypeOriginatorId fun attr =>
      { attr with originatorId := longOf (s.slice head.value 4) }
  | .clusterList =>
    p.accept bgpAttrTypeClusterList fun attr =>
      { attr with cluster := some (s.slice head.value head.length) }
  | .mpReachNlri =>
    { p.change (mpReachChange s head) with mpUpdate := mpReachField s head }
  | .mpUnreachNlri => { p with mpWithdraw := mpUnreachField s head }
  | .extCommunities =>
    if head.length = 0 then p.change fun attr => { attr with ecommunity := none }
    else
      (p.change fun attr =>
        { attr with ecommunity := ecommunityParse (s.slice head.value head.length) }).accept
          bgpAttrTypeExtCommunities id
  | .unknown =>
    if ¬ checkFlag head.flag bgpAttrFlagTrans then p
    else
      p.change fun attr =>
        { attr with
          transit :=
            some (attr.transit.getD [] ++ withPartial (s.slice head.startp head.total)) }

/-- An error in an attribute that does not matter is passed over for a neighbour of another AS. -/
def attrPassedOver : Prop := peer.sort = .ebgp ∧ head.type ∈ inconsequentialAttributes

end Effects

/-! ## What a handler can do -/

section Handlers

variable (peer : UpdatePeer) (s : Stream) (head : AttrHead) (p : Parsed)

/-- What a handler makes of an attribute. It accepts it, passes over an error that does not matter
without reading the value, gives up an `AS4_PATH`, or stops the parser: with an error, or because it
has not come to the end of the attribute. -/
inductive Handled (inOrder : Prop) (effect : Parsed) : AttrRead → Prop
  | accepted (ok : inOrder) (pnt : Nat) : Handled inOrder effect ⟨.proceed, pnt, effect⟩
  | passedOver (passed : attrPassedOver peer head) (refused : ¬ inOrder) :
      Handled inOrder effect ⟨.proceed, head.value, p⟩
  | givenUp (malformed : MalformedAs4Path peer s head) :
      Handled inOrder effect
        ⟨.withdraw, (aspathRead s true head.value head.length).2, { p with as4Path := none }⟩
  | stopped {read : AttrRead} (notWithdraw : read.ret ≠ .withdraw)
      (stops : read.ret = .proceed → read.pnt ≠ head.attrEnd) : Handled inOrder effect read

variable {peer s head p} {inOrder : Prop} {effect p' : Parsed} {read : AttrRead} {pnt : Nat}
  {refusal : Option Refusal} {type : UInt8}

theorem handled_error (error : read.ret = .error) : Handled peer s head p inOrder effect read :=
  .stopped (by simp [error]) (by simp [error])

/-- The refusal resets the session. -/
def Refusal.Resets (peer : UpdatePeer) : Refusal → Prop
  | .malformed type _ _ => malformedNotifies peer type = true
  | .reset _ => True

theorem core_resets (core : type ∈ coreAttributes) : malformedNotifies peer type = true := by
  simp [malformedNotifies, core]

theorem ebgp_of_quiet (quiet : ¬malformedNotifies peer type = true) :
    peer.sort = .ebgp ∧ type ∉ coreAttributes := by
  rwa [malformedNotifies, decide_eq_true_iff, not_or, not_not] at quiet

theorem refusal_of_ite {P : Prop} [Decidable P] {Q : Refusal → Prop} {first : Refusal} (now : Q first)
    (later : ∀ r ∈ refusal, Q r) : ∀ r ∈ (if P then some first else refusal), Q r := by
  split_ifs
  · rintro r ⟨⟩
    exact now
  · exact later

theorem resets_ite {P : Prop} [Decidable P] {err : UpdateErr} {whole : Bool}
    (core : type ∈ coreAttributes) :
    ∀ r ∈ (if P then some (Refusal.malformed type err whole) else none), r.Resets peer :=
  refusal_of_ite (core_resets core) nofun

theorem readUnless_handled (resets : ∀ r ∈ refusal, r.Resets peer)
    (go : refusal = none → Handled peer s head p inOrder effect read) :
    Handled peer s head p inOrder effect (head.readUnless peer s pnt p' refusal read) := by
  cases refusal with
  | none => exact go rfl
  | some r =>
    refine handled_error ?_
    cases r with
    | reset err => rfl
    | malformed type err whole =>
      have notifies : malformedNotifies peer type = true := resets _ rfl
      rw [AttrHead.readUnless, AttrHead.refused, if_pos notifies]

/-- A refusal that never asks for the routes to be withdrawn. -/
def Refusal.Known : Refusal → Prop
  | .malformed type _ _ => type ∈ coreAttributes ∨ type ∈ inconsequentialAttributes
  | .reset _ => True

/-- An attribute in which an error does not matter. -/
theorem readUnless_passedOver (member : head.type ∈ inconsequentialAttributes)
    (known : ∀ r ∈ refusal, r.Known) (accepted : refusal = none ↔ inOrder) :
    Handled peer s head p inOrder effect
      (head.readUnless peer s head.value p refusal ⟨.proceed, pnt, effect⟩) := by
  rcases refusal with _ | ⟨type, err, whole⟩ | err
  · exact .accepted (accepted.mp rfl) pnt
  · rw [AttrHead.readUnless, AttrHead.refused]
    by_cases notifies : malformedNotifies peer type = true
    · rw [if_pos notifies]
      exact handled_error rfl
    · obtain ⟨ebgp, notCore⟩ := ebgp_of_quiet notifies
      rw [if_neg notifies, malformedRelaxed, if_pos ((known _ rfl).resolve_left notCore)]
      exact .passedOver ⟨ebgp, member⟩ fun ok => absurd (accepted.mpr ok) (by simp)
  · exact handled_error rfl

theorem inconsequential_of_kind {kind : AttrKind} (isKind : AttrKind.ofType head.type = kind)
    (passable : kind ∈ [AttrKind.atomicAggregate, .aggregator, .as4Aggregator]) :
    head.type ∈ inconsequentialAttributes := by
  have kinds : ∀ entry ∈ attrKinds,
      entry.2 ∈ [AttrKind.atomicAggregate, .aggregator, .as4Aggregator] →
        entry.1 ∈ inconsequentialAttributes := by decide
  refine kinds _ (AttrKind.mem_of_ofType ?_ isKind) passable
  rintro rfl
  simp at passable

theorem pathRefusal_none {path : Option Aspath} (accepted : pathRefusal type path = none) :
    path.isSome = true := by
  cases path with
  | none => simp [pathRefusal] at accepted
  | some path => rfl

theorem as4PathRead_handled (kind : AttrKind.ofType head.type = .as4Path) :
    Handled peer s head p (attrAccepted peer s head) (attrEffect peer s head p)
      (as4PathRead peer s head p) := by
  rw [attrAccepted, attrEffect, kind]
  refine readUnless_handled (resets_ite (by decide)) fun flags => ?_
  dsimp only
  cases path : (aspathRead s true head.value head.length).1 with
  | some aspath => exact .accepted ⟨flags, rfl⟩ _
  | none =>
    have type_eq : head.type = bgpAttrTypeAs4Path := by
      simpa [attrKinds] using AttrKind.mem_of_ofType (by simp) kind
    have other : bgpAttrTypeAs4Path ∉ inconsequentialAttributes := by decide
    simp only [pathRefusal, Option.isNone_none, if_true, AttrHead.readUnless, AttrHead.refused,
      malformedRelaxed, Bool.false_eq_true, if_false]
    split_ifs with notifies all
    · exact handled_error rfl
    · exact .givenUp ⟨(ebgp_of_quiet notifies).1, type_eq, all.2.1, all.1, all.2.2, path⟩
    · exact handled_error rfl

theorem localPrefRead_handled (kind : AttrKind.ofType head.type = .localPref) :
    Handled peer s head p (attrAccepted peer s head) (attrEffect peer s head p)
      (localPrefRead peer s head p) := by
  have resets : ∀ r ∈ localPrefRefusal head, r.Resets peer :=
    refusal_of_ite trivial (refusal_of_ite trivial (by simp))
  rw [attrAccepted, attrEffect, kind, localPrefRead]
  dsimp only
  split_ifs with ebgp four
  · exact readUnless_handled resets fun ok => .accepted ⟨ok, .inl ebgp⟩ _
  · exact readUnless_handled resets fun ok => .accepted ⟨ok, .inr (.inl four)⟩ _
  · refine readUnless_handled resets fun ok => ?_
    by_cases empty : head.length = 0
    · exact .accepted ⟨ok, .inr (.inr empty)⟩ _
    · refine .stopped (by simp) fun _ atEnd => ?_
      rw [AttrHead.attrEnd] at atEnd
      dsimp only at atEnd
      omega

theorem communityRefusal_none {made : Bool} (accepted : communityRefusal type made = none) :
    made = true := by
  simpa [communityRefusal] using accepted

theorem mpNexthopChange_some {len : UInt8} {change : PacketAttr → PacketAttr}
    (known : mpNexthopChange s len pnt = some change) : len ∈ ([4, 12, 16, 32] : List UInt8) := by
  rw [mpNexthopChange] at known
  split_ifs at known <;> simp_all

theorem mpReachChange_eq (p : Parsed) :
    p.change (mpReachChange s head) =
      (p.change fun attr => { attr with mpNexthopLen := s.byte (head.value + 3) }).change
        ((mpNexthopChange s (s.byte (head.value + 3)) (head.value + 4)).getD id) := rfl

theorem mpReachRead_handled (kind : AttrKind.ofType head.type = .mpReachNlri) :
    Handled peer s head p (attrAccepted peer s head) (attrEffect peer s head p)
      (mpReachRead peer s head p) := by
  rw [attrAccepted, attrEffect, kind, mpReachRead]
  dsimp only
  split_ifs with short few
  · exact handled_error rfl
  · exact handled_error rfl
  rw [mpReachChange_eq]
  cases nexthop : mpNexthopChange s (s.byte (head.value + 3)) (head.value + 4) with
  | none => exact handled_error rfl
  | some change =>
    have behind : head.value + 4 + (s.byte (head.value + 3)).toNat + 1 - head.value =
        4 + (s.byte (head.value + 3)).toNat + 1 := by omega
    dsimp only
    rw [mpReachRestRead, mpFieldRead, behind]
    split_ifs with none empty sane
    · exact handled_error rfl
    · exact handled_error rfl
    · exact .accepted ⟨Nat.le_of_not_lt short, mpNexthopChange_some nexthop,
        Nat.pos_of_ne_zero empty, sane⟩ _
    · exact handled_error rfl

theorem unknownRead_handled (kind : AttrKind.ofType head.type = .unknown) :
    Handled peer s head p (attrAccepted peer s head) (attrEffect peer s head p)
      (unknownRead peer s head p) := by
  have other : head.type ∉ inconsequentialAttributes := by
    have known : ∀ type ∈ inconsequentialAttributes, AttrKind.ofType type ≠ .unknown :=
      forall_mem_of_all (by decide)
    exact fun member => known _ member kind
  rw [attrAccepted, attrEffect, kind, unknownRead, unknownRefusal]
  by_cases optional : checkFlag head.flag bgpAttrFlagOptional = true
  · rw [if_neg (not_not.mpr optional)]
    exact .accepted optional _
  · rw [if_pos optional]
    refine handled_error ?_
    have relaxed : malformedRelaxed head.type head.flag = .error := by
      rw [malformedRelaxed, if_neg other, if_neg (optional ·.2.1)]
    rw [AttrHead.readUnless, AttrHead.refused, relaxed]
    cases malformedNotifies peer head.type <;> rfl

/-- **What the handlers do.** -/
theorem handlerRead_handled (peer : UpdatePeer) (s : Stream) (head : AttrHead) (p : Parsed) :
    Handled peer s head p (attrAccepted peer s head) (attrEffect peer s head p)
      (handlerRead peer s head p) := by
  rw [handlerRead]
  cases kind : AttrKind.ofType head.type
  case as4Path => exact as4PathRead_handled kind
  case localPref => exact localPrefRead_handled kind
  case mpReachNlri => exact mpReachRead_handled kind
  case unknown => exact unknownRead_handled kind
  all_goals rw [attrAccepted, attrEffect, kind]; dsimp only
  case origin =>
    have resets : ∀ r ∈ originRefusal head, r.Resets peer :=
      refusal_of_ite (core_resets (by decide)) (resets_ite (by decide))
    exact readUnless_handled resets fun flags =>
      readUnless_handled (resets_ite (by decide)) fun value => .accepted ⟨flags, value⟩ _
  case asPath =>
    exact readUnless_handled (resets_ite (by decide)) fun flags =>
      readUnless_handled (resets_ite (by decide)) fun path =>
        .accepted ⟨flags, pathRefusal_none path⟩ _
  case nextHop =>
    have resets : ∀ r ∈ nexthopRefusal head, r.Resets peer :=
      refusal_of_ite (core_resets (by decide)) (resets_ite (by decide))
    exact readUnless_handled resets fun ok => .accepted ok _
  case multiExitDisc =>
    have resets : ∀ r ∈ medRefusal head, r.Resets peer := refusal_of_ite trivial <|
      refusal_of_ite trivial <| refusal_of_ite trivial (resets_ite (by decide))
    exact readUnless_handled resets fun ok => .accepted ok _
  case atomicAggregate =>
    have known : ∀ r ∈ atomicRefusal head, r.Known := refusal_of_ite trivial <|
      refusal_of_ite trivial <| refusal_of_ite trivial <| refusal_of_ite (.inr (by decide)) (by simp)
    exact readUnless_passedOver (inconsequential_of_kind kind (by simp)) known Iff.rfl
  case aggregator =>
    exact readUnless_passedOver (inconsequential_of_kind kind (by simp))
      (refusal_of_ite (.inr (by decide)) (by simp)) (by simp [lengthRefusal])
  case as4Aggregator =>
    exact readUnless_passedOver (inconsequential_of_kind kind (by simp))
      (refusal_of_ite (.inr (by decide)) (by simp)) (by simp [lengthRefusal])
  case communities =>
    rw [communityRead]
    split_ifs with empty
    · exact .accepted (.inl empty) _
    · exact readUnless_handled (resets_ite (by decide)) fun made =>
        .accepted (.inr (communityRefusal_none made)) _
  case extCommunities =>
    rw [extCommunitiesRead]
    split_ifs with empty
    · exact .accepted (.inl empty) _
    · exact readUnless_handled (resets_ite (by decide)) fun made =>
        .accepted (.inr (communityRefusal_none made)) _
  case originatorId =>
    exact readUnless_handled (resets_ite (by decide)) fun ok =>
      .accepted (by simpa using lengthRefusal_ok ok) _
  case clusterList =>
    exact readUnless_handled (resets_ite (by decide)) fun ok =>
      .accepted (by simpa using lengthRefusal_ok ok) _
  case mpUnreachNlri =>
    rw [mpUnreachRead, mpFieldRead]
    split_ifs with short sane
    · exact handled_error rfl
    · exact .accepted ⟨Nat.le_of_not_lt short, sane⟩ _
    · exact handled_error rfl

/-- **A handler that lets the parser proceed behind its attribute has accepted it, or has passed
over an error that does not matter.** -/
theorem handlerRead_proceed
    (read : handlerRead peer s head p = ⟨.proceed, head.attrEnd, p'⟩) :
    (attrAccepted peer s head ∧ p' = attrEffect peer s head p) ∨
      (attrPassedOver peer head ∧ ¬ attrAccepted peer s head ∧ p' = p) := by
  have handled := handlerRead_handled peer s head p
  generalize handlerRead peer s head p = result at handled read
  cases handled with
  | accepted ok pnt => exact .inl ⟨ok, (AttrRead.mk.inj read).2.2.symm⟩
  | passedOver passed refused => exact .inr ⟨passed, refused, (AttrRead.mk.inj read).2.2.symm⟩
  | givenUp malformed => cases read
  | stopped _ stops =>
    rw [read] at stops
    exact absurd rfl (stops rfl)

/-- **Only a malformed `AS4_PATH` makes a handler ask for the routes to be withdrawn.** -/
theorem handlerRead_withdraw (withdraw : (handlerRead peer s head p).ret = .withdraw) :
    MalformedAs4Path peer s head ∧
      handlerRead peer s head p =
        ⟨.withdraw, (aspathRead s true head.value head.length).2, { p with as4Path := none }⟩ := by
  have handled := handlerRead_handled peer s head p
  generalize handlerRead peer s head p = result at handled withdraw
  cases handled with
  | accepted ok pnt => cases withdraw
  | passedOver passed => cases withdraw
  | givenUp malformed => exact ⟨malformed, rfl⟩
  | stopped notWithdraw => exact absurd withdraw notWithdraw

end Handlers

/-! ## What effects leave alone -/

/-- What has been parsed after an attribute that the parser passes. -/
def attrPassed (peer : UpdatePeer) (s : Stream) (p : Parsed) (head : AttrHead) : Parsed :=
  if attrAccepted peer s head then attrEffect peer s head (p.begin head) else p.begin head

section Frame

variable {peer : UpdatePeer} {s : Stream} {head : AttrHead} {p : Parsed}

theorem attrEffect_seen : (attrEffect peer s head p).seen = p.seen := by
  rw [attrEffect]
  cases AttrKind.ofType head.type <;> dsimp only <;> (try split_ifs) <;> rfl

theorem attrPassed_seen : (attrPassed peer s p head).seen = head.type :: p.seen := by
  rw [attrPassed]
  split_ifs
  · exact attrEffect_seen
  · rfl

/-- Attributes whose flag is set whenever they are accepted. -/
def flaggedTypes : List UInt8 :=
  [bgpAttrTypeOrigin, bgpAttrTypeAsPath, bgpAttrTypeNextHop, bgpAttrTypeAggregator,
    bgpAttrTypeAs4Path, bgpAttrTypeAs4Aggregator]

theorem mpReachChange_flag (attr : PacketAttr) : (mpReachChange s head attr).flag = attr.flag := by
  rw [mpReachChange, mpNexthopChange]
  split_ifs <;> rfl

theorem attrEffect_flag (peer : UpdatePeer) (s : Stream) (head : AttrHead) (p : Parsed) :
    (0 < head.type.toNat ∧ (attrEffect peer s head p).attr.flag = (p.attr.set head.type).flag) ∨
      (head.type ∉ flaggedTypes ∧ (attrEffect peer s head p).attr.flag = p.attr.flag) := by
  have other : AttrKind.ofType head.type ∈ [.unknown, .mpReachNlri, .mpUnreachNlri] →
      head.type ∉ flaggedTypes := by
    have kinds : ∀ type ∈ flaggedTypes,
        AttrKind.ofType type ∉ [AttrKind.unknown, .mpReachNlri, .mpUnreachNlri] :=
      forall_mem_of_all (by decide)
    exact fun kind member => kinds _ member kind
  cases kind : AttrKind.ofType head.type
  case unknown =>
    refine .inr ⟨other (by simp [kind]), ?_⟩
    rw [attrEffect, kind]
    split_ifs <;> rfl
  case mpReachNlri =>
    refine .inr ⟨other (by simp [kind]), ?_⟩
    rw [attrEffect, kind]
    exact mpReachChange_flag _
  all_goals
    have member := AttrKind.mem_of_ofType (by simp) kind
    simp only [attrKinds, List.mem_cons, Prod.mk.injEq, reduceCtorEq, and_false, and_true,
      List.not_mem_nil, or_false, false_or] at member
    rw [attrEffect, member]
    try split_ifs
    all_goals first | exact .inl ⟨by decide, rfl⟩ | exact .inr ⟨by decide, rfl⟩

/-- The flag of such an attribute is set by that attribute and by no other. -/
theorem attrEffect_has {type : UInt8} (flagged : type ∈ flaggedTypes) :
    (attrEffect peer s head p).attr.has type = (p.attr.has type || decide (type = head.type)) := by
  have nonzero : 0 < type.toNat := by
    have all : ∀ type ∈ flaggedTypes, 0 < type.toNat := forall_mem_of_all (by decide)
    exact all type flagged
  rcases attrEffect_flag peer s head p with ⟨pos, flag⟩ | ⟨other, flag⟩
  · rw [PacketAttr.has, flag, ← PacketAttr.has, PacketAttr.has_set]
    congr 1
    rw [decide_eq_decide, ← UInt8.toNat_inj]
    omega
  · have differs : type ≠ head.type := fun same => other (same ▸ flagged)
    rw [PacketAttr.has, flag, ← PacketAttr.has]
    simp [differs]

end Frame

/-! ## What is noted of one kind of attribute -/

/-- The attribute of a kind. -/
def attrOf (heads : List AttrHead) (kind : AttrKind) : Option AttrHead :=
  heads.find? fun head => AttrKind.ofType head.type = kind

/-- A field that attributes of one kind store, and no others. -/
structure Tracks (peer : UpdatePeer) (s : Stream) {β : Type} (field : Parsed → β)
    (kind : AttrKind) (value : AttrHead → β) : Prop where
  known : kind ≠ .unknown
  begins : ∀ head p, field (Parsed.begin p head) = field p
  effect : ∀ head p, field (attrEffect peer s head p) =
    if AttrKind.ofType head.type = kind then value head else field p

section Tracks

variable {peer : UpdatePeer} {s : Stream} {heads : List AttrHead} {kind : AttrKind}

theorem attrOf_snoc (known : kind ≠ .unknown) {head : AttrHead}
    (new : head.type ∉ heads.map AttrHead.type) :
    attrOf (heads ++ [head]) kind =
      if AttrKind.ofType head.type = kind then some head else attrOf heads kind := by
  rw [attrOf]
  by_cases isKind : AttrKind.ofType head.type = kind
  · have none : heads.find? (fun head => AttrKind.ofType head.type = kind) = none := by
      refine List.find?_eq_none.mpr fun other member isKind' => new ?_
      rw [AttrKind.type_eq known isKind (of_decide_eq_true isKind')]
      exact List.mem_map_of_mem member
    simp [none, isKind]
  · simp [isKind, attrOf]

theorem mem_of_attrOf {head : AttrHead} (found : attrOf heads kind = some head) :
    head ∈ heads ∧ AttrKind.ofType head.type = kind :=
  ⟨List.mem_of_find?_eq_some found, of_decide_eq_true (List.find?_some found :)⟩

theorem Tracks.noted {β : Type} {field : Parsed → β} {value : AttrHead → β}
    (tracks : Tracks peer s field kind value) (types : (heads.map AttrHead.type).Nodup)
    (inOrder : ∀ head ∈ heads, AttrKind.ofType head.type = kind → attrAccepted peer s head) :
    field (heads.foldl (attrPassed peer s) .zero) =
      (attrOf heads kind).elim (field .zero) value := by
  induction heads using List.reverseRecOn with
  | nil => rfl
  | append_singleton heads head ih =>
    rw [List.map_append, List.nodup_append] at types
    have new : head.type ∉ heads.map AttrHead.type := fun member =>
      types.2.2 _ member _ (List.mem_singleton.mpr rfl) rfl
    specialize ih types.1 fun head member => inOrder head (List.mem_append_left _ member)
    rw [List.foldl_append, List.foldl_cons, List.foldl_nil, attrPassed,
      attrOf_snoc tracks.known new]
    by_cases isKind : AttrKind.ofType head.type = kind
    · rw [if_pos (inOrder head (by simp) isKind), tracks.effect, if_pos isKind, if_pos isKind]
      rfl
    · rw [if_neg isKind, ← ih]
      split_ifs
      · rw [tracks.effect, if_neg isKind, tracks.begins]
      · exact tracks.begins head _

theorem tracks_mpUpdate : Tracks peer s Parsed.mpUpdate .mpReachNlri (mpReachField s) where
  known := by simp
  begins _ _ := rfl
  effect head p := by
    rw [attrEffect]
    cases AttrKind.ofType head.type <;> simp only [reduceCtorEq, if_false] <;>
      (try split_ifs) <;> rfl

theorem tracks_mpWithdraw :
    Tracks peer s Parsed.mpWithdraw .mpUnreachNlri (mpUnreachField s) where
  known := by simp
  begins _ _ := rfl
  effect head p := by
    rw [attrEffect]
    cases AttrKind.ofType head.type <;> simp only [reduceCtorEq, if_false] <;>
      (try split_ifs) <;> rfl

theorem tracks_has {type : UInt8} (flagged : type ∈ flaggedTypes) :
    Tracks peer s (·.attr.has type) (AttrKind.ofType type) fun _ => true where
  known := by
    have kinds : ∀ type ∈ flaggedTypes, AttrKind.ofType type ≠ .unknown :=
      forall_mem_of_all (by decide)
    exact kinds type flagged
  begins _ _ := rfl
  effect head p := by
    have kinds : ∀ type ∈ flaggedTypes, AttrKind.ofType type ≠ .unknown :=
      forall_mem_of_all (by decide)
    have same : AttrKind.ofType head.type = AttrKind.ofType type ↔ type = head.type :=
      ⟨fun isKind => AttrKind.type_eq (kinds type flagged) rfl isKind, fun same => by rw [same]⟩
    rw [attrEffect_has flagged]
    simp only [same]
    split_ifs with here <;> simp [here]

/-- Errors are passed over only in attributes of three kinds. -/
theorem passedOver_kind {head : AttrHead} (passed : attrPassedOver peer head) :
    AttrKind.ofType head.type ∈ [AttrKind.atomicAggregate, .aggregator, .as4Aggregator] := by
  have kinds : ∀ type ∈ inconsequentialAttributes,
      AttrKind.ofType type ∈ [AttrKind.atomicAggregate, .aggregator, .as4Aggregator] :=
    forall_mem_of_all (by decide)
  exact kinds _ passed.2

end Tracks

/-! ## The attributes of a block -/

/-- The attributes that stand one behind the other from an offset to another one. -/
inductive AttrHeads (s : Stream) (pnt : Nat) : List AttrHead → Nat → Prop
  | nil : AttrHeads s pnt [] pnt
  | snoc {heads : List AttrHead} {startp : Nat} (before : AttrHeads s pnt heads startp) :
      AttrHeads s pnt (heads ++ [headAt s startp]) (headAt s startp).attrEnd

/-- What the walk has passed. -/
structure Walked (peer : UpdatePeer) (s : Stream) (pnt stop : Nat) (heads : List AttrHead)
    (t : Nat × Parsed) : Prop where
  before : AttrHeads s pnt heads t.1
  types : (heads.map AttrHead.type).Nodup
  passed : ∀ head ∈ heads, head.attrEnd ≤ stop ∧
    (attrAccepted peer s head ∨ attrPassedOver peer head)
  parsed_eq : t.2 = heads.foldl (attrPassed peer s) .zero

section Heads

variable {peer : UpdatePeer} {s : Stream} {pnt stop : Nat} {heads : List AttrHead}
  {t : Nat × Parsed}

theorem foldl_attrPassed_seen (heads : List AttrHead) :
    (heads.foldl (attrPassed peer s) .zero).seen = (heads.map AttrHead.type).reverse := by
  induction heads using List.reverseRecOn with
  | nil => rfl
  | append_singleton heads head ih =>
    rw [List.foldl_append, List.foldl_cons, List.foldl_nil, attrPassed_seen, ih]
    simp

section Walked

variable (walked : Walked peer s pnt stop heads t)
include walked

/-- What attributes store in which errors are not passed over. -/
theorem Walked.noted_of_kind {β : Type} {field : Parsed → β} {kind : AttrKind}
    {value : AttrHead → β} (tracks : Tracks peer s field kind value)
    (other : kind ∉ [AttrKind.atomicAggregate, .aggregator, .as4Aggregator]) :
    field t.2 = (attrOf heads kind).elim (field .zero) value := by
  rw [walked.parsed_eq]
  refine tracks.noted walked.types fun head member isKind => ?_
  exact (walked.passed head member).2.resolve_right fun passed =>
    other (isKind ▸ passedOver_kind passed)

theorem Walked.seen_eq : t.2.seen = (heads.map AttrHead.type).reverse := by
  rw [walked.parsed_eq, foldl_attrPassed_seen]

theorem Walked.step {t' : Nat × Parsed} (stepped : attrStep peer s stop t = .again t') :
    Walked peer s pnt stop (heads ++ [headAt s t.1]) t' := by
  obtain ⟨new, ends, there, read⟩ := attrStep_again stepped
  rw [walked.seen_eq, List.mem_reverse] at new
  have passed := handlerRead_proceed read
  refine ⟨there ▸ walked.before.snoc, ?_, ?_, ?_⟩
  · rw [List.map_append, List.nodup_append]
    refine ⟨walked.types, List.nodup_singleton _, fun type member type' here => ?_⟩
    rw [List.mem_singleton.mp here]
    exact fun same => new (same ▸ member)
  · intro head member
    rcases List.mem_append.mp member with earlier | here
    · exact walked.passed head earlier
    · rw [List.mem_singleton.mp here]
      exact ⟨ends, passed.imp And.left And.left⟩
  · rw [List.foldl_append, ← walked.parsed_eq, List.foldl_cons, List.foldl_nil, attrPassed]
    rcases passed with ⟨accepted, parsed⟩ | ⟨-, refused, parsed⟩
    · rw [if_pos accepted, parsed]
    · rw [if_neg refused, parsed]

end Walked

theorem walked_zero : Walked peer s pnt stop [] (pnt, .zero) where
  before := .nil
  types := List.nodup_nil
  passed := by simp
  parsed_eq := rfl

theorem attrsRead_run {size : Nat} {p : Parsed}
    (proceed : (attrsRead peer s pnt size p).ret = .proceed) :
    ∃ last, (attrWalk peer s (pnt + size)).run (pnt, p) = .again last := by
  cases run : (attrWalk peer s (pnt + size)).run (pnt, p) with
  | again last => exact ⟨last, rfl⟩
  | leave read =>
    obtain ⟨t, -, -, stepped⟩ :=
      Walk.run_leave (fun _ => True) (fun _ _ _ _ _ => trivial) trivial run
    rw [attrsRead, run] at proceed
    exact absurd proceed (attrStep_leave stepped).1

theorem walked_run {last : Nat × Parsed}
    (ran : (attrWalk peer s stop).run (pnt, .zero) = .again last) :
    ∃ heads, Walked peer s pnt stop heads last :=
  (Walk.run_again (fun t => ∃ heads, Walked peer s pnt stop heads t)
    (fun _ _ walked _ stepped => walked.elim fun _ walked => ⟨_, walked.step stepped⟩)
    ⟨_, walked_zero⟩ ran).1

/-- **Where the parser accepts the attributes, they stand one behind the other up to the end of the
block.** -/
theorem attrsRead_proceed {size : Nat}
    (proceed : (attrsRead peer s pnt size .zero).ret = .proceed) :
    ∃ heads p, Walked peer s pnt (pnt + size) heads (pnt + size, p) ∧
      (attrsParsed peer p).1 = .proceed ∧
      attrsRead peer s pnt size .zero = ⟨.proceed, pnt + size, (attrsParsed peer p).2⟩ := by
  obtain ⟨t, run⟩ := attrsRead_run proceed
  obtain ⟨heads, walked⟩ := walked_run run
  have atEnd : t.1 = pnt + size := attrWalk_end (Nat.le_add_right _ _) run
  rw [attrsRead, run] at proceed ⊢
  refine ⟨heads, t.2, atEnd ▸ walked, proceed, ?_⟩
  dsimp only at proceed ⊢
  rw [proceed, atEnd]

/-- **Where it asks for the routes to be withdrawn, they do so up to the first `AS4_PATH`, which is
malformed.** -/
theorem attrsRead_withdrawn {size : Nat}
    (withdraw : (attrsRead peer s pnt size .zero).ret = .withdraw) :
    ∃ heads startp p, Walked peer s pnt (pnt + size) heads (startp, p) ∧
      bgpAttrTypeAs4Path ∉ heads.map AttrHead.type ∧
      MalformedAs4Path peer s (headAt s startp) ∧ (headAt s startp).attrEnd ≤ pnt + size ∧
      attrsRead peer s pnt size .zero =
        ⟨.withdraw, (aspathRead s true (headAt s startp).value (headAt s startp).length).2,
          { p.begin (headAt s startp) with as4Path := none }⟩ := by
  rw [attrsRead] at withdraw ⊢
  cases run : (attrWalk peer s (pnt + size)).run (pnt, .zero) with
  | again t =>
    rw [run] at withdraw
    exact absurd withdraw (attrsParsed_ne_withdraw peer t.2)
  | leave read =>
    obtain ⟨t, ⟨heads, walked⟩, -, stepped⟩ :=
      Walk.run_leave (fun t => ∃ heads, Walked peer s pnt (pnt + size) heads t)
        (fun _ _ walked _ stepped => walked.elim fun _ walked => ⟨_, walked.step stepped⟩)
        ⟨_, walked_zero⟩ run
    rw [run] at withdraw
    obtain ⟨new, ends, handled⟩ := (attrStep_leave stepped).2 withdraw
    rw [← handled] at withdraw ⊢
    obtain ⟨malformed, handled'⟩ := handlerRead_withdraw withdraw
    rw [walked.seen_eq, List.mem_reverse, malformed.type_eq] at new
    exact ⟨heads, t.1, t.2, walked, new, malformed, ends, handled'⟩

theorem AttrHeads.le {startp : Nat} (before : AttrHeads s pnt heads startp) : pnt ≤ startp := by
  induction before with
  | nil => exact Nat.le_refl _
  | snoc _ ih =>
    exact ih.trans (Nat.le_trans (Nat.le_add_right _ _) (Nat.le_add_right _ _))

/-- **Unless there is an error, the parser stops inside the block or at its end.** -/
theorem attrsRead_pnt_le {size : Nat} (handed : (attrsRead peer s pnt size .zero).ret ≠ .error) :
    pnt ≤ (attrsRead peer s pnt size .zero).pnt ∧
      (attrsRead peer s pnt size .zero).pnt ≤ pnt + size := by
  cases ret : (attrsRead peer s pnt size .zero).ret with
  | error => exact absurd ret handed
  | proceed =>
    obtain ⟨heads, p, -, -, read⟩ := attrsRead_proceed ret
    rw [read]
    exact ⟨Nat.le_add_right _ _, Nat.le_refl _⟩
  | withdraw =>
    obtain ⟨heads, startp, p, walked, -, malformed, ends, read⟩ := attrsRead_withdrawn ret
    obtain ⟨from', inside⟩ := aspathRead_none malformed.noPath
    have start : startp ≤ (headAt s startp).value := Nat.le_add_right _ _
    rw [read]
    exact ⟨walked.before.le.trans (start.trans from'), inside.le.trans ends⟩

end Heads

/-! ## The multiprotocol fields -/

/-- The multiprotocol fields end at an offset at the latest. -/
structure Parsed.MpInside (p : Parsed) (stop : Nat) : Prop where
  update : p.mpUpdate.nlri + p.mpUpdate.length ≤ stop
  withdraw : p.mpWithdraw.nlri + p.mpWithdraw.length ≤ stop

section MpInside

variable {peer : UpdatePeer} {s : Stream} {pnt stop : Nat} {heads : List AttrHead}
  {t : Nat × Parsed}

/-- A field that lies inside its attribute. -/
theorem Walked.field_le (walked : Walked peer s pnt stop heads t) {field : Parsed → BgpNlri}
    {kind : AttrKind} {value : AttrHead → BgpNlri} (tracks : Tracks peer s field kind value)
    (other : kind ∉ [AttrKind.atomicAggregate, .aggregator, .as4Aggregator])
    (zero : field .zero = ⟨0, 0, 0, 0⟩)
    (inside : ∀ head, AttrKind.ofType head.type = kind → attrAccepted peer s head →
      (value head).nlri + (value head).length ≤ head.attrEnd) :
    (field t.2).nlri + (field t.2).length ≤ stop := by
  rw [walked.noted_of_kind tracks other]
  cases found : attrOf heads kind with
  | none => simp [zero]
  | some head =>
    obtain ⟨member, isKind⟩ := mem_of_attrOf found
    obtain ⟨ends, passed⟩ := walked.passed head member
    have accepted := passed.resolve_right fun passed => other (isKind ▸ passedOver_kind passed)
    exact (inside head isKind accepted).trans ends

theorem Walked.mpInside (walked : Walked peer s pnt stop heads t) : t.2.MpInside stop := by
  constructor
  · refine walked.field_le tracks_mpUpdate (by simp) rfl fun head kind accepted => ?_
    simp only [attrAccepted, kind] at accepted
    have nonempty := accepted.2.2.1
    simp only [AttrHead.attrEnd, mpReachField] at nonempty ⊢
    omega
  · refine walked.field_le tracks_mpWithdraw (by simp) rfl fun head kind accepted => ?_
    simp only [attrAccepted, kind] at accepted
    simp only [AttrHead.attrEnd, mpUnreachField]
    omega

/-- What the end of the parser leaves alone. -/
def Parsed.kept (p : Parsed) : List UInt8 × BgpNlri × BgpNlri := (p.seen, p.mpUpdate, p.mpWithdraw)

theorem mungeAggregator_kept (p : Parsed) : (mungeAggregator p).2.kept = p.kept := by
  rw [mungeAggregator]
  split_ifs <;> rfl

theorem mungePath_kept (p : Parsed) : (mungePath p).kept = p.kept := by
  rw [mungePath]
  split <;> rfl

theorem bgpAttrMungeAs4Attrs_kept (peer : UpdatePeer) (p : Parsed) :
    (bgpAttrMungeAs4Attrs peer p).2.kept = p.kept := by
  rw [bgpAttrMungeAs4Attrs]
  dsimp only
  split_ifs
  · rfl
  · rfl
  · exact (mungePath_kept _).trans (mungeAggregator_kept p)
  · exact mungeAggregator_kept p

theorem attrsParsed_kept (peer : UpdatePeer) (p : Parsed) :
    (attrsParsed peer p).2.kept = p.kept := by
  have checked : ∀ aspath p', (bgpAttrAspathCheck peer aspath p').2.kept = p'.kept := by
    intro aspath p'
    rw [bgpAttrAspathCheck]
    split_ifs <;> rfl
  have munged := bgpAttrMungeAs4Attrs_kept peer p
  rw [attrsParsed]
  generalize bgpAttrMungeAs4Attrs peer p = result at munged
  obtain ⟨ret, p'⟩ := result
  cases ret with
  | error => exact munged
  | withdraw => exact munged
  | proceed =>
    dsimp only
    split
    · split_ifs
      · exact (checked _ p').trans munged
      · exact munged
    · exact munged

theorem attrsParsed_keeps (peer : UpdatePeer) (p : Parsed) :
    (attrsParsed peer p).2.seen = p.seen ∧ (attrsParsed peer p).2.mpUpdate = p.mpUpdate ∧
      (attrsParsed peer p).2.mpWithdraw = p.mpWithdraw := by
  obtain ⟨seen, fields⟩ := Prod.mk.inj (attrsParsed_kept peer p)
  exact ⟨seen, Prod.mk.inj fields⟩

/-- **The multiprotocol fields that the parser hands over lie inside the block.** -/
theorem attrsRead_mpInside {size : Nat}
    (handed : (attrsRead peer s pnt size .zero).ret ≠ .error) :
    (attrsRead peer s pnt size .zero).parsed.MpInside (pnt + size) := by
  cases ret : (attrsRead peer s pnt size .zero).ret with
  | error => exact absurd ret handed
  | proceed =>
    obtain ⟨heads, p, walked, -, read⟩ := attrsRead_proceed ret
    obtain ⟨-, update, withdraw⟩ := attrsParsed_keeps peer p
    rw [read]
    exact ⟨update ▸ walked.mpInside.update, withdraw ▸ walked.mpInside.withdraw⟩
  | withdraw =>
    obtain ⟨heads, startp, p, walked, -, -, -, read⟩ := attrsRead_withdrawn ret
    rw [read]
    exact ⟨walked.mpInside.update, walked.mpInside.withdraw⟩

end MpInside

end Quagga.Bgpd
