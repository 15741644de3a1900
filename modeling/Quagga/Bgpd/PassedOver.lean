import Quagga.Bgpd.UpdateReceive

/-!
# Attributes in which errors do not matter

For a neighbour of another AS, `bgp_attr_malformed` lets the parser go on after an error in an
`ATOMIC_AGGREGATE`, an `AGGREGATOR` or an `AS4_AGGREGATOR`, so that the message is processed without
the attribute. But the handler returns before it has read the value, and `bgp_attr_parse` then
misses the bytes and resets the session. Only where no bytes are declared is the attribute passed
over, and then still counted in the length of the attributes: a message that has nothing else is
not taken for the End-of-RIB marker that it would be without the attribute (`passedOver_iff`).
-/

set_option autoImplicit false

namespace Quagga.Bgpd

open Lib Library

section Wrong

variable (peer : UpdatePeer) (refused : List UpdateCall → Bool) (s : Stream) (startp : Nat)
  (p : Parsed)

/-- One of the three attributes, which is in order apart from its length. -/
def WrongLength (head : AttrHead) : Prop :=
  match AttrKind.ofType head.type with
  | .atomicAggregate => head.length ≠ 0 ∧ ¬ checkFlag head.flag bgpAttrFlagOptional ∧
      checkFlag head.flag bgpAttrFlagTrans ∧ ¬ checkFlag head.flag bgpAttrFlagPartial
  | .aggregator => head.length ≠ asValueSize peer.as4Rcv + 4
  | .as4Aggregator => head.length ≠ 8
  | _ => False

/-- What the parser gives if it takes up behind the attribute at an offset, with what it has noted
before. -/
def attrsBehind : AttrRead :=
  attrsRead peer s (headAt s startp).attrEnd (nlriStart s - (headAt s startp).attrEnd)
    (p.begin (headAt s startp))

/-- The fields of the message without that attribute. -/
def fieldsBehind : UpdateFields :=
  { fieldsOf peer s with
    attributeLen := attributeLen s - (headAt s startp).total
    update := unicastField (attrsBehind peer s startp p).pnt
      (s.endp - (attrsBehind peer s startp p).pnt)
    ret := (attrsBehind peer s startp p).ret
    parsed := (attrsBehind peer s startp p).parsed }

/-- An UPDATE of an external neighbour that is in order, apart from the length of the attribute at
an offset: without that attribute it is accepted. Before it the parser has noted `p`. -/
structure ValidBut : Prop where
  established : peer.status = .established
  ebgp : peer.sort = .ebgp
  withdrawFits : withdrawStart + withdrawLen s ≤ s.endp
  withdrawSane : fieldSane s withdrawStart (withdrawLen s) = true
  lengthFits : attributesStart s ≤ s.endp
  attributesFit : nlriStart s ≤ s.endp
  before : Relation.ReflTransGen (fun t t' : Nat × Parsed =>
    t.1 < nlriStart s ∧ attrStep peer s (nlriStart s) t = .again t')
    (attributesStart s, .zero) (startp, p)
  new : (headAt s startp).type ∉ p.seen
  wrong : WrongLength peer (headAt s startp)
  ends : (headAt s startp).attrEnd ≤ nlriStart s
  rest : (attrsBehind peer s startp p).ret = .proceed
  updateSane : fieldSane s (attrsBehind peer s startp p).pnt
    (s.endp - (attrsBehind peer s startp p).pnt) = true
  accepted : (updateFamilies peer refused s (fieldsBehind peer s startp p)).toOption.any
    UpdateResult.accepted = true

/-- The message is an End-of-RIB marker of IPv4 unicast, a family of the peer. -/
def EndsRib (fields : UpdateFields) : Prop :=
  peer.afc afiIp safiUnicast = true ∧ fields.attributeLen = 0 ∧ fields.withdrawLen = 0

variable {peer refused s startp p}

/-- The value is not read. -/
theorem handlerRead_wrongLength {head : AttrHead} (ebgp : peer.sort = .ebgp)
    (wrong : WrongLength peer head) :
    handlerRead peer s head p = ⟨.proceed, head.value, p⟩ := by
  have passed {type : UInt8} {err : UpdateErr} {whole : Bool} {accepted : AttrRead}
      (other : type ∉ coreAttributes) (member : type ∈ inconsequentialAttributes) :
      head.readUnless peer s head.value p (some (.malformed type err whole)) accepted =
        ⟨.proceed, head.value, p⟩ := by
    rw [AttrHead.readUnless, AttrHead.refused, if_neg (by simp [malformedNotifies, ebgp, other]),
      malformedRelaxed, if_pos member]
  rw [WrongLength] at wrong
  rw [handlerRead]
  cases kind : AttrKind.ofType head.type <;> rw [kind] at wrong <;> try exact wrong.elim
  · obtain ⟨length, optional, trans, part⟩ := wrong
    rw [atomicRead, atomicRefusal, if_neg optional, if_neg (not_not.mpr trans), if_neg part,
      if_pos length]
    exact passed (by decide) (by decide)
  · rw [aggregatorRead, lengthRefusal, if_pos (by simpa using wrong)]
    exact passed (by decide) (by decide)
  · rw [as4AggregatorRead, lengthRefusal, if_pos (by simpa using wrong)]
    exact passed (by decide) (by decide)

/-- The attribute is passed over if it ends where its value starts. -/
theorem ValidBut.attrStep_eq (valid : ValidBut peer refused s startp p) :
    attrStep peer s (nlriStart s) (startp, p) =
      if (headAt s startp).length = 0 then
        .again ((headAt s startp).attrEnd, p.begin (headAt s startp))
      else .leave (errorRead peer .attrLengErr (headAt s startp).value
        (p.begin (headAt s startp))) := by
  have ends := valid.ends
  have start : (headAt s startp).startp = startp := rfl
  have size : AttrHead.size (headAt s startp).flag =
      if checkFlag (headAt s startp).flag bgpAttrFlagExtlen then 4 else 3 := rfl
  rw [AttrHead.attrEnd, AttrHead.value, size] at ends
  have short : ¬ nlriStart s - startp < 3 := by split_ifs at ends <;> omega
  have extended : ¬ (checkFlag (headAt s startp).flag bgpAttrFlagExtlen ∧
      nlriStart s - startp < 4) := by
    rintro ⟨extended, less⟩
    rw [if_pos extended] at ends
    omega
  simp only [attrStep, if_neg short, if_neg extended, valueRead, if_neg valid.new,
    if_neg (Nat.not_lt.mpr valid.ends)]
  show afterRead _ _ (handlerRead peer s _ (p.begin (headAt s startp))) = _
  rw [handlerRead_wrongLength valid.ebgp valid.wrong, afterRead]
  simp only [AttrHead.attrEnd, ne_eq, Nat.left_eq_add]
  by_cases none : (headAt s startp).length = 0
  · rw [none]
    rfl
  · rw [if_pos none, if_neg none]

theorem ValidBut.below (valid : ValidBut peer refused s startp p) : startp < nlriStart s := by
  have header := AttrHead.size_pos (headAt s startp).flag
  have ends := valid.ends
  have start : (headAt s startp).startp = startp := rfl
  rw [AttrHead.attrEnd, AttrHead.value] at ends
  omega

theorem ValidBut.attributeLen_ne (valid : ValidBut peer refused s startp p) :
    attributeLen s ≠ 0 := by
  intro none
  have below := valid.below
  have stop : nlriStart s = attributesStart s := by rw [nlriStart, none, Nat.add_zero]
  rcases valid.before.cases_head with same | ⟨t, step, -⟩
  · cases same
    omega
  · omega

theorem ValidBut.updateAttrs_eq (valid : ValidBut peer refused s startp p) :
    updateAttrs peer s = if (headAt s startp).length = 0 then attrsBehind peer s startp p
      else errorRead peer .attrLengErr (headAt s startp).value (p.begin (headAt s startp)) := by
  have ends := valid.ends
  have behind : (headAt s startp).attrEnd + (nlriStart s - (headAt s startp).attrEnd) =
      nlriStart s := by omega
  have comes : (attrWalk peer s (nlriStart s)).run (attributesStart s, .zero) =
      (attrWalk peer s (nlriStart s)).run (startp, p) := by
    refine Relation.ReflTransGen.head_induction_on valid.before rfl fun step _ ih => ?_
    rw [Walk.run_of_again (decide_eq_true step.1) step.2, ih]
  have going : (attrWalk peer s (nlriStart s)).guard (startp, p) = true :=
    decide_eq_true valid.below
  have step : (attrWalk peer s (nlriStart s)).step (startp, p) = _ := valid.attrStep_eq
  have stop : attributesStart s + attributeLen s = nlriStart s := rfl
  rw [updateAttrs, if_neg valid.attributeLen_ne, attrsRead, stop, comes, attrsBehind, attrsRead,
    behind]
  split_ifs at step ⊢ with none
  · rw [Walk.run_of_again going step]
  · rw [Walk.run_of_leave going step]

variable {fields : UpdateFields}

theorem updateUnicast_marks : Ensures (fun _ => True)
    (fun result => result.accepted = true →
      (.eorReceived afiIp safiUnicast ∈ result.calls ↔ EndsRib peer fields))
    (updateUnicast peer refused s fields) := by
  let other : UpdateCall → Prop := (· ≠ .eorReceived afiIp safiUnicast)
  have nlri {afi safi} (made) : other (.nlri afi safi made) := UpdateCall.noConfusion
  rw [updateUnicast]
  by_cases configured : peer.afc afiIp safiUnicast = true
  · rw [if_neg (not_not.mpr configured)]
    refine (parseField_adds other nlri).bind fun calls₁ adds₁ => ?_
    cases missingForUpdate peer fields with
    | some type => exact Bool.noConfusion
    | none =>
      refine (parseField_adds other nlri).bind fun calls₂ adds₂ => ?_
      refine (parseMpField_adds other nlri).bind fun calls₃ adds₃ => ?_
      refine (parseMpField_adds other nlri).bind fun calls₄ adds₄ _ => ?_
      have before : .eorReceived afiIp safiUnicast ∉ calls₄ := by
        rw [(((adds₁.trans adds₂).trans adds₃).trans adds₄).mem_iff (not_not_intro rfl)]
        exact List.not_mem_nil
      rw [EndsRib, and_iff_right configured, List.mem_append, or_iff_right before]
      split_ifs with ends
      · exact iff_of_true (List.mem_append_left _ (List.mem_singleton_self _)) ends
      · exact iff_of_false List.not_mem_nil ends
  · rw [if_pos configured]
    exact fun _ => iff_of_false List.not_mem_nil fun ends => configured ends.1

/-- **The End-of-RIB marker of IPv4 unicast is noted where the message is one.** -/
theorem updateFamilies_marks {result : UpdateResult}
    (ran : updateFamilies peer refused s fields = .ok result) (accepted : result.accepted = true) :
    .eorReceived afiIp safiUnicast ∈ result.calls ↔ EndsRib peer fields := by
  obtain ⟨unicast, worked, -⟩ := bind_eq_ok ran
  obtain ⟨same, adds⟩ := (updateFamilies_adds worked).of_ok ran
  have unicast4 : UpdateCall.Unicast4 (.eorReceived afiIp safiUnicast) := ⟨rfl, rfl⟩
  rw [adds.mem_iff (not_not_intro unicast4)]
  exact updateUnicast_marks.of_ok worked (same ▸ accepted)

/-- The length of the attributes matters for the End-of-RIB marker only. -/
theorem updateFamilies_congr {n : Nat}
    (same : EndsRib peer { fields with attributeLen := n } ↔ EndsRib peer fields) :
    updateFamilies peer refused s { fields with attributeLen := n } =
      updateFamilies peer refused s fields := by
  have unicast : updateUnicast peer refused s { fields with attributeLen := n } =
      updateUnicast peer refused s fields := by
    unfold updateUnicast
    by_cases configured : peer.afc afiIp safiUnicast = true
    · simp only [EndsRib, configured, true_and] at same
      simp only [same]
      rfl
    · rw [if_pos configured, if_pos configured]
  rw [updateFamilies, unicast]
  rfl

/-- **An UPDATE that is in order apart from the length of an `AGGREGATOR`, `AS4_AGGREGATOR` or
`ATOMIC_AGGREGATE` is processed as if that attribute were absent exactly if the length is zero and
the message is not an End-of-RIB marker without the attribute.** If the length is not zero, the
session is reset. -/
theorem passedOver_iff (received : ReceivedPacket .msgUpdate s)
    (valid : ValidBut peer refused s startp p) :
    bgpUpdateReceive peer refused (s.endp - bgpHeaderSize) s =
        updateFamilies peer refused s (fieldsBehind peer s startp p) ↔
      (headAt s startp).length = 0 ∧ ¬ EndsRib peer (fieldsBehind peer s startp p) := by
  have attrs := valid.updateAttrs_eq
  obtain ⟨result, ran, accepted⟩ : ∃ result, updateFamilies peer refused s
      (fieldsBehind peer s startp p) = .ok result ∧ result.accepted = true := by
    have accepted := valid.accepted
    cases ran : updateFamilies peer refused s (fieldsBehind peer s startp p) with
    | error fault => simp [ran, Except.toOption] at accepted
    | ok result => exact ⟨result, rfl, by simpa [ran, Except.toOption] using accepted⟩
  rw [bgpUpdateReceive, if_neg (not_not.mpr valid.established), updateFields_eq received.endp_le
    received.getp_eq (Nat.le_trans (by decide) received.minSize_le), ok_bind]
  split_ifs at attrs with none
  · have fields : fieldsOf peer s =
        { fieldsBehind peer s startp p with attributeLen := attributeLen s } := by
      rw [fieldsOf, attrs]
      rfl
    have unmarked : ¬ EndsRib peer (fieldsOf peer s) := fun ends => valid.attributeLen_ne ends.2.1
    rw [updateFieldsRead_accepted ⟨valid.withdrawFits, valid.withdrawSane, valid.lengthFits,
      valid.attributesFit, by rw [attrs, valid.rest]; simp, by rw [attrs]; exact valid.updateSane⟩,
      and_iff_right none]
    dsimp only
    constructor
    · intro same ends
      exact unmarked ((updateFamilies_marks (same.trans ran) accepted).mp
        ((updateFamilies_marks ran accepted).mpr ends))
    · intro notEnds
      rw [fields] at unmarked ⊢
      exact updateFamilies_congr (iff_of_false unmarked notEnds)
  · refine iff_of_false (fun same => ?_) fun both => none both.1
    cases read : updateFieldsRead peer s with
    | error notified =>
      rw [read, ran] at same
      cases same
      cases accepted
    | ok fields =>
      have handed := (updateFieldsRead_ok read).1.attributesRead
      rw [attrs] at handed
      exact handed rfl

end Wrong

/-- An UPDATE for `10.0.0.0/8` whose attributes start with some bytes. -/
def updateStarting (start : List UInt8) : Stream :=
  updateOf ([0, 0] ++ wordBytes (UInt16.ofNat (20 + start.length)) ++ start ++
    [0x40, 1, 1, 0, 0x40, 2, 6, 2, 1, 0, 0, 0xfd, 0xe9, 0x40, 3, 4, 10, 0, 0, 1, 8, 10])

/-- It starts with an `AGGREGATOR` without a value. -/
theorem passedOver_aggregator :
    bgpUpdateReceive vpnPeer (fun _ => false) 29 (updateStarting [0xc0, 7, 0]) =
      updateFamilies vpnPeer (fun _ => false) (updateStarting [0xc0, 7, 0])
        (fieldsBehind vpnPeer (updateStarting [0xc0, 7, 0]) 23 .zero) := by
  have valid : ValidBut vpnPeer (fun _ => false) (updateStarting [0xc0, 7, 0]) 23 .zero := by
    refine ⟨rfl, rfl, by decide, rfl, by decide, by decide, .refl, by decide, ?_, by decide, rfl,
      rfl, rfl⟩
    show (0 : Nat) ≠ 8
    decide
  exact (passedOver_iff ⟨rfl, by decide, by decide⟩ valid).mpr ⟨rfl, fun ends => nomatch ends.2.1⟩

/-- It starts with an `ATOMIC_AGGREGATE` with a byte as its value. -/
theorem atomicAggregate_resets :
    ValidBut vpnPeer (fun _ => false) (updateStarting [0x40, 6, 1, 0]) 23 .zero ∧
      bgpUpdateReceive vpnPeer (fun _ => false) 30 (updateStarting [0x40, 6, 1, 0]) =
        .ok ⟨false, [], [⟨0, 3, 5, []⟩]⟩ := by
  refine ⟨⟨rfl, rfl, by decide, rfl, by decide, by decide, .refl, by decide, ?_, by decide, rfl,
    rfl, rfl⟩, rfl⟩
  show (1 : Nat) ≠ 0 ∧ _
  decide

end Quagga.Bgpd
