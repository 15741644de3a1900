import Quagga.Bgpd.UpdateReceive

/-!
# Errors that are treated as a withdrawal

For certain errors in the attributes the session is not reset. Instead, as the comment in
`bgp_update_receive` says, only the prefixes concerned are withdrawn: `bgp_attr_parse` returns
`BGP_ATTR_PARSE_WITHDRAW`, and the NLRI field is then handled as if it stood among the withdrawn
routes. The one error for which this happens is an `AS4_PATH` that cannot be parsed.

But `bgp_attr_parse` returns in the middle of that attribute, and `bgp_update_receive` takes what
comes behind the cursor as the NLRI field: the rest of the `AS4_PATH`, the attributes after it and
only then the field itself. At least one byte stands between the cursor and the field. If these
bytes cannot be read as prefixes together with the field, nothing is withdrawn. If they are prefixes
of their own, the claim of the comment holds exactly if the message names these prefixes anyway
(`treatAsWithdraw_iff`).
-/

set_option autoImplicit false

namespace Quagga.Bgpd

open Lib Library

/-! ## The prefixes of a field -/

/-- The network of a prefix: its length, and the bits of the address that count. -/
def Prefix.network (p : Prefix) : Nat × Nat :=
  (p.prefixlen.toNat,
    (p.bytes.foldl (fun address byte => address * 256 + byte.toNat) 0) >>>
      (8 * psize p.prefixlen.toNat - p.prefixlen.toNat))

section Prefixes

variable {s : Stream} {stop : Nat}

end Prefixes

/-! ## What is withdrawn for a field -/

section Withdrawn

variable {s : Stream} {packet : BgpNlri} {refused : List NlriCall → Bool}

section

variable (unicast : packet.Unicast4)
include unicast

end

end Withdrawn

/-! ## The prefixes that an UPDATE withdraws -/

variable (calls : List UpdateCall)

variable {packet : BgpNlri}

section Unicast

variable {peer : UpdatePeer} {refused : List UpdateCall → Bool} {s : Stream}

section

variable (established : peer.status = .established)

include established

end

end Unicast

/-- An UPDATE in whose attributes `bgp_attr_parse` asks for the routes to be withdrawn, and that
is checked up to there without an error. -/
structure AsksWithdraw (peer : UpdatePeer) (s : Stream) : Prop where
  established : peer.status = .established
  withdrawFits : withdrawStart + withdrawLen s ≤ s.endp
  withdrawSane : fieldSane s withdrawStart (withdrawLen s) = true
  lengthFits : attributesStart s ≤ s.endp
  attributesFit : nlriStart s ≤ s.endp
  asks : ∃ st, bgpAttrParse peer (attributeLen s) ⟨s.seek (attributesStart s), .zero⟩ =
    .ok (.withdraw, st)

/-- Where the parser gives up an `AS4_PATH`. -/
def gaveUp (s : Stream) (startp : Nat) : Nat :=
  (aspathRead s true (headAt s startp).value (headAt s startp).length).2

section Conditions

variable (peer : UpdatePeer) (s : Stream)

end Conditions

section Asks

variable {peer : UpdatePeer} {s : Stream}

/-- What the parser has read when it asks for the routes to be withdrawn. -/
structure GaveUp (peer : UpdatePeer) (s : Stream) : Prop where
  path : ∃ heads startp, AttrHeads s (attributesStart s) heads startp ∧
    bgpAttrTypeAs4Path ∉ heads.map AttrHead.type ∧ MalformedAs4Path peer s (headAt s startp) ∧
    (updateAttrs peer s).pnt = gaveUp s startp
  ret : (updateAttrs peer s).ret = .withdraw
  below : (updateAttrs peer s).pnt < nlriStart s

theorem AsksWithdraw.gaveUp (fits : s.endp ≤ s.size) (asks : AsksWithdraw peer s) :
    GaveUp peer s := by
  obtain ⟨st, parsed⟩ := asks.asks
  rw [bgpAttrParse_seek fits asks.attributesFit] at parsed
  have withdraw : (attrsRead peer s (attributesStart s) (attributeLen s) .zero).ret = .withdraw :=
    congrArg Prod.fst (Except.ok.inj parsed)
  obtain ⟨heads, startp, p, walked, first, malformed, ends, read⟩ := attrsRead_withdrawn withdraw
  have nonempty : attributeLen s ≠ 0 := by
    have le := walked.before.le
    rw [AttrHead.attrEnd, AttrHead.value] at ends
    have start : (headAt s startp).startp = startp := rfl
    have header := AttrHead.size_pos (headAt s startp).flag
    omega
  have eq : updateAttrs peer s = _ := (if_neg nonempty).trans read
  refine ⟨⟨heads, startp, walked.before, first, malformed, ?_⟩, ?_, ?_⟩
  · rw [eq]
    rfl
  · rw [eq]
  · rw [eq]
    exact (aspathRead_none malformed.noPath).2.trans_le ends

end Asks

end Quagga.Bgpd
