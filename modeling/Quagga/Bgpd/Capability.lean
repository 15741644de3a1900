import Quagga.Library.Loops
import Quagga.Lib.Stream

/-!
# Address families and dynamic capabilities

A session has tables of address families, by AFI and SAFI: those that are configured, those
that the neighbour has announced and those that both sides have. A CAPABILITY message changes
them while the session is up. It is a sequence of entries, each with an action, a code, a
length and that many bytes of data; `bgp_capability_msg_parse` goes from one to the next.

An entry with the code of the multiprotocol extensions is ignored when the neighbour is
configured with `override-capability`, or when its family is none of the known ones. Ignoring
it is a `continue` that does not move to the next entry, so the loop reads the same entry
again for ever (`overridden_capability_endless`). The loop ends exactly for the messages in
which no entry that it comes to is ignored, and then it makes at most one pass for every three
bytes (`capabilityMsgLoop_ends_iff`).
-/

set_option autoImplicit false

namespace Quagga.Bgpd

open Lib Library

/-! ## Address families -/

/-- `AFI_IP`. -/
def afiIp : Nat := 1

/-- `AFI_IP6`. -/
def afiIp6 : Nat := 2

/-- `SAFI_UNICAST`. -/
def safiUnicast : Nat := 1

/-- `SAFI_MULTICAST`. -/
def safiMulticast : Nat := 2

/-- `SAFI_MPLS_VPN`. -/
def safiMplsVpn : Nat := 4

/-- `BGP_SAFI_VPNV4`. -/
def bgpSafiVpnv4 : Nat := 128

/-- `BGP_SAFI_VPNV6`. -/
def bgpSafiVpnv6 : Nat := 129

/-- `bgp_afi_safi_valid_indices`, with IPv6 compiled in: the SAFI under which the tables hold
the family. -/
def bgpAfiSafiValidIndices (afi safi : Nat) : Option Nat :=
  if (afi = afiIp6 ∧ safi = bgpSafiVpnv4) ∨ (afi = afiIp ∧ safi = bgpSafiVpnv6) then none
  else if afi = afiIp ∨ afi = afiIp6 then
    if safi = bgpSafiVpnv4 ∨ safi = bgpSafiVpnv6 then some safiMplsVpn
    else if safi = safiUnicast ∨ safi = safiMulticast ∨ safi = safiMplsVpn then some safi
    else none
  else none

/-- The tables `afc`, `afc_recv` and `afc_nego` of a peer. -/
structure Families where
  afc : Nat → Nat → Bool
  afcRecv : Nat → Nat → Bool
  afcNego : Nat → Nat → Bool

/-- A table with one entry replaced. -/
def setFamily (table : Nat → Nat → Bool) (afi safi : Nat) (value : Bool) : Nat → Nat → Bool :=
  fun afi' safi' => if afi' = afi ∧ safi' = safi then value else table afi' safi'

/-- `peer_active_nego`. -/
def peerActiveNego (families : Families) : Bool :=
  families.afcNego afiIp safiUnicast || families.afcNego afiIp safiMulticast ||
    families.afcNego afiIp safiMplsVpn || families.afcNego afiIp6 safiUnicast ||
    families.afcNego afiIp6 safiMulticast

/-! ## The message -/

/-- What the parser causes outside the tables. -/
inductive CapabilityAction where
  | notifyCease
  | announceRoute (afi safi : Nat)
  | clearRoute (afi safi : Nat)
  | stop
  deriving DecidableEq, Repr

/-- The cursor, as an offset into the message, the tables and what has been caused. -/
structure CapabilityState where
  pnt : Nat
  families : Families
  actions : List CapabilityAction

/-- `CAPABILITY_CODE_MP`. -/
def capabilityCodeMp : UInt8 := 1

/-- `CAPABILITY_ACTION_SET`. -/
def capabilityActionSet : UInt8 := 0

/-- `CAPABILITY_ACTION_UNSET`. -/
def capabilityActionUnset : UInt8 := 1

/-- The offset after the entry at an offset. -/
def capabilityNext (memory : Nat → UInt8) (pnt : Nat) : Nat := pnt + (memory (pnt + 2)).toNat + 3

/-- The family in the entry at an offset, as `memcpy` takes it: four bytes, whatever the
length of the entry is. -/
def capabilityFamily (memory : Nat → UInt8) (pnt : Nat) : Nat × Nat :=
  ((word (memory (pnt + 3)) (memory (pnt + 4))).toNat, (memory (pnt + 6)).toNat)

/-- Set or unset a family. -/
def changeFamily (action : UInt8) (afi safi : Nat) (state : CapabilityState) : CapabilityState :=
  if action = capabilityActionSet then
    let afcRecv := setFamily state.families.afcRecv afi safi true
    if state.families.afc afi safi then
      { state with
        families := { state.families with
                      afcRecv := afcRecv
                      afcNego := setFamily state.families.afcNego afi safi true }
        actions := state.actions ++ [.announceRoute afi safi] }
    else { state with families := { state.families with afcRecv := afcRecv } }
  else
    let families :=
      { state.families with
        afcRecv := setFamily state.families.afcRecv afi safi false
        afcNego := setFamily state.families.afcNego afi safi false }
    { state with
      families := families
      actions := state.actions ++
        [if peerActiveNego families then .clearRoute afi safi else .stop] }

/-- The body of the loop of `bgp_capability_msg_parse`. The bytes after the message are
whatever the memory holds there. -/
def capabilityPass (overrideCapability : Bool) (memory : Nat → UInt8) (length : Nat)
    (state : CapabilityState) : Pass CapabilityState CapabilityState :=
  let pnt := state.pnt
  let cease := { state with actions := state.actions ++ [.notifyCease] }
  if pnt + 3 > length then .leave cease
  else if memory pnt ≠ capabilityActionSet ∧ memory pnt ≠ capabilityActionUnset then .leave cease
  else if capabilityNext memory pnt > length then .leave cease
  else if memory (pnt + 1) = capabilityCodeMp then
    let (afi, safi) := capabilityFamily memory pnt
    -- Both `continue` statements leave `pnt` as it is.
    if overrideCapability then .again state
    else
      match bgpAfiSafiValidIndices afi safi with
      | none => .again state
      | some safi =>
        .again { changeFamily (memory pnt) afi safi state with pnt := capabilityNext memory pnt }
  else .again { state with pnt := capabilityNext memory pnt }

/-- The loop of `bgp_capability_msg_parse`. It returns `0` when it ends and `-1` when it is
left. -/
def capabilityMsgLoop (overrideCapability : Bool) (memory : Nat → UInt8) (length : Nat) :
    While Fault CapabilityState CapabilityState where
  guard state := state.pnt < length
  body state := .ok (capabilityPass overrideCapability memory length state)

/-- The parser starts at the first byte. -/
def CapabilityState.start (families : Families) : CapabilityState :=
  { pnt := 0, families := families, actions := [] }

/-! ## Entries -/

variable {overrideCapability : Bool} {memory : Nat → UInt8} {length : Nat}

/-- The entry at an offset has a header, a known action and all of its data. -/
structure CompleteEntry (memory : Nat → UInt8) (length pnt : Nat) : Prop where
  header : pnt + 3 ≤ length
  action : memory pnt = capabilityActionSet ∨ memory pnt = capabilityActionUnset
  data : capabilityNext memory pnt ≤ length

/-- A complete entry, and the place behind it. -/
def EntryFollows (memory : Nat → UInt8) (length pnt next : Nat) : Prop :=
  CompleteEntry memory length pnt ∧ next = capabilityNext memory pnt

/-- The offsets of the entries, each after complete ones. -/
def EntryAt (memory : Nat → UInt8) (length pnt : Nat) : Prop :=
  Relation.ReflTransGen (EntryFollows memory length) 0 pnt

/-- The entry at an offset is one of the multiprotocol extensions that is ignored. -/
structure IgnoredEntry (overrideCapability : Bool) (memory : Nat → UInt8) (pnt : Nat) : Prop where
  code : memory (pnt + 1) = capabilityCodeMp
  cause : overrideCapability = true ∨
    bgpAfiSafiValidIndices (capabilityFamily memory pnt).1 (capabilityFamily memory pnt).2 = none

variable {state : CapabilityState}

theorem capabilityPass_incomplete (incomplete : ¬ CompleteEntry memory length state.pnt) :
    ∃ result, capabilityPass overrideCapability memory length state = .leave result := by
  unfold capabilityPass
  dsimp only
  split_ifs with short action data
  · exact ⟨_, rfl⟩
  · exact ⟨_, rfl⟩
  · exact ⟨_, rfl⟩
  all_goals
    refine absurd ⟨by omega, ?_, by omega⟩ incomplete
    tauto

section

variable (complete : CompleteEntry memory length state.pnt)

include complete

theorem capabilityPass_complete :
    capabilityPass overrideCapability memory length state =
      if memory (state.pnt + 1) = capabilityCodeMp then
        if overrideCapability then .again state
        else
          match bgpAfiSafiValidIndices (capabilityFamily memory state.pnt).1
              (capabilityFamily memory state.pnt).2 with
          | none => .again state
          | some safi =>
            .again { changeFamily (memory state.pnt) (capabilityFamily memory state.pnt).1 safi
              state with pnt := capabilityNext memory state.pnt }
      else .again { state with pnt := capabilityNext memory state.pnt } := by
  have header := complete.header
  have action := complete.action
  have data := complete.data
  unfold capabilityPass
  rw [if_neg (by omega), if_neg (by tauto), if_neg (by omega)]

theorem capabilityPass_ignored (ignored : IgnoredEntry overrideCapability memory state.pnt) :
    capabilityPass overrideCapability memory length state = .again state := by
  rw [capabilityPass_complete complete, if_pos ignored.code]
  rcases ignored.cause with overridden | invalid
  · rw [if_pos overridden]
  · rw [invalid]
    split_ifs <;> rfl

theorem capabilityPass_next (heeded : ¬ IgnoredEntry overrideCapability memory state.pnt) :
    ∃ state', capabilityPass overrideCapability memory length state = .again state' ∧
      state'.pnt = capabilityNext memory state.pnt := by
  rw [capabilityPass_complete complete]
  by_cases code : memory (state.pnt + 1) = capabilityCodeMp
  · rw [if_pos code]
    have plain : ¬ overrideCapability = true := fun overridden => heeded ⟨code, .inl overridden⟩
    rw [if_neg plain]
    cases valid : bgpAfiSafiValidIndices (capabilityFamily memory state.pnt).1
        (capabilityFamily memory state.pnt).2 with
    | none => exact absurd ⟨code, .inr valid⟩ heeded
    | some safi => exact ⟨_, rfl, rfl⟩
  · rw [if_neg code]
    exact ⟨_, rfl, rfl⟩

end

/-! ## Termination -/

/-- The number of passes that the rest of a message allows: one for every three bytes. -/
def passesLeft (length : Nat) (state : CapabilityState) : Nat := (length - state.pnt + 2) / 3

/-- Without ignored entries, every pass that goes on makes the rest shorter by three bytes. -/
theorem capabilityMsgLoop_ends
    (heeded : ∀ pnt, EntryAt memory length pnt → CompleteEntry memory length pnt →
      ¬ IgnoredEntry overrideCapability memory pnt) (families : Families) :
    ((capabilityMsgLoop overrideCapability memory length).within ((length + 2) / 3)
      (.start families)).isSome := by
  have first : EntryAt memory length (CapabilityState.start families).pnt :=
    Relation.ReflTransGen.refl
  refine While.within_isSome (fun state => EntryAt memory length state.pnt) (passesLeft length)
    ?_ _ first (Nat.le_refl _)
  intro state reached going
  have inside : state.pnt < length := of_decide_eq_true going
  have positive : 0 < passesLeft length state := by
    rw [passesLeft]
    omega
  refine ⟨positive, fun state' passed => ?_⟩
  have passed' : capabilityPass overrideCapability memory length state = .again state' :=
    Except.ok.inj passed
  by_cases complete : CompleteEntry memory length state.pnt
  · obtain ⟨next, gone, pnt⟩ :=
      capabilityPass_next complete (heeded _ reached complete)
    obtain rfl : next = state' := Pass.again.inj (gone.symm.trans passed')
    refine ⟨reached.tail ⟨complete, pnt⟩, ?_⟩
    rw [passesLeft, passesLeft, pnt, capabilityNext]
    omega
  · obtain ⟨result, left⟩ :
        ∃ result, capabilityPass overrideCapability memory length state = .leave result :=
      capabilityPass_incomplete complete
    rw [left] at passed'
    cases passed'

/-- From every state on the way to an ignored entry the loop goes on for ever. -/
theorem capabilityMsgLoop_endless {pnt : Nat} (complete : CompleteEntry memory length pnt)
    (ignored : IgnoredEntry overrideCapability memory pnt)
    (ahead : Relation.ReflTransGen (EntryFollows memory length) state.pnt pnt) (n : Nat) :
    (capabilityMsgLoop overrideCapability memory length).within n state = none := by
  refine While.within_eq_none
    (fun state => Relation.ReflTransGen (EntryFollows memory length) state.pnt pnt) ?_ n ahead
  intro state ahead
  have here : CompleteEntry memory length state.pnt := by
    rcases ahead.cases_head with same | ⟨_, ⟨here, _⟩, _⟩
    · exact same ▸ complete
    · exact here
  have inside : state.pnt < length := by
    have := here.header
    omega
  refine ⟨decide_eq_true inside, ?_⟩
  by_cases stays : IgnoredEntry overrideCapability memory state.pnt
  · exact ⟨state, congrArg Except.ok (capabilityPass_ignored here stays), ahead⟩
  · obtain ⟨state', gone, next⟩ := capabilityPass_next here stays
    refine ⟨state', congrArg Except.ok gone, ?_⟩
    rcases ahead.cases_head with same | ⟨_, ⟨_, rfl⟩, rest⟩
    · exact absurd (same ▸ ignored) stays
    · exact next ▸ rest

/-- **The parser of a CAPABILITY message ends, with at most one pass for every three bytes,
exactly when it comes to no entry that it ignores.** -/
theorem capabilityMsgLoop_ends_iff (overrideCapability : Bool) (memory : Nat → UInt8)
    (length : Nat) (families : Families) :
    (∃ n ≤ (length + 2) / 3, ((capabilityMsgLoop overrideCapability memory length).within n
      (.start families)).isSome) ↔
    ∀ pnt, EntryAt memory length pnt → CompleteEntry memory length pnt →
      ¬ IgnoredEntry overrideCapability memory pnt := by
  constructor
  · rintro ⟨n, -, ended⟩ pnt reached complete ignored
    have ahead : Relation.ReflTransGen (EntryFollows memory length)
        (CapabilityState.start families).pnt pnt := reached
    rw [capabilityMsgLoop_endless complete ignored ahead n] at ended
    cases ended
  · intro heeded
    exact ⟨_, Nat.le_refl _, capabilityMsgLoop_ends heeded families⟩

/-- The entry that adds IPv4 unicast. -/
def ipv4UnicastEntry (offset : Nat) : UInt8 := [0, 1, 4, 0, 1, 0, 1].getD offset 0

/-- Nothing is configured. -/
def noFamilies : Families :=
  { afc := fun _ _ => false, afcRecv := fun _ _ => false, afcNego := fun _ _ => false }

/-- **With `override-capability`, the announcement of IPv4 unicast keeps the parser in its loop
for ever.** -/
theorem overridden_capability_endless :
    ¬ ∃ n, ((capabilityMsgLoop true ipv4UnicastEntry 7).within n (.start noFamilies)).isSome := by
  rintro ⟨n, ended⟩
  have complete : CompleteEntry ipv4UnicastEntry 7 0 := ⟨by decide, .inl rfl, by decide⟩
  have endless : (capabilityMsgLoop true ipv4UnicastEntry 7).within n (.start noFamilies) = none :=
    capabilityMsgLoop_endless complete ⟨rfl, .inl rfl⟩ .refl n
  rw [endless] at ended
  cases ended

end Quagga.Bgpd
