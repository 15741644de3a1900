import Quagga.Bgpd.PacketWrite
import Quagga.Bgpd.PrefixList

/-!
# Outbound route filters

A router can ask a neighbour not to send what its inbound prefix-list would deny. It sends the list
in a ROUTE-REFRESH message, and the neighbour keeps it as an outbound route filter (ORF): a
prefix-list under a name made of the address of the peer and the family. A message with the part
`REMOVE_ALL` takes the list back.

`bgp_route_refresh_receive` does not accept any entry. The test whether the four bytes of the
sequence number are there is the wrong way round: where they are, the rest of the entries is
skipped, and the entry counts as malformed, for which the whole list is removed
(`orfEntry_leaves`). So no message adds to a list (`bgpRouteRefreshReceive_fewer`), and after a list
has been sent the neighbour filters nothing. Its announcements agree with the list only if the list
permits everything (`orf_synchronised_iff`). For VPN the sender also sets a flag behind the end of an
array.

A message that takes the list back has one byte, while the receiver wants at least seven: it stops
before it looks at it, and a list that is there stays (`removeAll_ignored`).
-/

set_option autoImplicit false

namespace Quagga.Bgpd

open Lib Library

/-! ## Sending -/

/-- The number of an address family. -/
def Afi.code : Afi → Nat
  | .ip => afiIp
  | .ip6 => afiIp6

/-- The number of a SAFI. -/
def Safi.code : Safi → Nat
  | .unicast => safiUnicast
  | .multicast => safiMulticast
  | .unicastMulticast => 3
  | .mplsVpn => safiMplsVpn

/-- The number under which a SAFI is sent. -/
def Safi.sent : Safi → Nat
  | .mplsVpn => bgpSafiVpnv4
  | safi => safi.code

/-- `ORF_TYPE_PREFIX`. -/
def orfTypePrefix : UInt8 := 64

/-- `ORF_TYPE_PREFIX_OLD`. -/
def orfTypePrefixOld : UInt8 := 128

/-- `REFRESH_DEFER`. -/
def refreshDefer : UInt8 := 2

/-- Of the peer that a message is sent to: `PEER_CAP_REFRESH_NEW_RCV`, the inbound prefix-lists and
`PEER_STATUS_ORF_PREFIX_SEND`. -/
structure RefreshSender where
  refreshNewRcv : Bool
  plistIn : Afi → Safi → Option PrefixList
  orfPrefixSend : Afi → Safi → Bool

variable (peer : RefreshSender)

/-- Set or unset `PEER_STATUS_ORF_PREFIX_SEND`. The index is the SAFI as it is sent, and for VPN
that is behind the end of the array. -/
def RefreshSender.setOrfPrefixSend (afi : Afi) (safi : Safi) (value : Bool) :
    Except Fault RefreshSender :=
  if safi = .mplsVpn then .error (.arrayIndex bgpSafiVpnv4)
  else .ok { peer with orfPrefixSend := fun afi' safi' =>
    if afi' = afi ∧ safi' = safi then value else peer.orfPrefixSend afi' safi' }

/-- The entries of a message: those of the inbound prefix-list, or the one that removes all. -/
def orfEntriesPut (afi : Afi) (safi : Safi) (remove : Bool) (s : Stream) : Except Fault Stream :=
  if remove then streamPutc s orfRemoveAll
  else prefixBgpOrfEntry s ((peer.plistIn afi safi).getD [])

/-- `bgp_route_refresh_send`: the peer and the packet. -/
def bgpRouteRefreshSend (afi : Afi) (safi : Safi)
    (orfType whenToRefresh : UInt8) (remove : Bool) : Except Fault (RefreshSender × Stream) := do
  let s ← bgpPacketSetMarker (streamNew bgpMaxPacketSize)
    (if peer.refreshNewRcv then .msgRouteRefreshNew else .msgRouteRefreshOld)
  let s ← streamPutw s (UInt16.ofNat afi.code)
  let s ← streamPutc s 0
  let s ← streamPutc s (UInt8.ofNat safi.sent)
  if (orfType = orfTypePrefix ∨ orfType = orfTypePrefixOld) ∧
      (remove ∨ (peer.plistIn afi safi).isSome) then
    let s ← streamPutc s whenToRefresh
    let s ← streamPutc s orfType
    let orfp ← streamGetEndp s
    let s ← streamPutw s 0
    let sent ← peer.setOrfPrefixSend afi safi (!remove)
    let s ← orfEntriesPut peer afi safi remove s
    let endp ← streamGetEndp s
    let s ← streamPutwAt s orfp (UInt16.ofNat (endp - orfp - 2))
    let s ← bgpPacketSetSize s
    return (sent, s)
  else
    let s ← bgpPacketSetSize s
    return (peer, s)

/-! ## Receiving -/

/-- The neighbour that receives: its host, whether it has `PEER_CAP_REFRESH_ADV` and is established,
the prefix-lists that were received, the names of those in `orf_plist`, and
`PEER_STATUS_ORF_WAIT_REFRESH`. -/
structure OrfNeighbour where
  host : String
  refreshAdv : Bool
  established : Bool
  lists : PrefixMaster
  orfPlist : Afi → Safi → Option String
  orfWaitRefresh : Afi → Safi → Bool

/-- What receiving a message causes. -/
inductive RefreshAction where
  | notify (code subCode : Nat)
  | announceRoute (afi : Afi) (safi : Safi)
  deriving DecidableEq

/-- The name of the prefix-list. -/
def orfName (host : String) (afi : Afi) (safi : Safi) : String :=
  host ++ "." ++ toString afi.code ++ "." ++ toString safi.code

variable (s : Stream)

/-- Four bytes of the buffer as a number. -/
def peekLong (pnt : Nat) : Except Fault UInt32 :=
  if pnt + 4 ≤ s.size then
    .ok (long (s.byte pnt) (s.byte (pnt + 1)) (s.byte (pnt + 2)) (s.byte (pnt + 3)))
  else .error (.arrayIndex s.size)

/-- The sequence number of an entry, and where to go on. -/
def orfSeq (pPnt pEnd : Nat) : Except Fault (UInt32 × Nat) :=
  if ¬ 4 ≤ pEnd - pPnt then do
    let seq ← peekLong s pPnt
    return (seq, pPnt + 4)
  else .ok (0, pEnd)

/-- A byte of an entry if there is one, whether there is, and where to go on. -/
def orfByte (pPnt pEnd : Nat) : Except Fault (Bool × UInt8 × Nat) :=
  if pPnt < pEnd then do
    let byte ← s.fetchByte pPnt
    return (true, byte, pPnt + 1)
  else .ok (false, 0, pPnt)

/-- The bytes of the prefix of an entry, whether they are there, and where to go on. -/
def orfAddress (afi : Afi) (prefixlen : UInt8) (ok : Bool) (pPnt pEnd : Nat) :
    Except Fault (Bool × List UInt8 × Nat) := do
  let size := psize prefixlen.toNat
  let validForFamily := !(size > afi.maxBytelen)
  let size : Int := if validForFamily then size else afi.maxBytelen
  -- behind the end of the entries the room is negative
  let room : Int := (pEnd : Int) - pPnt
  let validForPacket := !(size > room)
  let size := if validForPacket then size else room
  let address ← s.fetch pPnt size.toNat
  return (ok && validForFamily && validForPacket, address, (pPnt + size).toNat)

/-- One pass of the loop over the entries: go on behind the entry, or leave with the lists. -/
def orfEntry (afi : Afi) (name : String) (pEnd : Nat) (place : Nat × PrefixMaster) :
    Except Fault (Pass (Nat × PrefixMaster) PrefixMaster) := do
  let common ← s.fetchByte place.1
  if common &&& orfRemoveAll ≠ 0 then return .leave (prefixBgpOrfRemoveAll place.2 name)
  let (seq, pPnt) ← orfSeq s (place.1 + 1) pEnd
  let (_, ge, pPnt) ← orfByte s pPnt pEnd
  let (_, le, pPnt) ← orfByte s pPnt pEnd
  let (ok, prefixlen, pPnt) ← orfByte s pPnt pEnd
  let (ok, address, pPnt) ← orfAddress s afi prefixlen ok pPnt pEnd
  if ok then
    let (ret, lists) := prefixBgpOrfSet place.2 name afi ⟨seq, ge, le, ⟨prefixlen, address⟩⟩
      (common &&& orfDeny = 0) (common &&& orfRemove = 0)
    if ret then return .again (pPnt, lists)
    else return .leave (prefixBgpOrfRemoveAll lists name)
  else return .leave (prefixBgpOrfRemoveAll place.2 name)

section Entries

variable {s : Stream} {afi : Afi} {name : String} {pPnt pEnd : Nat}

theorem orfSeq_end {seq : UInt32} {next : Nat} (read : orfSeq s pPnt pEnd = .ok (seq, next)) :
    ¬ next < pEnd := by
  unfold orfSeq at read
  by_cases there : 4 ≤ pEnd - pPnt
  · rw [if_neg (not_not_intro there)] at read
    cases read
    exact Nat.lt_irrefl _
  · rw [if_pos there] at read
    obtain ⟨l, -, returned⟩ := bind_eq_ok read
    cases returned
    omega

theorem orfByte_end (atEnd : ¬ pPnt < pEnd) : orfByte s pPnt pEnd = .ok (false, 0, pPnt) :=
  if_neg atEnd

theorem orfAddress_not_ok {prefixlen : UInt8} {ok : Bool} {address : List UInt8} {next : Nat}
    (read : orfAddress s afi prefixlen false pPnt pEnd = .ok (ok, address, next)) : ok = false := by
  obtain ⟨bytes, -, returned⟩ := bind_eq_ok read
  cases returned
  rfl

/-- **No entry is accepted**: the loop is left with the list removed. -/
theorem orfEntry_leaves {place : Nat × PrefixMaster} {pass : Pass (Nat × PrefixMaster) PrefixMaster}
    (passed : orfEntry s afi name pEnd place = .ok pass) :
    pass = .leave (prefixBgpOrfRemoveAll place.2 name) := by
  obtain ⟨common, -, passed⟩ := bind_eq_ok passed
  split_ifs at passed with removeAll
  · exact (Except.ok.inj passed).symm
  · obtain ⟨⟨seq, next⟩, sequence, passed⟩ := bind_eq_ok passed
    have atEnd := orfSeq_end sequence
    dsimp only at passed
    rw [orfByte_end atEnd, ok_bind] at passed
    rw [orfByte_end atEnd, ok_bind] at passed
    rw [orfByte_end atEnd, ok_bind] at passed
    obtain ⟨⟨ok, address, behind⟩, read, passed⟩ := bind_eq_ok passed
    obtain rfl := orfAddress_not_ok read
    exact (Except.ok.inj passed).symm

end Entries

/-- The loop over the entries. -/
def orfEntries (s : Stream) (afi : Afi) (name : String) (pEnd : Nat) :
    Loop Fault (Nat × PrefixMaster) PrefixMaster where
  guard place := place.1 < pEnd
  body := orfEntry s afi name pEnd
  measure place := pEnd - place.1
  falls _ passed := nomatch orfEntry_leaves passed

/-- The lists after the loop over the entries. -/
def listsAfter : Pass (Nat × PrefixMaster) PrefixMaster → PrefixMaster
  | .again place => place.2
  | .leave lists => lists

variable (neighbour : OrfNeighbour)

/-- `peer->orf_plist[afi][safi] = prefix_list_lookup (AFI_ORF_PREFIX, name)`. -/
def OrfNeighbour.setLists (afi : Afi) (safi : Safi) (lists : PrefixMaster) : OrfNeighbour :=
  { neighbour with
    lists := lists
    orfPlist := fun afi' safi' =>
      if afi' = afi ∧ safi' = safi then
        (lists (orfName neighbour.host afi safi)).map fun _ => orfName neighbour.host afi safi
      else neighbour.orfPlist afi' safi' }

/-- The lists are those of before, except for some that are gone, and so are the filters. -/
structure OrfNeighbour.Fewer (before after : OrfNeighbour) : Prop where
  host_eq : after.host = before.host
  lists : ∀ name, after.lists name = before.lists name ∨ after.lists name = none
  filters : ∀ afi safi name, after.orfPlist afi safi = some name →
    before.orfPlist afi safi = some name ∨
      name = orfName before.host afi safi ∧ (before.lists name).isSome = true

namespace OrfNeighbour.Fewer

variable {before middle after : OrfNeighbour}

theorem refl : neighbour.Fewer neighbour :=
  ⟨rfl, fun _ => .inl rfl, fun _ _ _ held => .inl held⟩

theorem isSome (fewer : before.Fewer after) {name : String} (there : (after.lists name).isSome) :
    (before.lists name).isSome = true := by
  rcases fewer.lists name with same | gone
  · rwa [← same]
  · rw [gone] at there
    cases there

theorem trans (first : before.Fewer middle) (second : middle.Fewer after) : before.Fewer after := by
  refine ⟨second.host_eq.trans first.host_eq, fun name => ?_, fun afi safi name held => ?_⟩
  · rcases second.lists name with same | gone
    · rw [same]
      exact first.lists name
    · exact .inr gone
  · rcases second.filters afi safi name held with held' | ⟨isName, there⟩
    · exact first.filters afi safi name held'
    · rw [first.host_eq] at isName
      exact .inr ⟨isName, first.isSome there⟩

end OrfNeighbour.Fewer

theorem setLists_fewer (afi : Afi) (safi : Safi) {lists : PrefixMaster}
    (same : ∀ name, lists name = neighbour.lists name ∨ lists name = none) :
    neighbour.Fewer (neighbour.setLists afi safi lists) := by
  refine ⟨rfl, same, fun afi' safi' name held => ?_⟩
  unfold OrfNeighbour.setLists at held
  dsimp only at held
  split_ifs at held with here
  · obtain ⟨plist, there, rfl⟩ := Option.map_eq_some_iff.mp held
    obtain ⟨rfl, rfl⟩ := here
    refine .inr ⟨rfl, ?_⟩
    rcases same (orfName neighbour.host afi' safi') with kept | gone
    · rw [← kept, there]
      rfl
    · rw [gone] at there
      cases there
  · exact .inl held

/-- The loop over the entries leaves the lists as they are, or removes one. -/
theorem orfEntries_lists (s : Stream) (afi : Afi) (name : String) (pEnd : Nat)
    (place : Nat × PrefixMaster) {ending : Pass (Nat × PrefixMaster) PrefixMaster}
    (ran : (orfEntries s afi name pEnd).run place = .ok ending) (name' : String) :
    listsAfter ending name' = place.2 name' ∨ listsAfter ending name' = none := by
  cases going : (orfEntries s afi name pEnd).guard place with
  | false =>
    rw [Loop.run_of_done going] at ran
    cases ran
    exact .inl rfl
  | true =>
    rw [Loop.run_of_guard going] at ran
    obtain ⟨pass, passed, left⟩ := bind_eq_ok ran
    obtain rfl := orfEntry_leaves passed
    cases left
    change Function.update place.2 name none name' = place.2 name' ∨
      Function.update place.2 name none name' = none
    by_cases here : name' = name
    · exact .inr (by rw [here, Function.update_self])
    · exact .inl (Function.update_of_ne here _ _)

/-- One pass of the loop over the parts of the message: go on behind the part, or stop. -/
def orfPart (afi : Afi) (safi : Safi) (stop : Nat) (st : Stream × OrfNeighbour) :
    Except Fault (Pass (Stream × OrfNeighbour) OrfNeighbour) := do
  let (orfType, s) ← streamGetc st.1
  let (orfLen, s) ← streamGetw s
  if s.getp + orfLen.toNat > stop then return .leave st.2
  if orfType = orfTypePrefix ∨ orfType = orfTypePrefixOld then
    if orfLen.toNat < 7 then return .leave st.2
    let ending ← (orfEntries s afi (orfName st.2.host afi safi) (s.getp + orfLen.toNat)).run
      (s.getp, st.2.lists)
    let s ← streamForwardGetp s orfLen.toNat
    return .again (s, st.2.setLists afi safi (listsAfter ending))
  else
    let s ← streamForwardGetp s orfLen.toNat
    return .again (s, st.2)

variable {safi : Safi}

/-- **One pass** stops, or moves forward and does not add to a list. -/
theorem orfPart_cases {afi : Afi} {stop : Nat} {st : Stream × OrfNeighbour}
    {pass : Pass (Stream × OrfNeighbour) OrfNeighbour}
    (passed : orfPart afi safi stop st = .ok pass) :
    pass = .leave st.2 ∨ ∃ s neighbour, pass = .again (s, neighbour) ∧
      st.1.getp + 3 ≤ s.getp ∧ st.2.Fewer neighbour := by
  obtain ⟨orfType, passed⟩ := streamGetc_bind passed
  obtain ⟨⟨orfLen, s₂⟩, gotLen, passed⟩ := bind_eq_ok passed
  obtain rfl : s₂ = (st.1.advance 1).advance 2 := (streamGetw_advance _).of_ok gotLen
  have forward : ∀ {s₃ : Stream},
      streamForwardGetp ((st.1.advance 1).advance 2) orfLen.toNat = .ok s₃ →
        st.1.getp + 3 ≤ s₃.getp := by
    intro s₃ forwarded
    obtain rfl := (streamForwardGetp_advance _ _).of_ok forwarded
    exact Nat.le_add_right _ _
  dsimp only at passed
  split_ifs at passed with excess isPrefix few
  · exact .inl (Except.ok.inj passed).symm
  · exact .inl (Except.ok.inj passed).symm
  · obtain ⟨ending, ran, passed⟩ := bind_eq_ok passed
    obtain ⟨s₃, forwarded, passed⟩ := bind_eq_ok passed
    exact .inr ⟨s₃, _, (Except.ok.inj passed).symm, forward forwarded,
      setLists_fewer _ afi safi (orfEntries_lists _ _ _ _ _ ran)⟩
  · obtain ⟨s₃, forwarded, passed⟩ := bind_eq_ok passed
    exact .inr ⟨s₃, _, (Except.ok.inj passed).symm, forward forwarded, .refl _⟩

/-- The loop over the parts of the message. -/
def orfParts (afi : Afi) (safi : Safi) (stop : Nat) :
    Loop Fault (Stream × OrfNeighbour) OrfNeighbour where
  guard st := st.1.getp + 2 < stop
  body := orfPart afi safi stop
  measure st := stop - st.1.getp
  falls going passed := by
    obtain left | ⟨s, neighbour, again, ahead, -⟩ := orfPart_cases passed
    · cases left
    · cases again
      have below := of_decide_eq_true going
      dsimp only
      omega

/-- The neighbour after the loop over the parts. -/
def neighbourAfter : Pass (Stream × OrfNeighbour) OrfNeighbour → OrfNeighbour
  | .again st => st.2
  | .leave neighbour => neighbour

/-- The families that a message can be about. -/
def refreshFamily (afi safi : Nat) : Option (Afi × Safi) :=
  let known : Option Safi :=
    if safi = safiUnicast then some .unicast
    else if safi = safiMulticast then some .multicast
    else if safi = bgpSafiVpnv4 then some .mplsVpn
    else none
  if afi = afiIp then known.map fun safi => (.ip, safi)
  else if afi = afiIp6 then known.map fun safi => (.ip6, safi)
  else none

/-- The end of `bgp_route_refresh_receive`: routes are announced. -/
def OrfNeighbour.refresh (afi : Afi) (safi : Safi) : OrfNeighbour × List RefreshAction :=
  ({ neighbour with orfWaitRefresh := fun afi' safi' =>
      if afi' = afi ∧ safi' = safi then false else neighbour.orfWaitRefresh afi' safi' },
    [.announceRoute afi safi])

/-- `BGP_MSG_ROUTE_REFRESH_MIN_SIZE - BGP_HEADER_SIZE`. -/
def refreshMinBody : Nat := 4

/-- `bgp_route_refresh_receive` for a family that is known. -/
def refreshKnown (afi : Afi) (safi : Safi) (s : Stream) (size : Nat) :
    Except Fault (OrfNeighbour × List RefreshAction) := do
  if size = refreshMinBody then return neighbour.refresh afi safi
  -- BGP_NOTIFY_CEASE
  if size - refreshMinBody < 5 then return (neighbour, [.notify 6 0])
  let (whenToRefresh, s) ← streamGetc s
  let ending ← (orfParts afi safi (s.getp + (size - 5))).run (s, neighbour)
  if whenToRefresh = refreshDefer then return (neighbourAfter ending, [])
  return (neighbourAfter ending).refresh afi safi

/-- `bgp_route_refresh_receive`. -/
def bgpRouteRefreshReceive (s : Stream) (size : Nat) :
    Except Fault (OrfNeighbour × List RefreshAction) :=
  -- BGP_NOTIFY_HEADER_ERR with BGP_NOTIFY_HEADER_BAD_MESTYPE, and BGP_NOTIFY_FSM_ERR
  if !neighbour.refreshAdv then .ok (neighbour, [.notify 1 3])
  else if !neighbour.established then .ok (neighbour, [.notify 5 0])
  else do
    let (afi, s) ← streamGetw s
    let (_, s) ← streamGetc s
    let (safi, s) ← streamGetc s
    match refreshFamily afi.toNat safi.toNat with
    | none => return (neighbour, [])
    | some (afi, safi) => refreshKnown neighbour afi safi s size

/-! ## No message adds to a list -/

variable {neighbour : OrfNeighbour}

theorem refresh_fewer (neighbour : OrfNeighbour) (afi : Afi) (safi : Safi) :
    neighbour.Fewer (neighbour.refresh afi safi).1 :=
  ⟨rfl, fun _ => .inl rfl, fun _ _ _ held => .inl held⟩

theorem orfParts_fewer {afi : Afi} {stop : Nat} {st : Stream × OrfNeighbour}
    {ending : Pass (Stream × OrfNeighbour) OrfNeighbour}
    (ran : (orfParts afi safi stop).run st = .ok ending) : st.2.Fewer (neighbourAfter ending) := by
  have pass : ∀ st', st.2.Fewer st'.2 → (orfParts afi safi stop).guard st' = true →
      Ensures (fun _ => True) (Loop.PassPost (fun st' => st.2.Fewer st'.2)
        fun ending => st.2.Fewer (neighbourAfter ending)) ((orfParts afi safi stop).body st') := by
    intro st' fewer _
    cases passed : (orfParts afi safi stop).body st' with
    | error fault => trivial
    | ok pass =>
      obtain rfl | ⟨s, neighbour, rfl, -, more⟩ := orfPart_cases passed
      · exact fewer
      · exact fewer.trans more
  exact (Loop.ensures _ pass (fun _ fewer _ => fewer) st (.refl _)).of_ok ran

variable {s : Stream}

variable {after : OrfNeighbour}

theorem refreshKnown_fewer {afi : Afi} {size : Nat}
    {actions : List RefreshAction}
    (received : refreshKnown neighbour afi safi s size = .ok (after, actions)) :
    neighbour.Fewer after := by
  unfold refreshKnown at received
  by_cases plain : size = refreshMinBody
  · rw [if_pos plain] at received
    cases received
    exact refresh_fewer ..
  split_ifs at received with short
  · cases received
    exact .refl _
  obtain ⟨⟨whenToRefresh, s'⟩, -, received⟩ := bind_eq_ok received
  obtain ⟨ending, ran, received⟩ := bind_eq_ok received
  have fewer := orfParts_fewer ran
  split_ifs at received with defer
  · cases received
    exact fewer
  · cases received
    exact fewer.trans (refresh_fewer ..)

/-- **No message adds to a list or installs a filter.** -/
theorem bgpRouteRefreshReceive_fewer {size : Nat}
    {actions : List RefreshAction}
    (received : bgpRouteRefreshReceive neighbour s size = .ok (after, actions)) :
    neighbour.Fewer after := by
  unfold bgpRouteRefreshReceive at received
  split_ifs at received with disabled down
  · cases received
    exact .refl _
  · cases received
    exact .refl _
  · obtain ⟨⟨afi, s₁⟩, -, received⟩ := bind_eq_ok received
    obtain ⟨⟨reserved, s₂⟩, -, received⟩ := bind_eq_ok received
    obtain ⟨⟨safi, s₃⟩, -, received⟩ := bind_eq_ok received
    dsimp only at received
    cases family : refreshFamily afi.toNat safi.toNat with
    | none =>
      rw [family] at received
      cases received
      exact .refl _
    | some known =>
      rw [family] at received
      exact refreshKnown_fewer received

/-! ## Messages as they are sent -/

/-- The body of a message with ORF entries. -/
def orfMessage (afi : Afi) (safi : Safi) (whenToRefresh orfType : UInt8) (entries : List UInt8) :
    List UInt8 :=
  wordBytes (UInt16.ofNat afi.code) ++ ([0] ++ ([UInt8.ofNat safi.sent] ++ ([whenToRefresh] ++
    ([orfType] ++ (wordBytes (UInt16.ofNat entries.length) ++ entries)))))

theorem length_orfMessage (afi : Afi) (safi : Safi) (whenToRefresh orfType : UInt8)
    (entries : List UInt8) :
    (orfMessage afi safi whenToRefresh orfType entries).length = entries.length + 8 := by
  simp only [orfMessage, List.length_append, length_wordBytes, List.length_singleton]
  omega

/-- The entries that are sent. -/
def sentEntries (afi : Afi) (safi : Safi) (remove : Bool) : List UInt8 :=
  if remove then [orfRemoveAll] else orfBytes ((peer.plistIn afi safi).getD [])

/-- The type under which messages are sent to the peer. -/
def RefreshSender.refreshType : MsgType :=
  if peer.refreshNewRcv then .msgRouteRefreshNew else .msgRouteRefreshOld

/-- The writes behind the header of a message with an ORF. -/
def orfBody (afi : Afi) (safi : Safi) (whenToRefresh orfType : UInt8)
    (remove : Bool) (s : Stream) : Except Fault Stream := do
  let s ← streamPutw s (UInt16.ofNat afi.code)
  let s ← streamPutc s 0
  let s ← streamPutc s (UInt8.ofNat safi.sent)
  let s ← streamPutc s whenToRefresh
  let s ← streamPutc s orfType
  let orfp ← streamGetEndp s
  let s ← streamPutw s 0
  let s ← orfEntriesPut peer afi safi remove s
  let endp ← streamGetEndp s
  streamPutwAt s orfp (UInt16.ofNat (endp - orfp - 2))

theorem appends_orfBody (afi : Afi) (safi : Safi) (whenToRefresh orfType : UInt8) (remove : Bool) :
    Appends (orfBody peer afi safi whenToRefresh orfType remove)
      (orfMessage afi safi whenToRefresh orfType (sentEntries peer afi safi remove)) := by
  have entries : Appends (orfEntriesPut peer afi safi remove)
      (sentEntries peer afi safi remove) := by
    cases remove with
    | true => exact appends_streamPutc orfRemoveAll
    | false => exact appends_prefixBgpOrfEntry _
  exact Appends.bind (appends_streamPutw (UInt16.ofNat afi.code))
    (Appends.bind (appends_streamPutc 0) (Appends.bind (appends_streamPutc (UInt8.ofNat safi.sent))
      (Appends.bind (appends_streamPutc whenToRefresh) (Appends.bind (appends_streamPutc orfType)
        entries.sizeWord))))

/-! ## Messages as they are received -/

section Arrives

variable {s : Stream} {afi : Afi} {name : String} {pPnt pEnd : Nat}

theorem orfAddress_end :
    ∃ address next, orfAddress s afi 0 false pEnd pEnd = .ok (false, address, next) := by
  have none : s.fetch pEnd 0 = .ok (s.slice pEnd 0) := if_pos (.inl rfl)
  cases afi <;> simp [orfAddress, psize, none]

/-- Entries with room for a sequence number are read without a fault. -/
theorem orfEntries_run (lists : PrefixMaster) (below : pPnt < s.endp)
    (enough : 4 ≤ pEnd - (pPnt + 1)) :
    (orfEntries s afi name pEnd).run (pPnt, lists) =
      .ok (.leave (prefixBgpOrfRemoveAll lists name)) := by
  refine Loop.run_of_leave (decide_eq_true (by omega : pPnt < pEnd)) ?_
  have atEnd : ¬ pEnd < pEnd := Nat.lt_irrefl _
  have sequence : orfSeq s (pPnt + 1) pEnd = .ok (0, pEnd) := if_neg (not_not_intro enough)
  obtain ⟨address, next, there⟩ := @orfAddress_end s afi pEnd
  change orfEntry s afi name pEnd (pPnt, lists) = _
  rw [orfEntry, Stream.fetchByte_ok below, ok_bind]
  split_ifs with removeAll
  · rfl
  · rw [sequence, ok_bind]
    dsimp only
    rw [orfByte_end atEnd, ok_bind]
    rw [orfByte_end atEnd, ok_bind]
    rw [orfByte_end atEnd, ok_bind, there]
    rfl

end Arrives

/-- The words and bytes of a message with an ORF stand in the stream. -/
structure HoldsOrf (s : Stream) (n : Nat) : Prop where
  fits : s.endp ≤ s.size
  endp_eq : s.endp = 27 + n
  small : n < 65536
  orfLen : word (s.byte 25) (s.byte 26) = UInt16.ofNat n

variable {n : Nat}

theorem HoldsOrf.toNat_orfLen (holds : HoldsOrf s n) :
    (word (s.byte 25) (s.byte 26)).toNat = n := by
  rw [holds.orfLen, UInt16.toNat_ofNat', Nat.mod_eq_of_lt holds.small]

/-- **The part with the ORF** is stopped at if it is short, and its list is removed otherwise. -/
theorem orfPart_eq (holds : HoldsOrf s n) (afi : Afi) (safi : Safi)
    (neighbour : OrfNeighbour) :
    orfPart afi safi (27 + n) (s.seek 24, neighbour) =
      if s.byte 24 = orfTypePrefix ∨ s.byte 24 = orfTypePrefixOld then
        if n < 7 then .ok (.leave neighbour)
        else .ok (.again (s.seek (27 + n), neighbour.setLists afi safi
          (prefixBgpOrfRemoveAll neighbour.lists (orfName neighbour.host afi safi))))
      else .ok (.again (s.seek (27 + n), neighbour)) := by
  have end_eq := holds.endp_eq
  have forward := streamForwardGetp_seek holds.fits (by omega : 27 + n ≤ s.endp)
  rw [orfPart, streamGetc_seek holds.fits (by omega), ok_bind]
  dsimp only
  rw [streamGetw_seek holds.fits (by omega), ok_bind]
  rw [holds.toNat_orfLen, Stream.seek_getp, if_neg (Nat.lt_irrefl _)]
  by_cases isPrefix : s.byte 24 = orfTypePrefix ∨ s.byte 24 = orfTypePrefixOld
  · rw [if_pos isPrefix, if_pos isPrefix]
    by_cases short : n < 7
    · rw [if_pos short, if_pos short]
      rfl
    · have ran := @orfEntries_run (s.seek 27) afi (orfName neighbour.host afi safi) 27 (27 + n)
        neighbour.lists (by rw [Stream.seek_endp]; omega) (by omega)
      rw [if_neg short, if_neg short, ran, forward]
      rfl
  · rw [if_neg isPrefix, if_neg isPrefix, forward]
    rfl

/-- The lists and the filters are those of before. -/
def OrfNeighbour.Same (before after : OrfNeighbour) : Prop :=
  after.lists = before.lists ∧ after.orfPlist = before.orfPlist

/-- The loop over the parts returns, and does nothing if the part with the ORF is short. -/
theorem orfParts_run (holds : HoldsOrf s n) (some : 0 < n) (afi : Afi) (safi : Safi)
    (neighbour : OrfNeighbour) :
    ∃ ending, (orfParts afi safi (27 + n)).run (s.seek 24, neighbour) = .ok ending ∧
      (n < 7 → neighbourAfter ending = neighbour) := by
  have going : (orfParts afi safi (27 + n)).guard (s.seek 24, neighbour) = true :=
    decide_eq_true (by omega : 24 + 2 < 27 + n)
  have done : ∀ after, (orfParts afi safi (27 + n)).run (s.seek (27 + n), after) =
      .ok (.again (s.seek (27 + n), after)) :=
    fun after => Loop.run_of_done (decide_eq_false (by omega : ¬ 27 + n + 2 < 27 + n))
  have part := orfPart_eq holds afi safi neighbour
  split_ifs at part with isPrefix few
  · exact ⟨_, Loop.run_of_leave going part, fun _ => rfl⟩
  · exact ⟨_, (Loop.run_of_again going part).trans (done _), fun short => absurd short few⟩
  · exact ⟨_, (Loop.run_of_again going part).trans (done _), fun _ => rfl⟩

theorem refreshKnown_ok (holds : HoldsOrf s n) (neighbour : OrfNeighbour) (afi : Afi)
    (safi : Safi) :
    ∃ after actions, refreshKnown neighbour afi safi (s.seek 23) (8 + n) = .ok (after, actions) ∧
      (n < 7 → neighbour.Same after) := by
  have end_eq := holds.endp_eq
  have more : ¬ 8 + n = refreshMinBody := by
    simp only [refreshMinBody]
    omega
  rw [refreshKnown, if_neg more]
  by_cases short : 8 + n - refreshMinBody < 5
  · rw [if_pos short]
    exact ⟨_, _, rfl, fun _ => ⟨rfl, rfl⟩⟩
  · have stop : 24 + (8 + n - 5) = 27 + n := by omega
    have positive : 0 < n := by
      simp only [refreshMinBody] at short
      omega
    obtain ⟨ending, ran, same⟩ := orfParts_run holds positive afi safi neighbour
    rw [streamGetc_seek holds.fits (by omega), ok_bind]
    dsimp only
    rw [Stream.seek_getp, stop, ran]
    split_ifs
    · exact ⟨_, _, rfl, fun few => by rw [same few]; exact ⟨rfl, rfl⟩⟩
    · exact ⟨_, _, rfl, fun few => by rw [same few]; exact ⟨rfl, rfl⟩⟩

/-- **A message with an ORF is received without a fault**, and does nothing if the ORF is short. -/
theorem bgpRouteRefreshReceive_ok (holds : HoldsOrf s n) (neighbour : OrfNeighbour) :
    ∃ after actions,
      bgpRouteRefreshReceive neighbour (s.seek bgpHeaderSize) (s.endp - bgpHeaderSize) =
        .ok (after, actions) ∧ (n < 7 → neighbour.Same after) := by
  have end_eq := holds.endp_eq
  have size : s.endp - bgpHeaderSize = 8 + n := by
    simp only [bgpHeaderSize]
    omega
  rw [size, bgpRouteRefreshReceive]
  split_ifs
  · exact ⟨_, _, rfl, fun _ => ⟨rfl, rfl⟩⟩
  · exact ⟨_, _, rfl, fun _ => ⟨rfl, rfl⟩⟩
  · rw [bgpHeaderSize, streamGetw_seek holds.fits (by omega), ok_bind]
    dsimp only
    rw [streamGetc_seek holds.fits (by omega), ok_bind]
    rw [streamGetc_seek holds.fits (by omega), ok_bind]
    cases refreshFamily (word (s.byte 19) (s.byte 20)).toNat (s.byte 22).toNat with
    | none => exact ⟨_, _, rfl, fun _ => ⟨rfl, rfl⟩⟩
    | some family => exact refreshKnown_ok holds neighbour family.1 family.2

theorem holdsOrf_messageBytes (type : MsgType) (afi : Afi) (safi : Safi)
    (whenToRefresh orfType : UInt8) {entries : List UInt8}
    (fits : entries.length + 27 ≤ bgpMaxPacketSize) :
    HoldsOrf ((streamNew bgpMaxPacketSize).append
      (messageBytes type (orfMessage afi safi whenToRefresh orfType entries))) entries.length := by
  have length := length_orfMessage afi safi whenToRefresh orfType entries
  obtain ⟨sane, contents⟩ := messageBytes_contents type
    (show bgpHeaderSize + (orfMessage afi safi whenToRefresh orfType entries).length ≤ _ by
      rw [bgpHeaderSize]
      omega)
  generalize (streamNew bgpMaxPacketSize).append _ = s at *
  have endp := length_contents sane
  rw [contents, length_messageBytes, bgpHeaderSize] at endp
  have held : s.Holds 25 (hiByte (UInt16.ofNat entries.length) ::
      loByte (UInt16.ofNat entries.length) :: entries) := by
    rw [Stream.Holds, contents]
    exact List.prefix_rfl
  have behind := @Stream.Holds.right s 25 [hiByte (UInt16.ofNat entries.length)] _ held
  have second : s.byte 26 = loByte (UInt16.ofNat entries.length) := behind.byte_eq
  rw [bgpMaxPacketSize] at fits
  exact ⟨sane.endp_le, by omega, by omega, by rw [held.byte_eq, second, word_hiByte_loByte]⟩

/-! ## Synchronisation -/

/-- Receive a whole packet. -/
def OrfNeighbour.receive (neighbour : OrfNeighbour) (packet : Stream) :
    Except Fault (OrfNeighbour × List RefreshAction) :=
  bgpRouteRefreshReceive neighbour (packet.seek bgpHeaderSize) (packet.endp - bgpHeaderSize)

/-- The ORF check of `bgp_announce_check`: without a list everything passes. -/
def OrfNeighbour.permits (neighbour : OrfNeighbour) (afi : Afi) (safi : Safi) (p : Prefix) : Bool :=
  match neighbour.orfPlist afi safi with
  | none => true
  | some name => prefixListApply (neighbour.lists name) p ≠ .deny

/-- A prefix that is not longer than an address. -/
def Afi.Has (afi : Afi) (p : Prefix) : Prop := p.length ≤ 8 * afi.maxBytelen

/-- The list is sent and then taken back: in between the neighbour permits what the list permits,
and afterwards it has no list. -/
def Synchronises (neighbour : OrfNeighbour) (afi : Afi) (safi : Safi)
    (orfType whenToRefresh whenToRefresh' : UInt8) (plist : PrefixList) : Prop :=
  ∃ peer₁ packet₁ neighbour₁ actions₁ peer₂ packet₂ neighbour₂ actions₂,
    bgpRouteRefreshSend peer afi safi orfType whenToRefresh false = .ok (peer₁, packet₁) ∧
    neighbour.receive packet₁ = .ok (neighbour₁, actions₁) ∧
    (∀ p, afi.Has p →
      (neighbour₁.permits afi safi p = true ↔ prefixListApply (some plist) p = .permit)) ∧
    bgpRouteRefreshSend peer₁ afi safi orfType whenToRefresh' true = .ok (peer₂, packet₂) ∧
    neighbour₁.receive packet₂ = .ok (neighbour₂, actions₂) ∧
    neighbour₂.orfPlist afi safi = none

section Sent

variable {peer : RefreshSender} {afi : Afi} {safi : Safi} {orfType whenToRefresh : UInt8}
  {remove : Bool} (isPrefix : orfType = orfTypePrefix ∨ orfType = orfTypePrefixOld)
  (there : remove = true ∨ (peer.plistIn afi safi).isSome = true)
include isPrefix there

theorem bgpRouteRefreshSend_vpn (vpn : safi = .mplsVpn) {result : RefreshSender × Stream} :
    bgpRouteRefreshSend peer afi safi orfType whenToRefresh remove ≠ .ok result := by
  intro sent
  obtain ⟨s₁, -, sent⟩ := bind_eq_ok sent
  obtain ⟨s₂, -, sent⟩ := bind_eq_ok sent
  obtain ⟨s₃, -, sent⟩ := bind_eq_ok sent
  obtain ⟨s₄, -, sent⟩ := bind_eq_ok sent
  rw [if_pos ⟨isPrefix, there⟩] at sent
  obtain ⟨s₅, -, sent⟩ := bind_eq_ok sent
  obtain ⟨s₆, -, sent⟩ := bind_eq_ok sent
  obtain ⟨orfp, -, sent⟩ := bind_eq_ok sent
  obtain ⟨s₇, -, sent⟩ := bind_eq_ok sent
  obtain ⟨flagged, set, -⟩ := bind_eq_ok sent
  rw [RefreshSender.setOrfPrefixSend, if_pos vpn] at set
  cases set

/-- **What is sent is received**, if it fits. -/
theorem sent_received (neighbour : OrfNeighbour) (whenToRefresh : UInt8) (index : safi ≠ .mplsVpn)
    (fits : (sentEntries peer afi safi remove).length + 27 ≤ bgpMaxPacketSize) :
    ∃ sent packet after actions,
      bgpRouteRefreshSend peer afi safi orfType whenToRefresh remove = .ok (sent, packet) ∧
      neighbour.receive packet = .ok (after, actions) ∧ sent.plistIn = peer.plistIn ∧
      ((sentEntries peer afi safi remove).length < 7 → neighbour.Same after) := by
  have packet := packetOf_ok peer.refreshType
    (appends_orfBody peer afi safi whenToRefresh orfType remove) (by
      rw [length_orfMessage]
      simp only [bgpHeaderSize]
      omega)
  obtain ⟨sent, flagged, lists⟩ : ∃ sent,
      peer.setOrfPrefixSend afi safi (!remove) = .ok sent ∧ sent.plistIn = peer.plistIn :=
    ⟨_, if_neg index, rfl⟩
  have steps : bgpRouteRefreshSend peer afi safi orfType whenToRefresh remove =
      packetOf peer.refreshType (orfBody peer afi safi whenToRefresh orfType remove) >>=
        fun s => .ok (sent, s) := by
    unfold bgpRouteRefreshSend packetOf RefreshSender.refreshType orfBody
    simp only [if_pos (And.intro isPrefix there), flagged, ok_bind, bind_assoc, pure, Except.pure]
  obtain ⟨after, actions, received, same⟩ := bgpRouteRefreshReceive_ok
    (holdsOrf_messageBytes peer.refreshType afi safi whenToRefresh orfType fits) neighbour
  exact ⟨sent, _, after, actions, by rw [steps, packet, ok_bind], received, lists, same⟩

end Sent

theorem no_filter_after {afi : Afi} (fewer : neighbour.Fewer after)
    (noFilter : neighbour.orfPlist afi safi = none)
    (noList : neighbour.lists (orfName neighbour.host afi safi) = none) :
    after.orfPlist afi safi = none ∧ after.lists (orfName after.host afi safi) = none := by
  refine ⟨?_, ?_⟩
  · cases held : after.orfPlist afi safi with
    | none => rfl
    | some name =>
      rcases fewer.filters afi safi name held with before | ⟨rfl, there⟩
      · rw [noFilter] at before
        cases before
      · rw [noList] at there
        cases there
  · rw [fewer.host_eq]
    rcases fewer.lists (orfName neighbour.host afi safi) with same | gone
    · rw [same, noList]
    · exact gone

theorem permits_of_no_filter {afi : Afi} (noFilter : neighbour.orfPlist afi safi = none)
    (p : Prefix) : neighbour.permits afi safi p = true := by
  rw [OrfNeighbour.permits, noFilter]

/-- **When a list is synchronised**: if it permits every prefix, and not for VPN. -/
theorem orf_synchronised_iff {peer : RefreshSender} {neighbour : OrfNeighbour} {afi : Afi}
    {safi : Safi} {orfType : UInt8} (whenToRefresh whenToRefresh' : UInt8) {plist : PrefixList}
    (isPrefix : orfType = orfTypePrefix ∨ orfType = orfTypePrefixOld)
    (listed : peer.plistIn afi safi = some plist)
    (fits : (orfBytes plist).length + 27 ≤ bgpMaxPacketSize)
    (noFilter : neighbour.orfPlist afi safi = none)
    (noList : neighbour.lists (orfName neighbour.host afi safi) = none) :
    Synchronises peer neighbour afi safi orfType whenToRefresh whenToRefresh' plist ↔
      safi ≠ .mplsVpn ∧ ∀ p, afi.Has p → prefixListApply (some plist) p = .permit := by
  have there : (false : Bool) = true ∨ (peer.plistIn afi safi).isSome = true := by
    rw [listed]
    exact .inr rfl
  constructor
  · rintro ⟨peer₁, packet₁, neighbour₁, actions₁, -, -, -, -, sent, received, permits, -⟩
    refine ⟨?_, fun p has => ?_⟩
    · exact fun vpn => bgpRouteRefreshSend_vpn isPrefix there vpn sent
    · have none := (no_filter_after (bgpRouteRefreshReceive_fewer received) noFilter noList).1
      exact (permits p has).mp (permits_of_no_filter none p)
  · rintro ⟨index, permitted⟩
    obtain ⟨peer₁, packet₁, neighbour₁, actions₁, sent, received, lists, -⟩ :=
      sent_received isPrefix there neighbour whenToRefresh index
        (by unfold sentEntries; rw [listed]; exact fits)
    have none₁ := no_filter_after (bgpRouteRefreshReceive_fewer received) noFilter noList
    obtain ⟨peer₂, packet₂, neighbour₂, actions₂, sent', received', -⟩ :=
      @sent_received peer₁ afi safi orfType true isPrefix (.inl rfl) neighbour₁ whenToRefresh' index
        (by simp [sentEntries, bgpMaxPacketSize])
    have none₂ := no_filter_after (bgpRouteRefreshReceive_fewer received') none₁.1 none₁.2
    refine ⟨peer₁, packet₁, neighbour₁, actions₁, peer₂, packet₂, neighbour₂, actions₂, sent,
      received, fun p has => ?_, sent', received', none₂.1⟩
    exact iff_of_true (permits_of_no_filter none₁.1 p) (permitted p has)

/-- **A list that the neighbour has is not taken back.** -/
theorem removeAll_ignored {peer : RefreshSender} (neighbour : OrfNeighbour) {afi : Afi}
    {orfType : UInt8} (whenToRefresh : UInt8)
    (isPrefix : orfType = orfTypePrefix ∨ orfType = orfTypePrefixOld) (index : safi ≠ .mplsVpn) :
    ∃ sent packet after actions,
      bgpRouteRefreshSend peer afi safi orfType whenToRefresh true = .ok (sent, packet) ∧
      neighbour.receive packet = .ok (after, actions) ∧ neighbour.Same after := by
  obtain ⟨sent, packet, after, actions, made, received, -, same⟩ :=
    @sent_received peer afi safi orfType true isPrefix (.inl rfl) neighbour whenToRefresh index
      (by simp [sentEntries, bgpMaxPacketSize])
  exact ⟨sent, packet, after, actions, made, received, same (by simp [sentEntries])⟩

/-! ## Two lists -/

/-- A peer with a list for each family. -/
def peerWith (plist : PrefixList) : RefreshSender where
  refreshNewRcv := true
  plistIn := fun _ _ => some plist
  orfPrefixSend := fun _ _ => false

/-- A neighbour that has received nothing yet. -/
def newNeighbour : OrfNeighbour where
  host := "192.0.2.1"
  refreshAdv := true
  established := true
  lists := fun _ => none
  orfPlist := fun _ _ => none
  orfWaitRefresh := fun _ _ => true

/-- `permit any`. -/
def permitAny : PrefixListEntry :=
  { seq := 5, le := 32, ge := 0, type := .permit, p := ⟨0, [0, 0, 0, 0]⟩ }

/-- `deny 10.0.0.0/8`. -/
def denyTen : PrefixListEntry :=
  { seq := 5, le := 0, ge := 0, type := .deny, p := ⟨8, [10, 0, 0, 0]⟩ }

/-- A neighbour that filters by a list under the name of the peer. -/
def listedNeighbour : OrfNeighbour :=
  { newNeighbour with
    lists := fun _ => some [denyTen]
    orfPlist := fun afi safi => some (orfName newNeighbour.host afi safi)
    orfWaitRefresh := fun _ _ => false }

theorem removeAll_ignored_listed : ∃ sent packet after actions,
    bgpRouteRefreshSend (peerWith []) .ip .unicast orfTypePrefix 1 true = .ok (sent, packet) ∧
      listedNeighbour.receive packet = .ok (after, actions) ∧ listedNeighbour.Same after :=
  removeAll_ignored listedNeighbour 1 (.inl rfl) (by decide)

/-- A list that permits everything is as good as none. -/
theorem permit_any_synchronised :
    Synchronises (peerWith [permitAny]) newNeighbour .ip .unicast orfTypePrefix 1 1 [permitAny] := by
  refine (orf_synchronised_iff 1 1 (.inl rfl) rfl (by decide) rfl rfl).mpr
    ⟨by decide, fun p has => ?_⟩
  have covers : prefixMatch permitAny.p p = true := (prefixMatch_iff ..).mpr List.nil_prefix
  have short : ¬ p.length > 32 := Nat.not_lt.mpr has
  have matched : prefixListEntryMatch permitAny p = true := by
    rw [prefixListEntryMatch, covers]
    simp [permitAny, short]
  simp only [prefixListApply, List.find?_cons, matched]
  rfl

/-- **A list that denies is not followed**: 10.0.0.0/8 is denied by the list that was sent, and
announced all the same. -/
theorem denied_prefix_permitted :
    ∃ sent packet after actions,
      bgpRouteRefreshSend (peerWith [denyTen]) .ip .unicast orfTypePrefix 1 false =
        .ok (sent, packet) ∧
      newNeighbour.receive packet = .ok (after, actions) ∧
      after.permits .ip .unicast denyTen.p = true ∧
      prefixListApply (some [denyTen]) denyTen.p = .deny := by
  obtain ⟨sent, packet, after, actions, made, received, -⟩ :=
    @sent_received (peerWith [denyTen]) .ip .unicast orfTypePrefix false (.inl rfl) (.inr rfl)
      newNeighbour 1 (by decide) (by decide)
  have none : after.orfPlist .ip .unicast = none :=
    (no_filter_after (bgpRouteRefreshReceive_fewer received) rfl rfl).1
  exact ⟨sent, packet, after, actions, made, received, permits_of_no_filter none _, by decide⟩

end Quagga.Bgpd
