import Quagga.Bgpd.ClearRoutes
import Quagga.Bgpd.PrefixBits
import Quagga.Bgpd.AspathPut
import Quagga.Bgpd.AttrParse

/-!
# Prefix-lists

A prefix-list permits or denies prefixes: its entries stand in the order of their sequence numbers,
and the first one that matches decides. An empty list permits everything, a list in which nothing
matches denies.

Prefix-lists are kept by name. A neighbour can also send one, as an outbound route filter:
`prefix_bgp_orf_entry` writes the entries of a list into a message, and `prefix_bgp_orf_set` enters
a received entry into the list of the neighbour.

Of an entry, the counters and the mark for `any` are left out; they are only shown. Filters that are
received have no description, so a list without entries is deleted.
-/

set_option autoImplicit false

namespace Quagga.Bgpd

open Lib

/-! ## Lists -/

/-- `enum prefix_list_type`. -/
inductive PrefixListType where
  | deny
  | permit
  deriving DecidableEq

/-- `struct prefix_list_entry`. -/
structure PrefixListEntry where
  seq : Int
  le : Nat
  ge : Nat
  type : PrefixListType
  p : Prefix
  deriving DecidableEq

/-- `struct prefix_list`: its entries from the head on. -/
abbrev PrefixList := List PrefixListEntry

variable (pentry : PrefixListEntry)

/-- `prefix_list_entry_match`. -/
def prefixListEntryMatch (p : Prefix) : Bool :=
  if !prefixMatch pentry.p p then false
  else if pentry.le = 0 ∧ pentry.ge = 0 then pentry.p.prefixlen = p.prefixlen
  else if pentry.le ≠ 0 ∧ p.length > pentry.le then false
  else if pentry.ge ≠ 0 ∧ p.length < pentry.ge then false
  else true

/-- `prefix_list_apply`. -/
def prefixListApply (plist : Option PrefixList) (p : Prefix) : PrefixListType :=
  match plist with
  | none => .deny
  | some [] => .permit
  | some entries =>
    match entries.find? fun pentry => prefixListEntryMatch pentry p with
    | some pentry => pentry.type
    | none => .deny

/-- `IPV4_MAX_BYTELEN` and `IPV6_MAX_BYTELEN`. -/
def Afi.maxBytelen : Afi → Nat
  | .ip => 4
  | .ip6 => 16

/-- `prefix_same`, for two prefixes of a family. -/
def prefixSame (afi : Afi) (p q : Prefix) : Bool :=
  p.prefixlen = q.prefixlen && (List.range afi.maxBytelen).all fun i => p.byte i = q.byte i

variable (plist : PrefixList)

/-- `prefix_new_seq_get`. The number is an `int`, which wraps around. -/
def prefixNewSeqGet : Int :=
  (plist.foldl (fun maxseq pentry => max maxseq pentry.seq) 0 / 5 * 5 + 5).bmod (2 ^ 32)

/-- `prefix_list_entry_lookup`. -/
def prefixListEntryLookup (afi : Afi) (plist : PrefixList) (p : Prefix) (type : PrefixListType)
    (seq : Int) (le ge : Nat) : Option PrefixListEntry :=
  plist.find? fun pentry => prefixSame afi pentry.p p && pentry.type = type &&
    !(seq ≥ 0 && pentry.seq ≠ seq) && pentry.le = le && pentry.ge = ge

/-- `prefix_list_entry_add`. An entry with the same sequence number is replaced, and the new one
comes before the first with a higher number. -/
def prefixListEntryAdd (pentry : PrefixListEntry) : PrefixList :=
  let pentry := if pentry.seq = -1 then { pentry with seq := prefixNewSeqGet plist } else pentry
  let others := plist.eraseP fun old => old.seq = pentry.seq
  others.takeWhile (fun point => ¬ point.seq ≥ pentry.seq) ++
    pentry :: others.dropWhile fun point => ¬ point.seq ≥ pentry.seq

/-- `prefix_entry_dup_check`. -/
def prefixEntryDupCheck (afi : Afi) (plist : PrefixList) (new : PrefixListEntry) : Bool :=
  let seq := if new.seq = -1 then prefixNewSeqGet plist else new.seq
  plist.any fun pentry => prefixSame afi pentry.p new.p && pentry.type = new.type &&
    pentry.le = new.le && pentry.ge = new.ge && pentry.seq ≠ seq

/-- `prefix_master_orf`: the prefix-lists by name. -/
abbrev PrefixMaster := String → Option PrefixList

/-- `prefix_list_get`. -/
def prefixListGet (master : PrefixMaster) (name : String) : PrefixMaster × PrefixList :=
  match master name with
  | some plist => (master, plist)
  | none => (Function.update master name (some []), [])

/-! ## Outbound route filters -/

/-- `struct orf_prefix`. -/
structure OrfPrefix where
  seq : UInt32
  ge : UInt8
  le : UInt8
  p : Prefix

/-- A number of 32 bits as an `int`. -/
def intOf (l : UInt32) : Int :=
  if l.toNat < 2147483648 then l.toNat else (l.toNat : Int) - 4294967296

/-- An `int` as a number of 32 bits. -/
def longOfInt (i : Int) : UInt32 := UInt32.ofNat (i % 4294967296).toNat

/-- `prefix_bgp_orf_set`: whether it returns `CMD_SUCCESS`, and the lists. -/
def prefixBgpOrfSet (master : PrefixMaster) (name : String) (afi : Afi) (orfp : OrfPrefix)
    (permit set : Bool) : Bool × PrefixMaster :=
  if orfp.ge ≠ 0 ∧ orfp.ge ≤ orfp.p.prefixlen then (false, master)
  else if orfp.le ≠ 0 ∧ orfp.le ≤ orfp.p.prefixlen then (false, master)
  else if orfp.le ≠ 0 ∧ orfp.ge > orfp.le then (false, master)
  else
    let le := if orfp.ge ≠ 0 ∧ orfp.le.toNat = 8 * afi.maxBytelen then 0 else orfp.le.toNat
    let type : PrefixListType := if permit then .permit else .deny
    let (master, plist) := prefixListGet master name
    if set then
      let pentry : PrefixListEntry :=
        { seq := intOf orfp.seq, le := le, ge := orfp.ge.toNat, type := type, p := orfp.p }
      if prefixEntryDupCheck afi plist pentry then (false, master)
      else (true, Function.update master name (some (prefixListEntryAdd plist pentry)))
    else
      match prefixListEntryLookup afi plist orfp.p type (intOf orfp.seq) le orfp.ge.toNat with
      | none => (false, master)
      | some pentry =>
        let rest := plist.erase pentry
        (true, Function.update master name (if rest = [] then none else some rest))

/-- `prefix_bgp_orf_remove_all`. -/
def prefixBgpOrfRemoveAll (master : PrefixMaster) (name : String) : PrefixMaster :=
  Function.update master name none

/-- `ORF_COMMON_PART_REMOVE`. -/
def orfRemove : UInt8 := 0x80

/-- `ORF_COMMON_PART_REMOVE_ALL`. -/
def orfRemoveAll : UInt8 := 0xc0

/-- `ORF_COMMON_PART_DENY`. The parts for adding and for permitting are zero. -/
def orfDeny : UInt8 := 0x20

/-- The first byte of an entry that is added. -/
def PrefixListType.flag : PrefixListType → UInt8
  | .permit => 0
  | .deny => orfDeny

/-- The bytes of a prefix that are sent. -/
def Prefix.sent (p : Prefix) : List UInt8 :=
  (p.bytes ++ List.replicate 32 0).take (psize p.prefixlen.toNat)

/-- One pass of `prefix_bgp_orf_entry`. -/
def orfEntryPut (s : Stream) (pentry : PrefixListEntry) : Except Fault Stream := do
  let s ← streamPutc s pentry.type.flag
  let s ← streamPutl s (longOfInt pentry.seq)
  let s ← streamPutc s (UInt8.ofNat pentry.ge)
  let s ← streamPutc s (UInt8.ofNat pentry.le)
  streamPutPrefix s pentry.p.prefixlen pentry.p.sent

/-- `prefix_bgp_orf_entry` for a whole list. -/
def prefixBgpOrfEntry (s : Stream) (plist : PrefixList) : Except Fault Stream :=
  plist.foldlM orfEntryPut s

/-! ## What is written -/

/-- An entry as it is sent. -/
def orfEntryBytes : List UInt8 :=
  [pentry.type.flag] ++ (longBytes (longOfInt pentry.seq) ++ ([UInt8.ofNat pentry.ge] ++
    ([UInt8.ofNat pentry.le] ++ (pentry.p.prefixlen :: pentry.p.sent))))

theorem appends_orfEntryPut :
    Appends (fun s => orfEntryPut s pentry) (orfEntryBytes pentry) :=
  Appends.bind (appends_streamPutc _) (Appends.bind (appends_streamPutl _)
    (Appends.bind (appends_streamPutc _) (Appends.bind (appends_streamPutc _)
      (appends_streamPutPrefix _ _))))

/-- A list as it is sent. -/
def orfBytes : List UInt8 := plist.flatMap orfEntryBytes

theorem appends_prefixBgpOrfEntry :
    Appends (fun s => prefixBgpOrfEntry s plist) (orfBytes plist) :=
  Appends.foldlM appends_orfEntryPut plist

end Quagga.Bgpd
