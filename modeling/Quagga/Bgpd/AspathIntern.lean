import Quagga.Library.Histories
import Quagga.Bgpd.AspathChange
import Quagga.Bgpd.AttrParse

/-!
# The hash of AS paths and their strings

A path carries its rendering as a string (`aspath_make_str_count`). Regular expressions are matched
against the string, and the hash in which paths are shared files a path under `jhash` of the string,
but compares the segments. So the string has to be that of the segments in every path of the hash
(`HashFaithful`).

Every function that changes a path has to see to this itself, and `aspath_add_one_as` does not. It
does no harm when attributes are sent, since that copy of the path is freed. But for a session with
`local-as`, `bgp_attr_aspath_check` prepends to a copy of the received path and interns it with the
string of the received path. Unless an equal path is by chance filed under that string, it enters
the hash so; and this is the only way (`hashFaithful_iff`).

The function `jhash` is left open.
-/

set_option autoImplicit false

namespace Quagga.Bgpd

open Lib Library

/-! ## Strings -/

/-- `%u`. -/
def asString (as : Nat) : List Char := Nat.toDigits 10 as

/-- Texts with a separator between them. -/
def separated (separator : Char) : List (List Char) → List Char
  | [] => []
  | [text] => text
  | text :: next :: rest => text ++ separator :: separated separator (next :: rest)

/-- The characters around a segment and between its numbers: `aspath_delimiter_char` and the
separator. -/
def SegmentType.delimiters : SegmentType → List Char × Char × List Char
  | .asSet => (['{'], ',', ['}'])
  | .asConfedSet => (['['], ',', [']'])
  | .asConfedSequence => (['('], ' ', [')'])
  | .asSequence => ([], ' ', [])

/-- The text of a segment. -/
def Assegment.string (seg : Assegment) : List Char :=
  match seg.type.delimiters with
  | (start, separator, stop) => start ++ separated separator (seg.as.map asString) ++ stop

/-- `aspath_make_str_count`. -/
def aspathMakeStrCount (segments : List Assegment) : List Char :=
  separated ' ' (segments.map Assegment.string)

theorem separated_cons {separator : Char} {text : List Char} {rest : List (List Char)}
    (more : rest ≠ []) :
    separated separator (text :: rest) = text ++ separator :: separated separator rest := by
  cases rest with
  | nil => exact absurd rfl more
  | cons next rest => rfl

theorem asString_ne_nil (as : Nat) : asString as ≠ [] := by
  intro empty
  have length := congrArg List.length empty
  simp [asString] at length

theorem Assegment.string_sequence {seg : Assegment} (sequence : seg.type = .asSequence) :
    seg.string = separated ' ' (seg.as.map asString) := by
  simp [Assegment.string, sequence, SegmentType.delimiters]

/-- What comes behind the first segment does not depend on it. -/
theorem aspathMakeStrCount_cons (rest : List Assegment) :
    ∃ tail, (∀ seg, aspathMakeStrCount (seg :: rest) = seg.string ++ tail) ∧
      (tail = [] ∨ ∃ more, tail = ' ' :: more) := by
  cases rest with
  | nil => exact ⟨[], fun seg => (List.append_nil _).symm, .inl rfl⟩
  | cons next rest => exact ⟨_, fun seg => rfl, .inr ⟨_, rfl⟩⟩

/-- A path whose first segment has no numbers is not shown as a number. -/
theorem aspathMakeStrCount_ne_asString {seg : Assegment} (empty : seg.as = [])
    (rest : List Assegment) (asno : Nat) : aspathMakeStrCount (seg :: rest) ≠ asString asno := by
  obtain ⟨tail, text, ends⟩ := aspathMakeStrCount_cons rest
  rw [text]
  intro same
  have digits : ∀ c ∈ seg.string ++ tail, c.isDigit = true := by
    rw [same]
    exact fun c inside => Nat.isDigit_of_mem_toDigits (by decide) (by decide) inside
  cases typed : seg.type with
  | asSequence =>
    rw [Assegment.string_sequence typed, empty, List.map_nil, separated, List.nil_append]
      at same digits
    rcases ends with rfl | ⟨more, rfl⟩
    · exact asString_ne_nil asno same.symm
    · exact absurd (digits ' ' (by simp)) (by decide)
  | asSet =>
    exact absurd (digits '{' (by simp [Assegment.string, typed, SegmentType.delimiters])) (by decide)
  | asConfedSet =>
    exact absurd (digits '[' (by simp [Assegment.string, typed, SegmentType.delimiters])) (by decide)
  | asConfedSequence =>
    exact absurd (digits '(' (by simp [Assegment.string, typed, SegmentType.delimiters])) (by decide)

/-- The string of the path before does not do. -/
theorem aspathMakeStrCount_addSeq_ne (aspath : Aspath) (asno : Nat) :
    aspathMakeStrCount aspath.segments ≠
      aspathMakeStrCount (aspathAddSeq aspath asno).segments := by
  have alone : aspathMakeStrCount [assegmentNew .asSequence [asno]] = asString asno := by
    simp [aspathMakeStrCount, Assegment.string, SegmentType.delimiters, separated, assegmentNew]
  unfold aspathAddSeq aspathAddOneAs
  intro same
  cases listed : aspath.segments with
  | nil =>
    rw [listed] at same
    exact asString_ne_nil asno (alone.symm.trans same.symm)
  | cons seg rest =>
    obtain ⟨tail, text, -⟩ := aspathMakeStrCount_cons rest
    rw [listed] at same
    dsimp only at same
    split_ifs at same with empty sequence
    · exact aspathMakeStrCount_ne_asString empty rest asno (same.trans alone)
    · have more : seg.as.map asString ≠ [] := fun none => empty (List.map_eq_nil_iff.mp none)
      rw [text, text] at same
      have strings := List.append_cancel_right same
      rw [Assegment.string_sequence sequence, Assegment.string_sequence rfl] at strings
      by_cases fits : (asno :: seg.as).length < 65536
      · rw [assegmentNew_of_lt _ fits, List.map_cons, separated_cons more] at strings
        have lengths := congrArg List.length strings
        rw [List.length_append, List.length_cons] at lengths
        omega
      · -- the length of the first segment has wrapped around
        have wraps : (assegmentNew .asSequence (asno :: seg.as)).as = [] := by
          have below := seg.length_lt
          have zero : (asno :: seg.as).length % 65536 = 0 := by
            rw [List.length_cons] at fits ⊢
            omega
          exact (congrArg (fun n => (asno :: seg.as).take n) zero).trans List.take_zero
        obtain ⟨first, others, numbers⟩ := List.exists_cons_of_ne_nil empty
        rw [wraps, numbers, List.map_nil, List.map_cons] at strings
        cases others with
        | nil => exact asString_ne_nil first strings
        | cons next others => exact asString_ne_nil first (List.append_eq_nil_iff.mp strings).1
    · have lengths := congrArg List.length same
      have joined : aspathMakeStrCount (assegmentNew .asSequence [asno] :: seg :: rest) =
          asString asno ++ ' ' :: aspathMakeStrCount (seg :: rest) := by
        rw [← alone]
        rfl
      rw [joined, List.length_append, List.length_cons] at lengths
      omega

/-! ## The hash -/

/-- `struct aspath` outside the hash: the segments and the string. -/
structure PathText where
  segments : List Assegment
  str : List Char

/-- `aspath_str_update`. -/
def aspathStrUpdate (segments : List Assegment) : PathText := ⟨segments, aspathMakeStrCount segments⟩

/-- A path in the hash, with the key under which it is filed. -/
structure HashedPath where
  ptr : Nat
  text : PathText
  key : Nat
  refcnt : Nat

/-- `ashash`. A new bucket comes first. -/
structure AsHash where
  entries : List HashedPath
  nextPtr : Nat

namespace AsHash

/-- The search of `hash_get` and `hash_release`: `aspath_cmp` compares the segments. -/
def find (h : AsHash) (key : Nat) (segments : List Assegment) : Option HashedPath :=
  h.entries.find? fun e => e.key = key ∧ e.text.segments = segments

/-- Change the path at an address. -/
def change (h : AsHash) (ptr : Nat) (f : HashedPath → HashedPath) : AsHash :=
  { h with entries := h.entries.map fun e => if e.ptr = ptr then f e else e }

end AsHash

section Hash

variable (jhash : List Char → Nat)

/-- `aspath_intern`. -/
def aspathIntern (h : AsHash) (text : PathText) : AsHash × Nat :=
  match h.find (jhash text.str) text.segments with
  | some e => (h.change e.ptr fun e => { e with refcnt := e.refcnt + 1 }, e.ptr)
  | none =>
    (⟨⟨h.nextPtr, text, jhash text.str, 1⟩ :: h.entries, h.nextPtr + 1⟩, h.nextPtr)

/-- `aspath_parse`, once the segments are read: `aspath_hash_alloc` makes a copy with a new
string. -/
def aspathParseIntern (h : AsHash) (segments : List Assegment) : AsHash × Nat :=
  aspathIntern jhash h (aspathStrUpdate segments)

/-- `aspath_unintern`. The path is freed also if `hash_release` has found another bucket. -/
def aspathUnintern (h : AsHash) (ptr : Nat) : Except Fault AsHash :=
  match h.entries.find? (fun e => e.ptr = ptr) with
  | none => .error (.dangling ptr)
  | some e =>
    if e.refcnt - 1 = 0 then
      match h.find (jhash e.text.str) e.text.segments with
      | none => .error .assertion
      | some found =>
        if found.ptr = ptr then .ok { h with entries := h.entries.filter fun e => e.ptr ≠ ptr }
        else .error (.dangling ptr)
    else .ok (h.change ptr fun e => { e with refcnt := e.refcnt - 1 })

/-! ## What is done with paths -/

/-- `aspath_add_seq` on a path outside the hash: the string stays. -/
def PathText.addSeq (text : PathText) (asno : Nat) : PathText :=
  { text with segments := (aspathAddSeq ⟨text.segments⟩ asno).segments }

/-- Where `bgp_attr_aspath_check` comes to its end and prepends the local AS. -/
def prependsLocalAs (peer : UpdatePeer) (aspath : Aspath) : Bool :=
  ¬ ((peer.sort = .confed ∧ ¬ aspathLeftConfedCheck aspath) ∨
      (peer.sort = .ebgp ∧ aspathConfedCheck aspath)) ∧
    ¬ (peer.enforceFirstAs ∧ peer.sort = .ebgp ∧ ¬ aspathFirstasCheck aspath peer.as) ∧
    peer.changeLocalAs ≠ 0 ∧ ¬ peer.localAsNoPrepend

/-- The paths of a received update. A second one is reconciled with the first. -/
structure PathUpdate where
  peer : UpdatePeer
  path : List Assegment
  as4path : Option (List Assegment)

/-- The path after `bgp_attr_munge_as4_attrs`. -/
def PathUpdate.reconciled (update : PathUpdate) : List Assegment :=
  match update.as4path with
  | none => update.path
  | some as4path => (aspathReconcileAs4 ⟨update.path⟩ ⟨as4path⟩).segments

/-- `bgp_attr_parse` on the paths, up to `bgp_attr_aspath_check`. -/
def receivePaths (h : AsHash) (update : PathUpdate) : Except Fault (AsHash × Nat) :=
  let (h, ptr) := aspathParseIntern jhash h update.path
  match update.as4path with
  | none => .ok (h, ptr)
  | some as4path => do
      let (h, as4ptr) := aspathParseIntern jhash h as4path
      let h ← aspathUnintern jhash h ptr
      let (h, ptr) := aspathIntern jhash h (aspathStrUpdate update.reconciled)
      let h ← aspathUnintern jhash h as4ptr
      return (h, ptr)

/-- `bgp_attr_parse` on the paths. -/
def receiveUpdate (h : AsHash) (update : PathUpdate) : Except Fault AsHash := do
  let (h, ptr) ← receivePaths jhash h update
  if prependsLocalAs update.peer ⟨update.reconciled⟩ then
    let aspath := (aspathStrUpdate update.reconciled).addSeq update.peer.changeLocalAs
    let h ← aspathUnintern jhash h ptr
    return (aspathIntern jhash h aspath).1
  else return h

/-- A change of a copied path before it is interned with new attributes: `set as-path prepend`,
`set as-path exclude`, and the removal of private numbers. -/
inductive PathChange where
  | prepend (list : Aspath)
  | exclude (list : Aspath)
  | empty

/-- Each of them updates the string, unless nothing is prepended. -/
def PathText.changed (text : PathText) : PathChange → PathText
  | .prepend list =>
    if text.segments ≠ [] ∧ list.segments = [] then text
    else aspathStrUpdate (aspathPrepend list ⟨text.segments⟩).segments
  | .exclude list => aspathStrUpdate (aspathFilterExclude ⟨text.segments⟩ list).segments
  | .empty => aspathStrUpdate []

/-- What is read of `struct bgp`. The cluster id is there if `BGP_CONFIG_CLUSTER_ID` is set. -/
structure SendingBgp where
  confederation : Bool
  confedId : Nat
  clusterId : Option UInt32
  routerId : UInt32

/-- What is read of the `struct peer` that the attributes are sent to, with its flags for the
address family. -/
structure OutPeer where
  sort : PeerSort
  as4Rcv : Bool
  asPathUnchanged : Bool
  rserverClient : Bool
  sendCommunity : Bool
  sendExtCommunity : Bool
  localAs : Nat
  changeLocalAs : Nat
  nexthopV4 : UInt32

/-- Where attributes are sent: the process, the peer and the address family. -/
structure Sending where
  bgp : SendingBgp
  peer : OutPeer
  afi : Nat
  safi : Nat

/-- `bgp_packet_attribute` changes a copy of the path for this peer. -/
def copiesPath (dest : Sending) (aspath : Aspath) : Bool :=
  (dest.peer.sort = .ebgp ∧ (¬ dest.peer.asPathUnchanged ∨ aspath.segments = []) ∧
    ¬ dest.peer.rserverClient) ∨ dest.peer.sort = .confed

/-- `bgp_packet_attribute` on the path of the attributes. What it prepends to a copy is freed, but
`aspath_delete_confed_seq` for the `AS4_PATH` works on the path itself where there is no copy. -/
def sentPath (dest : Sending) (text : PathText) : PathText :=
  if ¬ copiesPath dest ⟨text.segments⟩ ∧ ¬ dest.peer.as4Rcv ∧ aspathHasAs4 ⟨text.segments⟩ ∧
      startsWith text.segments .asConfedSequence then
    aspathStrUpdate (aspathDeleteConfedSeq ⟨text.segments⟩).segments
  else text

/-- What happens to the hash. -/
inductive PathEvent where
  /-- An update is received. -/
  | receive (update : PathUpdate)
  /-- `aspath_empty`. -/
  | empty
  /-- A path is copied and changed, and the copy is interned with its attributes. -/
  | change (ptr : Nat) (changes : List PathChange)
  /-- A path is interned again with its attributes. -/
  | hold (ptr : Nat)
  | unintern (ptr : Nat)
  /-- Attributes are written into a message. -/
  | send (ptr : Nat) (dest : Sending)

/-- One thing that is done with paths. -/
def pathStep (h : AsHash) : PathEvent → Except Fault AsHash
  | .receive update => receiveUpdate jhash h update
  | .empty => .ok (aspathParseIntern jhash h []).1
  | .change ptr changes =>
    match h.entries.find? (fun e => e.ptr = ptr) with
    | none => .error (.dangling ptr)
    | some e =>
      .ok (aspathIntern jhash h
        (changes.foldl PathText.changed (aspathStrUpdate e.text.segments))).1
  | .hold ptr => .ok (h.change ptr fun e => { e with refcnt := e.refcnt + 1 })
  | .unintern ptr => aspathUnintern jhash h ptr
  | .send ptr dest => .ok (h.change ptr fun e => { e with text := sentPath dest e.text })

/-- A step of a daemon that may have stopped. -/
def hashStep (state : Except Fault AsHash) (event : PathEvent) : Except Fault AsHash := do
  pathStep jhash (← state) event

/-- The hash after `aspath_init`. -/
def aspathInit : AsHash := ⟨[], 0⟩

/-- The text is that of the segments. -/
def PathText.Faithful (text : PathText) : Prop := text.str = aspathMakeStrCount text.segments

/-- Every path in the hash has the string of its segments. -/
def HashFaithful (state : Except Fault AsHash) : Prop :=
  ∀ h, state = .ok h → ∀ e ∈ h.entries, e.text.Faithful

/-- When an update is received over a session with `local-as`, the path with the number prepended is
already in the hash in which it is looked up, filed under the string of the path without it. -/
def PrependFiled (state : Except Fault AsHash) : PathEvent → Prop
  | .receive update =>
    prependsLocalAs update.peer ⟨update.reconciled⟩ →
      ∀ h h₁ ptr h₂, state = .ok h → receivePaths jhash h update = .ok (h₁, ptr) →
        aspathUnintern jhash h₁ ptr = .ok h₂ →
        ∃ e ∈ h₂.entries, e.key = jhash (aspathMakeStrCount update.reconciled) ∧
          e.text.segments =
            (aspathAddSeq ⟨update.reconciled⟩ update.peer.changeLocalAs).segments
  | _ => True

/-! ## The strings in the hash -/

theorem aspathStrUpdate_faithful (segments : List Assegment) :
    (aspathStrUpdate segments).Faithful := rfl

variable {jhash} {h h' : AsHash}

/-- The paths of the hash are paths that were there before. -/
def AsHash.Within (h' h : AsHash) : Prop :=
  ∀ e' ∈ h'.entries, ∃ e ∈ h.entries, e'.text = e.text ∧ e'.key = e.key

theorem AsHash.within_change (h : AsHash) (ptr : Nat) {f : HashedPath → HashedPath}
    (keeps : ∀ e, (f e).text = e.text ∧ (f e).key = e.key) : (h.change ptr f).Within h := by
  intro e' inside
  obtain ⟨e, old, rfl⟩ := List.mem_map.mp inside
  refine ⟨e, old, ?_⟩
  split_ifs
  · exact keeps e
  · exact ⟨rfl, rfl⟩

theorem within_aspathUnintern {ptr : Nat} (uninterned : aspathUnintern jhash h ptr = .ok h') :
    h'.Within h := by
  unfold aspathUnintern at uninterned
  split at uninterned
  · cases uninterned
  · split_ifs at uninterned
    · split at uninterned
      · cases uninterned
      · split_ifs at uninterned
        cases uninterned
        exact fun e inside => ⟨e, List.mem_of_mem_filter inside, rfl, rfl⟩
    · cases uninterned
      exact h.within_change ptr fun _ => ⟨rfl, rfl⟩

theorem aspathIntern_cases (jhash : List Char → Nat) (h : AsHash) (text : PathText) :
    (∃ e ∈ h.entries, e.key = jhash text.str ∧ e.text.segments = text.segments ∧
      (aspathIntern jhash h text).1.Within h) ∨
    (aspathIntern jhash h text).1.entries =
      ⟨h.nextPtr, text, jhash text.str, 1⟩ :: h.entries ∧
      ¬ ∃ e ∈ h.entries, e.key = jhash text.str ∧ e.text.segments = text.segments := by
  unfold aspathIntern
  cases found : h.find (jhash text.str) text.segments with
  | some e =>
    have both := List.find?_some found
    rw [decide_eq_true_eq] at both
    exact .inl ⟨e, List.mem_of_find?_eq_some found, both.1, both.2,
      h.within_change e.ptr fun _ => ⟨rfl, rfl⟩⟩
  | none =>
    refine .inr ⟨rfl, ?_⟩
    rintro ⟨e, inside, keyed, same⟩
    exact absurd (decide_eq_true ⟨keyed, same⟩) (List.find?_eq_none.mp found e inside)

/-- All paths of the hash have the right string. -/
def AsHash.Faithful (h : AsHash) : Prop := ∀ e ∈ h.entries, e.text.Faithful

theorem AsHash.Within.faithful (within : h'.Within h) (faithful : h.Faithful) : h'.Faithful := by
  intro e' inside
  obtain ⟨e, old, text, -⟩ := within e' inside
  rw [text]
  exact faithful e old

variable {text : PathText}

theorem AsHash.Faithful.intern (faithful : h.Faithful) (right : text.Faithful) :
    (aspathIntern jhash h text).1.Faithful := by
  rcases aspathIntern_cases jhash h text with ⟨-, -, -, -, within⟩ | ⟨added, -⟩
  · exact within.faithful faithful
  · intro e inside
    rw [added] at inside
    rcases List.mem_cons.mp inside with rfl | old
    · exact right
    · exact faithful e old

theorem AsHash.Faithful.intern_iff (faithful : h.Faithful) (wrong : ¬ text.Faithful) :
    (aspathIntern jhash h text).1.Faithful ↔
      ∃ e ∈ h.entries, e.key = jhash text.str ∧ e.text.segments = text.segments := by
  rcases aspathIntern_cases jhash h text with ⟨e, inside, keyed, same, within⟩ | ⟨added, none⟩
  · exact iff_of_true (within.faithful faithful) ⟨e, inside, keyed, same⟩
  · refine iff_of_false (fun right => wrong ?_) none
    exact right _ (by rw [added]; exact List.mem_cons_self)

theorem faithful_receivePaths {update : PathUpdate} {ptr : Nat} (faithful : h.Faithful)
    (received : receivePaths jhash h update = .ok (h', ptr)) : h'.Faithful := by
  unfold receivePaths at received
  have parsed : ∀ {h : AsHash} (segments : List Assegment), h.Faithful →
      (aspathParseIntern jhash h segments).1.Faithful :=
    fun segments faithful => faithful.intern (aspathStrUpdate_faithful segments)
  have first := parsed update.path faithful
  dsimp only at received
  split at received
  · cases received
    exact first
  · rename_i as4path _
    obtain ⟨h₁, uninterned, received⟩ := bind_eq_ok received
    obtain ⟨h₂, uninterned', received⟩ := bind_eq_ok received
    cases received
    have second := (within_aspathUnintern uninterned).faithful (parsed as4path first)
    exact (within_aspathUnintern uninterned').faithful
      (second.intern (aspathStrUpdate_faithful update.reconciled))

theorem PathText.addSeq_not_faithful (segments : List Assegment) (asno : Nat) :
    ¬ ((aspathStrUpdate segments).addSeq asno).Faithful :=
  aspathMakeStrCount_addSeq_ne ⟨segments⟩ asno

theorem PathText.Faithful.changed (right : text.Faithful) (change : PathChange) :
    (text.changed change).Faithful := by
  cases change with
  | prepend list =>
    rw [PathText.changed]
    split_ifs
    · exact right
    · rfl
  | exclude list => rfl
  | empty => rfl

theorem PathText.Faithful.foldl_changed (changes : List PathChange) : ∀ {text : PathText},
    text.Faithful → (changes.foldl PathText.changed text).Faithful := by
  induction changes with
  | nil => exact fun right => right
  | cons change changes ih => exact fun right => ih (right.changed change)

theorem PathText.Faithful.sent (right : text.Faithful) (dest : Sending) :
    (sentPath dest text).Faithful := by
  unfold sentPath
  split_ifs
  · rfl
  · exact right

/-- **A step keeps the strings right exactly if the path with the number prepended is found.** -/
theorem faithful_pathStep {event : PathEvent} (faithful : h.Faithful)
    (stepped : pathStep jhash h event = .ok h') :
    h'.Faithful ↔ PrependFiled jhash (.ok h) event := by
  cases event with
  | receive update =>
    obtain ⟨⟨h₁, ptr⟩, received, stepped⟩ := bind_eq_ok stepped
    have faithful₁ := faithful_receivePaths faithful received
    split_ifs at stepped with prepends
    · obtain ⟨h₂, uninterned, stepped⟩ := bind_eq_ok stepped
      cases stepped
      have faithful₂ := (within_aspathUnintern uninterned).faithful faithful₁
      rw [faithful₂.intern_iff (PathText.addSeq_not_faithful _ _)]
      constructor
      · intro filed _ g g₁ ptr' g₂ same received' uninterned'
        cases same
        rw [received] at received'
        cases received'
        rw [uninterned] at uninterned'
        cases uninterned'
        exact filed
      · exact fun filed => filed prepends h h₁ ptr h₂ rfl received uninterned
    · cases stepped
      exact iff_of_true faithful₁ fun does => absurd does prepends
  | empty =>
    cases stepped
    exact iff_of_true (faithful.intern (aspathStrUpdate_faithful [])) trivial
  | change ptr changes =>
    unfold pathStep at stepped
    dsimp only at stepped
    split at stepped
    · cases stepped
    · cases stepped
      refine iff_of_true (faithful.intern ?_) trivial
      exact PathText.Faithful.foldl_changed changes (aspathStrUpdate_faithful _)
  | hold ptr =>
    cases stepped
    refine iff_of_true (AsHash.Within.faithful ?_ faithful) trivial
    exact h.within_change ptr fun _ => ⟨rfl, rfl⟩
  | unintern ptr => exact iff_of_true ((within_aspathUnintern stepped).faithful faithful) trivial
  | send ptr dest =>
    cases stepped
    refine iff_of_true (fun e' inside => ?_) trivial
    obtain ⟨e, old, rfl⟩ := List.mem_map.mp inside
    split_ifs
    · exact (faithful e old).sent dest
    · exact faithful e old

end Hash

/-- **When the strings in the hash are right.** -/
theorem hashFaithful_iff (jhash : List Char → Nat) (history : List PathEvent) :
    Throughout (hashStep jhash) (.ok aspathInit) HashFaithful history ↔
      EachMeets (hashStep jhash) (.ok aspathInit) (PrependFiled jhash) history := by
  refine throughout_iff_eachMeets HashFaithful ?_ ?_ (fun _ holds => holds) ?_ history
  · rintro h same e inside
    cases same
    cases inside
  · intro state event faithful filed h' stepped
    obtain ⟨h, rfl, stepped⟩ := bind_eq_ok stepped
    exact (faithful_pathStep (faithful h rfl) stepped).mpr filed
  · intro state event faithful right
    cases event with
    | receive update =>
      intro prepends h h₁ ptr h₂ same received uninterned
      subst same
      have stepped : pathStep jhash h (.receive update) = .ok (aspathIntern jhash h₂
          ((aspathStrUpdate update.reconciled).addSeq update.peer.changeLocalAs)).1 := by
        rw [pathStep, receiveUpdate, received, ok_bind]
        dsimp only
        rw [if_pos prepends, uninterned]
        rfl
      exact (faithful_pathStep (faithful h rfl) stepped).mp (right _ stepped) prepends h h₁ ptr h₂
        rfl received uninterned
    | _ => trivial

/-- A session with `local-as`. -/
def localAsPeer : UpdatePeer where
  ptr := 0
  status := .established
  afc _ _ := true
  nsf _ _ := false
  sort := .ebgp
  as := 1
  as4Rcv := true
  enforceFirstAs := false
  changeLocalAs := 2
  localAsNoPrepend := false
  ibgp_localAs sort := by cases sort

/-- The path `2 1` is in the hash with the string `1`. -/
theorem not_hashFaithful_localAs :
    ¬ Throughout (hashStep List.length) (.ok aspathInit) HashFaithful
      [.receive ⟨localAsPeer, [⟨.asSequence, [1], by decide⟩], none⟩] := by
  intro throughout
  have faithful : (['1'] : List Char) = aspathMakeStrCount [⟨.asSequence, [2, 1], by decide⟩] :=
    throughout.here ⟨[⟨1, ⟨[⟨.asSequence, [2, 1], by decide⟩], ['1']⟩, 1, 1⟩], 2⟩ rfl _
      List.mem_cons_self
  exact absurd faithful (by decide)

end Quagga.Bgpd
