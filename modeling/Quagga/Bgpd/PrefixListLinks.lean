import Quagga.Library.DoublyLinked
import Quagga.Bgpd.PrefixList

/-!
# The links of a prefix-list

The entries of a prefix-list are linked in both directions, between a head and a tail, and are
counted. `prefix_list_entry_add` and `prefix_list_entry_delete` are given here with the links that
they set. They do to the entries what the functions on lists do (`Kept.prefixListEntryAdd`), and
the entries stay sorted by their numbers, all different. So the first entry that matches a prefix is
the one with the smallest number.

An entry without a number gets the next multiple of five after the largest one. That is an `int`,
and from 2147483645 on the next multiple is too large for it: the number wraps around, and the new
entry comes before all others (`number_wraps`). `commands_good_iff` says that nothing else goes
wrong.

The commands are those that install, uninstall and describe a list of one family under one name. The
ranges that they check beforehand, and the hooks that they call afterwards, are left out.
-/

set_option autoImplicit false

namespace Quagga.Bgpd

open Library

/-! ## The functions -/

/-- `struct prefix_list`, with the entries by their addresses. -/
structure PrefixListLinks where
  links : Chain
  entry : Nat → PrefixListEntry
  size : Nat
  count : Int
  desc : Bool

variable (s : PrefixListLinks)

namespace PrefixListLinks

/-- `prefix_list_insert`: a list without entries. -/
def new : PrefixListLinks :=
  { links := .empty, entry := fun _ => ⟨0, 0, 0, .deny, ⟨0, []⟩⟩, size := 0, count := 0
    desc := false }

/-- The addresses that the loops go through. -/
def nodes : List Nat := walk s.links.next s.size s.links.head

/-- The entries at these addresses. -/
def listed : PrefixList := s.nodes.map s.entry

/-- `prefix_list_entry_delete`, as far as the links go. -/
def prefixListEntryDelete (a : Nat) : PrefixListLinks :=
  { s with links := s.links.remove a, count := s.count - 1 }

/-- `prefix_seq_check`. -/
def prefixSeqCheck (seq : Int) : Option Nat :=
  s.nodes.find? fun a => (s.entry a).seq = seq

/-- `prefix_list_entry_add`. -/
def prefixListEntryAdd (pentry : PrefixListEntry) : PrefixListLinks :=
  let pentry := if pentry.seq = -1 then { pentry with seq := prefixNewSeqGet s.listed } else pentry
  let s := match s.prefixSeqCheck pentry.seq with
    | some replace => s.prefixListEntryDelete replace
    | none => s
  let point := s.nodes.find? fun a => (s.entry a).seq ≥ pentry.seq
  { s with
    links := s.links.insert s.size point
    entry := Function.update s.entry s.size pentry
    size := s.size + 1
    count := s.count + 1 }

/-- `prefix_list_apply`. -/
def prefixListApply (p : Prefix) : PrefixListType :=
  if s.count = 0 then .permit
  else
    match s.nodes.find? fun a => prefixListEntryMatch (s.entry a) p with
    | some a => (s.entry a).type
    | none => .deny

/-- A list without entries and without a description is deleted. -/
def unlessEmpty : Option PrefixListLinks :=
  if s.links.head = none ∧ s.links.tail = none ∧ s.desc = false then none else some s

end PrefixListLinks

/-- The commands on a list. -/
inductive PrefixListCommand where
  | install (pentry : PrefixListEntry)
  | uninstall (p : Prefix) (type : PrefixListType) (seq : Int) (le ge : Nat)
  | delete
  | describe
  | undescribe

variable (plist : Option PrefixListLinks)

/-- `prefix_list_get`. -/
def plistGet : PrefixListLinks := plist.getD .new

/-- One command: `vty_prefix_list_install`, `vty_prefix_list_uninstall` and those for the
description. -/
def plistStep (afi : Afi) (plist : Option PrefixListLinks) :
    PrefixListCommand → Option PrefixListLinks
  | .install pentry =>
    let s := plistGet plist
    if prefixEntryDupCheck afi s.listed pentry then some s else some (s.prefixListEntryAdd pentry)
  | .uninstall p type seq le ge => plist.bind fun s =>
    match s.nodes.find? fun a => prefixSame afi (s.entry a).p p && (s.entry a).type = type &&
      !(seq ≥ 0 && (s.entry a).seq ≠ seq) && (s.entry a).le = le && (s.entry a).ge = ge with
    | some a => (s.prefixListEntryDelete a).unlessEmpty
    | none => some s
  | .delete => none
  | .describe => some { plistGet plist with desc := true }
  | .undescribe => plist.bind fun s => PrefixListLinks.unlessEmpty { s with desc := false }

/-! ## What is wanted -/

/-- What a list of entries does with a prefix: the matching entry with the smallest number decides,
nothing is permitted where none matches, and everything without entries. -/
structure Decides (entries : PrefixList) (p : Prefix) (type : PrefixListType) : Prop where
  empty : entries = [] → type = .permit
  unmatched : entries ≠ [] → (∀ e ∈ entries, prefixListEntryMatch e p = false) → type = .deny
  matched : ∀ e ∈ entries, prefixListEntryMatch e p = true →
    (∀ f ∈ entries, prefixListEntryMatch f p = true → e.seq ≤ f.seq) → type = e.type

/-- Sorted by the numbers, which are all different. -/
def Ascending (entries : PrefixList) : Prop := entries.Pairwise fun e f => e.seq < f.seq

/-- The links and the count are right, the entries are sorted, and the list decides as it
should. -/
def PrefixListLinks.InOrder : Prop :=
  ∃ nodes, s.links.Holds nodes ∧ s.count = nodes.length ∧ Ascending (nodes.map s.entry) ∧
    ∀ p, Decides (nodes.map s.entry) p (s.prefixListApply p)

/-- A command that installs an entry without a number gives it a multiple of five that is greater
than all numbers of the list. -/
def Numbered (command : PrefixListCommand) : Prop :=
  ∀ pentry, command = .install pentry → pentry.seq = -1 →
    5 ∣ prefixNewSeqGet (plistGet plist).listed ∧
      ∀ e ∈ (plistGet plist).listed, e.seq < prefixNewSeqGet (plistGet plist).listed

/-- A command leaves the list in order, and numbers the entry that it installs. -/
def GoodCommand (afi : Afi) (plist : Option PrefixListLinks) (command : PrefixListCommand) : Prop :=
  (∀ s, plistStep afi plist command = some s → s.InOrder) ∧ Numbered plist command

/-- An entry without a number is not installed when a number is too large for the next multiple of
five. -/
def LeavesRoom (command : PrefixListCommand) : Prop :=
  ∀ pentry, command = .install pentry → pentry.seq = -1 →
    ∀ e ∈ (plistGet plist).listed, e.seq < 2147483645

/-! ## Lists of entries -/

theorem le_foldl_max (plist : PrefixList) (start : Int) :
    start ≤ plist.foldl (fun maxseq pentry => max maxseq pentry.seq) start ∧
      ∀ e ∈ plist, e.seq ≤ plist.foldl (fun maxseq pentry => max maxseq pentry.seq) start := by
  induction plist generalizing start with
  | nil => exact ⟨le_refl start, nofun⟩
  | cons first rest ih =>
    obtain ⟨from_start, all⟩ := ih (max start first.seq)
    refine ⟨(le_max_left _ _).trans from_start, fun e inside => ?_⟩
    rcases List.mem_cons.mp inside with rfl | inside
    · exact (le_max_right _ _).trans from_start
    · exact all e inside

theorem foldl_max_lt {plist : PrefixList} {bound start : Int} (below : start < bound)
    (all : ∀ e ∈ plist, e.seq < bound) :
    plist.foldl (fun maxseq pentry => max maxseq pentry.seq) start < bound := by
  induction plist generalizing start with
  | nil => exact below
  | cons first rest ih =>
    exact ih (max_lt below (all first List.mem_cons_self)) fun e inside => all e (.tail _ inside)

/-- **The next number is right exactly as long as no number is too large.** -/
theorem prefixNewSeqGet_iff (plist : PrefixList) :
    (5 ∣ prefixNewSeqGet plist ∧ ∀ e ∈ plist, e.seq < prefixNewSeqGet plist) ↔
      ∀ e ∈ plist, e.seq < 2147483645 := by
  obtain ⟨positive, most⟩ := le_foldl_max plist 0
  unfold prefixNewSeqGet
  constructor
  · rintro ⟨five, greater⟩ e inside
    have wrapped := Int.bmod_lt
      (x := plist.foldl (fun maxseq pentry => max maxseq pentry.seq) 0 / 5 * 5 + 5)
      (m := 2 ^ 32) (by decide)
    have less := greater e inside
    omega
  · intro room
    have below := foldl_max_lt (show (0 : Int) < 2147483645 by decide) room
    generalize plist.foldl (fun maxseq pentry => max maxseq pentry.seq) 0 = maxseq at *
    have same : (maxseq / 5 * 5 + 5).bmod (2 ^ 32) = maxseq / 5 * 5 + 5 := by
      rw [Int.bmod_eq_of_le] <;> omega
    refine ⟨by omega, fun e inside => ?_⟩
    have := most e inside
    omega

section Split

variable {α : Type} {key : α → Int} {n : Int} {pre post : List α} {mid : Option α}

theorem exists_split (n : Int) {l : List α} (ascending : l.Pairwise fun x y => key x < key y) :
    ∃ pre, ∃ mid : Option α, ∃ post, l = pre ++ (mid.toList ++ post) ∧ (∀ x ∈ pre, key x < n) ∧
      (∀ x ∈ mid, key x = n) ∧ ∀ x ∈ post, n < key x := by
  induction l with
  | nil => exact ⟨[], none, [], rfl, nofun, nofun, nofun⟩
  | cons first rest ih =>
    obtain ⟨above, ascending⟩ := List.pairwise_cons.mp ascending
    rcases lt_trichotomy (key first) n with lower | same | higher
    · obtain ⟨pre, mid, post, split, below, here, greater⟩ := ih ascending
      exact ⟨first :: pre, mid, post, by rw [split]; rfl,
        List.forall_mem_cons.mpr ⟨lower, below⟩, here, greater⟩
    · exact ⟨[], some first, rest, rfl, nofun, by simpa using same,
        fun x inside => same ▸ above x inside⟩
    · exact ⟨[], none, first :: rest, rfl, nofun, nofun,
        List.forall_mem_cons.mpr ⟨higher, fun x inside => higher.trans (above x inside)⟩⟩

variable (lower : ∀ x ∈ pre, key x < n) (here : ∀ x ∈ mid, key x = n)
  (higher : ∀ x ∈ post, n < key x)
include lower higher

include here in
theorem find?_eq_mid : (pre ++ (mid.toList ++ post)).find? (fun x => key x = n) = mid := by
  have before : pre.find? (fun x => decide (key x = n)) = none :=
    List.find?_eq_none.mpr fun x inside => by simpa using (lower x inside).ne
  have after : post.find? (fun x => decide (key x = n)) = none :=
    List.find?_eq_none.mpr fun x inside => by simpa using (higher x inside).ne'
  rw [List.find?_append, List.find?_append, before, after]
  cases mid with
  | none => rfl
  | some x => simp [here x rfl]

theorem find?_eq_post : (pre ++ post).find? (fun x => key x ≥ n) = post.head? := by
  have before : pre.find? (fun x => decide (key x ≥ n)) = none :=
    List.find?_eq_none.mpr fun x inside => by simpa using lower x inside
  rw [List.find?_append, before]
  cases post with
  | nil => rfl
  | cons x post => simp [(higher x List.mem_cons_self).le]

end Split

/-- An entry without a number gets the next one. -/
def numbered (plist : PrefixList) (pentry : PrefixListEntry) : PrefixListEntry :=
  if pentry.seq = -1 then { pentry with seq := prefixNewSeqGet plist } else pentry

theorem prefixListEntryAdd_eq {plist pre post : PrefixList} {mid : Option PrefixListEntry}
    {pentry : PrefixListEntry} (split : plist = pre ++ (mid.toList ++ post))
    (lower : ∀ e ∈ pre, e.seq < (numbered plist pentry).seq)
    (here : ∀ e ∈ mid, e.seq = (numbered plist pentry).seq)
    (higher : ∀ e ∈ post, (numbered plist pentry).seq < e.seq) :
    prefixListEntryAdd plist pentry = pre ++ numbered plist pentry :: post := by
  change (plist.eraseP fun old => old.seq = (numbered plist pentry).seq).takeWhile
      (fun point => ¬ point.seq ≥ (numbered plist pentry).seq) ++ numbered plist pentry ::
    (plist.eraseP fun old => old.seq = (numbered plist pentry).seq).dropWhile
      (fun point => ¬ point.seq ≥ (numbered plist pentry).seq) = _
  generalize numbered plist pentry = new at *
  have rest : plist.eraseP (fun old => old.seq = new.seq) = pre ++ post := by
    rw [split, List.eraseP_append_right _ fun e inside => by simpa using (lower e inside).ne]
    cases mid with
    | none => rw [Option.toList_none, List.nil_append, List.eraseP_of_forall_not fun e inside => by
        simpa using (higher e inside).ne']
    | some e => simp [here e rfl]
  have before : ∀ e ∈ pre, decide (¬ e.seq ≥ new.seq) = true := fun e inside => by
    simpa using lower e inside
  rw [rest, List.takeWhile_append_of_pos before, List.dropWhile_append_of_pos before]
  cases post with
  | nil => simp
  | cons e post => simp [(higher e List.mem_cons_self).le]

theorem prefixListApply_eq_elim {entries : PrefixList} (entered : entries ≠ []) (p : Prefix) :
    prefixListApply (some entries) p =
      (entries.find? fun e => prefixListEntryMatch e p).elim .deny (·.type) := by
  unfold prefixListApply
  cases entries with
  | nil => exact absurd rfl entered
  | cons first rest =>
    dsimp only
    cases (first :: rest).find? _ <;> rfl

theorem decides_of_ascending {entries : PrefixList} (ascending : Ascending entries) (p : Prefix) :
    Decides entries p (prefixListApply (some entries) p) := by
  cases entries with
  | nil => exact ⟨fun _ => rfl, fun some => absurd rfl some, nofun⟩
  | cons first rest =>
    generalize listed : first :: rest = entries at *
    rw [prefixListApply_eq_elim (by simp [← listed])]
    refine ⟨by simp [← listed], fun _ none => ?_, fun e inside isMatch least => ?_⟩
    · rw [List.find?_eq_none.mpr fun e inside => by simp [none e inside]]
      rfl
    · cases found : entries.find? fun e => prefixListEntryMatch e p with
      | none => exact absurd isMatch (List.find?_eq_none.mp found e inside)
      | some f =>
        obtain ⟨matches_f, before, after, split, earlier⟩ :=
          List.find?_eq_some_iff_append.mp found
        rw [split] at inside ascending least
        rcases List.mem_append.mp inside with early | late
        · exact absurd isMatch (by simpa using earlier e early)
        · rcases List.mem_cons.mp late with rfl | late
          · rfl
          · have less := (List.pairwise_append.mp ascending).2.1
            have less := (List.pairwise_cons.mp less).1 e late
            have most := least f (by simp) matches_f
            omega

namespace PrefixListLinks

/-- What holds of a list, with the nodes in their order. -/
structure Kept (s : PrefixListLinks) (nodes : List Nat) : Prop where
  holds : s.links.Holds nodes
  count_eq : s.count = nodes.length
  ascending : Ascending (nodes.map s.entry)
  small : ∀ a ∈ nodes, a < s.size

variable {s : PrefixListLinks} {nodes pre post : List Nat}

theorem kept_new : new.Kept [] := ⟨Chain.holds_empty, rfl, .nil, nofun⟩

theorem Kept.nodes_eq (kept : s.Kept nodes) : s.nodes = nodes := by
  rw [PrefixListLinks.nodes, kept.holds.head_eq]
  exact kept.holds.strung.walk_eq (length_le_of_lt kept.holds.distinct kept.small)

theorem Kept.prefixListApply_eq (kept : s.Kept nodes) (p : Prefix) :
    s.prefixListApply p = Bgpd.prefixListApply (some (nodes.map s.entry)) p := by
  have count := kept.count_eq
  rw [PrefixListLinks.prefixListApply, kept.nodes_eq]
  cases nodes with
  | nil => exact if_pos count
  | cons a rest =>
    have nonempty : s.count ≠ 0 := by
      rw [count, List.length_cons]
      omega
    rw [prefixListApply_eq_elim (by simp), if_neg nonempty, List.find?_map, Function.comp_def]
    cases (a :: rest).find? fun a => prefixListEntryMatch (s.entry a) p <;> rfl

theorem Kept.inOrder (kept : s.Kept nodes) : s.InOrder := by
  refine ⟨nodes, kept.holds, kept.count_eq, kept.ascending, fun p => ?_⟩
  rw [kept.prefixListApply_eq]
  exact decides_of_ascending kept.ascending p

theorem Kept.delete {a : Nat} (kept : s.Kept (pre ++ a :: post)) :
    (s.prefixListEntryDelete a).Kept (pre ++ post) := by
  have fewer : (pre ++ post).Sublist (pre ++ a :: post) :=
    List.Sublist.append_left (List.sublist_cons_self a post) pre
  refine ⟨kept.holds.remove, ?_, kept.ascending.sublist (fewer.map _),
    fun b inside => kept.small b (fewer.subset inside)⟩
  have count := kept.count_eq
  simp only [prefixListEntryDelete, List.length_append, List.length_cons] at count ⊢
  omega

theorem Kept.map_update (kept : s.Kept (pre ++ post)) (pentry : PrefixListEntry) :
    (pre ++ s.size :: post).map (Function.update s.entry s.size pentry) =
      pre.map s.entry ++ pentry :: post.map s.entry := by
  have old : ∀ a ∈ pre ++ post, Function.update s.entry s.size pentry a = s.entry a :=
    fun a inside => Function.update_of_ne (kept.small a inside).ne ..
  rw [List.map_append, List.map_cons, Function.update_self,
    List.map_congr_left fun a inside => old a (List.mem_append_left _ inside),
    List.map_congr_left fun a inside => old a (List.mem_append_right _ inside)]

theorem Kept.insert (kept : s.Kept (pre ++ post)) {pentry : PrefixListEntry}
    (lower : ∀ a ∈ pre, (s.entry a).seq < pentry.seq)
    (higher : ∀ a ∈ post, pentry.seq < (s.entry a).seq) :
    Kept
      { s with
        links := s.links.insert s.size (firstOf post none)
        entry := Function.update s.entry s.size pentry
        size := s.size + 1
        count := s.count + 1 }
      (pre ++ s.size :: post) := by
  have count := kept.count_eq
  refine ⟨kept.holds.insert fun inside => (kept.small _ inside).ne rfl, ?_, ?_, ?_⟩
  · simp only [count, List.length_append, List.length_cons]
    omega
  · have ascending := kept.ascending
    rw [kept.map_update]
    unfold Ascending at ascending ⊢
    rw [List.map_append, List.pairwise_append] at ascending
    obtain ⟨front, back, across⟩ := ascending
    refine List.pairwise_append.mpr ⟨front, List.pairwise_cons.mpr ⟨?_, back⟩, ?_⟩
    · exact List.forall_mem_map.mpr higher
    · refine List.forall_mem_map.mpr fun a inside => List.forall_mem_cons.mpr ⟨lower a inside, ?_⟩
      exact across _ (List.mem_map_of_mem inside)
  · intro a inside
    rcases List.mem_cons.mp (List.perm_middle.mem_iff.mp inside) with rfl | inside
    · exact Nat.lt_succ_self _
    · exact Nat.lt_succ_of_lt (kept.small a inside)

/-- **A new entry in a list.** The entries are those of the list without links. -/
theorem Kept.prefixListEntryAdd (kept : s.Kept nodes) (pentry : PrefixListEntry) :
    ∃ nodes', (s.prefixListEntryAdd pentry).Kept nodes' ∧
      nodes'.map (s.prefixListEntryAdd pentry).entry =
        Bgpd.prefixListEntryAdd (nodes.map s.entry) pentry := by
  have listed : s.listed = nodes.map s.entry := by rw [PrefixListLinks.listed, kept.nodes_eq]
  have ascending := kept.ascending
  rw [Ascending, List.pairwise_map] at ascending
  obtain ⟨pre, mid, post, rfl, lower, here, higher⟩ :=
    exists_split (numbered s.listed pentry).seq ascending
  have found : s.prefixSeqCheck (numbered s.listed pentry).seq = mid := by
    rw [prefixSeqCheck, kept.nodes_eq]
    exact find?_eq_mid lower here higher
  -- The list without the entry that is replaced.
  obtain ⟨t, deleted, kept', entry_eq⟩ : ∃ t, (match mid with
      | some replace => s.prefixListEntryDelete replace
      | none => s) = t ∧ t.Kept (pre ++ post) ∧ t.entry = s.entry := by
    cases mid with
    | none => exact ⟨s, rfl, kept, rfl⟩
    | some a => exact ⟨_, rfl, kept.delete, rfl⟩
  have point : t.nodes.find? (fun a => (t.entry a).seq ≥ (numbered s.listed pentry).seq) =
      firstOf post none := by
    rw [kept'.nodes_eq, entry_eq, find?_eq_post lower higher, firstOf, Option.or_none]
  have added : s.prefixListEntryAdd pentry =
      { t with
        links := t.links.insert t.size (firstOf post none)
        entry := Function.update t.entry t.size (numbered s.listed pentry)
        size := t.size + 1
        count := t.count + 1 } := by
    rw [← point, ← deleted, ← found]
    rfl
  rw [added, ← listed]
  refine ⟨pre ++ t.size :: post, kept'.insert (entry_eq ▸ lower) (entry_eq ▸ higher), ?_⟩
  rw [kept'.map_update, entry_eq]
  have split : s.listed = pre.map s.entry ++ ((mid.map s.entry).toList ++ post.map s.entry) := by
    rw [listed]
    cases mid <;> simp
  refine (prefixListEntryAdd_eq split (List.forall_mem_map.mpr lower) ?_
    (List.forall_mem_map.mpr higher)).symm
  cases mid with
  | none => nofun
  | some a => simpa using here a rfl

theorem Kept.unlessEmpty (kept : s.Kept nodes) :
    ∀ t, s.unlessEmpty = some t → ∃ nodes, t.Kept nodes := by
  intro t same
  unfold PrefixListLinks.unlessEmpty at same
  split at same
  · cases same
  · exact ⟨nodes, Option.some.inj same ▸ kept⟩

end PrefixListLinks

open PrefixListLinks

/-! ## All commands -/

/-- A list that exists is linked. -/
def IsKept : Prop := ∀ s, plist = some s → ∃ nodes, s.Kept nodes

theorem IsKept.plistGet {plist : Option PrefixListLinks} (kept : IsKept plist) :
    ∃ nodes, (plistGet plist).Kept nodes := by
  cases plist with
  | none => exact ⟨[], kept_new⟩
  | some s => exact kept s rfl

theorem IsKept.plistStep {plist : Option PrefixListLinks} (kept : IsKept plist) (afi : Afi)
    (command : PrefixListCommand) : IsKept (plistStep afi plist command) := by
  cases command with
  | install pentry =>
    obtain ⟨nodes, got⟩ := kept.plistGet
    obtain ⟨nodes', added, -⟩ := got.prefixListEntryAdd pentry
    unfold Bgpd.plistStep
    dsimp only
    split_ifs <;> rintro _ ⟨⟩
    · exact ⟨nodes, got⟩
    · exact ⟨nodes', added⟩
  | uninstall p type seq le ge =>
    cases plist with
    | none => nofun
    | some s =>
      obtain ⟨nodes, got⟩ := kept s rfl
      unfold Bgpd.plistStep
      dsimp only [Option.bind_some]
      rw [got.nodes_eq]
      split
      next a found =>
        obtain ⟨-, pre, post, rfl, -⟩ := List.find?_eq_some_iff_append.mp found
        exact got.delete.unlessEmpty
      next => exact kept
  | delete => nofun
  | describe =>
    obtain ⟨nodes, got⟩ := kept.plistGet
    rintro _ ⟨⟩
    exact ⟨nodes, got.holds, got.count_eq, got.ascending, got.small⟩
  | undescribe =>
    cases plist with
    | none => nofun
    | some s =>
      obtain ⟨nodes, got⟩ := kept s rfl
      have same : Kept { s with desc := false } nodes :=
        ⟨got.holds, got.count_eq, got.ascending, got.small⟩
      exact same.unlessEmpty

/-- **Prefix-lists under all commands.** After every command the links and the count are right, the
entries are sorted and the list decides as it should. A new number is a greater multiple of five
exactly as long as there is room for one. -/
theorem commands_good_iff (afi : Afi) (history : List PrefixListCommand) :
    EachMeets (plistStep afi) none (GoodCommand afi) history ↔
      EachMeets (plistStep afi) none LeavesRoom history := by
  refine eachMeets_congr IsKept (by rintro _ ⟨⟩)
    (fun _ command kept => kept.plistStep afi command) ?_ history
  intro plist command kept
  have ordered : ∀ s, plistStep afi plist command = some s → s.InOrder := fun s after =>
    let ⟨_, got⟩ := kept.plistStep afi command s after
    got.inOrder
  have room : Numbered plist command ↔ LeavesRoom plist command :=
    forall_congr' fun _ => imp_congr_right fun _ => imp_congr_right fun _ => prefixNewSeqGet_iff _
  exact ⟨fun good => room.mp good.2, fun has => ⟨ordered, room.mpr has⟩⟩

/-- An entry for one address. -/
def hostEntry (seq : Int) (address : UInt8) : PrefixListEntry :=
  ⟨seq, 0, 0, .permit, ⟨32, [10, 0, 0, address]⟩⟩

/-- After the largest number and another one, the next entry gets a negative one. -/
theorem number_wraps : ¬ EachMeets (plistStep .ip) none (GoodCommand .ip)
    [.install (hostEntry 2147483642 1), .install (hostEntry (-1) 2),
      .install (hostEntry (-1) 3)] := by
  intro meets
  have last : GoodCommand .ip
      (afterAll (plistStep .ip) none
        [.install (hostEntry 2147483642 1), .install (hostEntry (-1) 2)])
      (.install (hostEntry (-1) 3)) := meets rfl
  exact absurd (last.2 _ rfl rfl).2 (by decide)

end Quagga.Bgpd
