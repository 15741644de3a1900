import Mathlib.Data.Finmap
import Mathlib.Order.Lattice.Nat
import Quagga.Library.RadixLinks
import Quagga.Bgpd.PrefixBits

/-!
# The table of a RIB

A `bgp_table` is a binary radix tree. Its nodes are reached through the links of their parents and
point back to them. `bgp_node_get` walks down to where a prefix belongs and adds a node for it, and
where the prefix leaves the way to another node, a node for the common beginning of the two.
`bgp_unlock_node` takes out the node when its last lock is gone, unless it has two children; its
parent, if it is only there to join two branches, goes with it.

`radixTable_correct` says that in every run the tree keeps its shape, that the count is right, and
that the three searches find what they should. The only faults are the assertions on `info`, when a
node that still has one is taken out (`radixStep_spec`).

Nodes are cells at addresses, and a fault is also an access to a cell that is gone. Loops are given a
number of passes; needing more is a fault too, which does not occur.
-/

set_option autoImplicit false

namespace Quagga.Bgpd

open Function Library

/-! ## Nodes and tables -/

/-- How an operation on a table can fail: an assertion, a node that is gone, or a loop that needs
more passes than it is given. -/
inductive TableFault where
  | assertion
  | dangling (address : Nat)
  | endless
  deriving DecidableEq

/-- `struct bgp_node`. -/
structure BgpNode (ι : Type) where
  p : Prefix
  parent : Option Nat
  left : Option Nat
  right : Option Nat
  info : Option ι
  lock : Nat

namespace BgpNode

variable {ι : Type}

/-- `node->link`. -/
def link (node : BgpNode ι) (bit : Bool) : Option Nat := if bit then node.right else node.left

/-- Assign to `node->link`. -/
def withLink (node : BgpNode ι) (bit : Bool) (child : Option Nat) : BgpNode ι :=
  if bit then { node with right := child } else { node with left := child }

/-- `bgp_node_create` and `bgp_node_set`: a node with a prefix and nothing else. -/
def new (p : Prefix) : BgpNode ι :=
  { p := p, parent := none, left := none, right := none, info := none, lock := 0 }

end BgpNode

/-- `struct bgp_table`, with the cells of its nodes. -/
structure BgpTable (ι : Type) where
  nodes : Finmap fun _ : Nat => BgpNode ι
  top : Option Nat
  count : Nat

/-- How the walk of `bgp_node_get` ends: at the node of the prefix, or below a node, at another one
that is not on the way or at none. -/
inductive Descent where
  | found (node : Nat)
  | missing (above node : Option Nat)

namespace BgpTable

variable {ι : Type}

/-- `bgp_table_init`. -/
def empty : BgpTable ι := { nodes := ∅, top := none, count := 0 }

variable (table : BgpTable ι)

/-- Follow a pointer to a node. -/
def read (address : Nat) : Except TableFault (BgpNode ι) :=
  match table.nodes.lookup address with
  | some node => .ok node
  | none => .error (.dangling address)

/-- Replace a node. -/
def write (address : Nat) (node : BgpNode ι) : BgpTable ι :=
  { table with nodes := table.nodes.insert address node }

/-- An address for a new node. -/
def fresh : Nat := table.nodes.keys.sup id + 1

/-- `set_link`. -/
def setLink (node new : Nat) : Except TableFault (BgpTable ι) := do
  let n ← table.read node
  let m ← table.read new
  let table := table.write node (n.withLink (prefixBit m.p n.p.length) (some new))
  let m ← table.read new
  return table.write new { m with parent := some node }

/-- Hang a node on the one above it, or make it the top. -/
def attach (above : Option Nat) (new : Nat) : Except TableFault (BgpTable ι) :=
  match above with
  | some node => table.setLink node new
  | none => .ok { table with top := some new }

/-- `bgp_lock_node`. -/
def bgpLockNode (node : Nat) : Except TableFault (BgpTable ι) := do
  let n ← table.read node
  return table.write node { n with lock := n.lock + 1 }

/-- The walk of `bgp_node_get`. -/
def descend (table : BgpTable ι) (p : Prefix) :
    Nat → Option Nat → Option Nat → Except TableFault Descent
  | 0, _, _ => .error .endless
  | _ + 1, above, none => .ok (.missing above none)
  | passes + 1, above, some node => do
      let n ← table.read node
      if n.p.length ≤ p.length && prefixMatch n.p p then
        if n.p.length = p.length then return .found node
        descend table p passes (some node) (n.link (prefixBit p n.p.length))
      else return .missing above (some node)

/-- The passes that a walk is given: prefix lengths are below 256 and grow. -/
def passes : Nat := 257

/-- `bgp_node_get`. -/
def bgpNodeGet (p : Prefix) : Except TableFault (BgpTable ι × Nat) := do
  match ← table.descend p passes none table.top with
  | .found node =>
    let table ← table.bgpLockNode node
    return (table, node)
  | .missing above none =>
    let new := table.fresh
    let table ← (table.write new (.new p)).attach above new
    let table ← { table with count := table.count + 1 }.bgpLockNode new
    return (table, new)
  | .missing above (some node) =>
    let n ← table.read node
    let common := routeCommon n.p p
    let new := table.fresh
    let table ← (table.write new (.new common)).setLink new node
    let table ← table.attach above new
    if common.length ≠ p.length then
      let leaf := table.fresh
      let table ← (table.write leaf (.new p)).setLink new leaf
      let table ← { table with count := table.count + 2 }.bgpLockNode leaf
      return (table, leaf)
    else
      let table ← { table with count := table.count + 1 }.bgpLockNode new
      return (table, new)

/-- The loop of `bgp_node_lookup`. -/
def lookupLoop (table : BgpTable ι) (p : Prefix) :
    Nat → Option Nat → Except TableFault (Option Nat)
  | 0, _ => .error .endless
  | _ + 1, none => .ok none
  | passes + 1, some node => do
      let n ← table.read node
      if n.p.length ≤ p.length && prefixMatch n.p p then
        if n.p.length = p.length && n.info.isSome then return some node
        lookupLoop table p passes (n.link (prefixBit p n.p.length))
      else return none

/-- The loop of `bgp_node_match`. -/
def matchLoop (table : BgpTable ι) (p : Prefix) :
    Nat → Option Nat → Option Nat → Except TableFault (Option Nat)
  | 0, _, _ => .error .endless
  | _ + 1, none, matched => .ok matched
  | passes + 1, some node, matched => do
      let n ← table.read node
      if n.p.length ≤ p.length && prefixMatch n.p p then
        matchLoop table p passes (n.link (prefixBit p n.p.length))
          (if n.info.isSome then some node else matched)
      else return matched

/-- Lock the node that a search has found. -/
def lockFound (found : Option Nat) : Except TableFault (BgpTable ι × Option Nat) :=
  match found with
  | none => .ok (table, none)
  | some node => do
      let table ← table.bgpLockNode node
      return (table, some node)

/-- `bgp_node_lookup`. -/
def bgpNodeLookup (p : Prefix) : Except TableFault (BgpTable ι × Option Nat) := do
  table.lockFound (← table.lookupLoop p passes table.top)

/-- `bgp_node_match`. -/
def bgpNodeMatch (p : Prefix) : Except TableFault (BgpTable ι × Option Nat) := do
  table.lockFound (← table.matchLoop p passes table.top none)

/-- Let the child of a node that goes point to the parent of the node. -/
def adopt (child parent : Option Nat) : Except TableFault (BgpTable ι) :=
  match child with
  | none => .ok table
  | some address => do
      let m ← table.read address
      return table.write address { m with parent := parent }

/-- Put a child in the place of a node that goes. -/
def replaceChild (parent : Option Nat) (node : Nat) (child : Option Nat) :
    Except TableFault (BgpTable ι) :=
  match parent with
  | none => .ok { table with top := child }
  | some address => do
      let m ← table.read address
      return table.write address (m.withLink (m.left ≠ some node) child)

/-- `bgp_node_delete`. -/
def bgpNodeDelete : Nat → BgpTable ι → Nat → Except TableFault (BgpTable ι)
  | 0, _, _ => .error .endless
  | passes + 1, table, node => do
      let n ← table.read node
      if n.lock ≠ 0 then throw .assertion
      if n.info.isSome then throw .assertion
      if n.left.isSome && n.right.isSome then return table
      let child := if n.left.isSome then n.left else n.right
      let table ← table.adopt child n.parent
      let table ← table.replaceChild n.parent node child
      let table := { table with nodes := table.nodes.erase node, count := table.count - 1 }
      match n.parent with
      | none => return table
      | some parent =>
        let m ← table.read parent
        if m.lock = 0 then bgpNodeDelete passes table parent else return table

/-- `bgp_unlock_node`. -/
def bgpUnlockNode (node : Nat) : Except TableFault (BgpTable ι) := do
  let n ← table.read node
  if n.lock = 0 then throw .assertion
  let table := table.write node { n with lock := n.lock - 1 }
  if n.lock - 1 = 0 then bgpNodeDelete passes table node else return table

end BgpTable

/-! ## Runs -/

/-- What is done with a table. -/
inductive RadixEvent (ι : Type) where
  | nodeGet (p : Prefix)
  | setInfo (node : Nat) (info : Option ι)
  | lockNode (node : Nat)
  | unlockNode (node : Nat)

section Runs

variable {ι : Type}

/-- One operation. There are no actions to record. -/
def radixStep (table : BgpTable ι) : RadixEvent ι → Except TableFault (BgpTable ι × List Unit)
  | .nodeGet p => do
      let (table, _) ← table.bgpNodeGet p
      return (table, [])
  | .setInfo node info => do
      let n ← table.read node
      return (table.write node { n with info := info }, [])
  | .lockNode node => do
      let table ← table.bgpLockNode node
      return (table, [])
  | .unlockNode node => do
      let table ← table.bgpUnlockNode node
      return (table, [])

/-- Nodes that are used are in the table, and none is unlocked more often than it was locked. -/
def RadixEvent.Allowed (table : BgpTable ι) : RadixEvent ι → Prop
  | .nodeGet _ => True
  | .setInfo node _ => node ∈ table.nodes
  | .lockNode node => node ∈ table.nodes
  | .unlockNode node => ∃ n, table.nodes.lookup node = some n ∧ 0 < n.lock

/-- The tables that a run can lead to. -/
def BgpTable.Reachable (table : BgpTable ι) : Prop :=
  ∃ trace, Run radixStep RadixEvent.Allowed BgpTable.empty trace table

end Runs

/-! ## The links of a table -/

namespace BgpTable

variable {ι : Type}

/-- The links of a table, with the bits of the prefixes as keys. -/
def links (table : BgpTable ι) : Links Nat where
  key := fun a => (table.nodes.lookup a).map fun n => n.p.bits
  parent := fun a => (table.nodes.lookup a).bind BgpNode.parent
  child := fun above bit =>
    match above with
    | none => table.top
    | some a => (table.nodes.lookup a).bind fun n => n.link bit

/-- A node without its links. -/
def unlinked (n : BgpNode ι) : BgpNode ι := { n with parent := none, left := none, right := none }

/-- The nodes of a table without their links. -/
def bare (table : BgpTable ι) (a : Nat) : Option (BgpNode ι) := (table.nodes.lookup a).map unlinked

/-- An unlocked node has two children. -/
def StubAt (table : BgpTable ι) (a : Nat) : Prop :=
  ∀ n, table.bare a = some n → n.lock = 0 → ∀ bit, (table.links.child (some a) bit).isSome = true

/-- What holds of a table between two operations. -/
structure Valid (table : BgpTable ι) : Prop where
  shape : table.links.Shape
  stub : ∀ a, table.StubAt a
  count_eq : table.count = table.nodes.keys.card

variable {table : BgpTable ι} {a : Nat} {n : BgpNode ι}

theorem links_parent (table : BgpTable ι) (a : Nat) :
    table.links.parent a = (table.nodes.lookup a).bind BgpNode.parent := rfl

theorem links_child_none (table : BgpTable ι) (bit : Bool) :
    table.links.child none bit = table.top := rfl

theorem links_child_some (table : BgpTable ι) (a : Nat) (bit : Bool) :
    table.links.child (some a) bit = (table.nodes.lookup a).bind fun n => n.link bit := rfl

theorem read_eq (live : table.nodes.lookup a = some n) : table.read a = .ok n := by
  rw [read, live]

theorem fresh_notMem (table : BgpTable ι) : table.nodes.lookup table.fresh = none := by
  rw [Finmap.lookup_eq_none]
  intro live
  have le : table.nodes.keys.sup id + 1 ≤ table.nodes.keys.sup id :=
    Finset.le_sup (f := id) (Finmap.mem_keys.mpr live)
  omega

theorem lookup_write (b : Nat) :
    (table.write a n).nodes.lookup b = if b = a then some n else table.nodes.lookup b := by
  unfold write
  split_ifs with same
  · rw [same, Finmap.lookup_insert]
  · rw [Finmap.lookup_insert_of_ne _ same]

theorem lookup_write_self : (table.write a n).nodes.lookup a = some n := by
  rw [lookup_write, if_pos rfl]

theorem ne_fresh (live : table.nodes.lookup a = some n) : a ≠ table.fresh := by
  rintro rfl
  rw [fresh_notMem] at live
  cases live

theorem mem_keys_iff : a ∈ table.nodes.keys ↔ (table.bare a).isSome = true := by
  rw [Finmap.mem_keys, ← Finmap.lookup_isSome, bare, Option.isSome_map]

theorem bare_eq (live : table.nodes.lookup a = some n) : table.bare a = some (unlinked n) := by
  rw [bare, live, Option.map_some]

theorem lookup_of_bare (own : table.bare a = some n) :
    ∃ m, table.nodes.lookup a = some m ∧ unlinked m = n :=
  Option.map_eq_some_iff.mp own

theorem bare_write : (table.write a n).bare = update table.bare a (some (unlinked n)) := by
  funext b
  rw [bare, lookup_write, update_apply, bare]
  split_ifs <;> rfl

theorem bare_write_same (n' : BgpNode ι) (live : table.nodes.lookup a = some n)
    (same : unlinked n' = unlinked n) : (table.write a n').bare = table.bare := by
  rw [bare_write, same, ← bare_eq live, update_eq_self]

theorem card_write_live {n' : BgpNode ι} (live : table.nodes.lookup a = some n) :
    (table.write a n').nodes.keys.card = table.nodes.keys.card := by
  congr 1
  ext b
  rw [mem_keys_iff, mem_keys_iff, bare_write, update_apply]
  split_ifs with here
  · simp [here, bare_eq live]
  · rfl

/-- One table has a node more than the other. -/
theorem card_add_one {less more : BgpTable ι} (free : less.bare a = none)
    (own : more.bare a = some n) (others : ∀ b, b ≠ a → more.bare b = less.bare b) :
    more.nodes.keys.card = less.nodes.keys.card + 1 := by
  have keys : more.nodes.keys = insert a less.nodes.keys := by
    ext b
    rw [Finset.mem_insert, mem_keys_iff, mem_keys_iff]
    by_cases here : b = a
    · simp [here, own]
    · simp [here, others b here]
  rw [keys, Finset.card_insert_of_notMem]
  simp [mem_keys_iff, free]

/-! ## Walks -/

variable {p : Prefix}

theorem key_eq (live : table.nodes.lookup a = some n) : table.links.key a = some n.p.bits := by
  simp [links, live]

theorem lookup_of_key {k : List Bool} (key : table.links.key a = some k) :
    ∃ n, table.nodes.lookup a = some n ∧ n.p.bits = k := by
  simpa [links] using key

theorem child_eq (live : table.nodes.lookup a = some n) (bit : Bool) :
    table.links.child (some a) bit = n.link bit := by
  simp [links, live]

theorem live_child (shape : table.links.Shape) {above : Option Nat} {bit : Bool}
    (hangs : table.links.child above bit = some a) : ∃ n, table.nodes.lookup a = some n := by
  obtain ⟨k, key, -⟩ := shape.down hangs
  obtain ⟨n, live, -⟩ := lookup_of_key key
  exact ⟨n, live⟩

variable {bit : Bool} {b : Nat} {m : BgpNode ι}

theorem length_lt_child (shape : table.links.Shape) (live : table.nodes.lookup a = some n)
    (hangs : n.link bit = some b) (liveb : table.nodes.lookup b = some m) :
    n.p.length < m.p.length := by
  rw [← child_eq live] at hangs
  obtain ⟨k, key, grown⟩ := shape.key_child hangs (key_eq live)
  obtain rfl := Option.mem_unique (key_eq liveb) key
  have grows := grown.length_le
  rwa [List.length_append, Prefix.length_bits, Prefix.length_bits] at grows

theorem test_iff : (n.p.length ≤ p.length && prefixMatch n.p p) = true ↔ n.p.bits <+: p.bits := by
  rw [Bool.and_eq_true, prefixMatch_iff, decide_eq_true_eq, and_iff_right_iff_imp]
  exact fun covers => (bits_prefix_iff.mp covers).1

/-- The node of a prefix, or one on the way to it, and the branch on which the way goes on. -/
def OnWay (table : BgpTable ι) (p : Prefix) (above : Option Nat) (bit : Bool) : Prop :=
  ∀ a, above = some a → ∃ k, table.links.key a = some k ∧ k ++ [bit] <+: p.bits

/-- The next bit of the prefix is the branch on which the way goes on. -/
theorem next_bit (longer : n.p.bits ++ [bit] <+: p.bits) : bit = prefixBit p n.p.length :=
  (bits_concat_prefix_iff.mp longer).2.2.symm

/-- What the walk of `bgp_node_get` finds. -/
inductive Descended (table : BgpTable ι) (p : Prefix) : Descent → Prop where
  | found {node : Nat} {n : BgpNode ι} (live : table.nodes.lookup node = some n)
      (same : n.p.bits = p.bits) : Descended table p (.found node)
  | missing {above node : Option Nat} (bit : Bool) (way : table.OnWay p above bit)
      (hangs : table.links.child above bit = node)
      (off : ∀ a n, node = some a → table.nodes.lookup a = some n → ¬ n.p.bits <+: p.bits) :
      Descended table p (.missing above node)

/-- The nodes that a walk down from a link passes, in at most so many steps: those that cover the
prefix, up to one that does not. -/
inductive Walk (table : BgpTable ι) (p : Prefix) :
    Nat → Option Nat → List (Nat × BgpNode ι) → Prop where
  | ended {passes : Nat} : Walk table p (passes + 1) none []
  | off {passes a : Nat} {n : BgpNode ι} (live : table.nodes.lookup a = some n)
      (differs : ¬ n.p.bits <+: p.bits) : Walk table p (passes + 1) (some a) []
  | next {passes a : Nat} {n : BgpNode ι} {rest : List (Nat × BgpNode ι)}
      (live : table.nodes.lookup a = some n) (covers : n.p.bits <+: p.bits)
      (behind : Walk table p passes (n.link (prefixBit p n.p.length)) rest) :
      Walk table p (passes + 1) (some a) ((a, n) :: rest)

theorem exists_walk (shape : table.links.Shape) (p : Prefix) (passes : Nat) :
    ∀ {above : Option Nat} {bit : Bool}, 0 < passes → (∀ a n, table.links.child above bit = some a →
        table.nodes.lookup a = some n → p.length + 1 < n.p.length + passes) →
      ∃ path, table.Walk p passes (table.links.child above bit) path := by
  induction passes with
  | zero => exact fun none => absurd none (Nat.lt_irrefl 0)
  | succ passes ih =>
    intro above bit _ enough
    cases hangs : table.links.child above bit with
    | none => exact ⟨[], .ended⟩
    | some a =>
      obtain ⟨n, live⟩ := live_child shape hangs
      by_cases covers : n.p.bits <+: p.bits
      · have here := enough a n hangs live
        have le := (bits_prefix_iff.mp covers).1
        obtain ⟨path, walk⟩ := @ih (some a) (prefixBit p n.p.length) (by omega)
          fun b m behind liveb => by
            have grows := length_lt_child shape live ((child_eq live _).symm.trans behind) liveb
            omega
        exact ⟨(a, n) :: path, .next live covers (child_eq live _ ▸ walk)⟩
      · exact ⟨[], .off live covers⟩

theorem exists_walk_top (shape : table.links.Shape) (p : Prefix) :
    ∃ path, table.Walk p passes table.top path := by
  have short := p.length_le
  exact @exists_walk ι table shape p passes none false (by decide) fun a n _ _ => by
    unfold passes
    omega

namespace Walk

variable {passes : Nat} {link : Option Nat} {path : List (Nat × BgpNode ι)}
  (walk : table.Walk p passes link path)
include walk

theorem descend_spec : ∀ {above : Option Nat} {bit : Bool}, table.OnWay p above bit →
    table.links.child above bit = link →
      ∃ result, table.descend p passes above link = .ok result ∧ table.Descended p result := by
  induction walk with
  | ended => exact fun way hangs => ⟨_, rfl, .missing _ way hangs (by rintro a n ⟨⟩)⟩
  | @off passes a n live differs =>
    intro above bit way hangs
    refine ⟨.missing above (some a), ?_, .missing bit way hangs ?_⟩
    · rw [descend, read_eq live, ok_bind, if_neg fun test => differs (test_iff.mp test)]
      rfl
    · rintro _ n' ⟨⟩ live'
      obtain rfl := Option.mem_unique live live'
      exact differs
  | @next passes a n rest live covers behind ih =>
    intro above bit way hangs
    rw [descend, read_eq live, ok_bind, if_pos (test_iff.mpr covers)]
    split_ifs with full
    · exact ⟨_, rfl, .found live (covers.eq_of_length (by simpa using full))⟩
    · have le := (bits_prefix_iff.mp covers).1
      have longer : n.p.bits ++ [prefixBit p n.p.length] <+: p.bits :=
        bits_concat_prefix_iff.mpr ⟨covers, by omega, rfl⟩
      refine ih ?_ (child_eq live _)
      rintro _ ⟨⟩
      exact ⟨_, key_eq live, longer⟩

theorem lookupLoop_eq : table.lookupLoop p passes link =
    .ok ((path.find? fun x => x.2.p.length = p.length && x.2.info.isSome).map Prod.fst) := by
  induction walk with
  | ended => rfl
  | off live differs =>
    rw [lookupLoop, read_eq live, ok_bind, if_neg fun test => differs (test_iff.mp test)]
    rfl
  | @next _ a n rest live covers behind ih =>
    rw [lookupLoop, read_eq live, ok_bind, if_pos (test_iff.mpr covers), List.find?_cons, ih]
    cases (n.p.length = p.length && n.info.isSome : Bool) <;> rfl

theorem matchLoop_eq : ∀ matched : Option Nat, table.matchLoop p passes link matched =
    .ok (((path.filter fun x => x.2.info.isSome).getLast?.map Prod.fst).or matched) := by
  induction walk with
  | ended => exact fun _ => rfl
  | off live differs =>
    intro matched
    rw [matchLoop, read_eq live, ok_bind, if_neg fun test => differs (test_iff.mp test)]
    rfl
  | @next _ a n rest live covers behind ih =>
    intro matched
    rw [matchLoop, read_eq live, ok_bind, if_pos (test_iff.mpr covers), List.filter_cons, ih]
    split_ifs
    · rw [List.getLast?_cons]
      cases (rest.filter fun x => x.2.info.isSome).getLast? <;> rfl
    · rfl

variable (shape : table.links.Shape)
include shape

/-- **A walk passes the nodes below the link that cover the prefix.** -/
theorem mem_iff : (b, m) ∈ path ↔
    table.links.Within link b ∧ table.nodes.lookup b = some m ∧ m.p.bits <+: p.bits := by
  induction walk with
  | ended => exact iff_of_false List.not_mem_nil fun both => Links.not_within_none both.1
  | off live differs =>
    exact iff_of_false List.not_mem_nil fun ⟨within, liveb, covers⟩ =>
      shape.not_begins_of_not_begins within (key_eq live) (key_eq liveb) differs covers
  | @next _ a n rest live covers behind ih =>
    rw [List.mem_cons, ih, ← child_eq live]
    constructor
    · rintro (same | ⟨deeper, both⟩)
      · cases same
        exact ⟨.here _, live, covers⟩
      · exact ⟨.under _ deeper, both⟩
    · rintro ⟨within, liveb, coversb⟩
      rcases shape.within_next within (key_eq live) (key_eq liveb) coversb
        fun bit' longer => next_bit longer with rfl | deeper
      · exact .inl (by rw [Option.mem_unique liveb live])
      · exact .inr ⟨deeper, liveb, coversb⟩

theorem lengths : path.Pairwise fun x y => x.2.p.length < y.2.p.length := by
  induction walk with
  | ended => exact .nil
  | off => exact .nil
  | @next _ a n rest live covers behind ih =>
    refine List.pairwise_cons.mpr ⟨fun ⟨b, m⟩ inside => ?_, ih⟩
    obtain ⟨deeper, liveb, -⟩ := (behind.mem_iff shape).mp inside
    cases hangs : n.link (prefixBit p n.p.length) with
    | none => exact absurd (hangs ▸ deeper) Links.not_within_none
    | some c =>
      have grown := shape.key_below ((child_eq live _).trans hangs) (hangs ▸ deeper) (key_eq live)
        (key_eq liveb)
      exact (bits_concat_prefix_iff.mp grown).2.1

end Walk

/-- The node of the prefix, if it has information. -/
def Holds (table : BgpTable ι) (p : Prefix) (a : Nat) : Prop :=
  ∃ n, table.nodes.lookup a = some n ∧ n.p.bits = p.bits ∧ n.info.isSome = true

/-- A node with information that covers the prefix. -/
def Covers (table : BgpTable ι) (p : Prefix) (a : Nat) (n : BgpNode ι) : Prop :=
  table.nodes.lookup a = some n ∧ n.p.bits <+: p.bits ∧ n.info.isSome = true

/-- The node with information that covers the prefix and has the longest prefix of these. -/
def Longest (table : BgpTable ι) (p : Prefix) (a : Nat) : Prop :=
  ∃ n, table.Covers p a n ∧ ∀ b m, table.Covers p b m → m.p.length ≤ n.p.length

theorem lookupLoop_spec (shape : table.links.Shape) (p : Prefix) :
    ∃ found, table.lookupLoop p passes table.top = .ok found ∧
      ∀ a, found = some a ↔ table.Holds p a := by
  obtain ⟨path, walk⟩ := exists_walk_top shape p
  refine ⟨_, walk.lookupLoop_eq, fun a => ?_⟩
  rw [Option.map_eq_some_iff]
  constructor
  · rintro ⟨⟨a, n⟩, found, rfl⟩
    obtain ⟨-, live, covers⟩ := (walk.mem_iff shape).mp (List.mem_of_find?_eq_some found)
    have test := List.find?_some found
    rw [Bool.and_eq_true, decide_eq_true_eq] at test
    exact ⟨n, live, covers.eq_of_length (by simpa using test.1), test.2⟩
  · rintro ⟨n, live, same, informed⟩
    have inside : (a, n) ∈ path := (walk.mem_iff shape).mpr
      ⟨shape.within_top (key_eq live) false, live, same ▸ List.prefix_rfl⟩
    have length : n.p.length = p.length := by rw [← Prefix.length_bits, same, Prefix.length_bits]
    cases found : path.find? fun x => x.2.p.length = p.length && x.2.info.isSome with
    | none => exact absurd (by simp [length, informed]) (List.find?_eq_none.mp found _ inside)
    | some x =>
      obtain ⟨-, live', covers⟩ := (walk.mem_iff shape).mp (List.mem_of_find?_eq_some found)
      have test := List.find?_some found
      rw [Bool.and_eq_true, decide_eq_true_eq] at test
      have same' : x.2.p.bits = n.p.bits :=
        (covers.eq_of_length (by simpa using test.1)).trans same.symm
      exact ⟨x, rfl, shape.key_unique (key_eq live') (same' ▸ key_eq live)⟩

theorem matchLoop_spec (shape : table.links.Shape) (p : Prefix) :
    ∃ found, table.matchLoop p passes table.top none = .ok found ∧
      ∀ a, found = some a ↔ table.Longest p a := by
  obtain ⟨path, walk⟩ := exists_walk_top shape p
  refine ⟨_, walk.matchLoop_eq none, fun a => ?_⟩
  have mem : ∀ b m, (b, m) ∈ path.filter (fun x => x.2.info.isSome) ↔ table.Covers p b m := by
    intro b m
    rw [List.mem_filter, walk.mem_iff shape, Covers, and_assoc, and_assoc, and_iff_right_iff_imp]
    exact fun both => shape.within_top (key_eq both.1) false
  have sorted := (walk.lengths shape).filter fun x => x.2.info.isSome
  unfold Longest
  simp only [← mem, Option.or_none]
  rcases List.eq_nil_or_concat (path.filter fun x => x.2.info.isSome) with none | ⟨init, last, some⟩
  · simp [none]
  · rw [some, List.concat_eq_append, List.pairwise_append] at sorted
    rw [some, List.concat_eq_append, List.getLast?_concat, Option.map_some, Option.some.injEq]
    constructor
    · rintro rfl
      refine ⟨last.2, by simp, fun b m inside => ?_⟩
      rcases List.mem_append.mp inside with before | here
      · exact (sorted.2.2 _ before _ (List.mem_singleton_self _)).le
      · rw [← List.mem_singleton.mp here]
    · rintro ⟨n, inside, longest⟩
      rcases List.mem_append.mp inside with before | here
      · have less := sorted.2.2 _ before last (List.mem_singleton_self _)
        exact absurd (longest last.1 last.2 (by simp)) (Nat.not_le.mpr less)
      · rw [← List.mem_singleton.mp here]

/-! ## Adding nodes -/

variable {node : Nat} {after : BgpTable ι} {above : Option Nat}

theorem links_write (n' : BgpNode ι) (live : table.nodes.lookup a = some n) (same : n'.p = n.p) :
    (table.write a n').links =
      ⟨table.links.key, update table.links.parent a n'.parent,
        fun q d => if q = some a then n'.link d else table.links.child q d⟩ := by
  refine Links.ext (funext fun b => ?_) (funext fun b => ?_) (funext₂ fun q d => ?_)
  · simp only [links, lookup_write]
    split_ifs with here
    · rw [here, live, Option.map_some, Option.map_some, same]
    · rfl
  · simp only [links, lookup_write, update_apply]
    split_ifs <;> rfl
  · cases q with
    | none => rfl
    | some b =>
      simp only [links, lookup_write, Option.some.injEq]
      split_ifs <;> rfl

theorem links_write_same {n' : BgpNode ι} (live : table.nodes.lookup a = some n) (p : n'.p = n.p)
    (parent : n'.parent = n.parent) (link : n'.link = n.link) :
    (table.write a n').links = table.links := by
  rw [links_write n' live p, parent, link]
  refine Links.ext rfl ?_ (funext₂ fun q d => ?_)
  · exact update_eq_self_iff.mpr (by simp [links, live])
  · dsimp only
    split_ifs with here
    · rw [here, child_eq live]
    · rfl

section WithLink

variable (n : BgpNode ι) (bit : Bool) (child : Option Nat)

theorem link_withLink (d : Bool) :
    (n.withLink bit child).link d = if d = bit then child else n.link d := by
  cases bit <;> cases d <;> rfl

@[simp] theorem p_withLink :
    (n.withLink bit child).p = n.p := by
  cases bit <;> rfl

@[simp] theorem parent_withLink :
    (n.withLink bit child).parent = n.parent := by
  cases bit <;> rfl

@[simp] theorem unlinked_withLink : unlinked (n.withLink bit child) = unlinked n := by
  cases bit <;> rfl

end WithLink

/-- **Hanging a node in a slot** in terms of the links. -/
theorem attach_spec {new : Nat} (own : table.bare new = some m)
    (orphan : above = none → table.links.parent new = none) (way : table.OnWay m.p above bit) :
    ∃ after, table.attach above new = .ok after ∧ after.links = table.links.hang above bit new ∧
      after.bare = table.bare ∧ after.count = table.count := by
  obtain ⟨m, liveNew, rfl⟩ := lookup_of_bare own
  cases above with
  | none =>
    refine ⟨_, rfl, Links.ext rfl ?_ (funext₂ fun q d => ?_), rfl, rfl⟩
    · exact (update_eq_self_iff.mpr (orphan rfl).symm).symm
    · cases q <;> simp [Links.hang, Links.IsSlot, links]
  | some a =>
    obtain ⟨k, key, longer⟩ := way a rfl
    obtain ⟨n, live, rfl⟩ := lookup_of_key key
    have apart : a ≠ new := by
      rintro rfl
      obtain rfl := Option.mem_unique live liveNew
      exact Links.not_longer longer rfl
    have still : (table.write a (n.withLink bit (some new))).nodes.lookup new = some m := by
      rw [lookup_write, if_neg (Ne.symm apart), liveNew]
    refine ⟨(table.write a (n.withLink bit (some new))).write new { m with parent := some a }, ?_,
      ?_, ?_, rfl⟩
    · rw [attach, setLink, read_eq live, ok_bind, read_eq liveNew, ok_bind]
      have turns : prefixBit m.p n.p.length = bit := (next_bit longer).symm
      dsimp only
      rw [turns, read_eq still]
      rfl
    · rw [links_write { m with parent := some a } still rfl, links_write _ live (p_withLink ..)]
      have kept : update table.links.parent a (n.withLink bit (some new)).parent =
          table.links.parent := update_eq_self_iff.mpr (by simp [links, live])
      refine Links.ext rfl (by rw [kept]; rfl) (funext₂ fun q d => ?_)
      · by_cases isNew : q = some new
        · simp [isNew, Links.hang, Links.IsSlot, Ne.symm apart, child_eq liveNew, BgpNode.link]
        · by_cases isAbove : q = some a
          · simp [isAbove, apart, Links.hang, Links.IsSlot, child_eq live, link_withLink]
          · simp [isNew, isAbove, Links.hang, Links.IsSlot]
    · rw [bare_write_same { m with parent := some a } still rfl,
        bare_write_same _ live (unlinked_withLink ..)]

/-! ## `bgp_node_get` -/

/-- What adding a node in a slot does. -/
structure Added (table after : BgpTable ι) (above : Option Nat) (bit : Bool) (p : Prefix)
    (only : Option Nat) (branch : Bool) : Prop where
  own : after.bare table.fresh = some (.new p)
  others : ∀ b, b ≠ table.fresh → after.bare b = table.bare b
  links_eq : after.links = table.links.addNode above bit table.fresh p.bits only branch
  count_eq : after.count = table.count

theorem bare_fresh (table : BgpTable ι) : table.bare table.fresh = none := by
  rw [bare, fresh_notMem, Option.map_none]

section Added

variable {only : Option Nat} {branch : Bool} (added : table.Added after above bit p only branch)
include added

theorem Added.shape (shape : table.links.Shape) (way : table.OnWay p above bit)
    (hung : table.links.child above bit = only) (longer : ∀ node kn, only = some node →
      table.links.key node = some kn → p.bits ++ [branch] <+: kn) : after.links.Shape := by
  rw [added.links_eq]
  exact shape.addNode (by simp [links, fresh_notMem]) hung way longer

theorem Added.card_eq : after.nodes.keys.card = table.nodes.keys.card + 1 :=
  card_add_one table.bare_fresh added.own added.others

theorem Added.kept (b : Nat) (m : BgpNode ι) (own : table.bare b = some m) :
    after.bare b = some m := by
  rw [added.others, own]
  rintro rfl
  rw [bare_fresh] at own
  cases own

theorem Added.stubAt (other : b ≠ table.fresh) (stub : table.StubAt b) : after.StubAt b := by
  intro n own unlocked d
  rw [added.others b other] at own
  rw [added.links_eq]
  dsimp only [Links.addNode]
  split_ifs with slot here
  · rfl
  · exact absurd (Option.some.inj here.1) other
  · exact stub n own unlocked d

end Added

theorem links_write_new (p : Prefix) : (table.write table.fresh (.new p)).links =
    { table.links with key := update table.links.key table.fresh (some p.bits) } := by
  have free := table.fresh_notMem
  refine Links.ext (funext fun b => ?_) (funext fun b => ?_) (funext₂ fun q d => ?_)
  · simp only [links, lookup_write, update_apply]
    split_ifs <;> rfl
  · simp only [links, lookup_write]
    split_ifs with here
    · rw [here, free]
      rfl
    · rfl
  · cases q with
    | none => rfl
    | some b =>
      simp only [links, lookup_write]
      split_ifs with here
      · rw [here, free]
        cases d <;> rfl
      · rfl

/-- The way to a prefix is still there when a node has been added. -/
theorem OnWay.later {k : List Bool} (way : table.OnWay p above bit)
    (key : after.links.key = update table.links.key table.fresh (some k)) :
    after.OnWay p above bit := by
  intro a isAbove
  obtain ⟨k₀, key₀, longer⟩ := way a isAbove
  obtain ⟨n, live, -⟩ := lookup_of_key key₀
  exact ⟨k₀, by rw [key, update_of_ne (ne_fresh live), key₀], longer⟩

theorem attach_leaf (way : table.OnWay p above bit) :
    ∃ after, (table.write table.fresh (.new p)).attach above table.fresh = .ok after ∧
      table.Added after above bit p none false := by
  have own : (table.write table.fresh (.new p)).bare table.fresh = some (.new p) := by
    rw [bare_write, update_self]
    rfl
  have key : (table.write table.fresh (.new p)).links.key =
      update table.links.key table.fresh (some p.bits) := by rw [links_write_new]
  obtain ⟨after, attaches, links, bare, count⟩ := attach_spec own
    (fun _ => by simp [BgpTable.links, lookup_write_self, BgpNode.new]) (way.later key)
  refine ⟨after, attaches, by rw [bare, own], fun b other => ?_, ?_, count⟩
  · rw [bare, bare_write, update_of_ne other]
  · rw [links, links_write_new]
    refine Links.ext rfl (by simp [Links.hang, Links.addNode]) (funext₂ fun q d => ?_)
    dsimp only [Links.hang, Links.addNode]
    split_ifs with slot here
    · rfl
    · rw [here.1, links_child_some, fresh_notMem]
      rfl
    · rfl

theorem attach_joint {c : Prefix} {branch : Bool} (way : table.OnWay c above bit)
    (live : table.nodes.lookup node = some n) (longer : c.bits ++ [branch] <+: n.p.bits) :
    ∃ joined after, (table.write table.fresh (.new c)).setLink table.fresh node = .ok joined ∧
      joined.attach above table.fresh = .ok after ∧
      table.Added after above bit c (some node) branch := by
  have apart : node ≠ table.fresh := ne_fresh live
  have own : (table.write table.fresh (.new c)).bare table.fresh = some (.new c) := by
    rw [bare_write, update_self]
    rfl
  have key : (table.write table.fresh (.new c)).links.key =
      update table.links.key table.fresh (some c.bits) := by rw [links_write_new]
  obtain ⟨joined, joins, links, bare, count⟩ := @attach_spec ι (table.write table.fresh (.new c))
    branch (unlinked n) (some table.fresh) node
    (by rw [bare_write, update_of_ne apart, bare_eq live]) (fun isNone => by cases isNone) (by
      rintro _ ⟨⟩
      exact ⟨c.bits, by rw [key, update_self], longer⟩)
  rw [← bare] at own
  obtain ⟨after, attaches, links', bare', count'⟩ := attach_spec own
    (fun _ => by simp [links, Links.hang, apart.symm, links_write_new, links_parent, fresh_notMem])
    (way.later ((congrArg Links.key links).trans key))
  refine ⟨joined, after, joins, attaches, by rw [bare', own],
    fun b other => ?_, ?_, count'.trans count⟩
  · rw [bare', bare, bare_write, update_of_ne other]
  · rw [links', links, links_write_new]
    refine Links.ext rfl (congrArg (update · _ _) (funext fun b => ?_)) (funext₂ fun q d => ?_)
    · simp [Links.hang, update_apply, eq_comm]
    · dsimp only [Links.hang, Links.addNode]
      refine if_congr Iff.rfl rfl (if_congr ?_ rfl rfl)
      simp [Links.IsSlot]

section

variable (live : table.nodes.lookup a = some n)
include live

theorem bgpLockNode_eq :
    table.bgpLockNode a = .ok (table.write a { n with lock := n.lock + 1 }) := by
  rw [bgpLockNode, read_eq live]
  rfl

theorem valid_write {n' : BgpNode ι} (same : (table.write a n').links = table.links)
    (shape : table.links.Shape) (own : n'.lock = 0 → table.StubAt a ∧ n.lock = 0)
    (stubs : ∀ b, b ≠ a → table.StubAt b) (count : table.count = table.nodes.keys.card) :
    (table.write a n').Valid := by
  refine ⟨same ▸ shape, fun b m bareb unlocked => ?_, ?_⟩
  · rw [same]
    rw [bare_write, update_apply] at bareb
    split_ifs at bareb with here
    · cases bareb
      obtain ⟨stub, free⟩ := own unlocked
      exact here ▸ stub _ (bare_eq live) free
    · exact stubs b here m bareb unlocked
  · exact count.trans (card_write_live live).symm

theorem valid_of_lock (shape : table.links.Shape) (stubs : ∀ b, b ≠ a → table.StubAt b)
    (count : table.count = table.nodes.keys.card) :
    (table.write a { n with lock := n.lock + 1 }).Valid :=
  valid_write live (links_write_same live rfl rfl rfl) shape
    (fun unlocked => absurd unlocked (Nat.succ_ne_zero _)) stubs count

end

/-- The nodes of a table are kept, and one of them is locked once more. -/
def KeptLocking (table after : BgpTable ι) (a : Nat) : Prop :=
  ∀ b m, table.nodes.lookup b = some m → ∃ m', after.nodes.lookup b = some m' ∧ m'.p = m.p ∧
    m'.info = m.info ∧ m'.lock = if b = a then m.lock + 1 else m.lock

/-- The result of `bgp_node_get`: a valid table and the node of the prefix, locked. -/
structure Got (table after : BgpTable ι) (p : Prefix) (a : Nat) : Prop where
  valid : after.Valid
  node : ∃ n, after.nodes.lookup a = some n ∧ n.p.bits = p.bits ∧ 0 < n.lock
  kept : table.KeptLocking after a

theorem got_of_lock {before : BgpTable ι} (own : table.bare a = some n)
    (same : n.p.bits = p.bits) (shape : table.links.Shape) (stubs : ∀ b, b ≠ a → table.StubAt b)
    (count : table.count = table.nodes.keys.card)
    (kept : ∀ b m, before.bare b = some m → table.bare b = some m) :
    ∃ after, table.bgpLockNode a = .ok after ∧ before.Got after p a := by
  obtain ⟨n, live, rfl⟩ := lookup_of_bare own
  refine ⟨_, bgpLockNode_eq live, valid_of_lock live shape stubs count,
    ⟨_, lookup_write_self, same, Nat.succ_pos _⟩, fun b m liveb => ?_⟩
  obtain ⟨m', live', alike⟩ := lookup_of_bare (kept b _ (bare_eq liveb))
  obtain ⟨p', -, -, -, info', lock'⟩ := BgpNode.mk.inj alike
  rw [lookup_write]
  split_ifs with here
  · rw [here] at live'
    obtain rfl := Option.mem_unique live live'
    exact ⟨_, rfl, p', info', congrArg Nat.succ lock'⟩
  · exact ⟨m', live', p', info', lock'⟩

/-- **`bgp_node_get` returns the node of the prefix and leaves a valid table.** -/
theorem bgpNodeGet_spec (valid : table.Valid) (p : Prefix) :
    ∃ after a, table.bgpNodeGet p = .ok (after, a) ∧ table.Got after p a := by
  obtain ⟨path, walk⟩ := exists_walk_top valid.shape p
  obtain ⟨result, walked, descended⟩ := @Walk.descend_spec _ _ _ _ _ _ walk none false
    (by rintro a ⟨⟩) rfl
  rw [bgpNodeGet, walked, ok_bind]
  cases descended with
  | @found node n live same =>
    obtain ⟨after, locked, got⟩ := got_of_lock (bare_eq live) same valid.shape
      (fun b _ => valid.stub b) valid.count_eq fun b m own => own
    refine ⟨after, node, ?_, got⟩
    dsimp only
    rw [locked]
    rfl
  | @missing above link bit way hangs off =>
    cases link with
    | none =>
      obtain ⟨grown, attaches, added⟩ := attach_leaf way
      obtain ⟨after, locked, got⟩ := @got_of_lock ι { grown with count := grown.count + 1 } _ _ p
        table added.own rfl (added.shape valid.shape way hangs (by simp))
        (fun b other => added.stubAt other (valid.stub b))
        (by rw [added.count_eq, added.card_eq, valid.count_eq]) added.kept
      refine ⟨after, table.fresh, ?_, got⟩
      dsimp only
      rw [attaches, ok_bind, locked]
      rfl
    | some node =>
      obtain ⟨n, live⟩ := live_child valid.shape hangs
      have apart := off node n rfl live
      obtain ⟨begins, whole, partly⟩ := routeCommon_bits apart
      have between : table.OnWay (routeCommon n.p p) above bit := by
        rintro a rfl
        obtain ⟨k₀, key₀, onWay⟩ := way a rfl
        obtain ⟨k, key, grown⟩ := valid.shape.key_child hangs key₀
        obtain rfl := Option.mem_unique (key_eq live) key
        exact ⟨k₀, key₀, (routeCommon_spec n.p p).greatest grown onWay⟩
      obtain ⟨joined, grown, links, attaches, added⟩ := attach_joint between live begins
      have shape := added.shape valid.shape between hangs (by
        rintro _ kn ⟨⟩ key
        obtain rfl := Option.mem_unique (key_eq live) key
        exact begins)
      dsimp only
      rw [read_eq live, ok_bind, links, ok_bind, attaches, ok_bind]
      by_cases full : (routeCommon n.p p).length = p.length
      · obtain ⟨after, locked, got⟩ := @got_of_lock ι { grown with count := grown.count + 1 }
          _ _ p table added.own (whole full) shape (fun b other => added.stubAt other (valid.stub b))
          (by rw [added.count_eq, added.card_eq, valid.count_eq]) added.kept
        refine ⟨after, table.fresh, ?_, got⟩
        rw [if_neg (not_not_intro full), locked]
        rfl
      · obtain ⟨longer, turns⟩ := partly full
        -- The prefix goes on behind the joint, on the branch that the joint has free.
        have branches : grown.OnWay p (some table.fresh)
            (!prefixBit n.p (routeCommon n.p p).length) := by
          rintro _ ⟨⟩
          obtain ⟨m, liveNew, alike⟩ := lookup_of_bare added.own
          exact ⟨_, key_eq liveNew, congrArg BgpNode.p alike ▸ longer⟩
        obtain ⟨forked, hung, added'⟩ := attach_leaf branches
        have notSlot : ¬ Links.IsSlot above bit (some table.fresh)
            (!prefixBit n.p (routeCommon n.p p).length) := by
          rintro ⟨isAbove, -⟩
          obtain ⟨k, key, -⟩ := way _ isAbove.symm
          obtain ⟨m, liveNew, -⟩ := lookup_of_key key
          exact ne_fresh liveNew rfl
        have room : grown.links.child (some table.fresh)
            (!prefixBit n.p (routeCommon n.p p).length) = none := by
          rw [added.links_eq]
          dsimp only [Links.addNode]
          rw [if_neg notSlot, if_neg (by simp), links_child_some, fresh_notMem, Option.bind_none]
        have stubs : ∀ b, b ≠ grown.fresh → forked.StubAt b := by
          intro b other
          by_cases isJoint : b = table.fresh
          · intro m _ _ d
            rw [added'.links_eq, added.links_eq, isJoint]
            dsimp only [Links.addNode]
            split_ifs with slot own slot' side
            · rfl
            · exact absurd (isJoint.trans (Option.some.inj own.1)) other
            · rfl
            · rfl
            · simp [Links.IsSlot] at slot side
              exact absurd slot side
          · exact added'.stubAt other (added.stubAt isJoint (valid.stub b))
        obtain ⟨after, locked, got⟩ := @got_of_lock ι { forked with count := forked.count + 2 }
          _ _ p table added'.own rfl (added'.shape shape branches room (by simp)) stubs
          (by rw [added'.count_eq, added'.card_eq, added.count_eq, added.card_eq, valid.count_eq])
          fun b m own => added'.kept b m (added.kept b m own)
        refine ⟨after, grown.fresh, ?_, got⟩
        have hung' : (grown.write grown.fresh (.new p)).setLink table.fresh grown.fresh =
          .ok forked := hung
        rw [if_pos full, hung', ok_bind, locked]
        rfl

/-! ## Taking out nodes -/

/-- The child that takes the place of a node with at most one child. -/
def onlyChild (n : BgpNode ι) : Option Nat := if n.left.isSome then n.left else n.right

theorem isChild_onlyChild (isOnly : onlyChild n = some b) : ∃ bit, n.link bit = some b := by
  unfold onlyChild at isOnly
  split_ifs at isOnly
  · exact ⟨false, isOnly⟩
  · exact ⟨true, isOnly⟩

theorem onlyChild_eq (few : ¬ (n.left.isSome && n.right.isSome) = true)
    (hangs : n.link bit = some b) : onlyChild n = some b := by
  unfold onlyChild
  cases bit with
  | false =>
    change n.left = some b at hangs
    rw [hangs]
    rfl
  | true =>
    change n.right = some b at hangs
    rw [hangs, Option.isSome_some, Bool.and_true] at few
    rw [if_neg few, hangs]

/-- `bgp_node_delete` without the part about the parent. -/
def unhook (table : BgpTable ι) (node : Nat) (n : BgpNode ι) : Except TableFault (BgpTable ι) := do
  let table ← table.adopt (onlyChild n) n.parent
  let table ← table.replaceChild n.parent node (onlyChild n)
  return { table with nodes := table.nodes.erase node, count := table.count - 1 }

theorem bgpNodeDelete_succ (passes : Nat) (live : table.nodes.lookup a = some n) :
    bgpNodeDelete (passes + 1) table a =
      if n.lock ≠ 0 then .error .assertion
      else if n.info.isSome then .error .assertion
      else if n.left.isSome && n.right.isSome then .ok table
      else do
        let table ← table.unhook a n
        match n.parent with
        | none => return table
        | some parent =>
          let m ← table.read parent
          if m.lock = 0 then bgpNodeDelete passes table parent else return table := by
  rw [bgpNodeDelete, read_eq live, ok_bind]
  unfold unhook onlyChild
  all_goals
    dsimp only
    cases table.adopt _ n.parent with
    | error fault => rfl
    | ok adopted =>
      simp only [ok_bind]
      cases adopted.replaceChild n.parent a _ <;> rfl

theorem adopt_spec {child : Option Nat} (parent : Option Nat)
    (liveChild : ∀ b, child = some b → ∃ m, table.nodes.lookup b = some m) :
    ∃ adopted, table.adopt child parent = .ok adopted ∧
      adopted.links = { table.links with
        parent := fun b => if child = some b then parent else table.links.parent b } ∧
      adopted.bare = table.bare ∧ adopted.count = table.count := by
  cases child with
  | none => exact ⟨table, rfl, rfl, rfl, rfl⟩
  | some b =>
    obtain ⟨m, live⟩ := liveChild b rfl
    refine ⟨table.write b { m with parent := parent }, by rw [adopt, read_eq live]; rfl, ?_,
      bare_write_same { m with parent := parent } live rfl, rfl⟩
    rw [links_write { m with parent := parent } live rfl]
    refine Links.ext rfl (funext fun b' => ?_) (funext₂ fun q d => ?_)
    · simp [update_apply, eq_comm]
    · dsimp only
      split_ifs with here
      · rw [here, child_eq live]
        rfl
      · rfl

theorem replaceChild_spec {parent : Option Nat} (child : Option Nat)
    (liveParent : ∀ a, parent = some a → ∃ m, table.nodes.lookup a = some m)
    (slot : ∀ q d, table.links.child q d = some node ↔ Links.IsSlot parent bit q d) :
    ∃ replaced, table.replaceChild parent node child = .ok replaced ∧
      replaced.links = ⟨table.links.key, table.links.parent, fun q d =>
        if table.links.child q d = some node then child else table.links.child q d⟩ ∧
      replaced.bare = table.bare ∧ replaced.count = table.count := by
  cases parent with
  | none =>
    refine ⟨_, rfl, Links.ext rfl rfl (funext₂ fun q d => ?_), rfl, rfl⟩
    simp only [slot]
    cases q <;> simp [Links.IsSlot, links]
  | some a =>
    obtain ⟨m, live⟩ := liveParent a rfl
    have side : decide (m.left ≠ some node) = bit := by
      have left := slot (some a) false
      rw [child_eq live] at left
      have here : m.left = some node ↔ false = bit := left.trans (by simp [Links.IsSlot])
      cases bit <;> simp [here]
    refine ⟨table.write a (m.withLink bit child), ?_, ?_,
      bare_write_same _ live (unlinked_withLink ..), rfl⟩
    · rw [replaceChild, read_eq live, ok_bind, side]
      rfl
    rw [links_write _ live (p_withLink ..)]
    refine Links.ext rfl ?_ (funext₂ fun q d => ?_)
    · exact update_eq_self_iff.mpr (by simp [links, live])
    · simp only [slot]
      by_cases isParent : q = some a
      · simp [isParent, Links.IsSlot, child_eq live, link_withLink]
      · simp [isParent, Links.IsSlot]

theorem shorter_parent (shape : table.links.Shape) (live : table.nodes.lookup a = some n)
    (isParent : n.parent = some b) :
    ∃ m, table.nodes.lookup b = some m ∧ m.p.length < n.p.length := by
  obtain ⟨bit, hangs⟩ := shape.up (key_eq live)
  rw [links_parent, live, Option.bind_some, isParent] at hangs
  obtain ⟨_, -, -, grows⟩ := shape.down hangs
  obtain ⟨k, key, -⟩ := grows b rfl
  obtain ⟨m, liveb, -⟩ := lookup_of_key key
  exact ⟨m, liveb, length_lt_child shape liveb ((child_eq liveb bit).symm.trans hangs) live⟩

/-- **Taking out a node** in terms of the links. -/
theorem unhook_spec (shape : table.links.Shape) (live : table.nodes.lookup a = some n) :
    ∃ after, table.unhook a n = .ok after ∧ after.links = table.links.takeOut a (onlyChild n) ∧
      after.bare a = none ∧ (∀ b, b ≠ a → after.bare b = table.bare b) ∧
      after.count = table.count - 1 := by
  have parent : table.links.parent a = n.parent := by rw [links_parent, live, Option.bind_some]
  obtain ⟨bit, place⟩ := shape.up (key_eq live)
  rw [parent] at place
  obtain ⟨adopted, adopts, links, bare, count⟩ := @adopt_spec ι table (onlyChild n) n.parent (by
    intro b isOnly
    obtain ⟨bit, hangs⟩ := isChild_onlyChild isOnly
    exact live_child shape ((child_eq live bit).trans hangs))
  obtain ⟨replaced, replaces, links', bare', count'⟩ := @replaceChild_spec ι adopted bit a n.parent
    (onlyChild n)
    (by
      intro b isParent
      obtain ⟨m, liveb, -⟩ := shorter_parent shape live isParent
      obtain ⟨m', liveb', -⟩ := lookup_of_bare ((congrFun bare b).trans (bare_eq liveb))
      exact ⟨m', liveb'⟩)
    (by
      intro q d
      rw [links]
      exact ⟨shape.slot_unique place, fun slot => (shape.child_slot slot).trans place⟩)
  refine ⟨{ replaced with nodes := replaced.nodes.erase a, count := replaced.count - 1 },
    ?_, ?_, ?_, fun b other => ?_, by rw [← count, ← count']⟩
  · rw [unhook, adopts, ok_bind, replaces]
    rfl
  · have erased : BgpTable.links { replaced with
        nodes := replaced.nodes.erase a, count := replaced.count - 1 } =
        ⟨update replaced.links.key a none, update replaced.links.parent a none,
          fun q d => if q = some a then none else replaced.links.child q d⟩ := by
      have lookup : ∀ b, (replaced.nodes.erase a).lookup b =
          if b = a then none else replaced.nodes.lookup b := by
        intro b
        split_ifs with here
        · rw [here, Finmap.lookup_erase]
        · exact Finmap.lookup_erase_ne here
      refine Links.ext (funext fun b => ?_) (funext fun b => ?_) (funext₂ fun q d => ?_)
      · simp only [BgpTable.links, lookup, update_apply]
        split_ifs <;> rfl
      · simp only [BgpTable.links, lookup, update_apply]
        split_ifs <;> rfl
      · cases q with
        | none => rfl
        | some b =>
          simp only [BgpTable.links, lookup, Option.some.injEq]
          split_ifs <;> rfl
    rw [erased, links', links, ← parent]
    rfl
  · rw [BgpTable.bare, Finmap.lookup_erase, Option.map_none]
  · rw [← bare, ← bare']
    exact congrArg (Option.map unlinked) (Finmap.lookup_erase_ne other)

/-- Nodes with information that nobody has locked. -/
def Careless (table : BgpTable ι) : Prop :=
  ∃ a n, table.bare a = some n ∧ n.lock = 0 ∧ n.info.isSome = true

/-- How deleting a node ends. -/
def Deleted (table : BgpTable ι) (result : Except TableFault (BgpTable ι)) : Prop :=
  (∃ after, result = .ok after ∧ after.Valid) ∨ result = .error .assertion ∧ table.Careless

/-- **`bgp_node_delete`.** The induction is on the passes, which are more than the bits of the prefix;
the parent has fewer. -/
theorem bgpNodeDelete_spec (passes : Nat) :
    ∀ {table : BgpTable ι} {a : Nat} {n : BgpNode ι}, table.links.Shape →
      table.count = table.nodes.keys.card → table.nodes.lookup a = some n → n.lock = 0 →
      (∀ b, b ≠ a → table.StubAt b) → n.p.length < passes →
      table.Deleted (bgpNodeDelete passes table a) := by
  induction passes with
  | zero => exact fun _ _ _ _ _ enough => absurd enough (Nat.not_lt_zero _)
  | succ passes ih =>
    intro table a n shape count live unlocked stubs enough
    rw [bgpNodeDelete_succ passes live, if_neg (not_not_intro unlocked)]
    by_cases informed : n.info.isSome = true
    · rw [if_pos informed]
      exact .inr ⟨rfl, a, _, bare_eq live, unlocked, informed⟩
    split_ifs with both
    · refine .inl ⟨table, rfl, shape, fun b => ?_, count⟩
      by_cases here : b = a
      · intro m _ _ bit
        rw [here, child_eq live]
        rw [Bool.and_eq_true] at both
        cases bit with
        | false => exact both.1
        | true => exact both.2
      · exact stubs b here
    obtain ⟨after, unhooks, links, gone, others, count'⟩ := unhook_spec shape live
    have shape' : after.links.Shape := by
      rw [links]
      refine shape.takeOut (key_eq live) (fun bit b hangs => ?_) fun b isOnly => ?_
      · exact onlyChild_eq both ((child_eq live bit).symm.trans hangs)
      · obtain ⟨bit, hangs⟩ := isChild_onlyChild isOnly
        exact ⟨bit, (child_eq live bit).trans hangs⟩
    have counted : after.count = after.nodes.keys.card := by
      rw [count', count, card_add_one gone (bare_eq live) fun b other => (others b other).symm,
        Nat.add_sub_cancel]
    have kept : ∀ {b m}, after.bare b = some m → b ≠ a ∧ table.bare b = some m := by
      intro b m own
      have other : b ≠ a := by
        rintro rfl
        rw [gone] at own
        cases own
      exact ⟨other, (others b other).symm.trans own⟩
    have stubs' : ∀ b, n.parent ≠ some b → after.StubAt b := by
      intro b notParent m own free bit
      obtain ⟨other, own'⟩ := kept own
      have elsewhere : table.links.child (some b) bit ≠ some a := by
        intro hangs
        obtain ⟨-, -, parent, -⟩ := shape.down hangs
        rw [links_parent, live] at parent
        exact notParent parent
      rw [links]
      dsimp only [Links.takeOut]
      rw [if_neg (by simpa using other), if_neg elsewhere]
      exact stubs b other m own' free bit
    rw [unhooks, ok_bind]
    cases above : n.parent with
    | none =>
      exact .inl ⟨after, rfl, shape', fun b => stubs' b (by rw [above]; simp), counted⟩
    | some parent =>
      obtain ⟨m, liveParent, shorter⟩ := shorter_parent shape live above
      have apart : parent ≠ a := by
        rintro rfl
        obtain rfl := Option.mem_unique live liveParent
        exact Nat.lt_irrefl _ shorter
      obtain ⟨m', live', alike⟩ := lookup_of_bare ((others parent apart).trans (bare_eq liveParent))
      obtain ⟨p', -, -, -, -, -⟩ := BgpNode.mk.inj alike
      have stubs'' : ∀ b, b ≠ parent → after.StubAt b := fun b other =>
        stubs' b (by rw [above]; exact fun same => other (Option.some.inj same).symm)
      dsimp only
      rw [read_eq live', ok_bind]
      split_ifs with free
      · refine (ih shape' counted live' free stubs'' (by rw [p']; omega)).imp id fun failed => ?_
        obtain ⟨fails, b, m, own, careless⟩ := failed
        exact ⟨fails, b, m, (kept own).2, careless⟩
      · refine .inl ⟨after, rfl, shape', fun b => ?_, counted⟩
        by_cases here : b = parent
        · intro m own locked
          rw [here, bare_eq live'] at own
          cases own
          exact absurd locked free
        · exact stubs'' b here

/-! ## The operations of a run -/

/-- The operation takes the last lock from a node that has information, or leaves a node with
information that nobody has locked without its second child. -/
def Releases (table : BgpTable ι) (event : RadixEvent ι) : Prop :=
  ∃ node b m, event = .unlockNode node ∧ table.nodes.lookup b = some m ∧ m.info.isSome = true ∧
    m.lock = if b = node then 1 else 0

theorem bgpUnlockNode_spec (valid : table.Valid) (live : table.nodes.lookup a = some n)
    (locked : 0 < n.lock) :
    (∃ after, table.bgpUnlockNode a = .ok after ∧ after.Valid) ∨
      table.bgpUnlockNode a = .error .assertion ∧ table.Releases (.unlockNode a) := by
  have count : (table.write a { n with lock := n.lock - 1 }).count =
      (table.write a { n with lock := n.lock - 1 }).nodes.keys.card :=
    valid.count_eq.trans (card_write_live live).symm
  have same : (table.write a { n with lock := n.lock - 1 }).links = table.links :=
    links_write_same live rfl rfl rfl
  have stubs : ∀ b, b ≠ a → (table.write a { n with lock := n.lock - 1 }).StubAt b := by
    intro b other m own
    rw [bare_write, update_of_ne other] at own
    rw [same]
    exact valid.stub b m own
  rw [bgpUnlockNode, read_eq live, ok_bind, if_neg (Nat.ne_of_gt locked)]
  by_cases last : n.lock - 1 = 0
  · have short : n.p.length < passes := by
      have := n.p.length_le
      unfold passes
      omega
    refine (bgpNodeDelete_spec passes (same ▸ valid.shape) count lookup_write_self last stubs
      short).imp
      (fun done => ?_) fun failed => ?_
    · obtain ⟨after, deleted, valid'⟩ := done
      exact ⟨after, (if_pos last).trans deleted, valid'⟩
    · obtain ⟨deleted, b, m, own, unlocked, informed⟩ := failed
      obtain ⟨m, liveb, rfl⟩ := lookup_of_bare own
      refine ⟨(if_pos last).trans deleted, a, b, ?_⟩
      rw [lookup_write] at liveb
      split_ifs at liveb with here
      · cases liveb
        exact ⟨n, rfl, here ▸ live, informed, by rw [if_pos here]; omega⟩
      · exact ⟨m, rfl, liveb, informed, (if_neg here).symm ▸ unlocked⟩
  · exact .inl ⟨_, if_neg last, valid_write live same valid.shape
      (fun unlocked => absurd unlocked last) (fun b _ => valid.stub b) valid.count_eq⟩

theorem valid_setInfo (valid : table.Valid) (live : table.nodes.lookup a = some n)
    (info : Option ι) : (table.write a { n with info := info }).Valid :=
  valid_write live (links_write_same live rfl rfl rfl) valid.shape
    (fun unlocked => ⟨valid.stub a, unlocked⟩) (fun b _ => valid.stub b) valid.count_eq

/-- **One operation** leaves a valid table, or ends in the assertion on `info`. -/
theorem radixStep_spec (valid : table.Valid) {event : RadixEvent ι} (allowed : event.Allowed table) :
    (∃ after, radixStep table event = .ok (after, []) ∧ after.Valid) ∨
      radixStep table event = .error .assertion ∧ table.Releases event := by
  cases event with
  | nodeGet p =>
    obtain ⟨after, a, result, got⟩ := bgpNodeGet_spec valid p
    exact .inl ⟨after, by rw [radixStep, result]; rfl, got.valid⟩
  | setInfo node info =>
    obtain ⟨n, live⟩ := Finmap.mem_iff.mp allowed
    exact .inl ⟨_, by rw [radixStep, read_eq live]; rfl, valid_setInfo valid live info⟩
  | lockNode node =>
    obtain ⟨n, live⟩ := Finmap.mem_iff.mp allowed
    exact .inl ⟨_, by rw [radixStep, bgpLockNode_eq live]; rfl,
      valid_of_lock live valid.shape (fun b _ => valid.stub b) valid.count_eq⟩
  | unlockNode node =>
    obtain ⟨n, live, locked⟩ := allowed
    refine (bgpUnlockNode_spec valid live locked).imp (fun done => ?_) fun failed => ?_
    · obtain ⟨after, result, valid'⟩ := done
      exact ⟨after, by rw [radixStep, result]; rfl, valid'⟩
    · exact ⟨by rw [radixStep, failed.1]; rfl, failed.2⟩

theorem valid_empty : (empty : BgpTable ι).Valid := by
  refine ⟨⟨fun {above bit b} hangs => ?_, fun {b k} key => ?_, fun _ _ => rfl⟩, fun a n live => ?_, rfl⟩
  · cases above with
    | none => cases hangs
    | some a =>
      cases hangs
  · cases key
  · cases live

/-- **Every table of a run is valid.** -/
theorem Reachable.valid (reached : table.Reachable) : table.Valid := by
  obtain ⟨trace, run⟩ := reached
  refine run.invariant (fun _ table => table.Valid) valid_empty fun {_ _ s s' event} valid allowed
    stepped => ?_
  rcases radixStep_spec valid allowed with ⟨after, result, valid'⟩ | ⟨failed, -⟩
  · rw [result] at stepped
    cases stepped
    exact valid'
  · rw [failed] at stepped
    cases stepped

/-! ## What the table is for -/

/-- The shape of the tree. -/
structure WellFormed (table : BgpTable ι) : Prop where
  /-- A child extends the prefix of its parent, on the branch of the next bit. -/
  extends_parent : ∀ a n bit b, table.nodes.lookup a = some n → n.link bit = some b →
    ∃ m, table.nodes.lookup b = some m ∧ m.parent = some a ∧ n.p.length < m.p.length ∧
      prefixMatch n.p m.p = true ∧ prefixBit m.p n.p.length = bit
  /-- Unlocked nodes join two branches. -/
  unlocked : ∀ a n, table.nodes.lookup a = some n → n.lock = 0 →
    n.left.isSome = true ∧ n.right.isSome = true
  /-- The nodes are those that are reached from the top. -/
  reached : ∀ a, a ∈ table.nodes ↔ table.links.Within table.top a
  count_eq : table.count = table.nodes.keys.card

theorem Valid.wellFormed (valid : table.Valid) : table.WellFormed := by
  refine ⟨fun a n bit b live hangs => ?_, fun a n live unlocked => ?_, fun a => ⟨fun mem => ?_,
    fun within => ?_⟩, valid.count_eq⟩
  · have there := (child_eq live bit).trans hangs
    obtain ⟨m, liveb⟩ := live_child valid.shape there
    obtain ⟨_, _, parent, grows⟩ := valid.shape.down there
    rw [links_parent, liveb] at parent
    obtain ⟨k, key, longer⟩ := valid.shape.key_child there (key_eq live)
    obtain rfl := Option.mem_unique (key_eq liveb) key
    obtain ⟨covers, less, turns⟩ := bits_concat_prefix_iff.mp longer
    exact ⟨m, liveb, parent, less, (prefixMatch_iff ..).mpr covers, turns⟩
  · have stub := valid.stub a _ (bare_eq live) unlocked
    simp only [child_eq live] at stub
    exact ⟨stub false, stub true⟩
  · obtain ⟨n, live⟩ := Finmap.mem_iff.mp mem
    exact valid.shape.within_top (key_eq live) false
  · cases top : table.top with
    | none =>
      rw [top] at within
      exact absurd within Links.not_within_none
    | some t =>
      obtain ⟨n, live⟩ := live_child valid.shape ((links_child_none table false).trans top)
      obtain ⟨k, key, -⟩ := valid.shape.key_prefix (top ▸ within) (key_eq live)
      obtain ⟨m, liveA, -⟩ := lookup_of_key key
      exact Finmap.mem_iff.mpr ⟨m, liveA⟩

theorem lockFound_eq {found : Option Nat}
    (live : ∀ a, found = some a → ∃ n, table.nodes.lookup a = some n) :
    ∃ after, table.lockFound found = .ok (after, found) := by
  cases found with
  | none => exact ⟨table, rfl⟩
  | some a =>
    obtain ⟨n, liveA⟩ := live a rfl
    exact ⟨_, by rw [lockFound, bgpLockNode_eq liveA]; rfl⟩

theorem bgpNodeLookup_spec (valid : table.Valid) (p : Prefix) :
    ∃ after found, table.bgpNodeLookup p = .ok (after, found) ∧
      ∀ a, found = some a ↔ table.Holds p a := by
  obtain ⟨found, walked, holds⟩ := lookupLoop_spec valid.shape p
  obtain ⟨after, locked⟩ := @lockFound_eq ι table found fun a isFound => by
    obtain ⟨n, live, -⟩ := (holds a).mp isFound
    exact ⟨n, live⟩
  exact ⟨after, found, by rw [bgpNodeLookup, walked, ok_bind, locked], holds⟩

theorem bgpNodeMatch_spec (valid : table.Valid) (p : Prefix) :
    ∃ after found, table.bgpNodeMatch p = .ok (after, found) ∧
      ∀ a, found = some a ↔ table.Longest p a := by
  obtain ⟨found, walked, longest⟩ := matchLoop_spec valid.shape p
  obtain ⟨after, locked⟩ := @lockFound_eq ι table found fun a isFound => by
    obtain ⟨n, covers, -⟩ := (longest a).mp isFound
    exact ⟨n, covers.1⟩
  exact ⟨after, found, by rw [bgpNodeMatch, walked, ok_bind, locked], longest⟩

/-- **The table of a RIB is correct**: in every run the tree is well formed, every operation is done
unless a node with information is released, and for every prefix `bgp_node_get` returns the node of
the prefix, the only one there is, `bgp_node_lookup` finds it if it has information, and
`bgp_node_match` finds the longest prefix with information that covers it. -/
theorem radixTable_correct {table : BgpTable ι} (reached : table.Reachable) :
    table.WellFormed ∧
    (∀ event, event.Allowed table →
      (∃ after, radixStep table event = .ok (after, [])) ∨
        radixStep table event = .error .assertion ∧ table.Releases event) ∧
    ∀ p : Prefix,
      (∃ after a, table.bgpNodeGet p = .ok (after, a) ∧ table.KeptLocking after a ∧
        ∀ b, (∃ n, after.nodes.lookup b = some n ∧ n.p.bits = p.bits) ↔ b = a) ∧
      (∃ after found, table.bgpNodeLookup p = .ok (after, found) ∧
        ∀ a, found = some a ↔ table.Holds p a) ∧
      ∃ after found, table.bgpNodeMatch p = .ok (after, found) ∧
        ∀ a, found = some a ↔ table.Longest p a := by
  have valid := reached.valid
  refine ⟨valid.wellFormed, fun event allowed => ?_, fun p => ⟨?_, bgpNodeLookup_spec valid p,
    bgpNodeMatch_spec valid p⟩⟩
  · exact (radixStep_spec valid allowed).imp (fun ⟨after, done, _⟩ => ⟨after, done⟩) id
  · obtain ⟨after, a, result, got⟩ := bgpNodeGet_spec valid p
    obtain ⟨n, live, same, -⟩ := got.node
    refine ⟨after, a, result, got.kept, fun b => ⟨fun ⟨m, liveb, sameb⟩ => ?_, ?_⟩⟩
    · exact got.valid.shape.key_unique (key_eq liveb) (by rw [key_eq live, same, sameb])
    · rintro rfl
      exact ⟨n, live, same⟩

/-- 10.0.0.0/8 and 192.0.2.0/24, whose common beginning is the top of the tree. -/
theorem radixTable_two_prefixes :
    ∃ table : BgpTable Unit, table.Reachable ∧ table.count = 3 ∧ table.WellFormed := by
  have permitted : Permitted radixStep RadixEvent.Allowed (empty : BgpTable Unit)
      [.nodeGet ⟨8, [10, 0, 0, 0]⟩, .nodeGet ⟨24, [192, 0, 2, 0]⟩] := ⟨trivial, trivial, trivial⟩
  have reached := run_of_execute permitted rfl
  exact ⟨_, ⟨_, reached⟩, rfl, (radixTable_correct ⟨_, reached⟩).1⟩

end BgpTable

end Quagga.Bgpd
