import Mathlib.Data.Finmap
import Mathlib.Order.Lattice.Nat

/-!
# Linked cells in a heap

A heap maps addresses to cells, each with a value and the address of a next cell. A segment
is the part of the heap that one meets on the way from one pointer to another: it is given
by the addresses and values along the way (`Segment`). A segment that ends with the null
pointer is a finite list; one that ends with a pointer to its own last cell is a list whose
last cell points to itself.

A segment can be extended at its end (`Segment.snoc`), its last pointer can be redirected
(`Segment.redirect`), and it does not depend on the rest of the heap (`Segment.insert`,
`Segment.erase`). Freeing the cells of a list one after another ends, with just these cells
gone (`freeAll_segment`).
-/

set_option autoImplicit false

namespace Quagga.Library

universe u

/-- A value with a link to the next cell. -/
structure LinkCell (α : Type u) where
  value : α
  next : Option Nat

/-- The live cells by their addresses. -/
abbrev Heap (α : Type u) := Finmap fun _ : Nat => LinkCell α

variable {α : Type u} {heap heap' : Heap α} {items rest : List (Nat × α)}
  {start stop : Option Nat} {address : Nat} {value : α}

/-- An address for a new cell: the proposed one, unless there is a cell. -/
def Heap.fresh (heap : Heap α) (proposed : Nat) : Nat :=
  if proposed ∈ heap then heap.keys.sup id + 1 else proposed

theorem Heap.fresh_notMem (heap : Heap α) (proposed : Nat) : heap.fresh proposed ∉ heap := by
  rw [Heap.fresh]
  split_ifs with taken
  · intro live
    have le : heap.keys.sup id + 1 ≤ heap.keys.sup id :=
      Finset.le_sup (f := id) (Finmap.mem_keys.mpr live)
    omega
  · exact taken

/-- The cells from one pointer to another. -/
def Segment (heap : Heap α) : Option Nat → List (Nat × α) → Option Nat → Prop
  | start, [], stop => start = stop
  | start, (address, value) :: rest, stop =>
    start = some address ∧
      ∃ next, heap.lookup address = some ⟨value, next⟩ ∧ Segment heap next rest stop

theorem Segment.mem_heap (segment : Segment heap start items stop) :
    ∀ item ∈ items, item.1 ∈ heap := by
  induction items generalizing start with
  | nil => exact fun _ mem => (List.not_mem_nil mem).elim
  | cons item rest ih =>
    obtain ⟨-, next, found, later⟩ := segment
    intro other mem
    rcases List.mem_cons.mp mem with rfl | mem
    · exact Finmap.lookup_isSome.mp (by rw [found]; rfl)
    · exact ih later other mem

/-- There is one list from a pointer to the null pointer. -/
theorem Segment.unique {items' : List (Nat × α)} (segment : Segment heap start items none)
    (other : Segment heap start items' none) : items = items' := by
  induction items generalizing start items' with
  | nil =>
    cases items' with
    | nil => rfl
    | cons item _ => exact absurd (segment.symm.trans other.1) (Option.some_ne_none item.1).symm
  | cons item rest ih =>
    obtain ⟨rfl, next, found, later⟩ := segment
    cases items' with
    | nil => cases other
    | cons item' rest' =>
      obtain ⟨same, next', found', later'⟩ := other
      rw [← Option.some.inj same, found, Option.some.injEq, LinkCell.mk.injEq] at found'
      obtain ⟨value, rfl⟩ := found'
      rw [ih later later', Prod.ext (Option.some.inj same) value]

/-- A segment depends on its own cells only. -/
theorem Segment.congr (segment : Segment heap start items stop)
    (same : ∀ item ∈ items, heap'.lookup item.1 = heap.lookup item.1) :
    Segment heap' start items stop := by
  induction items generalizing start with
  | nil => exact segment
  | cons item rest ih =>
    obtain ⟨here, next, found, later⟩ := segment
    refine ⟨here, next, ?_, ?_⟩
    · rw [same _ List.mem_cons_self, found]
    · exact ih later fun other mem => same other (List.mem_cons_of_mem _ mem)

theorem Segment.snoc {next : Option Nat} (segment : Segment heap start items (some address))
    (found : heap.lookup address = some ⟨value, next⟩) :
    Segment heap start (items ++ [(address, value)]) next := by
  induction items generalizing start with
  | nil => exact ⟨segment, next, found, rfl⟩
  | cons item rest ih =>
    obtain ⟨here, following, there, later⟩ := segment
    exact ⟨here, following, there, ih later⟩

theorem Segment.redirect (segment : Segment heap start (items ++ [(address, value)]) stop)
    (stop' : Option Nat) (distinct : ((items ++ [(address, value)]).map Prod.fst).Nodup) :
    Segment (heap.insert address ⟨value, stop'⟩) start (items ++ [(address, value)]) stop' := by
  induction items generalizing start with
  | nil =>
    obtain ⟨here, _, _, _⟩ := segment
    exact ⟨here, stop', Finmap.lookup_insert _, rfl⟩
  | cons item rest ih =>
    obtain ⟨other, _⟩ := item
    obtain ⟨here, next, there, later⟩ := segment
    rw [List.cons_append, List.map_cons, List.nodup_cons] at distinct
    have apart : other ≠ address := by
      rintro rfl
      exact distinct.1 (by simp)
    refine ⟨here, next, ?_, ih later distinct.2⟩
    rw [Finmap.lookup_insert_of_ne _ apart, there]

theorem Segment.lookup_last (segment : Segment heap start (items ++ [(address, value)]) stop) :
    heap.lookup address = some ⟨value, stop⟩ := by
  induction items generalizing start with
  | nil =>
    obtain ⟨-, next, found, rfl⟩ := segment
    exact found
  | cons item rest ih =>
    obtain ⟨-, _, -, later⟩ := segment
    exact ih later

theorem ne_of_notMem_map (absent : address ∉ rest.map Prod.fst) {item : Nat × α}
    (mem : item ∈ rest) : item.1 ≠ address := by
  rintro rfl
  exact absent (List.mem_map_of_mem mem)

theorem Segment.insert (segment : Segment heap start items stop)
    (absent : address ∉ items.map Prod.fst) (cell : LinkCell α) :
    Segment (heap.insert address cell) start items stop :=
  segment.congr fun _ mem => Finmap.lookup_insert_of_ne _ (ne_of_notMem_map absent mem)

theorem Segment.erase (segment : Segment heap start items stop)
    (absent : address ∉ items.map Prod.fst) : Segment (heap.erase address) start items stop :=
  segment.congr fun _ mem => Finmap.lookup_erase_ne (ne_of_notMem_map absent mem)

theorem Segment.setFirst {value' : α} {next : Option Nat}
    (segment : Segment heap start ((address, value) :: rest) stop)
    (found : heap.lookup address = some ⟨value, next⟩)
    (distinct : (((address, value) :: rest).map Prod.fst).Nodup) :
    Segment (heap.insert address ⟨value', next⟩) start ((address, value') :: rest) stop := by
  obtain ⟨here, next', found', later⟩ := segment
  rw [found] at found'
  cases found'
  rw [List.map_cons, List.nodup_cons] at distinct
  exact ⟨here, next, Finmap.lookup_insert _, later.insert distinct.1 _⟩

/-- Follow a list and free its cells. The walk fails at an address without a cell; it frees a cell
in each turn, so with as many turns as cells it fails for no other reason. -/
def freeAll : Nat → Heap α → Option Nat → Except Nat (Heap α)
  | _, heap, none => .ok heap
  | 0, _, some address => .error address
  | bound + 1, heap, some address =>
    match heap.lookup address with
    | none => .error address
    | some cell => freeAll bound (heap.erase address) cell.next

/-- **Freeing the cells of a finite list ends, with just these cells gone.** -/
theorem freeAll_segment {bound : Nat} (segment : Segment heap start items none)
    (distinct : (items.map Prod.fst).Nodup) (enough : items.length ≤ bound) :
    ∃ heap', freeAll bound heap start = .ok heap' ∧
      ∀ address, heap'.lookup address =
        if address ∈ items.map Prod.fst then none else heap.lookup address := by
  induction items generalizing heap start bound with
  | nil =>
    obtain rfl : start = none := segment
    exact ⟨heap, by cases bound <;> rfl, fun _ => (if_neg List.not_mem_nil).symm⟩
  | cons item rest ih =>
    obtain ⟨first, value⟩ := item
    obtain ⟨rfl, next, found, later⟩ := segment
    rw [List.map_cons, List.nodup_cons] at distinct
    cases bound with
    | zero => cases enough
    | succ bound =>
      obtain ⟨heap', freed, lookup'⟩ :=
        ih (later.erase distinct.1) distinct.2 (Nat.le_of_succ_le_succ enough)
      refine ⟨heap', ?_, ?_⟩
      · rw [freeAll, found]
        exact freed
      · intro address
        rw [lookup', List.map_cons]
        by_cases same : address = first
        · subst same
          rw [Finmap.lookup_erase, ite_self, if_pos List.mem_cons_self]
        · have mem_iff :
              address ∈ first :: rest.map Prod.fst ↔ address ∈ rest.map Prod.fst := by
            rw [List.mem_cons, or_iff_right same]
          rw [Finmap.lookup_erase_ne same]
          exact if_congr mem_iff.symm rfl rfl

theorem Segment.length_le (segment : Segment heap start items stop)
    (distinct : (items.map Prod.fst).Nodup) : items.length ≤ heap.keys.card := by
  rw [← List.length_map Prod.fst, ← List.toFinset_card_of_nodup distinct]
  apply Finset.card_le_card
  intro address mem
  obtain ⟨item, isItem, rfl⟩ := List.mem_map.mp (List.mem_toFinset.mp mem)
  exact Finmap.mem_keys.mpr (segment.mem_heap item isItem)

end Quagga.Library
