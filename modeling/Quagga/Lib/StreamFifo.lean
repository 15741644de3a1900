import Quagga.Lib.Stream
import Quagga.Library.LinkedCells

/-!
# The stream queue of `lib/stream.c`

A `struct stream_fifo` points to the first and the last of its streams, which are linked
through their `next` fields. `stream_fifo_push` links a stream behind the last one and does not
touch the `next` field of the pushed stream. So a stream that is pushed again while it is
the last one is linked to itself; the next push of another stream repairs the link.

A queue is described by the streams it holds and the pointer in the last of them
(`Queues`): the null pointer, or the address of the last stream itself. From either state
the push of a new stream leads to the first (`streamFifoPush_new`), and the push of the last
stream to the second (`streamFifoPush_last`). Taking and freeing the first stream and
cleaning need the null pointer (`streamFifoPop_free`, `streamFifoClean_ok`).
-/

set_option autoImplicit false

namespace Quagga.Lib

open Library

/-! ## The functions -/

/-- `struct stream_fifo`; the count is one of `size_t`. -/
structure StreamFifo where
  count : UInt64
  head : Option Nat
  tail : Option Nat
  deriving DecidableEq

/-- The live streams, with their `next` fields. -/
abbrev StreamHeap := Heap Stream

variable (heap : StreamHeap)

/-- The structure that a pointer points to. -/
def deref (address : Nat) : Except Fault (LinkCell Stream) :=
  match heap.lookup address with
  | some cell => .ok cell
  | none => .error (.dangling address)

/-- `stream_fifo_new`. -/
def streamFifoNew : StreamFifo := { count := 0, head := none, tail := none }

/-- `stream_fifo_push`. -/
def streamFifoPush (fifo : StreamFifo) (s : Nat) : Except Fault (StreamHeap × StreamFifo) :=
  match fifo.tail with
  | some tail => do
      let cell ← deref heap tail
      return (heap.insert tail { cell with next := some s },
        { fifo with tail := some s, count := fifo.count + 1 })
  | none => .ok (heap, { head := some s, tail := some s, count := fifo.count + 1 })

/-- `stream_fifo_pop`. -/
def streamFifoPop (fifo : StreamFifo) : Except Fault (Option Nat × StreamFifo) :=
  match fifo.head with
  | some s => do
      let cell ← deref heap s
      return (some s, { head := cell.next, tail := if cell.next = none then none else fifo.tail,
                        count := fifo.count - 1 })
  | none => .ok (none, { fifo with count := fifo.count - 1 })

/-- `stream_free`: of the null pointer it does nothing. -/
def streamFree (s : Option Nat) : Except Fault StreamHeap :=
  match s with
  | none => .ok heap
  | some address => do
      let _ ← deref heap address
      return heap.erase address

/-- `stream_fifo_clean`. Each turn of its loop frees a live stream, so there are at most as many
turns as live streams. -/
def streamFifoClean (fifo : StreamFifo) : Except Fault (StreamHeap × StreamFifo) :=
  match freeAll heap.keys.card heap fifo.head with
  | .ok heap => .ok (heap, { count := 0, head := none, tail := none })
  | .error address => .error (.dangling address)

/-! ## What a queue holds -/

/-- The queue holds the given streams, and the last one points to `stop`. -/
structure Queues (heap : StreamHeap) (fifo : StreamFifo) (items : List (Nat × Stream))
    (stop : Option Nat) : Prop where
  segment : Segment heap fifo.head items stop
  tail_eq : fifo.tail = items.getLast?.map Prod.fst
  distinct : (items.map Prod.fst).Nodup

variable {heap : StreamHeap} {fifo : StreamFifo} {items rest : List (Nat × Stream)}
  {stop : Option Nat} {s : Nat} {stream : Stream}

theorem deref_ok {cell : LinkCell Stream} (found : heap.lookup s = some cell) :
    deref heap s = .ok cell := by
  rw [deref, found]

theorem queues_new (heap : StreamHeap) : Queues heap streamFifoNew [] none := ⟨rfl, rfl, .nil⟩

theorem Queues.notMem_of_fresh (queues : Queues heap fifo items stop) (new : s ∉ heap) :
    s ∉ items.map Prod.fst := by
  intro mem
  obtain ⟨item, isItem, rfl⟩ := List.mem_map.mp mem
  exact new (queues.segment.mem_heap item isItem)

theorem Queues.tail_eq_last (queues : Queues heap fifo (items ++ [(s, stream)]) stop) :
    fifo.tail = some s := by
  rw [queues.tail_eq, List.getLast?_concat]
  rfl

theorem nodup_map_snoc (distinct : (items.map Prod.fst).Nodup) (new : s ∉ items.map Prod.fst) :
    ((items ++ [(s, stream)]).map Prod.fst).Nodup := by
  rw [List.map_append, List.map_cons, List.map_nil, ← List.concat_eq_append]
  exact distinct.concat new

/-- **Pushing a new stream puts it behind the others, whatever the last one pointed to.** -/
theorem streamFifoPush_new (queues : Queues heap fifo items stop) (new : s ∉ heap)
    (stream : Stream) :
    ∃ heap' fifo', streamFifoPush (heap.insert s ⟨stream, none⟩) fifo s = .ok (heap', fifo') ∧
      Queues heap' fifo' (items ++ [(s, stream)]) none ∧ fifo'.count = fifo.count + 1 := by
  have absent := queues.notMem_of_fresh new
  have distinct : ((items ++ [(s, stream)]).map Prod.fst).Nodup :=
    nodup_map_snoc queues.distinct absent
  have queues' : Queues (heap.insert s ⟨stream, none⟩) fifo items stop :=
    { queues with segment := queues.segment.insert absent _ }
  rcases List.eq_nil_or_concat items with rfl | ⟨before, ⟨last, value⟩, rfl⟩
  · refine ⟨heap.insert s ⟨stream, none⟩,
      { head := some s, tail := some s, count := fifo.count + 1 }, ?_, ⟨?_, rfl, distinct⟩, rfl⟩
    · rw [streamFifoPush, show fifo.tail = none from queues.tail_eq]
    · exact ⟨rfl, none, Finmap.lookup_insert _, rfl⟩
  · rw [List.concat_eq_append] at queues' absent distinct ⊢
    have apart : s ≠ last := by
      rintro rfl
      exact absent (by simp)
    have found := queues'.segment.lookup_last
    have linked := queues'.segment.redirect (some s) queues'.distinct
    refine ⟨(heap.insert s ⟨stream, none⟩).insert last ⟨value, some s⟩,
      { fifo with tail := some s, count := fifo.count + 1 }, ?_, ⟨?_, ?_, distinct⟩, rfl⟩
    · rw [streamFifoPush, queues'.tail_eq_last]
      dsimp only
      rw [deref_ok found]
      rfl
    · apply linked.snoc
      rw [Finmap.lookup_insert_of_ne _ apart, Finmap.lookup_insert]
    · rw [List.getLast?_concat]
      rfl

/-- **Pushing the last stream again links it to itself.** -/
theorem streamFifoPush_last (queues : Queues heap fifo (items ++ [(s, stream)]) stop) :
    ∃ heap' fifo', streamFifoPush heap fifo s = .ok (heap', fifo') ∧
      Queues heap' fifo' (items ++ [(s, stream)]) (some s) ∧ fifo'.count = fifo.count + 1 := by
  refine ⟨heap.insert s ⟨stream, some s⟩, { fifo with tail := some s, count := fifo.count + 1 }, ?_,
    ⟨queues.segment.redirect (some s) queues.distinct, ?_, queues.distinct⟩, rfl⟩
  · rw [streamFifoPush, queues.tail_eq_last]
    dsimp only
    rw [deref_ok queues.segment.lookup_last]
    rfl
  · rw [List.getLast?_concat]
    rfl

/-- **Taking the first stream of a list and freeing it leaves the others.** -/
theorem streamFifoPop_free (queues : Queues heap fifo ((s, stream) :: rest) none) :
    ∃ heap' fifo', streamFifoPop heap fifo = .ok (some s, fifo') ∧
      streamFree heap (some s) = .ok heap' ∧ Queues heap' fifo' rest none ∧
      fifo'.count = fifo.count - 1 := by
  obtain ⟨⟨head, next, found, later⟩, tail, distinct⟩ := queues
  rw [List.map_cons, List.nodup_cons] at distinct
  refine ⟨heap.erase s, { head := next, tail := if next = none then none else fifo.tail,
                          count := fifo.count - 1 }, ?_, ?_, ⟨?_, ?_, distinct.2⟩, rfl⟩
  · rw [streamFifoPop, head]
    dsimp only
    rw [deref_ok found]
    rfl
  · rw [streamFree, deref_ok found]
    rfl
  · exact later.erase distinct.1
  · -- The last pointer is unset exactly with the last stream.
    cases rest with
    | nil =>
      obtain rfl : next = none := later
      rfl
    | cons item rest =>
      obtain ⟨here, -⟩ := later
      rw [if_neg (by rw [here]; exact Option.some_ne_none _), tail, List.getLast?_cons_cons]

/-- **Cleaning a list ends, and leaves the queue empty.** -/
theorem streamFifoClean_ok (queues : Queues heap fifo items none) :
    ∃ heap', streamFifoClean heap fifo = .ok (heap', streamFifoNew) := by
  obtain ⟨heap', freed, -⟩ := freeAll_segment queues.segment queues.distinct
    (queues.segment.length_le queues.distinct)
  refine ⟨heap', ?_⟩
  rw [streamFifoClean, freed]
  rfl

end Quagga.Lib
