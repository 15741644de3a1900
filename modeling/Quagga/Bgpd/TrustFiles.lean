import Mathlib.Algebra.Group.Nat.Defs
import Mathlib.Data.Fin.Basic
import Quagga.Lib.Stream

/-!
# The trust and vote files

The trust extension keeps its state in text files: a table file has ten decimal numbers, one
for each AS from `1` to `10`. The daemon reads a table with one `fscanf` whose `%d`
conversions store four-byte integers into an array of two-byte words. Each store also
writes the word after its target, and the next conversion then writes that word; so entry
`i` ends as the number `i` of the file, modulo `2 ^ 16` (`scanTable_apply`). The last store
reaches past the array, and what it does there is not modelled.

Entry `as - 1` of a table is looked up without a check; the subtraction is one of 32-bit
unsigned integers (`tableIndex`).
-/

set_option autoImplicit false

namespace Quagga.Bgpd

open Lib

/-- The ten decimal numbers of a table file. -/
abbrev Table := Fin 10 → Nat

/-- An array `u_int16_t table[10]`. -/
abbrev Words := Fin 10 → UInt16

/-- The files of one node. `/myAS.txt`, `/inTrust.txt` and `/obsTrust.txt` are made by
`bgp_process_main` and `voteresult-<as>` on the first voting result from that AS; the other
ones are there before the daemon starts. -/
structure Files where
  myAS : Option Nat
  inTrust : Option Table
  obsTrust : Option Table
  neighborsN : Nat
  votes : Table
  votesRequests : Table
  votesResponses : Table
  voteresult : Nat → Option Table

/-- Read a file that `fopen` may not find. -/
def openTable {α : Type} (file : Option α) : Except Fault α :=
  match file with
  | some contents => .ok contents
  | none => .error .nullFile

/-! ## Reading a table into words -/

/-- Store a four-byte integer, low word first, at a word of the memory. -/
def storeInt (words : Nat → UInt16) (at' value : Nat) : Nat → UInt16 := fun i =>
  if i = at' then UInt16.ofNat value
  else if i = at' + 1 then UInt16.ofNat (value / 2 ^ 16)
  else words i

/-- The first `n` conversions of an `fscanf` into consecutive words. -/
def scanInts (values : Nat → Nat) : Nat → Nat → UInt16
  | 0 => fun _ => 0
  | n + 1 => storeInt (scanInts values n) n (values n)

/-- The array after all ten conversions. -/
def scanTable (table : Table) : Words := fun i =>
  scanInts (fun n => if below : n < 10 then table ⟨n, below⟩ else 0) 10 i

/-- A later conversion repairs the word that the one before it spilled into. -/
theorem scanInts_lt (values : Nat → Nat) {n i : Nat} (below : i < n) :
    scanInts values n i = UInt16.ofNat (values i) := by
  induction n with
  | zero => omega
  | succ n ih =>
    rw [scanInts]
    unfold storeInt
    by_cases last : i = n
    · rw [if_pos last, last]
    · rw [if_neg last, if_neg (by omega)]
      exact ih (by omega)

/-- **A table is read as its numbers modulo `2 ^ 16`.** -/
@[simp] theorem scanTable_apply (table : Table) (i : Fin 10) :
    scanTable table i = UInt16.ofNat (table i) := by
  simp [scanTable, scanInts_lt _ i.isLt]

/-- `fprintf` of an array of words. -/
def printWords (words : Words) : Table := fun i => (words i).toNat

@[simp] theorem scanTable_printWords (words : Words) : scanTable (printWords words) = words := by
  funext i
  simp [printWords]

/-! ## Looking up an AS -/

/-- The index `as - 1` of a 32-bit unsigned `as`: zero wraps around. -/
def asIndex (as : Nat) : Nat := if as = 0 then 2 ^ 32 - 1 else as - 1

/-- The bounds of the ten-entry tables. -/
def tableIndex (as : Nat) : Except Fault (Fin 10) :=
  if below : asIndex as < 10 then .ok ⟨asIndex as, below⟩ else .error (.arrayIndex (asIndex as))

/-- The table entry of an AS in `1..10`. -/
def slot (as : Nat) : Fin 10 := Fin.ofNat 10 (as - 1)

/-- An AS number that has a table entry. -/
def InTables (as : Nat) : Prop := 1 ≤ as ∧ as ≤ 10

instance (as : Nat) : Decidable (InTables as) := inferInstanceAs (Decidable (_ ∧ _))

theorem asIndex_eq {as : Nat} (inTables : InTables as) : asIndex as = as - 1 := by
  have nonzero : as ≠ 0 := Nat.one_le_iff_ne_zero.mp inTables.1
  rw [asIndex, if_neg nonzero]

/-- **An AS in `1..10` is looked up at its own entry.** -/
theorem tableIndex_ok {as : Nat} (inTables : InTables as) : tableIndex as = .ok (slot as) := by
  have index := asIndex_eq inTables
  obtain ⟨pos, le⟩ := inTables
  have below : asIndex as < 10 := by omega
  have entry : (⟨asIndex as, below⟩ : Fin 10) = slot as := by
    apply Fin.ext
    simp only [slot, Fin.ofNat]
    omega
  rw [tableIndex, dif_pos below, entry]

/-- Only an AS in `1..10` is looked up within the table. -/
theorem inTables_of_tableIndex {as : Nat} {i : Fin 10} (found : tableIndex as = .ok i) :
    InTables as := by
  rw [tableIndex] at found
  split_ifs at found with below
  rw [asIndex] at below
  split_ifs at below with zero
  · omega
  · exact ⟨Nat.one_le_iff_ne_zero.mpr zero, by omega⟩

theorem tableIndex_zero : tableIndex 0 = .error (.arrayIndex (2 ^ 32 - 1)) := by
  have index : asIndex 0 = 2 ^ 32 - 1 := rfl
  have outside : ¬ asIndex 0 < 10 := by omega
  rw [tableIndex, dif_neg outside, index]

theorem slot_injective {a b : Nat} (inA : InTables a) (inB : InTables b)
    (same : slot a = slot b) : a = b := by
  obtain ⟨posA, leA⟩ := inA
  obtain ⟨posB, leB⟩ := inB
  have values : (a - 1) % 10 = (b - 1) % 10 := by
    simpa [slot] using congrArg Fin.val same
  omega

theorem slot_surjective (i : Fin 10) : ∃ as, InTables as ∧ slot as = i := by
  refine ⟨i + 1, ⟨Nat.le_add_left _ _, i.isLt⟩, ?_⟩
  apply Fin.ext
  exact Nat.mod_eq_of_lt i.isLt

theorem update_slot {α : Type} (table : Fin 10 → α) {a b : Nat} (inA : InTables a)
    (inB : InTables b) (value : α) :
    Function.update table (slot a) value (slot b) = if a = b then value else table (slot b) := by
  by_cases same : a = b
  · subst same
    rw [Function.update_self, if_pos rfl]
  · have apart : slot b ≠ slot a := fun equal => same (slot_injective inA inB equal.symm)
    rw [Function.update_of_ne apart, if_neg same]

end Quagga.Bgpd
