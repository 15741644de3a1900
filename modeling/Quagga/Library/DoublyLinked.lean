import Mathlib.Data.List.Nodup
import Mathlib.Data.List.Perm.Subperm
/-!
# Doubly linked lists

Nodes are addresses, each with a link to the next node and one to the node before it. `Strung`
says that a list of nodes is linked in both directions, between the nodes that stand before and
after it. It can be cut in two (`strung_append`), and it depends on the links of its own nodes
only (`Strung.congr`). A node can be put in or taken out, however this is programmed, as long as
just the links of its neighbours change (`Strung.insert`, `Strung.remove`).

A `Chain` is one such list with its two ends (`Chain.Holds.insert`, `Chain.Holds.remove`). `Threads`
are several lists over the same nodes, with their heads. They are disjoint, and this stays so when a
node is pushed onto one of them or unlinked (`Threads.Holds.push`, `Threads.Holds.unlink`).
-/

set_option autoImplicit false

namespace Quagga.Library

open Function

/-! ## One list -/

/-- The first node, or what follows if there is none. -/
def firstOf (nodes : List Nat) (after : Option Nat) : Option Nat := nodes.head?.or after

variable (before : Option Nat)

/-- The last node, or what precedes. -/
def lastOf (nodes : List Nat) : Option Nat :=
  nodes.foldl (fun _ a => some a) before

@[simp] theorem firstOf_nil (after : Option Nat) : firstOf [] after = after := rfl

@[simp] theorem firstOf_cons (a : Nat) (rest : List Nat) (after : Option Nat) :
    firstOf (a :: rest) after = some a := rfl

@[simp] theorem lastOf_nil : lastOf before [] = before := rfl

@[simp] theorem lastOf_cons (a : Nat) (rest : List Nat) :
    lastOf before (a :: rest) = lastOf (some a) rest := rfl

theorem mem_of_lastOf {before : Option Nat} {nodes : List Nat} {x : Nat}
    (last : lastOf before nodes = some x) : before = some x ∨ x ∈ nodes := by
  induction nodes generalizing before with
  | nil => exact .inl last
  | cons a rest ih =>
    rcases ih last with same | inside
    · exact .inr (by simp [Option.some.inj same])
    · exact .inr (.tail a inside)

theorem lastOf_append (pre post : List Nat) :
    lastOf before (pre ++ post) = lastOf (lastOf before pre) post := List.foldl_append

theorem lastOf_some_ne_none (a : Nat) (nodes : List Nat) : lastOf (some a) nodes ≠ none := by
  induction nodes generalizing a with
  | nil => simp
  | cons b rest ih => exact ih b

theorem mem_of_firstOf {nodes : List Nat} {x : Nat} (first : firstOf nodes none = some x) :
    x ∈ nodes := by
  cases nodes with
  | nil => cases first
  | cons a rest => simp_all

/-- The nodes are linked in both directions, between those before and after them. -/
def Strung (next prev : Nat → Option Nat) : Option Nat → List Nat → Option Nat → Prop
  | _, [], _ => True
  | before, a :: rest, after =>
    prev a = before ∧ next a = firstOf rest after ∧ Strung next prev (some a) rest after

section Strung

variable {next prev next' prev' : Nat → Option Nat} {before after : Option Nat}
  {nodes pre post : List Nat} {a : Nat}

theorem strung_append : Strung next prev before (pre ++ post) after ↔
    Strung next prev before pre (firstOf post after) ∧
      Strung next prev (lastOf before pre) post after := by
  induction pre generalizing before with
  | nil => simp [Strung]
  | cons b pre ih =>
    have first : firstOf (pre ++ post) after = firstOf pre (firstOf post after) := by
      cases pre <;> rfl
    rw [List.cons_append, Strung, Strung, ih, first, lastOf_cons, and_assoc, and_assoc]

section

variable (strung : Strung next prev before nodes after)

include strung

theorem Strung.congr
    (same : ∀ x ∈ nodes, next' x = next x ∧ prev' x = prev x) :
    Strung next' prev' before nodes after := by
  induction nodes generalizing before with
  | nil => trivial
  | cons b rest ih =>
    obtain ⟨back, forth, rest_strung⟩ := strung
    obtain ⟨next_eq, prev_eq⟩ := same b List.mem_cons_self
    exact ⟨prev_eq.trans back, next_eq.trans forth,
      ih rest_strung fun x inside => same x (List.mem_cons_of_mem b inside)⟩

theorem Strung.set_after {after' : Option Nat}
    (distinct : nodes.Nodup) (same_prev : ∀ x ∈ nodes, prev' x = prev x)
    (next_eq : ∀ x ∈ nodes, next' x = if lastOf none nodes = some x then after' else next x) :
    Strung next' prev' before nodes after' := by
  induction nodes generalizing before with
  | nil => trivial
  | cons b rest ih =>
    obtain ⟨back, forth, rest_strung⟩ := strung
    obtain ⟨new, distinct⟩ := List.nodup_cons.mp distinct
    have here := next_eq b List.mem_cons_self
    refine ⟨(same_prev b List.mem_cons_self).trans back, ?_, ?_⟩
    · cases rest with
      | nil => simpa using here
      | cons c rest =>
        have other : lastOf none (b :: c :: rest) ≠ some b := by
          intro last
          have last : lastOf (some c) rest = some b := last
          rcases mem_of_lastOf last with same | inside
          · exact new (by simp [Option.some.inj same])
          · exact new (.tail c inside)
        rw [here, if_neg other, forth]
        rfl
    · refine ih rest_strung distinct (fun x inside => same_prev x (.tail b inside)) ?_
      intro x inside
      rw [next_eq x (.tail b inside)]
      cases rest with
      | nil => cases inside
      | cons c rest => rfl

theorem Strung.set_before {before' : Option Nat}
    (distinct : nodes.Nodup) (same_next : ∀ x ∈ nodes, next' x = next x)
    (prev_eq : ∀ x ∈ nodes, prev' x = if firstOf nodes none = some x then before' else prev x) :
    Strung next' prev' before' nodes after := by
  cases nodes with
  | nil => trivial
  | cons b rest =>
    obtain ⟨-, forth, rest_strung⟩ := strung
    have new := (List.nodup_cons.mp distinct).1
    refine ⟨by simpa using prev_eq b List.mem_cons_self,
      (same_next b List.mem_cons_self).trans forth, rest_strung.congr fun x inside => ?_⟩
    have other : b ≠ x := fun same => new (same ▸ inside)
    exact ⟨same_next x (.tail b inside), by simpa [other] using prev_eq x (.tail b inside)⟩

end

theorem Strung.relink {behind ahead first last : Option Nat}
    (front : Strung next prev none pre behind) (back : Strung next prev ahead post none)
    (distinct : (pre ++ post).Nodup)
    (next_eq : ∀ x ∈ pre ++ post, next' x = if lastOf none pre = some x then first else next x)
    (prev_eq : ∀ x ∈ pre ++ post, prev' x = if firstOf post none = some x then last else prev x) :
    Strung next' prev' none pre first ∧ Strung next' prev' last post none := by
  obtain ⟨front_distinct, back_distinct, apart⟩ := List.nodup_append.mp distinct
  constructor
  · refine front.set_after front_distinct (fun x inside => ?_)
      fun x inside => next_eq x (List.mem_append_left _ inside)
    have other : firstOf post none ≠ some x := fun first =>
      apart x inside x (mem_of_firstOf first) rfl
    rw [prev_eq x (List.mem_append_left _ inside), if_neg other]
  · refine back.set_before back_distinct (fun x inside => ?_)
      fun x inside => prev_eq x (List.mem_append_right _ inside)
    have other : lastOf none pre ≠ some x := fun last =>
      (mem_of_lastOf last).elim (by simp) fun front => apart x front x inside rfl
    rw [next_eq x (List.mem_append_right _ inside), if_neg other]

/-- **A node is put in between two parts of a list.** -/
theorem Strung.insert (strung : Strung next prev none (pre ++ post) none)
    (distinct : (pre ++ post).Nodup) (next_new : next' a = firstOf post none)
    (prev_new : prev' a = lastOf none pre)
    (next_eq : ∀ x ∈ pre ++ post, next' x = if lastOf none pre = some x then some a else next x)
    (prev_eq : ∀ x ∈ pre ++ post,
      prev' x = if firstOf post none = some x then some a else prev x) :
    Strung next' prev' none (pre ++ a :: post) none := by
  obtain ⟨front, back⟩ := strung_append.mp strung
  obtain ⟨front, back⟩ := front.relink back distinct next_eq prev_eq
  exact strung_append.mpr ⟨front, prev_new, next_new, back⟩

/-- **A node is taken out of a list.** -/
theorem Strung.remove (strung : Strung next prev none (pre ++ a :: post) none)
    (distinct : (pre ++ a :: post).Nodup)
    (next_eq : ∀ x ∈ pre ++ post,
      next' x = if lastOf none pre = some x then firstOf post none else next x)
    (prev_eq : ∀ x ∈ pre ++ post,
      prev' x = if firstOf post none = some x then lastOf none pre else prev x) :
    Strung next' prev' none (pre ++ post) none := by
  obtain ⟨front, -, -, back⟩ := strung_append.mp strung
  have distinct' := (List.nodup_middle.mp distinct).of_cons
  exact strung_append.mpr (front.relink back distinct' next_eq prev_eq)

/-- What a loop goes through that follows the links. It is given a pass for each node; longer lists
go round in a circle. -/
def walk (next : Nat → Option Nat) : Nat → Option Nat → List Nat
  | passes + 1, some a => a :: walk next passes (next a)
  | _, _ => []

theorem Strung.walk_eq {passes : Nat} (strung : Strung next prev before nodes none)
    (enough : nodes.length ≤ passes) : walk next passes (firstOf nodes none) = nodes := by
  induction nodes generalizing before passes with
  | nil => cases passes <;> rfl
  | cons b rest ih =>
    cases passes with
    | zero => cases enough
    | succ passes =>
      change b :: walk next passes (next b) = b :: rest
      rw [strung.2.1, ih strung.2.2 (Nat.le_of_succ_le_succ enough)]

/-- There are no more nodes than addresses. -/
theorem length_le_of_lt {size : Nat} (distinct : nodes.Nodup) (small : ∀ x ∈ nodes, x < size) :
    nodes.length ≤ size := by
  have below : nodes ⊆ List.range size := fun x inside => List.mem_range.mpr (small x inside)
  simpa using (distinct.subperm below).length_le

end Strung

/-! ## One list with both ends -/

/-- A list by its head and its tail. -/
structure Chain where
  head : Option Nat
  tail : Option Nat
  next : Nat → Option Nat
  prev : Nat → Option Nat

namespace Chain

/-- The list without nodes. -/
def empty : Chain := ⟨none, none, fun _ => none, fun _ => none⟩

/-- The link to what comes after a node, or to the head where there is none. -/
def setNext (c : Chain) (node link : Option Nat) : Chain :=
  match node with
  | none => { c with head := link }
  | some a => { c with next := update c.next a link }

/-- The link to what comes before a node, or to the tail where there is none. -/
def setPrev (c : Chain) (node link : Option Nat) : Chain :=
  match node with
  | none => { c with tail := link }
  | some a => { c with prev := update c.prev a link }

/-- A node is put in before a point of the list, or at its end. -/
def insert (c : Chain) (a : Nat) (point : Option Nat) : Chain :=
  let before := match point with
    | none => c.tail
    | some b => c.prev b
  let c := { c with next := update c.next a point }.setNext before (some a)
  { c with prev := update c.prev a before }.setPrev point (some a)

/-- A node is taken out. -/
def remove (c : Chain) (a : Nat) : Chain :=
  (c.setNext (c.prev a) (c.next a)).setPrev (c.next a) (c.prev a)

/-- The chain holds these nodes. -/
structure Holds (c : Chain) (nodes : List Nat) : Prop where
  head_eq : c.head = firstOf nodes none
  tail_eq : c.tail = lastOf none nodes
  strung : Strung c.next c.prev none nodes none
  distinct : nodes.Nodup

theorem holds_empty : empty.Holds [] := ⟨rfl, rfl, trivial, List.nodup_nil⟩

section Links

variable (c : Chain) (node link : Option Nat)

@[simp] theorem setNext_head :
    (c.setNext node link).head = if node = none then link else c.head := by cases node <;> rfl

@[simp] theorem setNext_tail : (c.setNext node link).tail = c.tail := by cases node <;> rfl

@[simp] theorem setNext_next (x : Nat) :
    (c.setNext node link).next x = if node = some x then link else c.next x := by
  cases node <;> simp [setNext, update_apply, eq_comm]

@[simp] theorem setNext_prev : (c.setNext node link).prev = c.prev := by cases node <;> rfl

@[simp] theorem setPrev_head : (c.setPrev node link).head = c.head := by cases node <;> rfl

@[simp] theorem setPrev_tail :
    (c.setPrev node link).tail = if node = none then link else c.tail := by cases node <;> rfl

@[simp] theorem setPrev_next : (c.setPrev node link).next = c.next := by cases node <;> rfl

@[simp] theorem setPrev_prev (x : Nat) :
    (c.setPrev node link).prev x = if node = some x then link else c.prev x := by
  cases node <;> simp [setPrev, update_apply, eq_comm]

end Links

variable {c : Chain} {pre post : List Nat} {a : Nat}

/-- **A node is put in between two parts of the list.** -/
theorem Holds.insert (holds : c.Holds (pre ++ post)) (new : a ∉ pre ++ post) :
    (c.insert a (firstOf post none)).Holds (pre ++ a :: post) := by
  have before : (match firstOf post none with
      | none => c.tail
      | some b => c.prev b) = lastOf none pre := by
    cases post with
    | nil => simpa using holds.tail_eq
    | cons b post => exact (strung_append.mp holds.strung).2.1
  have behind : ¬ lastOf none pre = some a := fun last =>
    new (List.mem_append_left _ ((mem_of_lastOf last).resolve_left nofun))
  have ahead : ¬ firstOf post none = some a := fun first =>
    new (List.mem_append_right _ (mem_of_firstOf first))
  have head := holds.head_eq
  have tail := holds.tail_eq
  unfold Chain.insert
  simp only [before]
  refine ⟨?_, ?_, holds.strung.insert holds.distinct ?_ ?_ (fun x inside => ?_) fun x inside => ?_,
    List.nodup_middle.mpr (List.nodup_cons.mpr ⟨new, holds.distinct⟩)⟩
  · cases pre with
    | nil => simp
    | cons b pre => simpa [lastOf_some_ne_none] using head
  · cases post with
    | nil => simp [lastOf_append]
    | cons b post => simpa [lastOf_append] using tail
  · simp [behind]
  · simp [ahead]
  · have other : x ≠ a := fun same => new (same ▸ inside)
    simp [other]
  · have other : x ≠ a := fun same => new (same ▸ inside)
    simp [other]

/-- **A node is taken out of the list.** -/
theorem Holds.remove (holds : c.Holds (pre ++ a :: post)) : (c.remove a).Holds (pre ++ post) := by
  obtain ⟨-, prev_eq, next_eq, -⟩ := strung_append.mp holds.strung
  have head := holds.head_eq
  have tail := holds.tail_eq
  unfold Chain.remove
  rw [prev_eq, next_eq]
  refine ⟨?_, ?_, holds.strung.remove holds.distinct (fun x _ => ?_) fun x _ => ?_,
    (List.nodup_middle.mp holds.distinct).of_cons⟩
  · cases pre with
    | nil => simp
    | cons b pre => simpa [lastOf_some_ne_none] using head
  · cases post with
    | nil => simp
    | cons b post => simpa [lastOf_append] using tail
  · simp
  · simp

end Chain

/-! ## Several lists -/

/-- Lists over the same nodes, by their heads. -/
structure Threads (ι : Type) where
  head : ι → Option Nat
  next : Nat → Option Nat
  prev : Nat → Option Nat

namespace Threads

variable {ι : Type} [DecidableEq ι]

/-- A node becomes the head of a list. -/
def push (t : Threads ι) (i : ι) (a : Nat) : Threads ι :=
  { head := update t.head i (some a)
    next := update t.next a (t.head i)
    prev :=
      match t.head i with
      | none => update t.prev a none
      | some head => update (update t.prev a none) head (some a) }

/-- The neighbours of a node are linked to each other; the head is set for a node that has none
before it. -/
def unlink (t : Threads ι) (i : ι) (a : Nat) : Threads ι :=
  let prev :=
    match t.next a with
    | none => t.prev
    | some next => update t.prev next (t.prev a)
  match prev a with
  | none => { t with head := update t.head i (t.next a), prev := prev }
  | some before => { t with next := update t.next before (t.next a), prev := prev }

/-- The threads hold these lists. -/
structure Holds (t : Threads ι) (lists : ι → List Nat) : Prop where
  head_eq : ∀ i, t.head i = firstOf (lists i) none
  strung : ∀ i, Strung t.next t.prev none (lists i) none
  distinct : ∀ i, (lists i).Nodup
  apart : ∀ {i j x}, x ∈ lists i → x ∈ lists j → i = j

variable {t : Threads ι} {lists : ι → List Nat} {i : ι} {a : Nat}

omit [DecidableEq ι] in
theorem Holds.mem_of_head (holds : t.Holds lists) {x : Nat} (head : t.head i = some x) :
    x ∈ lists i := by
  rw [holds.head_eq i] at head
  exact mem_of_firstOf head

theorem mem_push {j : ι} {x : Nat} :
    x ∈ update lists i (a :: lists i) j ↔ j = i ∧ x = a ∨ x ∈ lists j := by
  by_cases same : j = i
  · subst same
    simp
  · simp [same]

theorem Holds.cut (holds : t.Holds lists) (i : ι) :
    Holds { t with head := update t.head i none } (update lists i []) := by
  have inside : ∀ {j x}, x ∈ update lists i [] j → x ∈ lists j := by
    intro j x mem
    by_cases same : j = i <;> simp_all
  refine ⟨fun j => ?_, fun j => ?_, fun j => ?_, fun one two => holds.apart (inside one) (inside two)⟩
  · by_cases same : j = i <;> simp [same, holds.head_eq]
  · by_cases same : j = i
    · simp [same, Strung]
    · simpa [same] using holds.strung j
  · by_cases same : j = i
    · simp [same]
    · simpa [same] using holds.distinct j

attribute [local simp] push

/-- **A new node is pushed onto a list.** -/
theorem Holds.push (holds : t.Holds lists) (new : ∀ j, a ∉ lists j) :
    (t.push i a).Holds (update lists i (a :: lists i)) := by
  have prev_eq : ∀ x, x ≠ a →
      (t.push i a).prev x = if t.head i = some x then some a else t.prev x := by
    intro x other
    cases head : t.head i with
    | none => simp [head, other]
    | some b => by_cases same : x = b <;> simp [head, other, same, eq_comm]
  have prev_new : (t.push i a).prev a = none := by
    cases head : t.head i with
    | none => simp [head]
    | some b =>
      have other : a ≠ b := fun same => new i (same ▸ holds.mem_of_head head)
      simp [head, other]
  refine ⟨fun j => ?_, fun j => ?_, fun j => ?_, fun {j k x} => ?_⟩
  · by_cases same : j = i <;> simp [same, holds.head_eq]
  · by_cases same : j = i
    · subst same
      rw [update_self]
      change Strung _ _ none ([] ++ a :: lists j) none
      refine Strung.insert (holds.strung j) (holds.distinct j) ?_ prev_new ?_ ?_
      · simp [holds.head_eq]
      · intro x inside
        have other : x ≠ a := fun same => new j (same ▸ inside)
        simp [other]
      · intro x inside
        rw [prev_eq x (fun same => new j (same ▸ inside)), holds.head_eq]
    · rw [update_of_ne same]
      refine (holds.strung j).congr fun x inside => ?_
      have other : x ≠ a := fun same => new j (same ▸ inside)
      have elsewhere : t.head i ≠ some x := fun head =>
        same (holds.apart inside (holds.mem_of_head head))
      exact ⟨by simp [other], by rw [prev_eq x other, if_neg elsewhere]⟩
  · by_cases same : j = i
    · subst same
      simpa using ⟨new j, holds.distinct j⟩
    · simpa [same] using holds.distinct j
  · rw [mem_push, mem_push]
    rintro (⟨rfl, rfl⟩ | one) (⟨rfl, same⟩ | two)
    · rfl
    · exact absurd two (new k)
    · exact absurd one (same ▸ new j)
    · exact holds.apart one two

theorem Holds.mem_unlink (holds : t.Holds lists) (inside : a ∈ lists i) {j : ι} {x : Nat} :
    x ∈ update lists i ((lists i).erase a) j ↔ x ≠ a ∧ x ∈ lists j := by
  by_cases same : j = i
  · subst same
    rw [update_self, (holds.distinct j).mem_erase_iff]
  · rw [update_of_ne same]
    exact ⟨fun mem => ⟨fun x_eq => same (holds.apart (x_eq ▸ mem) inside), mem⟩, And.right⟩

theorem unlink_links {before behind : Option Nat} (prev_eq : t.prev a = before)
    (next_eq : t.next a = behind) (other : behind ≠ some a) :
    (∀ x, (t.unlink i a).prev x = if behind = some x then before else t.prev x) ∧
      (∀ x, (t.unlink i a).next x = if before = some x then behind else t.next x) ∧
      ∀ j, (t.unlink i a).head j = if j = i ∧ before = none then behind else t.head j := by
  subst prev_eq next_eq
  have same : (match t.next a with
      | none => t.prev
      | some next => update t.prev next (t.prev a)) =
      fun x => if t.next a = some x then t.prev a else t.prev x := by
    funext x
    cases t.next a <;> simp [update_apply, eq_comm]
  rw [Threads.unlink, same]
  dsimp only
  cases t.prev a with
  | none => simp [update_apply]
  | some b => simp [update_apply, eq_comm]

/-- **A node is unlinked from its list.** -/
theorem Holds.unlink (holds : t.Holds lists) (inside : a ∈ lists i) :
    (t.unlink i a).Holds (update lists i ((lists i).erase a)) := by
  obtain ⟨pre, post, split⟩ := List.append_of_mem inside
  have strung := holds.strung i
  have distinct := holds.distinct i
  rw [split] at strung distinct
  obtain ⟨-, before, behind, -⟩ := strung_append.mp strung
  have notFront : a ∉ pre := fun front =>
    (List.nodup_append.mp distinct).2.2 a front a List.mem_cons_self rfl
  have erased : (lists i).erase a = pre ++ post := by
    rw [split, List.erase_append_right _ notFront, List.erase_cons_head]
  obtain ⟨prev_eq, next_eq, head_eq⟩ := unlink_links (i := i) before behind fun first =>
    (List.nodup_cons.mp (List.nodup_append.mp distinct).2.1).1 (mem_of_firstOf first)
  refine ⟨fun j => ?_, fun j => ?_, fun j => ?_, fun {j k x} => ?_⟩
  · by_cases same : j = i
    · subst same
      rw [head_eq, update_self, erased, holds.head_eq, split]
      cases pre with
      | nil => simp
      | cons b pre => rw [if_neg fun ends => lastOf_some_ne_none b pre ends.2]; rfl
    · rw [head_eq, update_of_ne same, if_neg (fun ends => same ends.1), holds.head_eq]
  · by_cases same : j = i
    · subst same
      rw [update_self, erased]
      exact strung.remove distinct (fun x _ => next_eq x) fun x _ => prev_eq x
    · rw [update_of_ne same]
      refine (holds.strung j).congr fun x mem => ⟨?_, ?_⟩
      · rw [next_eq, if_neg]
        intro last
        have front : x ∈ pre := (mem_of_lastOf last).resolve_left (by simp)
        exact same (holds.apart mem (split ▸ List.mem_append_left _ front))
      · rw [prev_eq, if_neg]
        intro first
        have back : x ∈ a :: post := .tail a (mem_of_firstOf first)
        exact same (holds.apart mem (split ▸ List.mem_append_right _ back))
  · by_cases same : j = i
    · subst same
      rw [update_self]
      exact (holds.distinct j).erase a
    · rw [update_of_ne same]
      exact holds.distinct j
  · rw [holds.mem_unlink inside, holds.mem_unlink inside]
    exact fun one two => holds.apart one.2 two.2

end Threads

end Quagga.Library
