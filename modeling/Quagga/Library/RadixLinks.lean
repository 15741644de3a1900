import Mathlib.Data.List.Infix
/-!
# Binary radix trees with links in both directions

The nodes of a radix tree have bit strings as keys. The key of a child continues the key of its
parent, first with the bit whose branch the child hangs on. Here nodes are given by addresses:
`Links` has the key of each node, the address of its parent and those of its children. The top of
the tree is the child of no node.

`Links.Shape` says that the links of both directions belong to each other and that keys grow along
the branches. It follows that every node is within the tree (`Shape.within_top`), that a key belongs
to one node only (`Shape.key_unique`), and that the nodes whose keys are beginnings of a given bit
string lie on one path from the top, which following the bits of the string finds
(`Shape.within_next`).

There are two ways to change such a tree: add a node, as a leaf or on the way to another one
(`Shape.addNode`), and take out a node with at most one child (`Shape.takeOut`).
-/

set_option autoImplicit false

namespace Quagga.Library

open Function

universe u

/-- The keys of the nodes, and the links up and down. The children of no node are the top. -/
@[ext]
structure Links (α : Type u) where
  key : α → Option (List Bool)
  parent : α → Option α
  child : Option α → Bool → Option α

namespace Links

variable {α : Type u}

/-- The links belong to each other, and keys grow along them. -/
structure Shape (L : Links α) : Prop where
  down : ∀ {above : Option α} {bit : Bool} {b : α}, L.child above bit = some b →
    ∃ k, L.key b = some k ∧ L.parent b = above ∧
      ∀ a, above = some a → ∃ k₀, L.key a = some k₀ ∧ k₀ ++ [bit] <+: k
  up : ∀ {b : α} {k : List Bool}, L.key b = some k → ∃ bit, L.child (L.parent b) bit = some b
  top : ∀ bit bit', L.child none bit = L.child none bit'

/-- The node is in the tree below a link. -/
inductive Within (L : Links α) : Option α → α → Prop where
  | here (a : α) : Within L (some a) a
  | under {a b : α} (bit : Bool) : Within L (L.child (some a) bit) b → Within L (some a) b

variable {L : Links α}

theorem Within.child {link : Option α} {a b : α} {bit : Bool} (within : L.Within link a)
    (hangs : L.child (some a) bit = some b) : L.Within link b := by
  induction within with
  | here a => exact .under bit (hangs ▸ .here b)
  | under bit' _ ih => exact .under bit' (ih hangs)

theorem not_within_none {b : α} : ¬ L.Within none b := by
  intro within
  cases within

/-- Induction along the links that lead down to a node. -/
@[elab_as_elim]
theorem Within.descend {b : α} {motive : (a : α) → L.Within (some a) b → Prop}
    (here : motive b (.here b))
    (under : ∀ {a c bit} (hangs : L.child (some a) bit = some c) (deeper : L.Within (some c) b),
      motive c deeper → motive a (.under bit (hangs ▸ deeper)))
    {a : α} (within : L.Within (some a) b) : motive a within := by
  suffices ∀ link (within : L.Within link b) a (start : link = some a), motive a (start ▸ within)
    from this _ within a rfl
  clear within
  intro link within
  induction within with
  | here => rintro _ ⟨⟩; exact here
  | @under a _ bit deeper ih =>
    rintro _ ⟨⟩
    cases hangs : L.child (some a) bit with
    | none => exact absurd (hangs ▸ deeper) not_within_none
    | some c => exact under hangs (hangs ▸ deeper) (ih here under c hangs)

/-- A node below a link is the one that the link points to, or below one of its children. -/
theorem Within.cases {a b : α} (within : L.Within (some a) b) :
    a = b ∨ ∃ bit c, L.child (some a) bit = some c ∧ L.Within (some c) b := by
  induction within using Within.descend with
  | here => exact .inl rfl
  | @under _ c bit hangs deeper _ => exact .inr ⟨bit, c, hangs, deeper⟩

theorem not_longer {k k' : List Bool} {bit : Bool} (longer : k ++ [bit] <+: k') : k ≠ k' := by
  rintro rfl
  have le := longer.length_le
  rw [List.length_append, List.length_singleton] at le
  omega

theorem last_bit_unique {k k' : List Bool} {bit bit' : Bool} (first : k ++ [bit] <+: k')
    (second : k ++ [bit'] <+: k') : bit = bit' := by
  have same := List.prefix_of_prefix_length_le first second (by simp)
  simpa using same.eq_of_length (by simp)

namespace Shape

variable (shape : L.Shape)
include shape

variable {b : α} {k : List Bool}

theorem key_child {a : α} {bit : Bool} (hangs : L.child (some a) bit = some b)
    (key : L.key a = some k) : ∃ k', L.key b = some k' ∧ k ++ [bit] <+: k' := by
  obtain ⟨k', key', -, grows⟩ := shape.down hangs
  obtain ⟨k₀, key₀, longer⟩ := grows a rfl
  obtain rfl : k₀ = k := Option.mem_unique key₀ key
  exact ⟨k', key', longer⟩

/-- **Keys grow from the top down.** -/
theorem key_prefix {a : α} (within : L.Within (some a) b) (key : L.key a = some k) :
    ∃ k', L.key b = some k' ∧ k <+: k' := by
  induction within using Within.descend generalizing k with
  | here => exact ⟨k, key, List.prefix_rfl⟩
  | @under _ _ bit hangs _ ih =>
    obtain ⟨k', key', longer⟩ := shape.key_child hangs key
    obtain ⟨k'', key'', longer'⟩ := ih key'
    exact ⟨k'', key'', (List.prefix_append k [bit]).trans (longer.trans longer')⟩

theorem key_below {a c : α} {bit : Bool} {kb : List Bool} (hangs : L.child (some a) bit = some c)
    (deeper : L.Within (some c) b) (key : L.key a = some k) (keyb : L.key b = some kb) :
    k ++ [bit] <+: kb := by
  obtain ⟨kc, keyc, longer⟩ := shape.key_child hangs key
  obtain ⟨kb', keyb', longer'⟩ := shape.key_prefix deeper keyc
  obtain rfl : kb' = kb := Option.mem_unique keyb' keyb
  exact longer.trans longer'

/-- **Every node is in the tree.** The induction is on the length of the key. -/
theorem within_top (key : L.key b = some k) (bit : Bool) : L.Within (L.child none bit) b := by
  obtain ⟨length, bound⟩ : ∃ length, k.length < length := ⟨_, Nat.lt_succ_self _⟩
  induction length generalizing b k with
  | zero => exact absurd bound (Nat.not_lt_zero _)
  | succ length ih =>
    obtain ⟨bit', hangs⟩ := shape.up key
    cases parent : L.parent b with
    | none =>
      rw [parent] at hangs
      rw [shape.top bit bit', hangs]
      exact .here b
    | some a =>
      rw [parent] at hangs
      obtain ⟨k', key', -, grows⟩ := shape.down hangs
      obtain rfl : k' = k := Option.mem_unique key' key
      obtain ⟨k₀, key₀, longer⟩ := grows a rfl
      have shorter := longer.length_le
      rw [List.length_append, List.length_singleton] at shorter
      exact (ih key₀ (by omega)).child hangs

theorem key_unique_within {a b' : α} (within : L.Within (some a) b)
    (within' : L.Within (some a) b') (key : L.key b = some k) (key' : L.key b' = some k)
    {k₀ : List Bool} (key₀ : L.key a = some k₀) : b = b' := by
  induction within using Within.descend generalizing k₀ with
  | here =>
    rcases within'.cases with same | ⟨bit, c, hangs, deeper⟩
    · exact same
    · exact absurd rfl (not_longer (shape.key_below hangs deeper key key'))
  | under hangs deeper ih =>
    have first := shape.key_below hangs deeper key₀ key
    rcases within'.cases with rfl | ⟨bit', c', hangs', deeper'⟩
    · exact absurd (Option.mem_unique key₀ key') (not_longer first)
    · obtain rfl := last_bit_unique first (shape.key_below hangs' deeper' key₀ key')
      obtain rfl := Option.mem_unique hangs hangs'
      obtain ⟨kc, keyc, -⟩ := shape.key_child hangs key₀
      exact ih deeper' keyc

/-- **A key belongs to one node only.** -/
theorem key_unique {b' : α} (key : L.key b = some k) (key' : L.key b' = some k) : b = b' := by
  have within := shape.within_top key false
  cases top : L.child none false with
  | none =>
    rw [top] at within
    exact absurd within not_within_none
  | some a =>
    obtain ⟨k₀, key₀, -⟩ := shape.down top
    rw [top] at within
    exact shape.key_unique_within within (top ▸ shape.within_top key' false) key key' key₀

section

variable {a : α} {kb string : List Bool} (within : L.Within (some a) b) (key : L.key a = some k)
  (keyb : L.key b = some kb)
include within key keyb

/-- **The next node on the way of a bit string.** A node below whose key begins the string is the
one at hand, or below its child on the branch of the next bit. -/
theorem within_next {next : Bool} (begins : kb <+: string)
    (follows : ∀ bit, k ++ [bit] <+: string → bit = next) :
    a = b ∨ L.Within (L.child (some a) next) b := by
  rcases within.cases with same | ⟨bit, c, hangs, deeper⟩
  · exact .inl same
  · obtain rfl := follows bit ((shape.key_below hangs deeper key keyb).trans begins)
    exact .inr (hangs ▸ deeper)

/-- A node below a node that is not on the way of a string is not on it either. -/
theorem not_begins_of_not_begins (off : ¬ k <+: string) :
    ¬ kb <+: string := by
  obtain ⟨kb', keyb', longer⟩ := shape.key_prefix within key
  obtain rfl : kb' = kb := Option.mem_unique keyb' keyb
  exact fun begins => off (longer.trans begins)

end

end Shape

/-! ## Changes -/

variable [DecidableEq α] (above : Option α) (bit : Bool)

/-- Whether this is the given branch of the node above, where the top has only one. -/
def IsSlot (q : Option α) (d : Bool) : Prop :=
  q = above ∧ (above = none ∨ d = bit)

instance (above : Option α) (bit : Bool) (q : Option α) (d : Bool) :
    Decidable (IsSlot above bit q d) :=
  inferInstanceAs (Decidable (q = above ∧ (above = none ∨ d = bit)))

/-- Hang a node in a slot. -/
def hang (L : Links α) (above : Option α) (bit : Bool) (node : α) : Links α where
  key := L.key
  parent := update L.parent node above
  child := fun q d => if IsSlot above bit q d then some node else L.child q d

/-- Add a node in a slot. What hung there, if anything did, hangs below it. -/
def addNode (L : Links α) (above : Option α) (bit : Bool) (new : α) (k : List Bool)
    (only : Option α) (branch : Bool) : Links α where
  key := update L.key new (some k)
  parent := update (fun b => if only = some b then some new else L.parent b) new above
  child := fun q d =>
    if IsSlot above bit q d then some new
    else if q = some new ∧ d = branch then only else L.child q d

/-- Take out a node and put its child in its place. -/
def takeOut (L : Links α) (node : α) (only : Option α) : Links α where
  key := update L.key node none
  parent := update (fun b => if only = some b then L.parent node else L.parent b) node none
  child := fun q d =>
    if q = some node then none else if L.child q d = some node then only else L.child q d

namespace Shape

variable (shape : L.Shape)
include shape

omit [DecidableEq α] in
theorem branch_unique {a b : α} {bit bit' : Bool} (hangs : L.child (some a) bit = some b)
    (hangs' : L.child (some a) bit' = some b) : bit = bit' := by
  obtain ⟨k, key, -, grows⟩ := shape.down hangs
  obtain ⟨k₀, key₀, first⟩ := grows a rfl
  obtain ⟨k', key', second⟩ := shape.key_child hangs' key₀
  obtain rfl : k' = k := Option.mem_unique key' key
  exact last_bit_unique first second

variable {above : Option α}

omit [DecidableEq α] in
theorem child_slot {q : Option α} {bit d : Bool} (slot : IsSlot above bit q d) :
    L.child q d = L.child above bit := by
  obtain ⟨rfl, rfl | rfl⟩ := slot
  · exact shape.top d bit
  · rfl

omit [DecidableEq α] in
/-- A node hangs in one slot. -/
theorem slot_unique {b : α} {q : Option α} {bit d : Bool} (place : L.child above bit = some b)
    (hangs : L.child q d = some b) : IsSlot above bit q d := by
  obtain ⟨-, -, parent, -⟩ := shape.down place
  obtain ⟨-, -, parent', -⟩ := shape.down hangs
  obtain rfl : above = q := parent.symm.trans parent'
  refine ⟨rfl, ?_⟩
  cases above with
  | none => exact .inl rfl
  | some a => exact .inr (shape.branch_unique hangs place)

/-- **Adding a node in a slot.** -/
theorem addNode {bit branch : Bool} {new : α} {k : List Bool} {only : Option α}
    (free : L.key new = none) (hung : L.child above bit = only)
    (grows : ∀ a, above = some a → ∃ k₀, L.key a = some k₀ ∧ k₀ ++ [bit] <+: k)
    (longer : ∀ node kn, only = some node → L.key node = some kn → k ++ [branch] <+: kn) :
    (L.addNode above bit new k only branch).Shape := by
  have old : ∀ {a k₀}, L.key a = some k₀ → a ≠ new := by
    rintro a k₀ key rfl
    rw [free] at key
    cases key
  refine ⟨?_, ?_, ?_⟩
  · intro q d b hangs
    unfold Links.addNode at hangs ⊢
    dsimp only at hangs ⊢
    split_ifs at hangs with slot own
    · cases hangs
      obtain ⟨rfl, side⟩ := slot
      refine ⟨k, update_self .., update_self .., fun a isAbove => ?_⟩
      obtain ⟨k₀, key₀, grown⟩ := grows a isAbove
      have same : d = bit := side.resolve_left (by simp [isAbove])
      exact ⟨k₀, by rw [update_of_ne (old key₀), key₀], same ▸ grown⟩
    · obtain ⟨kn, key, -⟩ := shape.down (hung.trans hangs)
      refine ⟨kn, by rw [update_of_ne (old key), key],
        by rw [update_of_ne (old key), if_pos hangs, own.1], fun a isAbove => ?_⟩
      obtain rfl : new = a := Option.mem_unique own.1 isAbove
      exact ⟨k, update_self .., own.2 ▸ longer b kn hangs key⟩
    · obtain ⟨kb, keyb, parent, grown⟩ := shape.down hangs
      have other : only ≠ some b := fun isOnly =>
        slot (shape.slot_unique (hung.trans isOnly) hangs)
      refine ⟨kb, by rw [update_of_ne (old keyb), keyb],
        by rw [update_of_ne (old keyb), if_neg other, parent], fun a isAbove => ?_⟩
      obtain ⟨k₀, key₀, first⟩ := grown a isAbove
      exact ⟨k₀, by rw [update_of_ne (old key₀), key₀], first⟩
  · intro b kb keyb
    unfold Links.addNode at keyb ⊢
    dsimp only at keyb ⊢
    by_cases isNew : b = new
    · subst isNew
      exact ⟨bit, by rw [update_self, if_pos ⟨rfl, .inr rfl⟩]⟩
    rw [update_of_ne isNew] at keyb ⊢
    by_cases isOnly : only = some b
    · have notSlot : ¬ IsSlot above bit (some new) branch := by
        rintro ⟨same, -⟩
        obtain ⟨k₀, key₀, -⟩ := grows new same.symm
        exact old key₀ rfl
      exact ⟨branch, by rw [if_pos isOnly, if_neg notSlot, if_pos ⟨rfl, rfl⟩, isOnly]⟩
    · obtain ⟨d, hangs⟩ := shape.up keyb
      have notSlot : ¬ IsSlot above bit (L.parent b) d := fun slot =>
        isOnly (hung.symm.trans ((shape.child_slot slot).symm.trans hangs))
      have notNew : ¬ (L.parent b = some new ∧ d = branch) := by
        rintro ⟨parent, -⟩
        rw [parent] at hangs
        obtain ⟨_, -, -, grows'⟩ := shape.down hangs
        obtain ⟨k₀, key₀, -⟩ := grows' new rfl
        exact old key₀ rfl
      exact ⟨d, by rw [if_neg isOnly, if_neg notSlot, if_neg notNew, hangs]⟩
  · intro d d'
    unfold Links.addNode IsSlot
    cases above with
    | none => simp
    | some a => simpa using shape.top d d'

/-- **Taking out a node with at most one child.** -/
theorem takeOut {node : α} {kn : List Bool} {only : Option α} (key : L.key node = some kn)
    (children : ∀ bit b, L.child (some node) bit = some b → only = some b)
    (isChild : ∀ b, only = some b → ∃ bit, L.child (some node) bit = some b) :
    (L.takeOut node only).Shape := by
  have below : ∀ b, only = some b → ∃ bit kb, L.key b = some kb ∧ L.parent b = some node ∧
      kn ++ [bit] <+: kb := by
    intro b isOnly
    obtain ⟨bit, hangs⟩ := isChild b isOnly
    obtain ⟨kb, keyb, parent, -⟩ := shape.down hangs
    obtain ⟨kb', keyb', longer⟩ := shape.key_child hangs key
    obtain rfl : kb' = kb := Option.mem_unique keyb' keyb
    exact ⟨bit, kb', keyb, parent, longer⟩
  refine ⟨?_, ?_, ?_⟩
  · intro q d b hangs
    unfold Links.takeOut at hangs ⊢
    dsimp only at hangs ⊢
    split_ifs at hangs with own place
    · obtain ⟨bit, kb, keyb, -, longer⟩ := below b hangs
      obtain ⟨kn', keyn', parent, grows⟩ := shape.down place
      obtain rfl : kn' = kn := Option.mem_unique keyn' key
      have other : b ≠ node := by
        rintro rfl
        exact not_longer longer (Option.mem_unique key keyb)
      refine ⟨kb, by rw [update_of_ne other, keyb], by rw [update_of_ne other, if_pos hangs, parent],
        fun a isAbove => ?_⟩
      obtain ⟨k₀, key₀, grown⟩ := grows a isAbove
      have apart : a ≠ node := fun same => own (same ▸ isAbove)
      exact ⟨k₀, by rw [update_of_ne apart, key₀],
        grown.trans ((List.prefix_append kn' [bit]).trans longer)⟩
    · obtain ⟨kb, keyb, parent, grows⟩ := shape.down hangs
      have other : b ≠ node := fun same => place (same ▸ hangs)
      have notOnly : only ≠ some b := by
        intro isOnly
        obtain ⟨-, -, -, isNode, -⟩ := below b isOnly
        exact own (parent.symm.trans isNode)
      refine ⟨kb, by rw [update_of_ne other, keyb], by rw [update_of_ne other, if_neg notOnly, parent],
        fun a isAbove => ?_⟩
      obtain ⟨k₀, key₀, grown⟩ := grows a isAbove
      have apart : a ≠ node := fun same => own (same ▸ isAbove)
      exact ⟨k₀, by rw [update_of_ne apart, key₀], grown⟩
  · intro b kb keyb
    unfold Links.takeOut at keyb ⊢
    dsimp only at keyb ⊢
    have other : b ≠ node := by
      rintro rfl
      rw [update_self] at keyb
      cases keyb
    rw [update_of_ne other] at keyb ⊢
    by_cases isOnly : only = some b
    · obtain ⟨d, place⟩ := shape.up key
      have apart : L.parent node ≠ some node := by
        intro own
        rw [own] at place
        obtain ⟨kn', keyn', longer⟩ := shape.key_child place key
        exact not_longer longer (Option.mem_unique key keyn')
      refine ⟨d, ?_⟩
      rw [if_pos isOnly, if_neg apart, if_pos place, isOnly]
    · obtain ⟨d, hangs⟩ := shape.up keyb
      have apart : L.parent b ≠ some node := by
        intro own
        rw [own] at hangs
        exact isOnly (children d b hangs)
      have elsewhere : L.child (L.parent b) d ≠ some node := by
        rw [hangs]
        exact fun same => other (Option.some.inj same)
      refine ⟨d, ?_⟩
      rw [if_neg isOnly, if_neg apart, if_neg elsewhere, hangs]
  · intro d d'
    unfold Links.takeOut
    dsimp only
    rw [shape.top d d']

end Shape

end Links

end Quagga.Library
