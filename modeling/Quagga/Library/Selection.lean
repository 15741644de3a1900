import Mathlib.Data.List.Induction
import Mathlib.Data.List.Perm.Basic
import Mathlib.Data.Prod.Lex

/-!
# Selecting one candidate by pairwise comparison

A decision process that walks a list once and keeps the better of the incumbent and the
next candidate is a left fold of a pairwise preference. The preference need not be an
order: it may fail to be transitive, and it may prefer neither or both of two candidates.

A candidate is a strict winner when it is preferred to every other candidate and no other
candidate is preferred to it. A strict winner is selected whatever the order of the list
(`select_eq_of_strictWinner`). Conversely, when every order of the list selects the same
candidate and no other candidate is preferred to it, that candidate is a strict winner
(`strictWinner_of_stable`). So order independence of the pass is exactly the existence of
a strict winner.

When the preference compares keys in a linear order, and different candidates have
different keys, the strict winner is the candidate with the greatest key
(`strictWinner_of_key`). A preference written as a chain of early exits is such a
comparison of keys in the lexicographic order, one step of the chain for one component
(`preferGreater_getD_lex`).

Where equal keys are possible, a pass that takes every candidate whose key is not greater than that
of the incumbent selects the last one with the least key (`lastLeast_of_select`).
-/

set_option autoImplicit false

namespace Quagga.Library

universe u v

variable {α : Type u} {κ : Type v}

/-- Keep the incumbent unless the candidate is preferred to it. -/
def keepPreferred (prefers : α → α → Bool) (best : Option α) (candidate : α) : Option α :=
  match best with
  | none => some candidate
  | some incumbent => if prefers candidate incumbent then some candidate else some incumbent

/-- One pass over the candidates, starting with no incumbent. -/
def select (prefers : α → α → Bool) (candidates : List α) : Option α :=
  candidates.foldl (keepPreferred prefers) none

/-- The candidate is preferred to every other one, and no other one is preferred to it. -/
structure StrictWinner (prefers : α → α → Bool) (candidates : List α) (winner : α) : Prop where
  mem : winner ∈ candidates
  beats : ∀ other ∈ candidates, other ≠ winner → prefers winner other = true
  unbeaten : ∀ other ∈ candidates, other ≠ winner → prefers other winner = false

variable {prefers : α → α → Bool}

@[simp] theorem keepPreferred_none (candidate : α) :
    keepPreferred prefers none candidate = some candidate := rfl

theorem keepPreferred_some_cases (prefers : α → α → Bool) (incumbent candidate : α) :
    keepPreferred prefers (some incumbent) candidate = some incumbent ∨
      keepPreferred prefers (some incumbent) candidate = some candidate := by
  unfold keepPreferred
  by_cases better : prefers candidate incumbent = true
  · exact .inr (by simp [better])
  · exact .inl (by simp [better])

theorem keepPreferred_self (prefers : α → α → Bool) (candidate : α) :
    keepPreferred prefers (some candidate) candidate = some candidate := by
  rcases keepPreferred_some_cases prefers candidate candidate with kept | taken
  · exact kept
  · exact taken

theorem keepPreferred_holds {P : α → Prop} {best : Option α} {candidate kept : α}
    (incumbentHolds : ∀ incumbent, best = some incumbent → P incumbent)
    (candidateHolds : P candidate) (result : keepPreferred prefers best candidate = some kept) :
    P kept := by
  cases best with
  | none =>
    cases result
    exact candidateHolds
  | some incumbent =>
    rcases keepPreferred_some_cases prefers incumbent candidate with same | taken
    · exact incumbentHolds kept (same.symm.trans result)
    · obtain rfl := Option.mem_unique taken result
      exact candidateHolds

/-- Once there is an incumbent, the pass ends with the incumbent or with a candidate it
visited. -/
theorem foldl_keepPreferred_mem (prefers : α → α → Bool) (candidates : List α) (incumbent : α) :
    ∃ final, candidates.foldl (keepPreferred prefers) (some incumbent) = some final ∧
      (final = incumbent ∨ final ∈ candidates) := by
  induction candidates generalizing incumbent with
  | nil => exact ⟨incumbent, rfl, .inl rfl⟩
  | cons candidate rest ih =>
    rcases keepPreferred_some_cases prefers incumbent candidate with kept | taken
    · obtain ⟨final, result, origin⟩ := ih incumbent
      refine ⟨final, by rw [List.foldl_cons, kept, result], ?_⟩
      rcases origin with same | later
      · exact .inl same
      · exact .inr (List.mem_cons_of_mem _ later)
    · obtain ⟨final, result, origin⟩ := ih candidate
      refine ⟨final, by rw [List.foldl_cons, taken, result], .inr ?_⟩
      rcases origin with same | later
      · exact same ▸ List.mem_cons_self ..
      · exact List.mem_cons_of_mem _ later

variable {candidates : List α}

theorem exists_select (prefers : α → α → Bool) (nonempty : candidates ≠ []) :
    ∃ final ∈ candidates, select prefers candidates = some final := by
  cases candidates with
  | nil => exact absurd rfl nonempty
  | cons first rest =>
    obtain ⟨final, result, origin⟩ := foldl_keepPreferred_mem prefers rest first
    refine ⟨final, ?_, by simpa [select] using result⟩
    rcases origin with same | later
    · exact same ▸ List.mem_cons_self ..
    · exact List.mem_cons_of_mem _ later

theorem select_mem {final : α} (result : select prefers candidates = some final) :
    final ∈ candidates := by
  have nonempty : candidates ≠ [] := by
    rintro rfl
    cases result
  obtain ⟨chosen, member, same⟩ := exists_select prefers nonempty
  rw [result, Option.some.injEq] at same
  exact same ▸ member

/-! ## Strict winners and order independence -/

variable {winner : α}

/-- From the moment it is the incumbent, an unbeaten candidate stays. -/
theorem foldl_keepPreferred_of_unbeaten :
    ∀ {rest : List α}, (∀ other ∈ rest, other ≠ winner → prefers other winner = false) →
      rest.foldl (keepPreferred prefers) (some winner) = some winner := by
  intro rest
  induction rest with
  | nil => exact fun _ => rfl
  | cons candidate rest ih =>
    intro unbeaten
    have stays : keepPreferred prefers (some winner) candidate = some winner := by
      by_cases same : candidate = winner
      · subst same
        exact keepPreferred_self prefers candidate
      · simp [keepPreferred, unbeaten candidate (List.mem_cons_self ..) same]
    rw [List.foldl_cons, stays]
    exact ih fun other member => unbeaten other (List.mem_cons_of_mem _ member)

/-- **A strict winner is selected, whatever the order of the list.** -/
theorem select_eq_of_strictWinner (strict : StrictWinner prefers candidates winner) :
    select prefers candidates = some winner := by
  obtain ⟨before, after, split⟩ := List.mem_iff_append.mp strict.mem
  have stays : after.foldl (keepPreferred prefers) (some winner) = some winner :=
    foldl_keepPreferred_of_unbeaten fun other member =>
      strict.unbeaten other (by simp [split, member])
  unfold select
  rw [split, List.foldl_append, List.foldl_cons]
  -- The incumbent the winner meets is either absent or one of the candidates before it.
  rcases h : before.foldl (keepPreferred prefers) none with _ | incumbent
  · exact stays
  · have member : incumbent ∈ before := select_mem h
    have taken : keepPreferred prefers (some incumbent) winner = some winner := by
      by_cases same : incumbent = winner
      · subst same
        exact keepPreferred_self prefers incumbent
      · simp [keepPreferred, strict.beats incumbent (by simp [split, member]) same]
    rw [taken, stays]

theorem StrictWinner.perm {others : List α} (strict : StrictWinner prefers candidates winner)
    (perm : candidates.Perm others) :
    StrictWinner prefers others winner where
  mem := perm.mem_iff.mp strict.mem
  beats other member := strict.beats other (perm.mem_iff.mpr member)
  unbeaten other member := strict.unbeaten other (perm.mem_iff.mpr member)

/-- **When every order of the list selects the same candidate and no other one is preferred
to it, it is a strict winner.** A candidate that meets the winner first must lose to it:
the one that is dropped never comes back. -/
theorem strictWinner_of_stable (nodup : candidates.Nodup)
    (stable : ∀ others, candidates.Perm others → select prefers others = some winner)
    (unbeaten : ∀ other ∈ candidates, other ≠ winner → prefers other winner = false) :
    StrictWinner prefers candidates winner where
  mem := select_mem (stable candidates (.refl _))
  unbeaten := unbeaten
  beats := by
    classical
    intro other member different
    have winnerMem : winner ∈ candidates := select_mem (stable candidates (.refl _))
    have inErased : winner ∈ candidates.erase other :=
      (List.mem_erase_of_ne different.symm).mpr winnerMem
    have perm : candidates.Perm (other :: winner :: (candidates.erase other).erase winner) :=
      (List.perm_cons_erase member).trans ((List.perm_cons_erase inErased).cons _)
    by_contra lost
    have result := stable _ perm
    have kept : keepPreferred prefers (some other) winner = some other := by
      simp [keepPreferred, lost]
    simp only [select, List.foldl_cons, keepPreferred_none, kept] at result
    obtain ⟨final, reached, origin⟩ := foldl_keepPreferred_mem prefers
      ((candidates.erase other).erase winner) other
    rw [result, Option.some.injEq] at reached
    rw [← reached] at origin
    rcases origin with same | later
    · exact different same.symm
    · exact ((nodup.erase other).not_mem_erase) later

/-! ## Preferences that compare keys -/

/-- **With different keys for different candidates, the greatest key is a strict winner.** -/
theorem strictWinner_of_key [LinearOrder κ] (key : α → κ) (compares : ∀ first ∈ candidates, ∀
    second ∈ candidates, prefers first second = decide (key second ≤ key first)) (injective : ∀
    first ∈ candidates, ∀ second ∈ candidates, key first = key second → first = second)
    (member : winner ∈ candidates) (greatest : ∀ other ∈ candidates, key other ≤ key winner) :
    StrictWinner prefers candidates winner where
  mem := member
  beats other otherMem _ := by
    rw [compares winner member other otherMem]
    exact decide_eq_true (greatest other otherMem)
  unbeaten other otherMem different := by
    rw [compares other otherMem winner member, decide_eq_false_iff_not]
    intro atLeast
    exact different (injective other otherMem winner member
      (le_antisymm (greatest other otherMem) atLeast))

/-- The last one of the candidates with the least key. -/
def LastLeast [LinearOrder κ] (key : α → κ) (candidates : List α) (winner : α) : Prop :=
  ∃ before after, candidates = before ++ winner :: after ∧
    (∀ other ∈ before, key winner ≤ key other) ∧ ∀ other ∈ after, key winner < key other

theorem LastLeast.mem [LinearOrder κ] {key : α → κ} (lastLeast : LastLeast key candidates winner) :
    winner ∈ candidates := by
  obtain ⟨before, after, rfl, -⟩ := lastLeast
  exact List.mem_append_right _ (List.mem_cons_self ..)

theorem LastLeast.unique [LinearOrder κ] {key : α → κ} {first second : α}
    (one : LastLeast key candidates first) (two : LastLeast key candidates second) :
    first = second := by
  obtain ⟨before, after, rfl, least, last⟩ := one
  obtain ⟨before', after', split, least', last'⟩ := two
  rcases List.append_eq_append_iff.mp split with ⟨between, front, back⟩ | ⟨between, front, back⟩
  · cases between with
    | nil => exact (List.cons.inj back).1
    | cons head tail =>
      obtain ⟨rfl, rfl⟩ := List.cons.inj back
      have above := last second (by simp)
      exact absurd (least' first (by simp [front])) (not_le_of_gt above)
  · cases between with
    | nil => exact (List.cons.inj back).1.symm
    | cons head tail =>
      obtain ⟨rfl, rfl⟩ := List.cons.inj back
      have above := last' first (by simp)
      exact absurd (least second (by simp [front])) (not_le_of_gt above)

theorem LastLeast.filter [LinearOrder κ] {key : α → κ} (lastLeast : LastLeast key candidates winner)
    {p : α → Bool} (kept : p winner = true) : LastLeast key (candidates.filter p) winner := by
  obtain ⟨before, after, rfl, least, last⟩ := lastLeast
  refine ⟨before.filter p, after.filter p, ?_, fun other member => ?_, fun other member => ?_⟩
  · rw [List.filter_append, List.filter_cons_of_pos kept]
  · exact least other (List.mem_of_mem_filter member)
  · exact last other (List.mem_of_mem_filter member)

/-- The winner for another key that orders it and the other candidates in the same way. -/
theorem LastLeast.key {κ' : Type*} [LinearOrder κ] [LinearOrder κ'] {key : α → κ} {key' : α → κ'}
    (lastLeast : LastLeast key candidates winner)
    (le : ∀ other ∈ candidates, key winner ≤ key other → key' winner ≤ key' other)
    (lt : ∀ other ∈ candidates, key winner < key other → key' winner < key' other) :
    LastLeast key' candidates winner := by
  obtain ⟨before, after, rfl, least, last⟩ := lastLeast
  exact ⟨before, after, rfl, fun other member => le other (by simp [member]) (least other member),
    fun other member => lt other (by simp [member]) (last other member)⟩

/-- **A pass that takes every candidate whose key is not greater selects the last one with the least
key.** -/
theorem lastLeast_of_select [LinearOrder κ] (key : α → κ) (compares : ∀ candidate incumbent,
    prefers candidate incumbent = decide (key candidate ≤ key incumbent)) :
    ∀ {winner : α}, select prefers candidates = some winner →
      LastLeast key candidates winner := by
  induction candidates using List.reverseRecOn with
  | nil => exact fun result => nomatch result
  | append_singleton candidates candidate ih =>
    intro winner result
    rw [select, List.foldl_concat, ← select] at result
    cases earlier : select prefers candidates with
    | none =>
      rw [earlier] at result
      cases result
      have empty : candidates = [] := by
        by_contra nonempty
        obtain ⟨final, -, some⟩ := exists_select prefers nonempty
        rw [earlier] at some
        cases some
      exact ⟨[], [], by rw [empty], by simp, by simp⟩
    | some incumbent =>
      obtain ⟨before, after, split, least, last⟩ := ih earlier
      rw [earlier, keepPreferred, compares] at result
      by_cases lower : key candidate ≤ key incumbent
      · rw [decide_eq_true lower] at result
        cases result
        refine ⟨candidates, [], rfl, fun other member => ?_, by simp⟩
        rw [split, List.mem_append, List.mem_cons] at member
        rcases member with member | rfl | member
        · exact lower.trans (least other member)
        · exact lower
        · exact lower.trans (last other member).le
      · rw [decide_eq_false lower] at result
        cases result
        refine ⟨before, after ++ [candidate], by rw [split, List.append_assoc, List.cons_append],
          least, fun other member => ?_⟩
        rcases List.mem_append.mp member with member | member
        · exact last other member
        · rw [List.mem_singleton.mp member]
          exact lt_of_not_ge lower

/-- One early exit of a comparison chain: the greater component wins, the smaller one loses,
and equal ones leave the decision to the rest of the chain. -/
def preferGreater {β : Type*} [LinearOrder β] (old new : β) : Option Bool :=
  if old < new then some true else if new < old then some false else none

/-- The exit in which the smaller component wins. -/
def preferLower {β : Type*} [LinearOrder β] (old new : β) : Option Bool :=
  preferGreater (OrderDual.toDual old) (OrderDual.toDual new)

@[simp] theorem preferLower_self {β : Type*} [LinearOrder β] (same : β) :
    preferLower same same = none := by
  simp [preferLower, preferGreater]

/-- An early exit is one component of the lexicographic order; what comes after it matters only
when it does not exit. -/
theorem preferGreater_getD_lex_of_eq {β γ : Type*} [LinearOrder β] [LinearOrder γ] {old new : β}
    {oldRest newRest : γ} {rest : Bool} (later : old = new → rest = decide (oldRest ≤ newRest)) :
    (preferGreater old new).getD rest =
      decide (toLex (old, oldRest) ≤ toLex (new, newRest)) := by
  rw [preferGreater]
  rcases lt_trichotomy old new with less | same | greater
  · simp [less, Prod.Lex.toLex_le_toLex]
  · subst same
    simp [later rfl, Prod.Lex.toLex_le_toLex]
  · simp [greater, greater.not_gt, greater.ne', Prod.Lex.toLex_le_toLex]

/-- **An early exit is one component of the lexicographic order.** -/
theorem preferGreater_getD_lex {β γ : Type*} [LinearOrder β] [LinearOrder γ] {old new : β}
    {oldRest newRest : γ} {rest : Bool} (later : rest = decide (oldRest ≤ newRest)) :
    (preferGreater old new).getD rest =
      decide (toLex (old, oldRest) ≤ toLex (new, newRest)) :=
  preferGreater_getD_lex_of_eq fun _ => later

theorem preferGreater_getD_true {β : Type*} [LinearOrder β] (old new : β) :
    (preferGreater old new).getD true = decide (old ≤ new) := by
  rw [preferGreater]
  rcases lt_trichotomy old new with less | same | greater
  · simp [less, less.le]
  · simp [same]
  · simp [greater, greater.not_gt]

end Quagga.Library
