import Mathlib.Data.Int.Order.Basic
import Quagga.Library.Histories

/-!
# Applying route-maps

A route-map is a list of entries. An entry whose match clauses all match permits or denies; one that
permits runs its set clauses, may call another route-map, and then ends the map, goes on with the
next entry or jumps to a later one.

Calls may form cycles. `route_map_apply` counts how deep it is in a static variable: it is
incremented before a call and decremented after it, and where it is over the limit the object is
denied. There the variable is also set to zero, while all the calls around still decrement it. So
after an application that came to the limit the variable is negative, and the next one may go deeper
by as much (`looping_grows`).

`applyWithin` is what a route-map does to an object if its calls nest at most so many deep. Within
the limit `route_map_apply` does just that (`routeMapApply_follows`), and the nesting stays bounded
over a sequence of applications exactly if all but the last one keep within the limit
(`nesting_bounded_iff`).

Without calls the entries that are visited form a path, on which the object changes entry by entry
(`walkedPath`). A path on which an entry matches, but which runs off the end of the list, is denied
all the same; only a jump keeps the result (`routeMapApplyTop_outcome_iff`).
-/

set_option autoImplicit false

namespace Quagga.Lib

open Library

/-! ## Route-maps -/

/-- `route_map_result_t`. -/
inductive RouteMapResult where
  | matched
  | denymatch
  | nomatch
  | error
  | okay
  deriving DecidableEq

/-- `enum route_map_type`. -/
inductive RouteMapType where
  | permit
  | deny
  | any
  deriving DecidableEq

/-- `route_map_end_t`, with the preference that a jump goes to. -/
inductive RouteMapEnd where
  | exit
  | goto (nextpref : Int)
  | next
  deriving DecidableEq

variable {ν α κ : Type}

/-- `struct route_map_index`. Rules are what their functions do to an object. -/
structure RouteMapIndex (ν α : Type) where
  pref : Int
  type : RouteMapType
  exitpolicy : RouteMapEnd
  nextrm : Option ν
  matchList : List (α → RouteMapResult)
  setList : List (α → RouteMapResult × α)

/-- `struct route_map`: its entries. -/
structure RouteMap (ν α : Type) where
  indices : List (RouteMapIndex ν α)

/-- `route_map_apply_match`. A list without rules matches. -/
def routeMapApplyMatch : List (α → RouteMapResult) → α → RouteMapResult
  | [], _ => .matched
  | rule :: rest, object =>
    if rule object ≠ .matched then rule object else routeMapApplyMatch rest object

/-- The set clauses of an entry, with the last result. -/
def applySets (setList : List (α → RouteMapResult × α)) (ret : RouteMapResult) (object : α) :
    RouteMapResult × α :=
  setList.foldl (fun done rule => rule done.2) (ret, object)

section Loop

variable (maps : ν → Option (RouteMap ν α))
  (call : RouteMap ν α → α × κ → Option (RouteMapResult × α × κ))

/-- Apply the map that an index calls. -/
def callNext (nextrm : Option ν) (ret : RouteMapResult) (s : α × κ) :
    Option (RouteMapResult × α × κ) :=
  match nextrm.bind maps with
  | none => some (ret, s)
  | some map => call map s

/-- The loop of `route_map_apply` over the entries. A jump skips the entries with a lower preference,
and the result so far is returned if there is no other one. -/
def indexLoop : Option (Int × RouteMapResult) → List (RouteMapIndex ν α) → α × κ →
    Option (RouteMapResult × α × κ)
  | none, [], s => some (.denymatch, s)
  | some (_, ret), [], s => some (ret, s)
  | jump, index :: rest, s =>
    if (jump.any fun target => index.pref < target.1) then indexLoop jump rest s
    else if routeMapApplyMatch index.matchList s.1 ≠ .matched then indexLoop none rest s
    else
      match index.type with
      | .deny => some (.denymatch, s)
      | .any => indexLoop none rest s
      | .permit => do
          let (ret, object) := applySets index.setList .matched s.1
          let (ret, s) ← callNext maps call index.nextrm ret (object, s.2)
          if index.nextrm.isSome ∧ ret = .denymatch then return (ret, s)
          match index.exitpolicy with
          | .exit => return (ret, s)
          | .next => indexLoop none rest s
          | .goto nextpref => indexLoop (some (nextpref, ret)) rest s

end Loop

/-! ## Counting the calls -/

/-- `RMAP_RECURSION_LIMIT`. -/
def rmapRecursionLimit : Nat := 10

/-- The static variable of `route_map_apply`, and how deep the calls of the function have been
nested so far. -/
structure RmapStatic where
  recursion : Int
  deepest : Nat
  deriving DecidableEq

/-- `route_map_apply`, for calls that nest at most so many deep. -/
def routeMapApply (maps : ν → Option (RouteMap ν α)) :
    Nat → Nat → Option (RouteMap ν α) → α × RmapStatic → Option (RouteMapResult × α × RmapStatic)
  | 0, _, _, _ => none
  | fuel + 1, depth, map, (object, static) =>
    let static := { static with deepest := max static.deepest depth }
    if static.recursion > (rmapRecursionLimit : Int) then
      some (.denymatch, object, { static with recursion := 0 })
    else
      match map with
      | none => some (.denymatch, object, static)
      | some map =>
        indexLoop maps
          (fun nextrm (object, static) => do
            let (ret, object, static) ← routeMapApply maps fuel (depth + 1) (some nextrm)
              (object, { static with recursion := static.recursion + 1 })
            return (ret, object, { static with recursion := static.recursion - 1 }))
          none map.indices (object, static)

/-- What a route-map does to an object if its calls nest at most so many deep, itself included. -/
def applyWithin (maps : ν → Option (RouteMap ν α)) :
    Nat → RouteMap ν α → α × Unit → Option (RouteMapResult × α × Unit)
  | 0, _, _ => none
  | depth + 1, map, s => indexLoop maps (applyWithin maps depth) none map.indices s

/-- The result of a call with a static variable: what the route-map does, if its calls do not nest
too deep, and else that the object is denied, with other values of the variable and the depth. -/
def Follows (within : Option (RouteMapResult × α × Unit)) (static : RmapStatic) (hit : Int)
    (deep : Nat) (result : Option (RouteMapResult × α × RmapStatic)) : Prop :=
  match within with
  | some (ret, object, ()) => ∃ static', result = some (ret, object, static') ∧
      static'.recursion = static.recursion ∧ static.deepest ≤ static'.deepest ∧
      static'.deepest ≤ max static.deepest deep
  | none => ∃ object static', result = some (.denymatch, object, static') ∧
      static'.recursion = hit ∧ static'.deepest = max static.deepest deep

section Follows

variable {maps : ν → Option (RouteMap ν α)} {hit : Int} {deep : Nat}

theorem Follows.earlier {within : Option (RouteMapResult × α × Unit)} {static static' : RmapStatic}
    {result : Option (RouteMapResult × α × RmapStatic)} (same : static'.recursion = static.recursion)
    (lower : static.deepest ≤ static'.deepest) (upper : static'.deepest ≤ max static.deepest deep)
    (follows : Follows within static' hit deep result) : Follows within static hit deep result := by
  cases within with
  | some done =>
    obtain ⟨last, returned, recursion, above, below⟩ := follows
    exact ⟨last, returned, recursion.trans same, Nat.le_trans lower above, by omega⟩
  | none =>
    obtain ⟨object, last, returned, recursion, deepest⟩ := follows
    exact ⟨object, last, returned, recursion, by omega⟩

theorem Follows.refl (ret : RouteMapResult) (object : α) (static : RmapStatic) :
    Follows (some (ret, object, ())) static hit deep (some (ret, object, static)) :=
  ⟨static, rfl, rfl, Nat.le_refl _, Nat.le_max_left _ _⟩

variable {call : RouteMap ν α → α × RmapStatic → Option (RouteMapResult × α × RmapStatic)}
  {pure : RouteMap ν α → α × Unit → Option (RouteMapResult × α × Unit)} {level : Int}

/-- **A loop over entries follows what they do if its calls follow**, since a call that comes to the
limit denies the object and ends the loop. -/
theorem indexLoop_follows
    (calls : ∀ map object static, static.recursion = level →
      Follows (pure map (object, ())) static hit deep (call map (object, static)))
    (indices : List (RouteMapIndex ν α)) : ∀ jump object static, static.recursion = level →
      Follows (indexLoop maps pure jump indices (object, ())) static hit deep
        (indexLoop maps call jump indices (object, static)) := by
  induction indices with
  | nil =>
    rintro (- | ⟨nextpref, ret⟩) object static -
    · exact Follows.refl _ _ _
    · exact Follows.refl _ _ _
  | cons index rest ih =>
    intro jump object static here
    rw [indexLoop, indexLoop]
    by_cases skips : (jump.any fun target => index.pref < target.1) = true
    · rw [if_pos skips, if_pos skips]
      exact ih jump object static here
    split_ifs with misses
    · exact ih none object static here
    cases index.type with
    | deny => exact Follows.refl _ _ _
    | any => exact ih none object static here
    | permit =>
      dsimp only
      generalize applySets index.setList .matched object = sets
      have called : Follows (callNext maps pure index.nextrm sets.1 (sets.2, ())) static hit deep
          (callNext maps call index.nextrm sets.1 (sets.2, static)) := by
        unfold callNext
        cases index.nextrm.bind maps with
        | none => exact Follows.refl _ _ _
        | some map => exact calls map sets.2 static here
      cases after : callNext maps pure index.nextrm sets.1 (sets.2, ()) with
      | none =>
        rw [after] at called
        obtain ⟨last, static', returned, recursion, deepest⟩ := called
        have named : index.nextrm.isSome := by
          cases named : index.nextrm with
          | none => rw [named] at after; cases after
          | some name => rfl
        rw [returned]
        exact ⟨last, static', if_pos ⟨named, rfl⟩, recursion, deepest⟩
      | some done =>
        obtain ⟨ret, object', ⟨⟩⟩ := done
        rw [after] at called
        obtain ⟨static', returned, recursion, above, below⟩ := called
        rw [returned]
        simp only [Option.bind_eq_bind, Option.bind_some]
        refine Follows.earlier recursion above below ?_
        split_ifs with denied
        · exact Follows.refl _ _ _
        cases index.exitpolicy with
        | exit => exact Follows.refl _ _ _
        | next => exact ih none object' static' (recursion.trans here)
        | goto nextpref =>
          exact ih (some (nextpref, ret)) object' static' (recursion.trans here)

variable {static : RmapStatic}

/-- The static variable is incremented before a call and decremented after it. -/
theorem Follows.around {within : Option (RouteMapResult × α × Unit)}
    {result : Option (RouteMapResult × α × RmapStatic)}
    (follows : Follows within { static with recursion := static.recursion + 1 } hit deep result) :
    Follows within static (hit - 1) deep (do
      let (ret, object, static) ← result
      return (ret, object, { static with recursion := static.recursion - 1 })) := by
  cases within with
  | some done =>
    obtain ⟨last, rfl, recursion, above, below⟩ := follows
    refine ⟨_, rfl, ?_, above, below⟩
    dsimp only at recursion ⊢
    omega
  | none =>
    obtain ⟨object, last, rfl, recursion, deepest⟩ := follows
    exact ⟨object, _, rfl, by rw [recursion], deepest⟩

variable (maps : ν → Option (RouteMap ν α))

/-- **`route_map_apply` follows what the route-map does** up to the depth that the static variable
leaves, and at that depth the variable is set to zero before all the calls around decrement it. -/
theorem routeMapApply_follows (left : Nat) :
    ∀ (fuel depth : Nat) (map : RouteMap ν α) (object : α) (static : RmapStatic), left < fuel →
      static.recursion + (left : Int) = (rmapRecursionLimit : Int) + 1 →
      Follows (applyWithin maps left map (object, ())) static (-(left : Int)) (depth + left)
        (routeMapApply maps fuel depth (some map) (object, static)) := by
  induction left with
  | zero =>
    rintro (- | fuel) depth map object static enough here
    · exact absurd enough (Nat.not_lt_zero _)
    · have excess : static.recursion > (rmapRecursionLimit : Int) := by omega
      exact ⟨object, _, if_pos excess, rfl, rfl⟩
  | succ left ih =>
    rintro (- | fuel) depth map object static enough here
    · exact absurd enough (Nat.not_lt_zero _)
    have under : ¬ static.recursion > (rmapRecursionLimit : Int) := by omega
    rw [routeMapApply]
    rw [if_neg under]
    let entered : RmapStatic := { static with deepest := max static.deepest depth }
    have lower : static.deepest ≤ entered.deepest := Nat.le_max_left _ _
    have upper : entered.deepest ≤ max static.deepest (depth + (left + 1)) := by
      dsimp only [entered]
      omega
    refine Follows.earlier (rfl : entered.recursion = static.recursion) lower upper
      (indexLoop_follows (fun nextrm object' inner level => ?_) map.indices none object entered rfl)
    have level : inner.recursion = static.recursion := level
    have nested := ih fuel (depth + 1) nextrm object' { inner with recursion := inner.recursion + 1 }
      (by omega) (by dsimp only; omega)
    have hit : -((left + 1 : Nat) : Int) = -(left : Int) - 1 := by omega
    have deep : depth + (left + 1) = depth + 1 + left := by omega
    rw [hit, deep]
    exact nested.around

/-- A call of the function at the outermost level. -/
structure TopCall (ν α : Type) where
  map : Option (RouteMap ν α)
  object : α

theorem routeMapApply_none (fuel depth : Nat) (object : α)
    (under : ¬ static.recursion > (rmapRecursionLimit : Int)) :
    routeMapApply maps (fuel + 1) depth none (object, static) =
      some (.denymatch, object, { static with deepest := max static.deepest depth }) :=
  if_neg under

/-- There is always an end. -/
theorem routeMapApply_isSome (called : TopCall ν α)
    (static : RmapStatic) :
    (routeMapApply maps ((rmapRecursionLimit + 1 - static.recursion).toNat + 1) 1 called.map
      (called.object, static)).isSome := by
  by_cases excess : static.recursion > (rmapRecursionLimit : Int)
  · exact congrArg Option.isSome (if_pos excess)
  cases called.map with
  | none =>
    rw [routeMapApply_none maps _ 1 _ excess]
    rfl
  | some map =>
    have follows := routeMapApply_follows maps (rmapRecursionLimit + 1 - static.recursion).toNat
      _ 1 map called.object static (Nat.lt_succ_self _) (by omega)
    cases within : applyWithin maps (rmapRecursionLimit + 1 - static.recursion).toNat map
        (called.object, ()) with
    | some done =>
      rw [within] at follows
      obtain ⟨static', returned, -⟩ := follows
      rw [returned]
      rfl
    | none =>
      rw [within] at follows
      obtain ⟨object, static', returned, -⟩ := follows
      rw [returned]
      rfl

/-- `route_map_apply` at the outermost level. -/
def routeMapApplyTop (maps : ν → Option (RouteMap ν α)) (static : RmapStatic)
    (called : TopCall ν α) : RouteMapResult × α × RmapStatic :=
  (routeMapApply maps ((rmapRecursionLimit + 1 - static.recursion).toNat + 1) 1 called.map
    (called.object, static)).get (routeMapApply_isSome maps called static)

end Follows

/-! ## Sequences of applications -/

section Sequences

variable (maps : ν → Option (RouteMap ν α))

/-- What an application at the outermost level does to the static variable. -/
def topStep (static : RmapStatic) (called : TopCall ν α) : RmapStatic :=
  (routeMapApplyTop maps static called).2.2

/-- The variable before the first application. -/
def rmapInit : RmapStatic := { recursion := 0, deepest := 0 }

/-- The calls of an application nest at most so many deep. -/
def NestsWithin (depth : Nat) (called : TopCall ν α) : Prop :=
  ∀ map, called.map = some map → (applyWithin maps depth map (called.object, ())).isSome

/-- The static counter is zero. -/
def StartsAtZero (static : RmapStatic) (_ : TopCall ν α) : Prop := static.recursion = 0

/-- The function was never nested deeper than the limit allows. -/
def ShallowSoFar (static : RmapStatic) : Prop := static.deepest ≤ rmapRecursionLimit + 2

variable {maps} {static : RmapStatic} {called : TopCall ν α} {left : Nat}
  (here : static.recursion + (left : Int) = (rmapRecursionLimit : Int) + 1)

include here in
variable (maps called) in
theorem routeMapApplyTop_eq : routeMapApply maps (left + 1) 1 called.map (called.object, static) =
    some (routeMapApplyTop maps static called) := by
  have same : (rmapRecursionLimit + 1 - static.recursion).toNat = left := by omega
  rw [routeMapApplyTop, Option.some_get, same]

include here in
/-- An application that keeps within what the variable leaves does not change the variable. -/
theorem topStep_within (within : NestsWithin maps left called) (pos : 0 < left) :
    (topStep maps static called).recursion = static.recursion ∧
      (topStep maps static called).deepest ≤ max static.deepest (1 + left) := by
  have equal := routeMapApplyTop_eq maps called here
  cases given : called.map with
  | none =>
    rw [given, routeMapApply_none maps left 1 _ (by omega)] at equal
    rw [topStep, ← Option.some.inj equal]
    exact ⟨rfl, by dsimp only; omega⟩
  | some map =>
    have follows := routeMapApply_follows maps left (left + 1) 1 map called.object static
      (Nat.lt_succ_self _) here
    obtain ⟨⟨ret, object, ⟨⟩⟩, done⟩ := Option.isSome_iff_exists.mp (within map given)
    rw [done, ← given, equal] at follows
    obtain ⟨static', returned, recursion, -, below⟩ := follows
    rw [topStep, Option.some.inj returned]
    exact ⟨recursion, below⟩

include here in
/-- An application that comes to the limit leaves the variable at less than it was. -/
theorem topStep_beyond (beyond : ¬ NestsWithin maps left called) :
    topStep maps static called =
      { recursion := -(left : Int), deepest := max static.deepest (1 + left) } := by
  obtain ⟨map, given, none⟩ : ∃ map, called.map = some map ∧
      applyWithin maps left map (called.object, ()) = none := by
    simpa [NestsWithin] using beyond
  have equal := routeMapApplyTop_eq maps called here
  have follows := routeMapApply_follows maps left (left + 1) 1 map called.object static
    (Nat.lt_succ_self _) here
  rw [none, ← given, equal] at follows
  obtain ⟨object, static', returned, recursion, deepest⟩ := follows
  rw [topStep, Option.some.inj returned, ← recursion, ← deepest]

variable (maps) in
/-- **Over a sequence of applications the static variable is zero at each start and the nesting is
bounded exactly if all of them but the last keep within the limit.** -/
theorem nesting_bounded_iff (history : List (TopCall ν α)) :
    EachMeets (topStep maps) rmapInit StartsAtZero history ∧
        Throughout (topStep maps) rmapInit ShallowSoFar history ↔
      ∀ before called later, history = before ++ called :: later → later ≠ [] →
        NestsWithin maps (rmapRecursionLimit + 1) called := by
  constructor
  · rintro ⟨zero, -⟩ before called later split more
    by_contra beyond
    obtain ⟨next, rest, rfl⟩ := List.exists_cons_of_ne_nil more
    have start : (afterAll (topStep maps) rmapInit before).recursion = 0 := zero split
    have after := topStep_beyond (by rw [start]; rfl) beyond
    have again : history = (before ++ [called]) ++ next :: rest := by
      rw [split, List.append_assoc, List.singleton_append]
    have zero' : (afterAll (topStep maps) rmapInit (before ++ [called])).recursion = 0 := zero again
    rw [afterAll_concat, after] at zero'
    dsimp only at zero'
    omega
  · intro within
    -- as long as there are more applications to come, the variable is zero
    have reached : ∀ before later, history = before ++ later →
        (later ≠ [] → (afterAll (topStep maps) rmapInit before).recursion = 0) ∧
          (afterAll (topStep maps) rmapInit before).deepest ≤ rmapRecursionLimit + 2 := by
      intro before
      induction before using List.reverseRecOn with
      | nil => exact fun _ _ => ⟨fun _ => rfl, Nat.zero_le _⟩
      | append_singleton before called ih =>
        intro later split
        rw [List.append_assoc] at split
        obtain ⟨zero, shallow⟩ := ih _ split
        have start := zero (List.cons_ne_nil _ _)
        have here : (afterAll (topStep maps) rmapInit before).recursion +
            ((rmapRecursionLimit + 1 : Nat) : Int) = (rmapRecursionLimit : Int) + 1 := by
          rw [start]
          rfl
        rw [afterAll_concat]
        by_cases inside : NestsWithin maps (rmapRecursionLimit + 1) called
        · obtain ⟨recursion, deepest⟩ := topStep_within here inside (Nat.succ_pos _)
          exact ⟨fun _ => recursion.trans start, by omega⟩
        · refine ⟨fun more => absurd (within before called later split more) inside, ?_⟩
          rw [topStep_beyond here inside]
          dsimp only
          omega
    exact ⟨fun before called later split => (reached before _ split).1 (List.cons_ne_nil _ _),
      fun before later split => (reached before later split).2⟩

/-- **Each application that never comes to an end makes the next one go deeper.** -/
theorem looping_grows {map : RouteMap ν α} {object : α}
    (endless : ∀ depth, applyWithin maps depth map (object, ()) = none) (n : Nat) :
    afterAll (topStep maps) rmapInit (List.replicate (n + 1) ⟨some map, object⟩) =
      { recursion := -(((rmapRecursionLimit + 1) * (n + 1) : Nat) : Int)
        deepest := (rmapRecursionLimit + 1) * (n + 1) + 1 } := by
  have beyond : ∀ depth, ¬ NestsWithin maps depth ⟨some map, object⟩ := by
    intro depth within
    have some := within map rfl
    rw [endless] at some
    cases some
  induction n with
  | zero =>
    have here : rmapInit.recursion + ((rmapRecursionLimit + 1 : Nat) : Int) =
        (rmapRecursionLimit : Int) + 1 := rfl
    exact topStep_beyond here (beyond _)
  | succ n ih =>
    rw [List.replicate_succ', afterAll_concat, ih, Nat.mul_succ (rmapRecursionLimit + 1) (n + 1)]
    generalize (rmapRecursionLimit + 1) * (n + 1) = deep
    have here : (⟨-(deep : Int), deep + 1⟩ : RmapStatic).recursion +
        ((deep + (rmapRecursionLimit + 1) : Nat) : Int) = (rmapRecursionLimit : Int) + 1 := by
      dsimp only
      omega
    rw [topStep_beyond here (beyond _)]
    congr 1
    dsimp only
    omega

/-- A map that calls itself. -/
def selfCalling : RouteMap Unit Unit :=
  { indices := [{ pref := 10, type := .permit, exitpolicy := .exit, nextrm := some ()
                  matchList := [], setList := [] }] }

theorem selfCalling_endless (depth : Nat) :
    applyWithin (fun _ => some selfCalling) depth selfCalling ((), ()) = none := by
  induction depth with
  | zero => rfl
  | succ depth ih =>
    have called : callNext (fun _ => some selfCalling)
        (applyWithin (fun _ => some selfCalling) depth) (some ()) .matched ((), ()) = none := ih
    show Option.bind (callNext _ _ (some ()) .matched ((), ())) _ = none
    rw [called]
    rfl

/-- The second application of a route-map that calls itself starts with the variable at -11, and it
nests 23 deep. -/
theorem selfCalling_nesting :
    ¬ (EachMeets (topStep fun _ => some selfCalling) rmapInit StartsAtZero
        [⟨some selfCalling, ()⟩, ⟨some selfCalling, ()⟩] ∧
      Throughout (topStep fun _ => some selfCalling) rmapInit ShallowSoFar
        [⟨some selfCalling, ()⟩, ⟨some selfCalling, ()⟩]) := by
  rintro ⟨-, shallow⟩
  have deep := looping_grows selfCalling_endless 1
  have here := shallow.here
  rw [ShallowSoFar] at here
  rw [show [(⟨some selfCalling, ()⟩ : TopCall Unit Unit), ⟨some selfCalling, ()⟩] =
    List.replicate 2 ⟨some selfCalling, ()⟩ from rfl, deep] at here
  exact absurd here (by decide)

end Sequences

/-! ## The path through the entries -/

section Path

/-- An entry that is visited, with the object as it is then. -/
structure Visit (ν α : Type) where
  index : RouteMapIndex ν α
  object : α

namespace Visit

variable (visit : Visit ν α)

/-- The match clauses of the entry all match. -/
def Matches : Prop := routeMapApplyMatch visit.index.matchList visit.object = .matched

/-- An index that denies the route. -/
def Denies : Prop := visit.Matches ∧ visit.index.type = .deny

/-- The entry matches, permits, and does not go on with the next one. -/
def Settles : Prop :=
  visit.Matches ∧ visit.index.type = .permit ∧ visit.index.exitpolicy ≠ .next

instance : Decidable visit.Matches := inferInstanceAs (Decidable (_ = _))

/-- The object after the set clauses, which are those of a matching entry that permits. -/
def executed (object : α) : α :=
  if visit.Matches ∧ visit.index.type = .permit
  then (applySets visit.index.setList .matched object).2 else object

end Visit

/-- Where the loop goes on after the entry: from a jump to a preference or not, and with the object
as it is then. -/
def Visit.onward (visit : Visit ν α) : Option (Option Int × α) :=
  if visit.Matches then
    match visit.index.type, visit.index.exitpolicy with
    | .deny, _ => none
    | .any, _ => some (none, visit.object)
    | .permit, .exit => none
    | .permit, .next => some (none, visit.executed visit.object)
    | .permit, .goto nextpref => some (some nextpref, visit.executed visit.object)
  else some (none, visit.object)

/-- The entries that are visited if there is no call. -/
def walkedPath : Option Int → List (RouteMapIndex ν α) → α → List (Visit ν α)
  | _, [], _ => []
  | jump, index :: rest, object =>
    if jump.any (index.pref < ·) then walkedPath jump rest object
    else
      ⟨index, object⟩ :: (Visit.onward ⟨index, object⟩).elim [] fun (jump, object) =>
        walkedPath jump rest object

/-- The entry calls no other route-map, and its set clauses do not answer with a denial. -/
def Plain (index : RouteMapIndex ν α) : Prop :=
  index.nextrm = none ∧ ∀ set ∈ index.setList, ∀ object, (set object).1 ≠ .denymatch

theorem applySets_ne_denymatch {setList : List (α → RouteMapResult × α)}
    (sets : ∀ set ∈ setList, ∀ object, (set object).1 ≠ .denymatch) (object : α) :
    (applySets setList .matched object).1 ≠ .denymatch := by
  induction setList using List.reverseRecOn with
  | nil => exact nofun
  | append_singleton before set _ =>
    rw [applySets, List.foldl_append]
    exact sets set (List.mem_append_right _ List.mem_cons_self) _

/-- An entry that the loop goes on from has executed its sets, and has not denied; a result is kept
for the end of the list only if it jumps. -/
theorem Visit.onward_some {visit : Visit ν α} {jump : Option Int} {object : α}
    (onward : visit.onward = some (jump, object)) :
    visit.executed visit.object = object ∧ ¬ visit.Denies ∧ (visit.Settles ↔ jump.isSome) := by
  unfold Visit.onward at onward
  unfold Visit.executed Visit.Denies Visit.Settles
  split_ifs at onward with here
  · split at onward <;> cases onward <;> simp_all [Visit.executed]
  · cases onward
    simp [here]

theorem Visit.onward_none {visit : Visit ν α} (ends : visit.onward = none) :
    visit.index.type = .deny ∨ visit.Settles := by
  unfold Visit.onward at ends
  unfold Visit.Settles
  split_ifs at ends with here
  split at ends <;> simp_all

variable {maps : ν → Option (RouteMap ν α)}
  {call : RouteMap ν α → α × κ → Option (RouteMapResult × α × κ)}

/-- What the loop does with an entry that is not skipped. -/
theorem indexLoop_visit {index : RouteMapIndex ν α} (uncalled : index.nextrm = none)
    {jump : Option (Int × RouteMapResult)} (visited : (jump.any (index.pref < ·.1)) = false)
    (rest : List (RouteMapIndex ν α)) (object : α) (counters : κ) :
    indexLoop maps call jump (index :: rest) (object, counters) =
      let ret := (applySets index.setList .matched object).1
      (Visit.onward ⟨index, object⟩).elim
        (some (if index.type = .deny then .denymatch else ret,
          Visit.executed ⟨index, object⟩ object, counters))
        fun next => indexLoop maps call (next.1.map (·, ret)) rest (next.2, counters) := by
  simp only [indexLoop, visited, Visit.onward, Visit.executed, Visit.Matches]
  by_cases here : routeMapApplyMatch index.matchList object = .matched
  · cases index.type <;> cases index.exitpolicy <;> simp [here, uncalled, callNext]
  · simp [here]

/-- What a loop over entries returns for a path. -/
structure Walked (path : List (Visit ν α)) (object : α) (jumped : Bool) (ret : RouteMapResult)
    (object' : α) : Prop where
  executed : object' = path.foldl (fun object visit => visit.executed object) object
  denied : ∀ visit ∈ path, visit.Denies → ret = .denymatch
  permits : ret ≠ .denymatch ↔ path.getLast?.elim (jumped = true) Visit.Settles

/-- **The loop over the entries walks the path.** -/
theorem indexLoop_walked {indices : List (RouteMapIndex ν α)}
    (plain : ∀ index ∈ indices, Plain index) (counters : κ) :
    ∀ (jump : Option (Int × RouteMapResult)) (object : α),
      (∀ target ∈ jump, target.2 ≠ .denymatch) → ∃ ret object',
        indexLoop maps call jump indices (object, counters) = some (ret, object', counters) ∧
          Walked (walkedPath (jump.map Prod.fst) indices object) object jump.isSome ret object' := by
  induction indices with
  | nil =>
    rintro (- | ⟨nextpref, ret⟩) object permitted
    · exact ⟨_, object, rfl, rfl, nofun, by simp [walkedPath]⟩
    · exact ⟨_, object, rfl, rfl, nofun, by simpa [walkedPath] using permitted⟩
  | cons index rest ih =>
    intro jump object permitted
    have ih := ih fun index inside => plain index (List.mem_cons_of_mem _ inside)
    obtain ⟨uncalled, sets⟩ := plain index List.mem_cons_self
    have answer := applySets_ne_denymatch sets object
    rw [walkedPath, Option.any_map]
    cases skips : jump.any (index.pref < ·.1) with
    | true =>
      have skipped : indexLoop maps call jump (index :: rest) (object, counters) =
          indexLoop maps call jump rest (object, counters) := by
        rw [indexLoop, if_pos skips]
      rw [skipped]
      exact ih jump object permitted
    | false =>
      rw [indexLoop_visit uncalled skips, if_neg Bool.false_ne_true]
      cases onward : Visit.onward ⟨index, object⟩ with
      | none =>
        refine ⟨_, _, rfl, rfl, ?_, ?_⟩
        · rintro visit inside ⟨-, denies⟩
          obtain rfl := List.mem_singleton.mp inside
          exact if_pos denies
        · obtain denies | settles := Visit.onward_none onward
          · have denies : index.type = .deny := denies
            simp [denies, Visit.Settles]
          · have permits : index.type = .permit := settles.2.1
            simp [settles, permits, answer]
      | some next =>
        obtain ⟨executes, goes, settles⟩ := Visit.onward_some onward
        obtain ⟨ret, object', ran, walked⟩ :=
          ih (next.1.map (·, (applySets index.setList .matched object).1)) next.2 (by simp [answer])
        have target : (next.1.map (·, (applySets index.setList .matched object).1)).map Prod.fst =
            next.1 := by cases next.1 <;> rfl
        rw [target, Option.isSome_map] at walked
        refine ⟨ret, object', ran, ?_, ?_, ?_⟩
        · rw [walked.executed, Option.elim_some, List.foldl_cons, executes]
        · intro visit inside denies
          obtain rfl | inside := List.mem_cons.mp inside
          · exact absurd denies goes
          · exact walked.denied visit inside denies
        · rw [walked.permits, Option.elim_some, List.getLast?_cons]
          cases (walkedPath next.1 rest next.2).getLast? with
          | none => exact settles.symm
          | some last => exact Iff.rfl

/-- The claimed outcome is that of a path without a match, with a denial, or that is settled. -/
theorem Walked.outcome_iff {path : List (Visit ν α)} {object object' : α} {ret : RouteMapResult}
    (walked : Walked path object false ret object') :
    ((ret = .denymatch ↔ (∀ visit ∈ path, ¬ visit.Matches) ∨ ∃ visit ∈ path, visit.Denies) ∧
        object' = path.foldl (fun object visit => visit.executed object) object) ↔
      (∀ visit ∈ path, ¬ visit.Matches) ∨ (∃ visit ∈ path, visit.Denies) ∨
        ∃ last ∈ path.getLast?, last.Settles := by
  have permits : ret ≠ .denymatch ↔ ∃ last ∈ path.getLast?, last.Settles := by
    rw [walked.permits]
    cases path.getLast? <;> simp
  rw [and_iff_left walked.executed]
  by_cases settles : ∃ last ∈ path.getLast?, last.Settles
  · have permitted := permits.mpr settles
    refine iff_of_true (iff_of_false permitted ?_) (.inr (.inr settles))
    rintro (none | ⟨visit, inside, denies⟩)
    · obtain ⟨last, isLast, matched, -⟩ := settles
      exact none last (List.mem_of_getLast? isLast) matched
    · exact permitted (walked.denied visit inside denies)
  · have denied := not_not.mp (mt permits.mp settles)
    rw [iff_true_left denied, or_iff_left settles]

/-- **A route-map without calls denies exactly when no entry on its path matches or one that matches
denies, and executes the sets of the matching entries that permit, exactly when a path with a match
does not run off the end of the list:** an entry on it denies, or the last one permits without going
on with the next. -/
theorem routeMapApplyTop_outcome_iff (maps : ν → Option (RouteMap ν α)) (map : RouteMap ν α)
    (plain : ∀ index ∈ map.indices, Plain index) (object : α) (static : RmapStatic)
    (under : static.recursion ≤ (rmapRecursionLimit : Int)) :
    let path := walkedPath none map.indices object
    let result := routeMapApplyTop maps static ⟨some map, object⟩
    ((result.1 = .denymatch ↔
          (∀ visit ∈ path, ¬ visit.Matches) ∨ ∃ visit ∈ path, visit.Denies) ∧
        result.2.1 = path.foldl (fun object visit => visit.executed object) object) ↔
      (∀ visit ∈ path, ¬ visit.Matches) ∨ (∃ visit ∈ path, visit.Denies) ∨
        ∃ last ∈ path.getLast?, last.Settles := by
  have here : static.recursion + ((rmapRecursionLimit + 1 - static.recursion).toNat : Int) =
      (rmapRecursionLimit : Int) + 1 := by omega
  have equal := routeMapApplyTop_eq maps ⟨some map, object⟩ here
  rw [routeMapApply, if_neg (by simpa using under)] at equal
  obtain ⟨ret, object', ran, walked⟩ := indexLoop_walked plain _ none object nofun
  rw [ran] at equal
  rw [← Option.some.inj equal]
  exact walked.outcome_iff

/-- A route-map of entries that always match. -/
def permitting (exitpolicies : List RouteMapEnd) : RouteMap Unit Nat :=
  { indices := exitpolicies.map fun exitpolicy =>
      { pref := 10, type := .permit, exitpolicy := exitpolicy, nextrm := none, matchList := []
        setList := [fun n => (.okay, n + 1)] } }

theorem routeMapApplyTop_outcome_iff_permitting :
    let path := walkedPath none (permitting [.next, .exit]).indices 0
    let result := routeMapApplyTop (fun _ => none) rmapInit ⟨some (permitting [.next, .exit]), 0⟩
    ((result.1 = .denymatch ↔
          (∀ visit ∈ path, ¬ visit.Matches) ∨ ∃ visit ∈ path, visit.Denies) ∧
        result.2.1 = path.foldl (fun object visit => visit.executed object) 0) ↔
      (∀ visit ∈ path, ¬ visit.Matches) ∨ (∃ visit ∈ path, visit.Denies) ∨
        ∃ last ∈ path.getLast?, last.Settles :=
  routeMapApplyTop_outcome_iff _ (permitting [.next, .exit])
    (by simp [permitting, Plain]) 0 rmapInit (by decide)

/-- A route-map whose only entry matches, permits and goes on denies. -/
theorem permitting_next_denies :
    let path := walkedPath none (permitting [.next]).indices 0
    (routeMapApplyTop (fun _ => none) rmapInit ⟨some (permitting [.next]), 0⟩).1 = .denymatch ∧
      ¬ ((∀ visit ∈ path, ¬ visit.Matches) ∨ ∃ visit ∈ path, visit.Denies) := by
  refine ⟨rfl, ?_⟩
  simp [walkedPath, permitting, Visit.onward, Visit.Matches, Visit.Denies, routeMapApplyMatch]

end Path

end Quagga.Lib
