import Mathlib.Data.List.Nodup
import Mathlib.Logic.Function.Iterate
import Mathlib.Algebra.Group.Int.Defs
import Quagga.Library.Histories

/-!
# Aggregate addresses

An `aggregate-address` covers all longer prefixes below it. While there is a usable route for one of
these, the table has a route for the aggregate; with `summary-only`, the routes below are not
announced. For this an aggregate counts the routes below it, and each route counts in `suppress` the
aggregates that suppress it.

The counters are not kept one by one. Whenever a route comes or goes, `bgp_aggregate_delete` and
`bgp_aggregate_route` are called for each aggregate above it: the first takes all usable routes off
the counters, the second puts them back, without the one that goes or with the one that comes added.
For a route that comes and is in the table already, usable but not counted, this is still right: it
is taken off once too often and put back twice. It goes wrong in two cases.

* A route that was withdrawn and is announced again before it is reaped is restored first, and then
  taken off although it was not counted. The counters are one too low from then on.
* Taking a route off does not touch `suppress` while the route has no `extra`; putting it back does.
  So `suppress` is one too high for a route without `extra` that becomes usable in the table.

`bookkeeping_iff` shows that there are no other cases.

The model is the main table of one address family other than VPN, without dampening, with the routes
learned from peers and those made for aggregates. A route is known by its peer and its prefix, and a
prefix by its bits. Of the attributes of aggregates, and of the queue for `bgp_process`, nothing is
modelled. `count` is an unsigned number, which wraps around below zero; here it is an integer, and
is compared with zero only.
-/

set_option autoImplicit false

namespace Quagga.Bgpd

open Library Function

/-! ## Routes and aggregates -/

/-- A prefix is strictly below an aggregate. -/
def below (aggregate p : List Bool) : Bool := aggregate.length < p.length && aggregate.isPrefixOf p

/-- A `struct bgp_info` that was learned from a peer. Of `extra`, only `suppress` is kept. -/
structure PeerRoute (π α : Type) where
  peer : π
  p : List Bool
  attr : α
  valid : Bool
  removed : Bool
  stale : Bool
  extra : Option Int

/-- A `struct bgp_info` that was made for an aggregate. -/
structure AggregateRoute where
  valid : Bool
  removed : Bool

/-- `struct bgp_aggregate`. -/
structure BgpAggregate where
  summaryOnly : Bool
  count : Int

/-- The table, the configured aggregates, and the new route that is not in the table yet. -/
structure AggTable (π α : Type) where
  routes : List (PeerRoute π α)
  made : List Bool → List AggregateRoute
  aggregates : List Bool → Option BgpAggregate
  unlinked : Option (PeerRoute π α)

variable {π α : Type} (ri : PeerRoute π α)

namespace PeerRoute

/-- What a route is known by. -/
def key : π × List Bool := (ri.peer, ri.p)

/-- `BGP_INFO_HOLDDOWN`. -/
def holddown : Bool := !ri.valid || ri.removed

/-- `ri->extra->suppress`, which is zero without an `extra`. -/
def suppress : Int := ri.extra.getD 0

/-- `(bgp_info_extra_get (ri))->suppress++`. -/
def suppressMore : PeerRoute π α := { ri with extra := some (ri.suppress + 1) }

/-- `ri->extra->suppress--`, if there is an `extra`. -/
def suppressLess : PeerRoute π α := { ri with extra := ri.extra.map (· - 1) }

/-- The route is below the aggregate and usable. -/
def contributes (aggregate : List Bool) (ri : PeerRoute π α) : Bool :=
  below aggregate ri.p && !ri.holddown

end PeerRoute

/-- `BGP_INFO_HOLDDOWN`. -/
def AggregateRoute.holddown (ri : AggregateRoute) : Bool := !ri.valid || ri.removed

/-- The answer about the next hop of a route; the metric is zero where none is looked up. -/
structure NexthopAnswer where
  valid : Bool
  metric : Nat

variable (answer : NexthopAnswer)

/-- `bgp_nexthop_lookup`: a metric is kept in the `extra`. -/
def NexthopAnswer.look (ri : PeerRoute π α) : PeerRoute π α :=
  if answer.valid && answer.metric ≠ 0 then { ri with extra := some ri.suppress } else ri

variable (maxBitlen : Nat) (t : AggTable π α) (p : List Bool)

namespace AggTable

variable [DecidableEq π]

/-- No routes and no aggregates. -/
def empty : AggTable π α :=
  { routes := [], made := fun _ => [], aggregates := fun _ => none, unlinked := none }

variable (key : π × List Bool)

/-- The route of a peer for a prefix. -/
def find : Option (PeerRoute π α) :=
  t.routes.find? fun ri => ri.key = key

/-- Change that route. -/
def modify (change : PeerRoute π α → PeerRoute π α) : AggTable π α :=
  { t with routes := t.routes.map fun ri => if ri.key = key then change ri else ri }

/-! ## Taking off and putting back -/

/-- `bgp_aggregate_delete`. The first route of the aggregate is withdrawn. -/
def bgpAggregateDelete : AggTable π α :=
  match t.aggregates p with
  | none => t
  | some aggregate =>
    if p.length = maxBitlen then t
    else
      { t with
        routes := t.routes.map fun ri =>
          if aggregate.summaryOnly && ri.contributes p then ri.suppressLess else ri
        aggregates := update t.aggregates p
          (some { aggregate with count := aggregate.count - t.routes.countP (·.contributes p) })
        made := update t.made p
          ((t.made p).modifyHead fun _ => { valid := false, removed := true }) }

/-- `bgp_aggregate_route`: count the routes below an aggregate again and make it anew. -/
def bgpAggregateRoute (rinew del : Option (π × List Bool)) : AggTable π α :=
  match t.aggregates p with
  | none => t
  | some aggregate =>
    let counted := fun ri : PeerRoute π α => ri.contributes p && del ≠ some ri.key
    let added := fun ri : PeerRoute π α =>
      if aggregate.summaryOnly && rinew = some ri.key then ri.suppressMore else ri
    let count := aggregate.count + t.routes.countP counted + (if rinew.isSome then 1 else 0)
    { t with
      routes := t.routes.map fun ri =>
        added (if aggregate.summaryOnly && counted ri then ri.suppressMore else ri)
      unlinked := t.unlinked.map added
      aggregates := update t.aggregates p (some { aggregate with count := count })
      made := if count ≠ 0
        then update t.made p ({ valid := true, removed := false } :: t.made p)
        else t.made }

/-- The prefixes above a prefix, from the longest to the shortest. -/
def covering : List (List Bool) := (List.range p.length).reverse.map p.take

/-- What is done for an aggregate above a route. -/
def recount (rinew del : Option (π × List Bool)) (t : AggTable π α)
    (aggregate : List Bool) : AggTable π α :=
  if (t.aggregates aggregate).isSome then
    (t.bgpAggregateDelete maxBitlen aggregate).bgpAggregateRoute aggregate rinew del
  else t

/-- `bgp_aggregate_increment`. For the default route there is nothing above. -/
def bgpAggregateIncrement (ri : PeerRoute π α) : AggTable π α :=
  if ri.holddown then t
  else (covering ri.p).foldl (recount maxBitlen (some ri.key) none) t

/-- `bgp_aggregate_decrement`. -/
def bgpAggregateDecrement (del : π × List Bool) : AggTable π α :=
  (covering del.2).foldl (recount maxBitlen none (some del)) t

/-- `bgp_aggregate_add`. -/
def bgpAggregateAdd : AggTable π α :=
  if p.length = maxBitlen then t else t.bgpAggregateRoute p none none

/-! ## Operations -/

/-- `bgp_rib_remove`. -/
def bgpRibRemove : AggTable π α :=
  (t.bgpAggregateDecrement maxBitlen key).modify key fun ri =>
    { ri with removed := true, valid := false }

/-- `bgp_update_main` for a route that is in the table, and accepted. -/
def bgpUpdateKnown (attr : α) (answer : NexthopAnswer) : AggTable π α :=
  let t := t.modify key fun ri =>
    if ri.removed then { ri with removed := false, valid := true } else ri
  let t := t.modify key fun ri => { ri with stale := false }
  let t := t.bgpAggregateDecrement maxBitlen key
  let t := t.modify key fun ri =>
    { answer.look { ri with attr := attr } with valid := answer.valid }
  match t.find key with
  | some ri => t.bgpAggregateIncrement maxBitlen ri
  | none => t

/-- `bgp_update_main` for a route that is not in the table, and accepted. -/
def bgpUpdateNew (attr : α) (answer : NexthopAnswer) : AggTable π α :=
  let new : PeerRoute π α :=
    { answer.look
        { peer := key.1, p := key.2, attr := attr, valid := false, removed := false, stale := false
          extra := none } with
      valid := answer.valid }
  let t := { t with unlinked := some new }.bgpAggregateIncrement maxBitlen new
  { t with routes := t.unlinked.toList ++ t.routes, unlinked := none }

/-- `bgp_update_main`. -/
def bgpUpdateMain [DecidableEq α] (maxBitlen : Nat) (t : AggTable π α) (key : π × List Bool)
    (attr : α) (filtered : Bool) (answer : NexthopAnswer) : AggTable π α :=
  match t.find key with
  | some ri =>
    if filtered then t.bgpRibRemove maxBitlen key
    else if !ri.removed && ri.attr = attr then t.modify key fun ri => { ri with stale := false }
    else t.bgpUpdateKnown maxBitlen key attr answer
  | none => if filtered then t else t.bgpUpdateNew maxBitlen key attr answer

/-- `bgp_withdraw`. -/
def bgpWithdraw : AggTable π α :=
  if (t.find key).isSome then t.bgpRibRemove maxBitlen key else t

/-- What `bgp_scan` does for a route. -/
def bgpScanRoute (answer : NexthopAnswer) : AggTable π α :=
  match t.find key with
  | none => t
  | some bi =>
    let t := t.modify key answer.look
    if answer.valid = bi.valid then t
    else if bi.valid then
      (t.bgpAggregateDecrement maxBitlen key).modify key fun bi => { bi with valid := false }
    else
      let t := t.modify key fun bi => { bi with valid := true }
      match t.find key with
      | some bi => t.bgpAggregateIncrement maxBitlen bi
      | none => t

/-- `bgp_clear_route_node`. -/
def bgpClearRouteNode (nsf : Bool) : AggTable π α :=
  match t.find key with
  | none => t
  | some ri =>
    if nsf && !ri.stale && !ri.removed then t.modify key fun ri => { ri with stale := true }
    else t.bgpRibRemove maxBitlen key

/-- What `bgp_clear_stale_route` does for a route. -/
def bgpClearStaleRoute : AggTable π α :=
  match t.find key with
  | none => t
  | some ri => if ri.stale then t.bgpRibRemove maxBitlen key else t

/-- What `bgp_process_main` does to the routes of a node: those that were removed are reaped. -/
def bgpProcessMain : AggTable π α :=
  { t with
    routes := t.routes.filter fun ri => ¬ (ri.p = p ∧ ri.removed)
    made := update t.made p ((t.made p).filter fun ri => !ri.removed) }

/-- `bgp_aggregate_unset`. -/
def bgpAggregateUnset : AggTable π α :=
  if (t.aggregates p).isSome then
    let t := t.bgpAggregateDelete maxBitlen p
    { t with aggregates := update t.aggregates p none }
  else t

/-- `bgp_aggregate_set`, which first removes an aggregate that is there. -/
def bgpAggregateSet (summaryOnly : Bool) : AggTable π α :=
  let t := t.bgpAggregateUnset maxBitlen p
  { t with aggregates := update t.aggregates p (some ⟨summaryOnly, 0⟩) }.bgpAggregateAdd
    maxBitlen p

end AggTable

/-! ## Runs -/

/-- A prefix of the family. -/
abbrev Network (maxBitlen : Nat) := { bits : List Bool // bits.length ≤ maxBitlen }

/-- What happens to a table. -/
inductive AggEvent (maxBitlen : Nat) (π α : Type) where
  | update (peer : π) (p : Network maxBitlen) (attr : α) (filtered : Bool) (answer : NexthopAnswer)
  | withdraw (peer : π) (p : Network maxBitlen)
  | scanRoute (peer : π) (p : Network maxBitlen) (answer : NexthopAnswer)
  | clearRouteNode (peer : π) (p : Network maxBitlen) (nsf : Bool)
  | clearStaleRoute (peer : π) (p : Network maxBitlen)
  | processMain (p : Network maxBitlen)
  | aggregateSet (p : Network maxBitlen) (summaryOnly : Bool)
  | aggregateUnset (p : Network maxBitlen)

/-- One operation. -/
def aggStep {maxBitlen : Nat} [DecidableEq π] [DecidableEq α] (t : AggTable π α) :
    AggEvent maxBitlen π α → AggTable π α
  | .update peer p attr filtered answer =>
    t.bgpUpdateMain maxBitlen (peer, p.1) attr filtered answer
  | .withdraw peer p => t.bgpWithdraw maxBitlen (peer, p.1)
  | .scanRoute peer p answer => t.bgpScanRoute maxBitlen (peer, p.1) answer
  | .clearRouteNode peer p nsf => t.bgpClearRouteNode maxBitlen (peer, p.1) nsf
  | .clearStaleRoute peer p => t.bgpClearStaleRoute maxBitlen (peer, p.1)
  | .processMain p => t.bgpProcessMain p.1
  | .aggregateSet p summaryOnly => t.bgpAggregateSet maxBitlen p.1 summaryOnly
  | .aggregateUnset p => t.bgpAggregateUnset maxBitlen p.1

namespace AggTable

/-- An aggregate with `summary-only`. -/
def summaryAt : Bool := (t.aggregates p).any (·.summaryOnly)

/-- How many aggregates with `summary-only` are above a prefix. -/
def summaries : Nat := (covering p).countP t.summaryAt

/-- The table holds a usable route for the aggregate. -/
def HasMade : Prop := ∃ ri ∈ t.made p, ri.holddown = false

/-- What the counters should be. -/
structure Bookkeeping (t : AggTable π α) : Prop where
  count_eq : ∀ p aggregate, t.aggregates p = some aggregate →
    aggregate.count = t.routes.countP (·.contributes p)
  made_iff : ∀ p aggregate, t.aggregates p = some aggregate →
    (t.HasMade p ↔ 0 < t.routes.countP (·.contributes p))
  suppress_eq : ∀ ri ∈ t.routes, ri.holddown = false → ri.suppress = t.summaries ri.p

/-- A route becomes usable that has no `extra`. -/
def Bare : Prop :=
  ri.removed = false ∧ ri.valid = false ∧ ri.extra = none ∧ answer.valid = true ∧ answer.metric = 0

/-- Updates do not bring back a removed route that is below an aggregate, and neither updates nor
scans bring into use a route without `extra` that is below an aggregate with `summary-only`. -/
def Careful {maxBitlen : Nat} [DecidableEq π] (t : AggTable π α) : AggEvent maxBitlen π α → Prop
  | .update peer p attr filtered answer => filtered = false → ∀ ri, t.find (peer, p.1) = some ri →
      (ri.removed = true → ∀ q, below q p.1 = true → t.aggregates q = none) ∧
      (ri.attr ≠ attr → Bare ri answer → ∀ q, below q p.1 = true → t.summaryAt q = false)
  | .scanRoute peer p answer => ∀ ri, t.find (peer, p.1) = some ri → Bare ri answer →
      ∀ q, below q p.1 = true → t.summaryAt q = false
  | _ => True

/-! ## Prefixes above a prefix -/

variable {p : List Bool}

theorem mem_covering {q : List Bool} : q ∈ covering p ↔ below q p = true := by
  unfold covering below
  rw [Bool.and_eq_true, decide_eq_true_eq, List.isPrefixOf_iff_prefix]
  simp only [List.mem_map, List.mem_reverse, List.mem_range]
  constructor
  · rintro ⟨n, less, rfl⟩
    exact ⟨by rw [List.length_take]; omega, List.take_prefix n p⟩
  · rintro ⟨less, begins⟩
    exact ⟨q.length, less, (List.prefix_iff_eq_take.mp begins).symm⟩

theorem nodup_covering (p : List Bool) : (covering p).Nodup := by
  refine List.Nodup.map_on (fun n less m less' same => ?_) (List.nodup_reverse.mpr List.nodup_range)
  rw [List.mem_reverse, List.mem_range] at less less'
  have lengths := congrArg List.length same
  rw [List.length_take, List.length_take] at lengths
  omega

theorem summaries_pos {t : AggTable π α} {q : List Bool} (above : below q p = true)
    (summary : t.summaryAt q = true) : 0 < t.summaries p :=
  List.countP_pos_iff.mpr ⟨q, mem_covering.mpr above, summary⟩

theorem summaries_eq_zero {t : AggTable π α}
    (none : ∀ q, below q p = true → t.summaryAt q = false) : t.summaries p = 0 :=
  List.countP_eq_zero.mpr fun q inside => by simp [none q (mem_covering.mp inside)]

variable {aggregate : BgpAggregate}

/-- The aggregates above a prefix when one is configured. -/
theorem summaries_update {t t' : AggTable π α} (unset : t.aggregates p = none)
    (set : t'.aggregates = update t.aggregates p (some aggregate)) (r : List Bool) :
    t'.summaries r = t.summaries r + if aggregate.summaryOnly && below p r then 1 else 0 := by
  have others : ∀ q, q ≠ p → t'.summaryAt q = t.summaryAt q := by
    intro q other
    unfold AggTable.summaryAt
    rw [set, update_of_ne other]
  have before : t.summaryAt p = false := by rw [AggTable.summaryAt, unset]; rfl
  have after : t'.summaryAt p = aggregate.summaryOnly := by
    rw [AggTable.summaryAt, set, update_self]
    rfl
  have distinct := nodup_covering r
  have member : below p r = decide (p ∈ covering r) := by simp [mem_covering]
  rw [AggTable.summaries, AggTable.summaries, member]
  generalize covering r = above at distinct
  induction above with
  | nil => simp
  | cons q above ih =>
    rw [List.nodup_cons] at distinct
    rw [List.countP_cons, List.countP_cons, ih distinct.2]
    by_cases here : q = p
    · subst here
      simp [distinct.1, before, after]
    · rw [others q here]
      simp [Ne.symm here]
      omega

/-! ## What recounting does -/

variable (gain : Bool)

section Routes

@[simp] theorem key_suppressMore : ri.suppressMore.key = ri.key := rfl
@[simp] theorem key_suppressLess : ri.suppressLess.key = ri.key := rfl
@[simp] theorem holddown_suppressMore : ri.suppressMore.holddown = ri.holddown := rfl
@[simp] theorem contributes_suppressLess (q : List Bool) (ri : PeerRoute π α) :
    ri.suppressLess.contributes q = ri.contributes q := rfl

theorem iterate_keeps {β γ : Type} {step : β → β} {view : β → γ}
    (same : ∀ x, view (step x) = view x) (n : Nat) (x : β) : view (step^[n] x) = view x := by
  induction n with
  | zero => rfl
  | succ n ih => rw [iterate_succ_apply', same, ih]

theorem key_iterate_suppressMore (n : Nat) (ri : PeerRoute π α) :
    (PeerRoute.suppressMore^[n] ri).key = ri.key := iterate_keeps key_suppressMore n ri

theorem holddown_iterate_suppressMore (n : Nat) (ri : PeerRoute π α) :
    (PeerRoute.suppressMore^[n] ri).holddown = ri.holddown :=
  iterate_keeps holddown_suppressMore n ri

/-- What recounting does to a route that comes or goes. -/
def own (ri : PeerRoute π α) : PeerRoute π α :=
  if ri.holddown then (if gain then ri.suppressMore else ri)
  else if gain then ri.suppressLess.suppressMore.suppressMore
  else ri.suppressLess

@[simp] theorem key_own (ri : PeerRoute π α) : (own gain ri).key = ri.key := by
  unfold own
  split_ifs <;> rfl

@[simp] theorem holddown_own (ri : PeerRoute π α) : (own gain ri).holddown = ri.holddown := by
  unfold own
  split_ifs <;> rfl

@[simp] theorem key_iterate_own (n : Nat) (ri : PeerRoute π α) :
    ((own gain)^[n] ri).key = ri.key := iterate_keeps (key_own gain) n ri

@[simp] theorem holddown_iterate_own (n : Nat) (ri : PeerRoute π α) :
    ((own gain)^[n] ri).holddown = ri.holddown := iterate_keeps (holddown_own gain) n ri

theorem contributes_iterate_own {q : List Bool} (gain : Bool) (n : Nat) (ri : PeerRoute π α) :
    ((own gain)^[n] ri).contributes q = ri.contributes q := by
  unfold PeerRoute.contributes
  rw [holddown_iterate_own, show ((own gain)^[n] ri).p = ri.p from
    congrArg Prod.snd (key_iterate_own gain n ri)]

theorem p_of_key {ri : PeerRoute π α} {key : π × List Bool} (same : ri.key = key) :
    ri.p = key.2 := congrArg Prod.snd same

/-- Below an aggregate, a route contributes unless it is held down. -/
theorem contributes_of_below {q : List Bool} {ri : PeerRoute π α} {key : π × List Bool}
    (same : ri.key = key) (above : below q key.2 = true) : ri.contributes q = !ri.holddown := by
  rw [PeerRoute.contributes, p_of_key same, above, Bool.true_and]

/-- A route that is taken off and put back is as before, if it has an `extra`. -/
theorem suppressMore_suppressLess {ri : PeerRoute π α} (kept : ri.extra.isSome = true) :
    ri.suppressLess.suppressMore = ri := by
  obtain ⟨suppress, given⟩ := Option.isSome_iff_exists.mp kept
  obtain ⟨peer, p, attr, valid, removed, stale, extra⟩ := ri
  subst given
  simp [PeerRoute.suppressLess, PeerRoute.suppressMore, PeerRoute.suppress]

theorem bgpAggregateUnset_spec {t : AggTable π α} {p : List Bool}
    (given : t.aggregates p = some aggregate) :
    (t.bgpAggregateUnset maxBitlen p).aggregates = update t.aggregates p none ∧
    (t.bgpAggregateUnset maxBitlen p).routes = (if p.length = maxBitlen then t.routes
      else t.routes.map fun ri =>
        if aggregate.summaryOnly && ri.contributes p then ri.suppressLess else ri) ∧
    (t.bgpAggregateUnset maxBitlen p).made = if p.length = maxBitlen then t.made
      else update t.made p
        ((t.made p).modifyHead fun _ => { valid := false, removed := true }) := by
  have result : t.bgpAggregateUnset maxBitlen p =
      { t.bgpAggregateDelete maxBitlen p with
        aggregates := update (t.bgpAggregateDelete maxBitlen p).aggregates p none } := by
    rw [bgpAggregateUnset, given]
    rfl
  rw [result, bgpAggregateDelete, given]
  split_ifs
  · exact ⟨rfl, rfl, rfl⟩
  · exact ⟨update_idem .., rfl, rfl⟩

/-- The routes of an aggregate after it is made anew: one if anything counts, before the old ones.
-/
def remade (count : Int) (made : List AggregateRoute) : List AggregateRoute :=
  (if count ≠ 0 then [{ valid := true, removed := false }] else []) ++
    made.modifyHead fun _ => { valid := false, removed := true }

end Routes

section Recount

variable [DecidableEq π]

/-- By how much the count of an aggregate changes. -/
def change (key : π × List Bool) (t : AggTable π α) : Int :=
  if gain then 1 else -(t.routes.countP fun ri => ri.key = key && !ri.holddown : Nat)

/-- Recounting for a route that comes or goes. -/
def move (key : π × List Bool) (t : AggTable π α) (q : List Bool) : AggTable π α :=
  recount maxBitlen (if gain then some key else none) (if gain then none else some key) t q

/-- The other routes can be taken off and put back. -/
def Prepared (key : π × List Bool) (t : AggTable π α) : Prop :=
  ∀ ri ∈ t.routes, ri.key ≠ key → ri.holddown = false → ∀ q, below q ri.p = true →
    t.summaryAt q = true → ri.extra.isSome = true

/-- What recounting for the aggregates at some prefixes changes. -/
structure Moved (gain : Bool) (key : π × List Bool) (above : List (List Bool))
    (t t' : AggTable π α) : Prop where
  routes : t'.routes = t.routes.map fun ri =>
    if ri.key = key then (own gain)^[above.countP t.summaryAt] ri else ri
  unlinked : t'.unlinked = t.unlinked.map fun ri =>
    if gain ∧ ri.key = key then PeerRoute.suppressMore^[above.countP t.summaryAt] ri else ri
  aggregates : ∀ q, t'.aggregates q = (t.aggregates q).map fun aggregate =>
    if q ∈ above then { aggregate with count := aggregate.count + t.change gain key } else aggregate
  made : ∀ q, t'.made q = if q ∈ above then
    (t'.aggregates q).elim (t.made q) fun aggregate => remade aggregate.count (t.made q)
    else t.made q

variable {maxBitlen : Nat} {t t' : AggTable π α} {gain : Bool} {key : π × List Bool} {q : List Bool}

theorem countP_without (routes : List (PeerRoute π α)) (above : below q key.2 = true) :
    ((routes.countP (·.contributes q) : Nat) : Int) =
      (routes.countP fun ri => ri.contributes q && some key ≠ some ri.key : Nat) +
        (routes.countP fun ri => ri.key = key && !ri.holddown : Nat) := by
  induction routes with
  | nil => rfl
  | cons ri rest ih =>
    simp only [List.countP_cons]
    push_cast
    rw [ih]
    by_cases same : ri.key = key
    · have reach := contributes_of_below same above
      simp [same, reach]
      omega
    · have other : ¬ key = ri.key := fun eq => same eq.symm
      simp [same, other]
      omega

section Modify

variable {f : PeerRoute π α → PeerRoute π α}

theorem countP_modify {test : PeerRoute π α → Bool}
    (same : ∀ ri, ri.key = key → test (f ri) = test ri) :
    (t.modify key f).routes.countP test = t.routes.countP test := by
  rw [modify, List.countP_map]
  refine List.countP_congr fun ri _ => ?_
  simp only [comp_apply]
  split_ifs with here
  · rw [same ri here]
  · rfl

variable (same : ∀ ri, (f ri).key = ri.key)
include same

theorem key_ite (ri : PeerRoute π α) : (if ri.key = key then f ri else ri).key = ri.key := by
  split_ifs
  · exact same ri
  · rfl

theorem keys_modify : (t.modify key f).routes.map PeerRoute.key = t.routes.map PeerRoute.key := by
  rw [modify, List.map_map]
  exact List.map_congr_left fun ri _ => key_ite same ri

theorem prepared_modify (prepared : Prepared key t) : Prepared key (t.modify key f) := by
  intro ri inside other live q above summary
  obtain ⟨old, member, rfl⟩ := List.mem_map.mp inside
  by_cases here : old.key = key
  · exact absurd ((key_ite same old).trans here) other
  · rw [if_neg here] at other live above ⊢
    exact prepared old member other live q above summary

end Modify

namespace Moved

variable {above : List (List Bool)}

section

variable (moved : Moved gain key above t t')
include moved

theorem summaryAt : t'.summaryAt = t.summaryAt := by
  funext q
  unfold AggTable.summaryAt
  rw [moved.aggregates]
  cases t.aggregates q with
  | none => rfl
  | some aggregate => by_cases inside : q ∈ above <;> simp [inside]

theorem countP (test : PeerRoute π α → Bool) (same : ∀ n ri, test ((own gain)^[n] ri) = test ri) :
    t'.routes.countP test = t.routes.countP test := by
  rw [moved.routes]
  exact countP_modify fun ri _ => same _ ri

theorem change : t'.change gain key = t.change gain key := by
  unfold AggTable.change
  rw [moved.countP _ fun n ri => by rw [key_iterate_own, holddown_iterate_own]]

theorem prepared (prepared : Prepared key t) :
    Prepared key t' := by
  have changed := prepared_modify (fun ri => key_iterate_own gain (above.countP t.summaryAt) ri)
    prepared
  unfold Prepared
  rw [moved.routes, moved.summaryAt]
  exact changed

end

theorem nil : Moved gain key [] t t where
  routes := by simp
  unlinked := by cases t.unlinked <;> simp
  aggregates q := by cases t.aggregates q <;> simp
  made q := by simp

theorem cons {mid : AggTable π α} (fresh : q ∉ above) (first : Moved gain key [q] t mid)
    (rest : Moved gain key above mid t') :
    Moved gain key (q :: above) t t' where
  routes := by
    rw [rest.routes, first.routes, List.map_map]
    refine List.map_congr_left fun ri _ => ?_
    simp only [comp_apply]
    by_cases same : ri.key = key
    · rw [if_pos same, if_pos same, if_pos (by rw [key_iterate_own, same]), first.summaryAt,
        ← iterate_add_apply, List.countP_cons, List.countP_cons, List.countP_nil,
        Nat.zero_add]
    · rw [if_neg same, if_neg same, if_neg same]
  unlinked := by
    rw [rest.unlinked, first.unlinked]
    cases t.unlinked with
    | none => rfl
    | some ri =>
      simp only [Option.map_some]
      by_cases same : gain ∧ ri.key = key
      · rw [if_pos same, if_pos same, if_pos (by rw [key_iterate_suppressMore]; exact same),
          first.summaryAt, ← iterate_add_apply, List.countP_cons, List.countP_cons, List.countP_nil,
          Nat.zero_add]
      · rw [if_neg same, if_neg same, if_neg same]
  aggregates p := by
    rw [rest.aggregates, first.aggregates, first.change]
    cases t.aggregates p with
    | none => rfl
    | some aggregate =>
      by_cases here : p = q
      · subst here
        simp [fresh]
      · simp [here]
  made p := by
    rw [rest.made, first.made, rest.aggregates]
    by_cases here : p = q
    · subst here
      cases t.aggregates p <;> simp [fresh]
    · cases t.aggregates p <;> simp [here]

end Moved

theorem moved_of_none (unset : t.aggregates q = none) : Moved gain key [q] t t where
  routes := by simp [AggTable.summaryAt, unset]
  unlinked := by cases t.unlinked <;> simp [AggTable.summaryAt, unset]
  aggregates p := by
    by_cases here : p = q
    · subst here
      simp [unset]
    · cases t.aggregates p <;> simp [here]
  made p := by
    by_cases here : p = q
    · subst here
      simp [unset]
    · simp [here]

/-- A route after taking off and putting back. -/
def recountRoute (summaryOnly : Bool) (q : List Bool) (rinew del : Option (π × List Bool))
    (ri : PeerRoute π α) : PeerRoute π α :=
  let taken := if summaryOnly && ri.contributes q then ri.suppressLess else ri
  let back := if summaryOnly && (taken.contributes q && del ≠ some taken.key)
    then taken.suppressMore else taken
  if summaryOnly && rinew = some back.key then back.suppressMore else back

theorem recount_eq {rinew del : Option (π × List Bool)}
    (given : t.aggregates q = some aggregate) (strict : q.length ≠ maxBitlen) :
    let count := aggregate.count - t.routes.countP (·.contributes q) +
      (t.routes.countP fun ri => ri.contributes q && del ≠ some ri.key) +
      (if rinew.isSome then 1 else 0)
    recount maxBitlen rinew del t q =
      { routes := t.routes.map (recountRoute aggregate.summaryOnly q rinew del)
        unlinked := t.unlinked.map fun ri =>
          if aggregate.summaryOnly && rinew = some ri.key then ri.suppressMore else ri
        aggregates := update t.aggregates q (some { aggregate with count := count })
        made := update t.made q (remade count (t.made q)) } := by
  intro count
  have counted : (t.routes.map fun ri =>
      if aggregate.summaryOnly && ri.contributes q then ri.suppressLess else ri).countP
        (fun ri => ri.contributes q && del ≠ some ri.key) =
      t.routes.countP fun ri => ri.contributes q && del ≠ some ri.key := by
    rw [List.countP_map]
    refine List.countP_congr fun ri _ => ?_
    simp only [comp_apply]
    split_ifs
    · rw [contributes_suppressLess, key_suppressLess]
    · rfl
  rw [recount, given, Option.isSome_some, bgpAggregateDelete, given]
  dsimp only
  rw [if_neg strict, bgpAggregateRoute]
  dsimp only
  rw [update_self]
  dsimp only
  rw [counted, List.map_map]
  simp only [update_idem, update_self, remade]
  by_cases zero : count = 0
  · rw [if_neg (not_not.mpr zero), if_neg (not_not.mpr zero)]
    rfl
  · rw [if_pos zero, if_pos zero]
    rfl

/-- Recounting leaves the routes that stay as they are. -/
theorem recountRoute_eq {summaryOnly : Bool} (above : below q key.2 = true) (ri : PeerRoute π α)
    (kept : ri.key ≠ key → ri.contributes q = true → summaryOnly = true → ri.extra.isSome = true) :
    recountRoute summaryOnly q (if gain then some key else none) (if gain then none else some key)
        ri =
      if ri.key = key then (own gain)^[if summaryOnly then 1 else 0] ri else ri := by
  unfold recountRoute
  cases summaryOnly with
  | false => simp
  | true =>
    by_cases same : ri.key = key
    · have reach := contributes_of_below same above
      cases gain <;> cases held : ri.holddown <;> simp [reach, held, same, own]
    · have other : ¬ key = ri.key := fun eq => same eq.symm
      cases reach : ri.contributes q with
      | false => cases gain <;> simp [reach, same, other]
      | true =>
        have restored := suppressMore_suppressLess (kept same reach rfl)
        cases gain <;> simp [reach, same, other, restored]

/-- **Recounting for one aggregate** changes the route that comes or goes, and the count. -/
theorem moved_move (above : below q key.2 = true) (short : key.2.length ≤ maxBitlen)
    (prepared : Prepared key t) : Moved gain key [q] t (move maxBitlen gain key t q) := by
  cases given : t.aggregates q with
  | none =>
    have same : move maxBitlen gain key t q = t := by
      rw [move, recount, given]
      rfl
    rw [same]
    exact moved_of_none given
  | some aggregate =>
    have strict : q.length ≠ maxBitlen := by
      unfold below at above
      rw [Bool.and_eq_true, decide_eq_true_eq] at above
      omega
    have summary : t.summaryAt q = aggregate.summaryOnly := by
      rw [AggTable.summaryAt, given]
      rfl
    have times : [q].countP t.summaryAt = if aggregate.summaryOnly then 1 else 0 := by
      rw [List.countP_cons, List.countP_nil, summary, Nat.zero_add]
    have count : aggregate.count - t.routes.countP (·.contributes q) +
        (t.routes.countP fun ri =>
          ri.contributes q && (if gain then none else some key) ≠ some ri.key) +
        (if (if gain then some key else none).isSome then 1 else 0) =
        aggregate.count + t.change gain key := by
      cases gain with
      | true => simp [AggTable.change]
      | false =>
        have fewer := countP_without t.routes above
        simp only [AggTable.change, Bool.false_eq_true, if_false, Option.isSome_none]
        omega
    rw [move, recount_eq given strict, count]
    refine ⟨?_, ?_, fun p => ?_, fun p => ?_⟩
    · rw [times]
      refine List.map_congr_left fun ri inside =>
        recountRoute_eq above ri fun other reach only => ?_
      unfold PeerRoute.contributes at reach
      rw [Bool.and_eq_true] at reach
      exact prepared ri inside other (by simpa using reach.2) q reach.1 (summary.trans only)
    · rw [times]
      cases t.unlinked with
      | none => rfl
      | some ri =>
        cases gain <;> cases aggregate.summaryOnly <;> simp [eq_comm]
    · by_cases here : p = q
      · subst here
        simp [given]
      · simp [here]
    · by_cases here : p = q
      · subst here
        simp
      · simp [here]

theorem moved_covering (short : key.2.length ≤ maxBitlen) (prepared : Prepared key t) :
    Moved gain key (covering key.2) t ((covering key.2).foldl (move maxBitlen gain key) t) := by
  have distinct := nodup_covering key.2
  have lower : ∀ q ∈ covering key.2, below q key.2 = true := fun q => mem_covering.mp
  generalize covering key.2 = above at *
  induction above generalizing t with
  | nil => exact Moved.nil
  | cons q above ih =>
    rw [List.nodup_cons] at distinct
    rw [List.forall_mem_cons] at lower
    have first : Moved gain key [q] t (move maxBitlen gain key t q) :=
      moved_move lower.1 short prepared
    exact first.cons distinct.1 (ih (first.prepared prepared) distinct.2 lower.2)

end Recount

/-! ## The counter of a route -/

section Suppress

theorem own_of_held {ri : PeerRoute π α} (held : ri.holddown = true) (n : Nat) :
    (own false)^[n] ri = ri := by
  induction n with
  | zero => rfl
  | succ n ih =>
    rw [iterate_succ_apply, own, held]
    exact ih

theorem extra_iterate_own (gain : Bool) {ri : PeerRoute π α} (live : ri.holddown = false)
    {suppress : Int} (given : ri.extra = some suppress) (n : Nat) :
    ((own gain)^[n] ri).extra = some (if gain then suppress + n else suppress - n) := by
  induction n generalizing ri suppress with
  | zero => cases gain <;> simp [given]
  | succ n ih =>
    have first : (own gain ri).extra =
        some (if gain then suppress + 1 else suppress - 1) := by
      cases gain <;> simp [own, live, given, PeerRoute.suppressMore, PeerRoute.suppressLess,
        PeerRoute.suppress]
    rw [iterate_succ_apply, ih ((holddown_own _ _).trans live) first]
    cases gain <;> simp <;> omega

variable {n : Nat}

theorem suppress_lost {ri : PeerRoute π α}
    (right : ri.suppress = if ri.holddown then (0 : Int) else n) :
    ((own false)^[n] ri).suppress = 0 := by
  cases live : ri.holddown with
  | true => rw [own_of_held live, right, live]; rfl
  | false =>
    rw [live] at right
    cases given : ri.extra with
    | none =>
      rw [PeerRoute.suppress, given] at right
      have : n = 0 := by simpa using right.symm
      subst this
      rw [iterate_zero_apply, PeerRoute.suppress, given]
      rfl
    | some suppress =>
      rw [PeerRoute.suppress, given] at right
      rw [PeerRoute.suppress, extra_iterate_own false live given]
      simpa [Int.sub_eq_zero] using right

/-- A route that comes is suppressed as often as it should be, if it has an `extra`. -/
theorem suppress_gained {ri : PeerRoute π α} (live : ri.holddown = false) (right : ri.suppress = 0)
    (kept : n = 0 ∨ ri.extra.isSome = true) : ((own true)^[n] ri).suppress = n := by
  rcases kept with rfl | kept
  · exact right
  · obtain ⟨suppress, given⟩ := Option.isSome_iff_exists.mp kept
    rw [PeerRoute.suppress, given] at right
    rw [PeerRoute.suppress, extra_iterate_own true live given]
    have : suppress = 0 := right
    simp [this]

/-- Without an `extra`, it is suppressed once too often. -/
theorem suppress_bare {ri : PeerRoute π α} (live : ri.holddown = false) (bare : ri.extra = none) :
    ((own true)^[n + 1] ri).suppress = n + 2 := by
  have first : (own true ri).extra = some 2 := by
    simp [own, live, bare, PeerRoute.suppressMore, PeerRoute.suppressLess, PeerRoute.suppress]
  rw [iterate_succ_apply, PeerRoute.suppress,
    extra_iterate_own true ((holddown_own _ _).trans live) first]
  simp only [if_true, Option.getD_some]
  omega

theorem suppress_iterate_suppressMore (n : Nat) :
    (PeerRoute.suppressMore^[n] ri).suppress = ri.suppress + n := by
  induction n with
  | zero => simp
  | succ n ih =>
    rw [iterate_succ_apply']
    show (PeerRoute.suppressMore^[n] ri).suppress + 1 = _
    omega

theorem key_look (ri : PeerRoute π α) : (answer.look ri).key = ri.key := by
  unfold NexthopAnswer.look
  split_ifs <;> rfl

theorem suppress_look (ri : PeerRoute π α) : (answer.look ri).suppress = ri.suppress := by
  unfold NexthopAnswer.look
  split_ifs <;> rfl

theorem holddown_look (ri : PeerRoute π α) : (answer.look ri).holddown = ri.holddown := by
  unfold NexthopAnswer.look
  split_ifs <;> rfl

/-- A route after an update has restored it. -/
def renewed : PeerRoute π α :=
  { (if ri.removed then { ri with removed := false, valid := true } else ri) with stale := false }

/-- A route with another attribute and an answer about its next hop, before it is put back. -/
def updated (attr : PeerRoute π α → α) (answer : NexthopAnswer) (ri : PeerRoute π α) :
    PeerRoute π α :=
  { answer.look { ri with attr := attr ri } with valid := answer.valid }

theorem key_renewed : (renewed ri).key = ri.key := by
  unfold renewed
  split_ifs <;> rfl

theorem extra_renewed : (renewed ri).extra = ri.extra := by
  unfold renewed
  split_ifs <;> rfl

theorem suppress_renewed : (renewed ri).suppress = ri.suppress := by
  rw [PeerRoute.suppress, extra_renewed, ← PeerRoute.suppress]

theorem holddown_of_removed {ri : PeerRoute π α} (removed : ri.removed = true) :
    ri.holddown = true := by
  rw [PeerRoute.holddown, removed, Bool.or_true]

theorem renewed_of_used {ri : PeerRoute π α} (used : ri.removed = false) :
    (renewed ri).holddown = ri.holddown := by
  rw [renewed, used]
  rfl

theorem renewed_of_removed {ri : PeerRoute π α} (removed : ri.removed = true) :
    (renewed ri).holddown = false := by
  rw [renewed, removed]
  rfl

theorem removed_renewed : (renewed ri).removed = false := by
  unfold renewed
  split_ifs with removed
  · rfl
  · simpa using removed

section Updated

variable {attr : PeerRoute π α → α} {answer : NexthopAnswer} (ri : PeerRoute π α)

theorem key_updated : (updated attr answer ri).key = ri.key := key_look answer _

theorem suppress_updated : (updated attr answer ri).suppress = ri.suppress := suppress_look answer _

theorem holddown_updated : (updated attr answer ri).holddown = (!answer.valid || ri.removed) := by
  unfold updated PeerRoute.holddown NexthopAnswer.look
  split_ifs <;> rfl

theorem extra_updated : (updated attr answer ri).extra =
    if answer.valid && answer.metric ≠ 0 then some ri.suppress else ri.extra := by
  unfold updated NexthopAnswer.look
  split_ifs <;> rfl

end Updated

@[simp] theorem removed_iterate_own (gain : Bool) (n : Nat) (ri : PeerRoute π α) :
    ((own gain)^[n] ri).removed = ri.removed :=
  iterate_keeps (fun ri => by unfold own; split_ifs <;> rfl) n ri

theorem extra_iterate_own_eq_none {ri : PeerRoute π α} :
    ((own false)^[n] ri).extra = none ↔ ri.extra = none := by
  induction n generalizing ri with
  | zero => rfl
  | succ n ih =>
    rw [iterate_succ_apply, ih, own]
    cases ri.holddown <;> simp [PeerRoute.suppressLess]

/-- The routes for an aggregate: a usable one if the aggregate counts a route, and removed ones. -/
def MadeOf (counts : Prop) (made : List AggregateRoute) : Prop :=
  ∃ rest : List AggregateRoute, (∀ ri ∈ rest, ri.removed = true) ∧
    (counts ∧ made = { valid := true, removed := false } :: rest ∨ ¬ counts ∧ made = rest)

namespace MadeOf

variable {counts : Prop} {made : List AggregateRoute}

theorem of_removed (none : ¬ counts) (removed : ∀ ri ∈ made, ri.removed = true) :
    MadeOf counts made :=
  ⟨made, removed, Or.inr ⟨none, rfl⟩⟩

section

variable (right : MadeOf counts made)

include right

theorem hasMade : (∃ ri ∈ made, ri.holddown = false) ↔ counts := by
  obtain ⟨rest, removed, ⟨some, rfl⟩ | ⟨none, rfl⟩⟩ := right
  · exact ⟨fun _ => some, fun _ => ⟨_, List.mem_cons_self, rfl⟩⟩
  · refine ⟨fun ⟨ri, inside, live⟩ => ?_, fun some => absurd some none⟩
    rw [AggregateRoute.holddown, removed ri inside, Bool.or_true] at live
    exact absurd live nofun

theorem removed_of_not (none : ¬ counts) : ∀ ri ∈ made, ri.removed = true := by
  obtain ⟨rest, removed, ⟨some, rfl⟩ | ⟨_, rfl⟩⟩ := right
  · exact absurd some none
  · exact removed

/-- When its first route is withdrawn, all of them are removed. -/
theorem withdrawn :
    ∀ ri ∈ made.modifyHead fun _ => { valid := false, removed := true }, ri.removed = true := by
  obtain ⟨rest, removed, ⟨_, rfl⟩ | ⟨_, rfl⟩⟩ := right
  · exact List.forall_mem_cons.mpr ⟨rfl, removed⟩
  · cases made with
    | nil => nofun
    | cons first rest => exact List.forall_mem_cons.mpr ⟨rfl, (List.forall_mem_cons.mp removed).2⟩

theorem remade {count : Int} {counts' : Prop}
    (same : counts' ↔ count ≠ 0) : MadeOf counts' (AggTable.remade count made) := by
  refine ⟨_, right.withdrawn, ?_⟩
  unfold AggTable.remade
  by_cases zero : count = 0
  · exact Or.inr ⟨fun some => same.mp some zero, by rw [if_neg (by simp [zero])]; rfl⟩
  · exact Or.inl ⟨same.mpr zero, by rw [if_pos zero]; rfl⟩

theorem reaped : MadeOf counts (made.filter fun ri => !ri.removed) := by
  obtain ⟨rest, removed, ⟨some, rfl⟩ | ⟨none, rfl⟩⟩ := right
  · exact ⟨_, fun ri inside => removed ri (List.mem_filter.mp inside).1,
      Or.inl ⟨some, List.filter_cons_of_pos rfl⟩⟩
  · exact of_removed none fun ri inside => removed ri (List.mem_filter.mp inside).1

end

end MadeOf

theorem suppress_suppressLess {ri : PeerRoute π α} (kept : ri.suppress ≠ 0) :
    ri.suppressLess.suppress = ri.suppress - 1 := by
  unfold PeerRoute.suppress at kept
  unfold PeerRoute.suppressLess PeerRoute.suppress
  cases given : ri.extra with
  | none =>
    rw [given] at kept
    exact absurd rfl kept
  | some suppress => rfl

/-- The counter of a route when an aggregate is configured or removed. -/
theorem suppress_configured {ri : PeerRoute π α} {f : PeerRoute π α → PeerRoute π α} {p : List Bool}
    {summaryOnly : Bool} {before after : Nat}
    (right : ri.suppress = if ri.holddown then (0 : Int) else before)
    (other : (summaryOnly && below p ri.p) = false → before = after)
    (here : (summaryOnly && below p ri.p) = true → ri.suppress = before → (f ri).suppress = after) :
    (if summaryOnly && ri.contributes p then f ri else ri).suppress =
      if ri.holddown then (0 : Int) else after := by
  unfold PeerRoute.contributes
  cases live : ri.holddown with
  | true =>
    rw [live] at right
    simpa using right
  | false =>
    rw [live] at right
    rw [Bool.not_false, Bool.and_true]
    cases summary : (summaryOnly && below p ri.p) with
    | false => simpa [other summary] using right
    | true => simpa using here summary (by simpa using right)

end Suppress

/-! ## The invariant -/

section Invariant

variable [DecidableEq π]

/-- An aggregate whose count is not zero. -/
def Counts (t : AggTable π α) (q : List Bool) : Prop :=
  ∃ aggregate, t.aggregates q = some aggregate ∧ aggregate.count ≠ 0

/-- The aggregates have the routes they should have. -/
def MadeRight (t : AggTable π α) : Prop := ∀ q, MadeOf (t.Counts q) (t.made q)

/-- The counters are right, where the routes with the key `out` are not counted. -/
structure Kept (maxBitlen : Nat) (t : AggTable π α) (out : Option (π × List Bool)) : Prop where
  nodup : (t.routes.map PeerRoute.key).Nodup
  short : ∀ ri ∈ t.routes, ri.p.length ≤ maxBitlen
  made : MadeRight t
  count_eq : ∀ q aggregate, t.aggregates q = some aggregate →
    aggregate.count = (t.routes.countP fun ri => ri.contributes q && out ≠ some ri.key : Nat)
  suppress_eq : ∀ ri ∈ t.routes, ri.suppress =
    if ri.holddown = true ∨ out = some ri.key then 0 else (t.summaries ri.p : Int)

variable {maxBitlen : Nat} {t t' : AggTable π α} {gain : Bool} {key : π × List Bool} {q : List Bool}
  {out : Option (π × List Bool)}

theorem kept_empty : Kept maxBitlen (empty : AggTable π α) none where
  nodup := List.nodup_nil
  short := nofun
  made _ := .of_removed (fun ⟨_, set, _⟩ => absurd set nofun) nofun
  count_eq := nofun
  suppress_eq := nofun

theorem Kept.bookkeeping (kept : Kept maxBitlen t none) : t.Bookkeeping where
  count_eq q aggregate given := by simpa using kept.count_eq q aggregate given
  made_iff q aggregate given := by
    have count : aggregate.count = t.routes.countP (·.contributes q) := by
      simpa using kept.count_eq q aggregate given
    refine (kept.made q).hasMade.trans ⟨?_, fun positive => ⟨aggregate, given, by omega⟩⟩
    · rintro ⟨aggregate', given', positive⟩
      rw [given] at given'
      cases given'
      omega
  suppress_eq ri inside live := by
    rw [kept.suppress_eq ri inside, if_neg (by simp [live])]

variable {ri : PeerRoute π α}

/-- Counted routes that are suppressed have an `extra`. -/
theorem Kept.extra (kept : Kept maxBitlen t out) (inside : ri ∈ t.routes)
    (live : ri.holddown = false) (counted : out ≠ some ri.key) (above : below q ri.p = true)
    (summary : t.summaryAt q = true) : ri.extra.isSome = true := by
  have right := kept.suppress_eq ri inside
  rw [if_neg (by simp [live, counted])] at right
  have positive := summaries_pos above summary
  cases given : ri.extra with
  | some _ => rfl
  | none =>
    rw [PeerRoute.suppress, given] at right
    have : (0 : Int) = t.summaries ri.p := right
    omega

theorem Kept.prepared (kept : Kept maxBitlen t out) (only : out = none ∨ out = some key) :
    Prepared key t := by
  intro ri inside other live q above summary
  refine kept.extra inside live ?_ above summary
  rcases only with rfl | rfl
  · exact nofun
  · exact fun same => other (Option.some.inj same).symm

/-! ### Recounting -/

variable {above : List (List Bool)}

theorem Moved.madeRight (moved : Moved gain key above t t') (right : MadeRight t) :
    MadeRight t' := by
  intro q
  have before := right q
  unfold Counts at before ⊢
  rw [moved.made]
  by_cases inside : q ∈ above
  · rw [if_pos inside]
    cases given : t.aggregates q with
    | none =>
      have same : t'.aggregates q = none := by rw [moved.aggregates, given]; rfl
      rw [same]
      rw [given] at before
      exact before
    | some aggregate =>
      have now : t'.aggregates q =
          some { aggregate with count := aggregate.count + t.change gain key } := by
        rw [moved.aggregates, given, Option.map_some, if_pos inside]
      rw [now]
      refine before.remade ⟨?_, fun positive => ⟨_, rfl, positive⟩⟩
      rintro ⟨_, same, positive⟩
      cases same
      exact positive
  · have same : t'.aggregates q = t.aggregates q := by
      rw [moved.aggregates]
      cases t.aggregates q <;> simp [inside]
    rw [if_neg inside, same]
    exact before

theorem Moved.keys (moved : Moved gain key above t t') :
    t'.routes.map PeerRoute.key = t.routes.map PeerRoute.key := by
  rw [moved.routes]
  exact keys_modify fun ri => key_iterate_own gain _ ri

theorem Kept.of_keys (kept : Kept maxBitlen t out)
    (keys : t'.routes.map PeerRoute.key = t.routes.map PeerRoute.key) :
    (t'.routes.map PeerRoute.key).Nodup ∧ ∀ ri ∈ t'.routes, ri.p.length ≤ maxBitlen := by
  refine ⟨keys ▸ kept.nodup, fun ri inside => ?_⟩
  have listed : ri.key ∈ t.routes.map PeerRoute.key := keys ▸ List.mem_map_of_mem inside
  obtain ⟨old, member, same⟩ := List.mem_map.mp listed
  rw [← show old.p = ri.p from congrArg Prod.snd same]
  exact kept.short old member

theorem Moved.summaries (moved : Moved gain key above t t') : t'.summaries = t.summaries := by
  funext p
  rw [AggTable.summaries, moved.summaryAt, ← AggTable.summaries]

variable {out' : Option (π × List Bool)}

theorem countP_outside (routes : List (PeerRoute π α))
    (others : ∀ other, other ≠ key → (out = some other ↔ out' = some other))
    (outside : below q key.2 = false) :
    (routes.countP fun ri => ri.contributes q && out ≠ some ri.key) =
      routes.countP fun ri => ri.contributes q && out' ≠ some ri.key := by
  refine List.countP_congr fun ri _ => ?_
  cases reach : ri.contributes q with
  | false => simp
  | true =>
    have other : ri.key ≠ key := by
      rintro rfl
      unfold PeerRoute.contributes at reach
      rw [show below q ri.p = false from outside] at reach
      exact absurd reach nofun
    simp [others ri.key other]

/-- **Recounting for a route** keeps the counters right, if it is right for the route itself. -/
theorem Kept.moved (kept : Kept maxBitlen t out)
    (moved : Moved gain key (covering key.2) t t')
    (others : ∀ other, other ≠ key → (out = some other ↔ out' = some other))
    (counts : ∀ q, below q key.2 = true →
      ((t.routes.countP fun ri => ri.contributes q && out' ≠ some ri.key : Nat) : Int) =
        (t.routes.countP fun ri => ri.contributes q && out ≠ some ri.key : Nat) +
          t.change gain key)
    (owned : ∀ ri ∈ t.routes, ri.key = key → ((own gain)^[t.summaries key.2] ri).suppress =
      if ri.holddown = true ∨ out' = some key then 0 else (t.summaries key.2 : Int)) :
    Kept maxBitlen t' out' where
  nodup := (kept.of_keys moved.keys).1
  short := (kept.of_keys moved.keys).2
  made := moved.madeRight kept.made
  count_eq q aggregate given := by
    rw [moved.countP _ fun n ri => by rw [contributes_iterate_own, key_iterate_own]]
    rw [moved.aggregates] at given
    obtain ⟨old, before, rfl⟩ := Option.map_eq_some_iff.mp given
    cases above : below q key.2 with
    | true =>
      rw [if_pos (mem_covering.mpr above), counts q above, ← kept.count_eq q old before]
    | false =>
      rw [if_neg (by rw [mem_covering, above]; exact nofun), kept.count_eq q old before,
        countP_outside t.routes others above]
  suppress_eq ri inside := by
    rw [moved.summaries]
    rw [moved.routes, List.mem_map] at inside
    obtain ⟨old, member, rfl⟩ := inside
    by_cases same : old.key = key
    · rw [if_pos same, holddown_iterate_own, key_iterate_own, same]
      rw [p_of_key ((key_iterate_own gain _ old).trans same)]
      exact owned old member same
    · rw [if_neg same, kept.suppress_eq old member]
      simp only [others old.key same]

theorem change_true : t.change true key = 1 := rfl

theorem moved_decrement (short : key.2.length ≤ maxBitlen) (prepared : Prepared key t) :
    Moved false key (covering key.2) t (t.bgpAggregateDecrement maxBitlen key) :=
  moved_covering short prepared

theorem moved_increment (live : ri.holddown = false)
    (short : ri.p.length ≤ maxBitlen) (prepared : Prepared ri.key t) :
    Moved true ri.key (covering ri.key.2) t (t.bgpAggregateIncrement maxBitlen ri) := by
  rw [bgpAggregateIncrement, live]
  exact moved_covering short prepared

theorem Kept.goes (kept : Kept maxBitlen t none) (short : key.2.length ≤ maxBitlen) :
    Kept maxBitlen (t.bgpAggregateDecrement maxBitlen key) (some key) := by
  have moved := moved_decrement short (kept.prepared (Or.inl rfl))
  refine kept.moved moved (fun other different => ?_) (fun q above => ?_) fun ri inside same => ?_
  · simp [different.symm]
  · have without := countP_without t.routes above
    unfold change
    simp only [if_false, ne_eq, reduceCtorEq, not_false_eq_true, decide_true,
      Bool.and_true] at without ⊢
    omega
  · rw [if_pos (Or.inr rfl)]
    refine suppress_lost ?_
    rw [kept.suppress_eq ri inside, p_of_key same]
    simp

theorem Kept.unique (kept : Kept maxBitlen t out) {ri ri' : PeerRoute π α} (inside : ri ∈ t.routes)
    (inside' : ri' ∈ t.routes) (same : ri.key = ri'.key) : ri = ri' :=
  List.inj_on_of_nodup_map kept.nodup inside inside' same

theorem countP_key (nodup : (t.routes.map PeerRoute.key).Nodup)
    (inside : ri ∈ t.routes) (live : ri.holddown = false) :
    (t.routes.countP fun ri' => ri'.key = ri.key && !ri'.holddown) = 1 := by
  have once : (t.routes.map PeerRoute.key).count ri.key = 1 :=
    List.count_eq_one_of_mem nodup (List.mem_map_of_mem inside)
  rw [← once, List.count, List.countP_map]
  refine List.countP_congr fun ri' inside' => ?_
  simp only [comp_apply, Bool.and_eq_true, decide_eq_true_eq, beq_iff_eq,
    Bool.not_eq_true', and_iff_left_iff_imp]
  intro same
  rw [List.inj_on_of_nodup_map nodup inside' inside same]
  exact live

theorem Kept.comes (kept : Kept maxBitlen t (some ri.key))
    (inside : ri ∈ t.routes) (live : ri.holddown = false)
    (bare : ri.extra = none → t.summaries ri.p = 0) :
    Kept maxBitlen (t.bgpAggregateIncrement maxBitlen ri) none := by
  have moved := moved_increment live (kept.short ri inside) (kept.prepared (Or.inr rfl))
  refine kept.moved moved (fun other different => ?_) (fun q above => ?_) fun ri' member same => ?_
  · simp [different.symm]
  · have without := countP_without t.routes above
    rw [countP_key kept.nodup inside live] at without
    rw [change_true]
    simp only [ne_eq, reduceCtorEq, not_false_eq_true, decide_true, Bool.and_true] at without ⊢
    omega
  · rw [kept.unique member inside same, live]
    have right := kept.suppress_eq ri inside
    rw [if_pos (Or.inr rfl)] at right
    refine suppress_gained live right ?_
    cases given : ri.extra with
    | none => exact Or.inl (bare given)
    | some _ => exact Or.inr rfl

/-! ### Routes -/

variable {f : PeerRoute π α → PeerRoute π α}

theorem mem_of_find (found : t.find key = some ri) :
    ri ∈ t.routes ∧ ri.key = key :=
  ⟨List.mem_of_find?_eq_some found, by simpa using List.find?_some found⟩

theorem find_modify (same : ∀ ri, (f ri).key = ri.key) :
    (t.modify key f).find key = (t.find key).map f := by
  unfold find modify
  rw [List.find?_map]
  have test : ((fun ri : PeerRoute π α => decide (ri.key = key)) ∘
      fun ri => if ri.key = key then f ri else ri) = fun ri => decide (ri.key = key) := by
    funext ri
    simp only [comp_apply, key_ite same]
  rw [test]
  cases found : t.routes.find? fun ri => ri.key = key with
  | none => rfl
  | some ri =>
    have here : ri.key = key := by simpa using List.find?_some found
    rw [Option.map_some, Option.map_some, if_pos here]

theorem modify_modify {g : PeerRoute π α → PeerRoute π α} (same : ∀ ri, (f ri).key = ri.key) :
    (t.modify key f).modify key g = t.modify key (g ∘ f) := by
  unfold modify
  rw [List.map_map]
  congr 1
  refine List.map_congr_left fun ri _ => ?_
  simp only [comp_apply]
  by_cases here : ri.key = key
  · rw [if_pos here, if_pos here, if_pos ((same ri).trans here)]
  · rw [if_neg here, if_neg here, if_neg here]

/-- A route can be changed, if the counters do not depend on it: what counts is whether it is held
down, and that only if it is counted. -/
theorem Kept.modify (kept : Kept maxBitlen t out) (same : ∀ ri, (f ri).key = ri.key)
    (suppress : ∀ ri, (f ri).suppress = ri.suppress)
    (holddown : out = some key ∨ ∀ ri ∈ t.routes, ri.key = key → (f ri).holddown = ri.holddown) :
    Kept maxBitlen (t.modify key f) out := by
  have keys := @key_ite _ _ _ key f same
  have places : ∀ ri : PeerRoute π α, (if ri.key = key then f ri else ri).p = ri.p :=
    fun ri => p_of_key (keys ri)
  have holds : ∀ ri ∈ t.routes, out ≠ some ri.key →
      (if ri.key = key then f ri else ri).holddown = ri.holddown := by
    intro ri inside counted
    split_ifs with here
    · rcases holddown with gone | holddown
      · exact absurd (here ▸ gone) counted
      · exact holddown ri inside here
    · rfl
  have listed := kept.of_keys (@keys_modify _ _ _ t key f same)
  refine ⟨listed.1, listed.2, kept.made,
    fun q aggregate given => ?_, fun ri inside => ?_⟩
  · rw [kept.count_eq q aggregate given, AggTable.modify, List.countP_map]
    congr 1
    refine List.countP_congr fun ri inside => ?_
    simp only [comp_apply, PeerRoute.contributes, keys, places]
    by_cases counted : out = some ri.key
    · simp [counted]
    · rw [holds ri inside counted]
  · obtain ⟨old, member, rfl⟩ := List.mem_map.mp inside
    have kept_suppress : (if old.key = key then f old else old).suppress = old.suppress := by
      split_ifs
      · exact suppress old
      · rfl
    rw [kept_suppress, kept.suppress_eq old member, keys, places]
    by_cases counted : out = some old.key
    · rw [if_pos (Or.inr counted), if_pos (Or.inr counted)]
    · rw [holds old member counted]
      rfl

/-- For routes that are held down it does not matter whether they are counted. -/
theorem Kept.recast (kept : Kept maxBitlen t out)
    (same : ∀ ri ∈ t.routes, ri.holddown = false → (out = some ri.key ↔ out' = some ri.key)) :
    Kept maxBitlen t out' := by
  refine ⟨kept.nodup, kept.short, kept.made, fun q aggregate given => ?_, fun ri inside => ?_⟩
  · rw [kept.count_eq q aggregate given]
    congr 1
    refine List.countP_congr fun ri inside => ?_
    cases live : ri.holddown with
    | true => simp [PeerRoute.contributes, live]
    | false => simp [same ri inside live]
  · rw [kept.suppress_eq ri inside]
    cases live : ri.holddown with
    | true => simp
    | false => simp [same ri inside live]

/-- Routes that are held down are not counted anyway. -/
theorem Kept.held_iff (held : ∀ ri ∈ t.routes, ri.key = key → ri.holddown = true) :
    Kept maxBitlen t none ↔ Kept maxBitlen t (some key) := by
  have out : ∀ ri ∈ t.routes, ri.holddown = false → (none = some ri.key ↔ some key = some ri.key) :=
    fun ri inside live => iff_of_false nofun fun same => by
      rw [held ri inside (Option.some.inj same).symm] at live
      cases live
  exact ⟨fun kept => kept.recast out, fun kept =>
    kept.recast fun ri inside live => (out ri inside live).symm⟩

theorem held_modify (held : ∀ ri, (f ri).holddown = true) :
    ∀ ri ∈ (t.modify key f).routes, ri.key = key → ri.holddown = true := by
  intro ri inside here
  obtain ⟨old, member, rfl⟩ := List.mem_map.mp inside
  by_cases own : old.key = key
  · rw [if_pos own]
    exact held old
  · rw [if_neg own] at here
    exact absurd here own

theorem Kept.bgpRibRemove (kept : Kept maxBitlen t none) (short : key.2.length ≤ maxBitlen) :
    Kept maxBitlen (t.bgpRibRemove maxBitlen key) none := by
  have removed : Kept maxBitlen (t.bgpRibRemove maxBitlen key) (some key) :=
    (kept.goes short).modify (fun _ => rfl) (fun _ => rfl) (Or.inl rfl)
  exact (Kept.held_iff (held_modify fun _ => rfl)).mpr removed

theorem Kept.of_find (kept : Kept maxBitlen t out) {ri ri' : PeerRoute π α}
    (found : t.find key = some ri) (inside : ri' ∈ t.routes) (same : ri'.key = key) : ri' = ri :=
  kept.unique inside (mem_of_find found).1 (same.trans (mem_of_find found).2.symm)

theorem Kept.held_of_find (kept : Kept maxBitlen t out)
    (found : t.find key = some ri) (held : ri.holddown = true) :
    ∀ ri' ∈ t.routes, ri'.key = key → ri'.holddown = true := by
  intro ri' inside same
  rw [kept.of_find found inside same, held]

theorem Kept.bgpAggregateIncrement (kept : Kept maxBitlen t (some key))
    (found : t.find key = some ri)
    (bare : ri.holddown = false → ri.extra = none → t.summaries key.2 = 0) :
    Kept maxBitlen (t.bgpAggregateIncrement maxBitlen ri) none := by
  obtain ⟨inside, rfl⟩ := mem_of_find found
  cases live : ri.holddown with
  | true =>
    rw [AggTable.bgpAggregateIncrement, if_pos live]
    exact (Kept.held_iff (kept.held_of_find found live)).mpr kept
  | false => exact kept.comes inside live (bare live)

theorem find_decrement (short : key.2.length ≤ maxBitlen) (prepared : Prepared key t) :
    (t.bgpAggregateDecrement maxBitlen key).find key =
      (t.find key).map (own false)^[t.summaries key.2] := by
  have moved := moved_decrement short prepared
  have routes : (t.bgpAggregateDecrement maxBitlen key).routes =
      (t.modify key (own false)^[t.summaries key.2]).routes := moved.routes
  rw [find, routes, ← find, find_modify fun ri => key_iterate_own _ _ ri]

theorem decrement_of_none (unset : ∀ q, below q key.2 = true → t.aggregates q = none) :
    t.bgpAggregateDecrement maxBitlen key = t := by
  refine List.foldlRecOn (motive := (· = t)) _ _ rfl fun _ same q inside => ?_
  rw [same, recount, unset q (mem_covering.mp inside)]
  rfl

/-! ### Operations -/

/-- **What an update does** to a known route: it is taken off, changed and put back. -/
theorem bgpUpdateKnown_eq (attr : α) (answer : NexthopAnswer)
    (found : t.find key = some ri) (short : key.2.length ≤ maxBitlen) (prepared : Prepared key t) :
    let taken := (t.modify key renewed).bgpAggregateDecrement maxBitlen key
    let change := updated (fun _ => attr) answer
    let ready := change ((own false)^[t.summaries key.2] (renewed ri))
    (taken.modify key change).find key = some ready ∧
    t.bgpUpdateKnown maxBitlen key attr answer =
      (taken.modify key change).bgpAggregateIncrement maxBitlen ready := by
  intro taken change ready
  have begun : (t.modify key fun ri =>
      if ri.removed then { ri with removed := false, valid := true } else ri).modify key
        (fun ri => { ri with stale := false }) = t.modify key renewed :=
    modify_modify fun ri => by split_ifs <;> rfl
  have away : taken.find key = some ((own false)^[t.summaries key.2] (renewed ri)) := by
    have place := find_decrement short (prepared_modify key_renewed prepared)
    rw [find_modify key_renewed, found] at place
    exact place
  have back : (taken.modify key change).find key = some ready := by
    rw [find_modify key_updated, away]
    rfl
  refine ⟨back, ?_⟩
  unfold bgpUpdateKnown
  dsimp only
  rw [begun]
  show (match (taken.modify key change).find key with
    | some ri => _
    | none => _) = _
  rw [back]
  rfl

variable {answer : NexthopAnswer}

theorem Kept.bgpUpdateKnown {attr : α}
    (kept : Kept maxBitlen t none) (found : t.find key = some ri)
    (short : key.2.length ≤ maxBitlen)
    (restored : ri.removed = true → ∀ q, below q key.2 = true → t.aggregates q = none)
    (bare : Bare ri answer → ∀ q, below q key.2 = true → t.summaryAt q = false) :
    Kept maxBitlen (t.bgpUpdateKnown maxBitlen key attr answer) none := by
  have prepared : Prepared key t := kept.prepared (Or.inl rfl)
  obtain ⟨inside, here⟩ := mem_of_find found
  have place := p_of_key here
  have taken : Kept maxBitlen ((t.modify key renewed).bgpAggregateDecrement maxBitlen key)
      (some key) := by
    cases removed : ri.removed with
    | true =>
      -- The route is not counted, and there is nothing it could be taken off from.
      have held := kept.held_of_find found (holddown_of_removed removed)
      have out := (Kept.held_iff held).mp kept
      have same : (t.modify key renewed).bgpAggregateDecrement maxBitlen key =
          t.modify key renewed := decrement_of_none (restored removed)
      rw [same]
      exact out.modify key_renewed suppress_renewed (Or.inl rfl)
    | false =>
      refine Kept.goes ?_ short
      refine kept.modify key_renewed suppress_renewed (Or.inr fun ri' inside' same => ?_)
      rw [kept.of_find found inside' same]
      exact renewed_of_used removed
  obtain ⟨back, result⟩ := bgpUpdateKnown_eq attr answer found short prepared
  rw [result]
  refine (taken.modify key_updated suppress_updated (Or.inl rfl)).bgpAggregateIncrement back ?_
  intro live without
  have summaries : ((t.modify key renewed).bgpAggregateDecrement maxBitlen key).summaries key.2 =
      t.summaries key.2 := by
    have moved := moved_decrement short (prepared_modify key_renewed prepared)
    exact congrFun moved.summaries key.2
  refine Eq.trans summaries ?_
  rw [holddown_updated, Bool.or_eq_false_iff] at live
  rw [extra_updated] at without
  split_ifs at without with metric
  rw [extra_iterate_own_eq_none, extra_renewed] at without
  have valid : answer.valid = true := by simpa using live.1
  have zero : answer.metric = 0 := by simpa [valid] using metric
  cases removed : ri.removed with
  | true =>
    refine summaries_eq_zero fun q above => ?_
    rw [AggTable.summaryAt, restored removed q above]
    rfl
  | false =>
    cases used : ri.valid with
    | false => exact summaries_eq_zero (bare ⟨removed, used, without, valid, zero⟩)
    | true =>
      -- A counted route that is suppressed has an `extra`.
      refine summaries_eq_zero fun q above => Bool.eq_false_iff.mpr fun summary => ?_
      have held : ri.holddown = false := by rw [PeerRoute.holddown, removed, used]; rfl
      have some := kept.extra inside held nofun (place ▸ above) summary
      rw [without] at some
      exact absurd some nofun

theorem not_mem_of_find (missing : t.find key = none) : ∀ ri ∈ t.routes, ri.key ≠ key := by
  intro ri inside
  simpa using List.find?_eq_none.mp missing ri inside

/-- A new route is linked, where it was counted already. -/
theorem Kept.link (kept : Kept maxBitlen t none)
    (missing : ∀ old ∈ t.routes, old.key ≠ ri.key) (short : ri.p.length ≤ maxBitlen)
    (routes : t'.routes = ri :: t.routes) (made : MadeRight t')
    (summaries : t'.summaries = t.summaries)
    (counts : ∀ q, t'.aggregates q = (t.aggregates q).map fun aggregate =>
      if ri.contributes q then { aggregate with count := aggregate.count + 1 } else aggregate)
    (suppress : ri.suppress = if ri.holddown then (0 : Int) else t.summaries ri.p) :
    Kept maxBitlen t' none where
  nodup := by
    rw [routes, List.map_cons, List.nodup_cons]
    refine ⟨fun inside => ?_, kept.nodup⟩
    obtain ⟨old, member, same⟩ := List.mem_map.mp inside
    exact missing old member same
  short := by
    rw [routes]
    exact List.forall_mem_cons.mpr ⟨short, kept.short⟩
  made := made
  count_eq q aggregate given := by
    rw [counts] at given
    obtain ⟨old, before, rfl⟩ := Option.map_eq_some_iff.mp given
    rw [routes, List.countP_cons]
    have count := kept.count_eq q old before
    cases reach : ri.contributes q <;> simp [count]
  suppress_eq := by
    rw [summaries, routes]
    exact List.forall_mem_cons.mpr ⟨by simpa using suppress, kept.suppress_eq⟩

theorem Kept.bgpUpdateNew {attr : α} (kept : Kept maxBitlen t none)
    (missing : t.find key = none) (short : key.2.length ≤ maxBitlen) :
    Kept maxBitlen (t.bgpUpdateNew maxBitlen key attr answer) none := by
  let new : PeerRoute π α :=
    updated (fun _ => attr) answer ⟨key.1, key.2, attr, false, false, false, none⟩
  have here : new.key = key := key_updated _
  have place : new.p = key.2 := congrArg Prod.snd here
  have fresh : new.suppress = 0 := suppress_updated _
  have absent : ∀ old ∈ t.routes, old.key ≠ new.key := by
    rw [here]
    exact not_mem_of_find missing
  let begun : AggTable π α := { t with unlinked := some new }
  have result : t.bgpUpdateNew maxBitlen key attr answer =
      { begun.bgpAggregateIncrement maxBitlen new with
        routes := (begun.bgpAggregateIncrement maxBitlen new).unlinked.toList ++
          (begun.bgpAggregateIncrement maxBitlen new).routes
        unlinked := none } := rfl
  rw [result]
  cases live : new.holddown with
  | true =>
    have same : begun.bgpAggregateIncrement maxBitlen new = begun := by
      rw [AggTable.bgpAggregateIncrement, if_pos live]
    rw [same]
    refine kept.link absent (place ▸ short) rfl kept.made rfl
      (fun q => ?_) ?_
    · simp [PeerRoute.contributes, live, begun]
    · rw [fresh, live]
      rfl
  | false =>
    have prepared : Prepared new.key begun := kept.prepared (Or.inl rfl)
    have moved := moved_increment live (place ▸ short) prepared
    have routes : (begun.bgpAggregateIncrement maxBitlen new).routes = t.routes := by
      rw [moved.routes]
      refine (List.map_congr_left fun old inside => ?_).trans (List.map_id _)
      exact if_neg (absent old inside)
    have unlinked : (begun.bgpAggregateIncrement maxBitlen new).unlinked =
        some (PeerRoute.suppressMore^[t.summaries new.p] new) := by
      rw [moved.unlinked]
      show some (if _ then _ else _) = _
      rw [if_pos ⟨rfl, rfl⟩]
      rfl
    have placed : ∀ n, (PeerRoute.suppressMore^[n] new).p = new.p :=
      fun n => congrArg Prod.snd (key_iterate_suppressMore n new)
    have right := moved.madeRight kept.made
    rw [unlinked, routes]
    refine kept.link (fun old inside => ?_) ?_ rfl right
      moved.summaries (fun q => ?_) ?_
    · rw [key_iterate_suppressMore]
      exact absent old inside
    · rw [placed, place]
      exact short
    · have reach : (PeerRoute.suppressMore^[t.summaries new.p] new).contributes q =
          below q new.p := by
        rw [PeerRoute.contributes, holddown_iterate_suppressMore, placed, live, Bool.not_false,
          Bool.and_true]
      rw [moved.aggregates, reach]
      simp only [mem_covering]
      rfl
    · rw [suppress_iterate_suppressMore, holddown_iterate_suppressMore, placed, fresh, live]
      simp

variable (maxBitlen) in
/-- **What a scan does** to a route that it brings into use. -/
theorem bgpScanRoute_eq {bi : PeerRoute π α} (found : t.find key = some bi)
    (unused : bi.valid = false) (valid : answer.valid = true) :
    let change := updated PeerRoute.attr answer
    (t.modify key change).find key = some (change bi) ∧
    t.bgpScanRoute maxBitlen key answer =
      (t.modify key change).bgpAggregateIncrement maxBitlen (change bi) := by
  intro change
  have back : (t.modify key change).find key = some (change bi) := by
    rw [find_modify key_updated, found]
    rfl
  have changed : (t.modify key answer.look).modify key (fun bi => { bi with valid := true }) =
      t.modify key change := by
    rw [← valid]
    exact modify_modify (key_look answer)
  refine ⟨back, ?_⟩
  rw [bgpScanRoute, found]
  dsimp only
  rw [unused, valid, if_neg nofun, if_neg nofun, changed, back]

theorem Kept.bgpScanRoute (kept : Kept maxBitlen t none)
    (short : key.2.length ≤ maxBitlen)
    (bare : ∀ ri, t.find key = some ri → Bare ri answer →
      ∀ q, below q key.2 = true → t.summaryAt q = false) :
    Kept maxBitlen (t.bgpScanRoute maxBitlen key answer) none := by
  have looked : Kept maxBitlen (t.modify key answer.look) none :=
    kept.modify (key_look answer) (suppress_look answer)
      (Or.inr fun ri _ _ => holddown_look answer ri)
  cases found : t.find key with
  | none =>
    rw [AggTable.bgpScanRoute, found]
    exact kept
  | some bi =>
    cases used : bi.valid <;> cases valid : answer.valid
    case false.true =>
      have held : bi.holddown = true := by rw [PeerRoute.holddown, used]; rfl
      have out := (Kept.held_iff (kept.held_of_find found held)).mp kept
      obtain ⟨back, result⟩ := bgpScanRoute_eq maxBitlen found used valid
      rw [result]
      refine (out.modify key_updated suppress_updated (Or.inl rfl)).bgpAggregateIncrement
        back fun live without => ?_
      rw [holddown_updated, valid] at live
      rw [extra_updated] at without
      split_ifs at without with metric
      exact summaries_eq_zero (bare bi found
        ⟨live, used, without, valid, by simpa [valid] using metric⟩)
    case true.false =>
      have result : t.bgpScanRoute maxBitlen key answer =
          ((t.modify key answer.look).bgpAggregateDecrement maxBitlen key).modify key
            fun bi => { bi with valid := false } := by
        rw [AggTable.bgpScanRoute, found]
        dsimp only
        rw [used, valid, if_neg nofun, if_pos rfl]
      have gone : Kept maxBitlen (t.bgpScanRoute maxBitlen key answer) (some key) := by
        rw [result]
        exact (looked.goes short).modify (fun _ => rfl) (fun _ => rfl) (Or.inl rfl)
      refine (Kept.held_iff ?_).mpr gone
      rw [result]
      exact held_modify fun _ => rfl
    all_goals
      rw [AggTable.bgpScanRoute, found]
      dsimp only
      rw [used, valid]
      exact looked

/-- Only routes that do not count are reaped. -/
theorem Kept.bgpProcessMain (kept : Kept maxBitlen t none) (p : List Bool) :
    Kept maxBitlen (t.bgpProcessMain p) none where
  nodup := kept.nodup.sublist (List.filter_sublist.map _)
  short ri inside := kept.short ri (List.mem_filter.mp inside).1
  made q := by
    show MadeOf (t.Counts q) (update t.made p _ q)
    by_cases here : q = p
    · subst here
      rw [update_self]
      exact (kept.made q).reaped
    · rw [update_of_ne here]
      exact kept.made q
  count_eq q aggregate given := by
    rw [kept.count_eq q aggregate given, AggTable.bgpProcessMain, List.countP_filter]
    congr 1
    refine List.countP_congr fun ri _ => ?_
    cases removed : ri.removed with
    | false => simp
    | true => simp [PeerRoute.contributes, PeerRoute.holddown, removed]
  suppress_eq ri inside := kept.suppress_eq ri (List.mem_filter.mp inside).1

/-! ### Configuration -/

variable {p : List Bool}

theorem Kept.contributes_of_length (kept : Kept maxBitlen t out) (greatest : p.length = maxBitlen) :
    ∀ ri ∈ t.routes, ri.contributes p = false := by
  intro ri inside
  have short := kept.short ri inside
  unfold PeerRoute.contributes below
  rw [decide_eq_false (by omega), Bool.false_and, Bool.false_and]

/-- **The configuration of one aggregate** changes: its counter and its routes have to be right, and
the counters of the routes below it. -/
theorem Kept.configured (kept : Kept maxBitlen t none) (same : ∀ ri, (f ri).key = ri.key)
    (holddown : ∀ ri, (f ri).holddown = ri.holddown) (routes : t'.routes = t.routes.map f)
    (aggregates : ∀ q, q ≠ p → t'.aggregates q = t.aggregates q)
    (made : ∀ q, q ≠ p → t'.made q = t.made q) (count : ∀ aggregate, t'.aggregates p = some
    aggregate → aggregate.count = t.routes.countP (·.contributes p))
    (right : MadeOf (t'.Counts p) (t'.made p)) (suppress : ∀ ri ∈ t.routes, (f ri).suppress = if
    ri.holddown then (0 : Int) else t'.summaries ri.p) : Kept maxBitlen t' none := by
  have place : ∀ ri, (f ri).p = ri.p := fun ri => congrArg Prod.snd (same ri)
  have listed : t'.routes.map PeerRoute.key = t.routes.map PeerRoute.key := by
    rw [routes, List.map_map]
    exact List.map_congr_left fun ri _ => same ri
  refine ⟨(kept.of_keys listed).1, (kept.of_keys listed).2, fun q => ?_,
    fun q aggregate given => ?_, fun ri inside => ?_⟩
  · by_cases here : q = p
    · rw [here]
      exact right
    · unfold Counts
      rw [made q here, aggregates q here]
      exact kept.made q
  · have counts : (t'.routes.countP fun ri =>
        ri.contributes q && ((none : Option (π × List Bool)) ≠ some ri.key)) =
        t.routes.countP (·.contributes q) := by
      rw [routes, List.countP_map]
      refine List.countP_congr fun ri _ => ?_
      simp [PeerRoute.contributes, place, holddown]
    rw [counts]
    by_cases here : q = p
    · subst here
      exact count aggregate given
    · rw [aggregates q here] at given
      simpa using kept.count_eq q aggregate given
  · rw [routes] at inside
    obtain ⟨old, member, rfl⟩ := List.mem_map.mp inside
    rw [suppress old member, place, holddown]
    simp

omit [DecidableEq π] in
theorem not_counts (unset : t.aggregates p = none) : ¬ t.Counts p := by
  rintro ⟨_, set, _⟩
  exact absurd (unset.symm.trans set) nofun

theorem Kept.suppress (kept : Kept maxBitlen t none) (inside : ri ∈ t.routes) :
    ri.suppress = if ri.holddown then (0 : Int) else t.summaries ri.p := by
  rw [kept.suppress_eq ri inside]
  simp

theorem Kept.bgpAggregateUnset (kept : Kept maxBitlen t none) (p : List Bool) :
    Kept maxBitlen (t.bgpAggregateUnset maxBitlen p) none ∧
      (t.bgpAggregateUnset maxBitlen p).aggregates p = none := by
  cases given : t.aggregates p with
  | none =>
    have same : t.bgpAggregateUnset maxBitlen p = t := by
      rw [AggTable.bgpAggregateUnset, given]
      rfl
    rw [same]
    exact ⟨kept, given⟩
  | some aggregate =>
    obtain ⟨aggregates, routes, made⟩ := bgpAggregateUnset_spec maxBitlen given
    generalize t.bgpAggregateUnset maxBitlen p = t' at *
    have unset : t'.aggregates p = none := by rw [aggregates, update_self]
    have before : t.aggregates = update t'.aggregates p (some aggregate) := by
      rw [aggregates, update_idem, ← given, update_eq_self]
    -- At the greatest length nothing is done, but nothing contributes either.
    have changed : t'.routes = t.routes.map fun ri =>
        if aggregate.summaryOnly && ri.contributes p then ri.suppressLess else ri := by
      rw [routes]
      split_ifs with greatest
      · refine ((List.map_congr_left fun ri inside => ?_).trans (List.map_id _)).symm
        rw [kept.contributes_of_length greatest ri inside, Bool.and_false]
        rfl
      · rfl
    have removed : ∀ ri ∈ t'.made p, ri.removed = true := by
      rw [made]
      split_ifs with greatest
      · refine (kept.made p).removed_of_not ?_
        rintro ⟨old, given', positive⟩
        refine positive ((kept.count_eq p old given').trans ?_)
        rw [List.countP_eq_zero.mpr fun ri inside => by
          simp [kept.contributes_of_length greatest ri inside]]
        rfl
      · rw [update_self]
        exact (kept.made p).withdrawn
    refine ⟨kept.configured (p := p) (fun ri => ?_) (fun ri => ?_) changed (fun q other => ?_)
      (fun q other => ?_) (fun _ set => absurd (unset.symm.trans set) nofun)
      (.of_removed (not_counts unset) removed) fun ri inside => ?_, unset⟩
    · split_ifs <;> rfl
    · split_ifs <;> rfl
    · rw [aggregates, update_of_ne other]
    · rw [made]
      split_ifs
      · rfl
      · rw [update_of_ne other]
    · have fewer := summaries_update unset before ri.p
      refine suppress_configured (kept.suppress inside) (fun away => ?_) fun here now => ?_
      · simpa [away] using fewer
      · rw [here] at fewer
        rw [suppress_suppressLess (by simp only [if_true] at fewer; omega)]
        simp only [if_true] at fewer
        omega

theorem bgpAggregateAdd_spec {summaryOnly : Bool} (set : t.aggregates p = some ⟨summaryOnly, 0⟩)
    (none : p.length = maxBitlen → ∀ ri ∈ t.routes, ri.contributes p = false) :
    (t.bgpAggregateAdd maxBitlen p).aggregates = update t.aggregates p
      (some ⟨summaryOnly, t.routes.countP (·.contributes p)⟩) ∧
    (t.bgpAggregateAdd maxBitlen p).routes = (t.routes.map fun ri =>
      if summaryOnly && ri.contributes p then ri.suppressMore else ri) ∧
    (t.bgpAggregateAdd maxBitlen p).made = if t.routes.countP (·.contributes p) ≠ 0
      then update t.made p ({ valid := true, removed := false } :: t.made p) else t.made := by
  rw [bgpAggregateAdd]
  by_cases greatest : p.length = maxBitlen
  · have empty : t.routes.countP (·.contributes p) = 0 :=
      List.countP_eq_zero.mpr fun ri inside => by simp [none greatest ri inside]
    rw [if_pos greatest, empty]
    refine ⟨?_, (List.map_congr_left fun ri inside => ?_).trans (List.map_id _) |>.symm, rfl⟩
    · rw [Int.natCast_zero, ← set, update_eq_self]
    · rw [none greatest ri inside, Bool.and_false]
      rfl
  · rw [if_neg greatest, bgpAggregateRoute, set]
    simp

theorem Kept.bgpAggregateSet (kept : Kept maxBitlen t none) (p : List Bool) (summaryOnly : Bool) :
    Kept maxBitlen (t.bgpAggregateSet maxBitlen p summaryOnly) none := by
  unfold AggTable.bgpAggregateSet
  obtain ⟨off, unset⟩ := kept.bgpAggregateUnset p
  generalize t.bgpAggregateUnset maxBitlen p = t at *
  let begun : AggTable π α :=
    { t with aggregates := update t.aggregates p (some ⟨summaryOnly, 0⟩) }
  obtain ⟨aggregates, routes, made⟩ := bgpAggregateAdd_spec (t := begun) (update_self ..)
    (off.contributes_of_length (p := p))
  generalize begun.bgpAggregateAdd maxBitlen p = t' at *
  rw [update_idem] at aggregates
  have set : t'.aggregates p = some ⟨summaryOnly, t.routes.countP (·.contributes p)⟩ := by
    rw [aggregates, update_self]
  have counts : t'.Counts p ↔ t.routes.countP (·.contributes p) ≠ 0 := by
    refine ⟨?_, fun positive => ⟨_, set, Int.natCast_ne_zero.mpr positive⟩⟩
    rintro ⟨_, given, positive⟩
    cases set.symm.trans given
    exact Int.natCast_ne_zero.mp positive
  have removed := (off.made p).removed_of_not (not_counts unset)
  refine off.configured (p := p) (fun ri => ?_) (fun ri => ?_) routes (fun q other => ?_)
    (fun q other => ?_) (fun aggregate given => ?_) ?_ fun ri inside => ?_
  · split_ifs <;> rfl
  · split_ifs <;> rfl
  · rw [aggregates, update_of_ne other]
  · rw [made]
    split_ifs
    · rw [update_of_ne other]
    · rfl
  · cases set.symm.trans given
    rfl
  · rw [made]
    split_ifs with positive
    · rw [update_self]
      exact ⟨_, removed, Or.inl ⟨counts.mpr positive, rfl⟩⟩
    · exact .of_removed (fun some => positive (counts.mp some)) removed
  · have more := summaries_update unset aggregates ri.p
    refine suppress_configured (off.suppress inside) (fun away => ?_) fun here now => ?_
    · simpa [away] using more.symm
    · rw [here] at more
      show ri.suppress + 1 = _
      rw [now, more]
      rfl

/-! ### Where it goes wrong -/

/-- A route without `extra` is suppressed once too often. -/
theorem not_bookkeeping_of_bare (found : t.find key = some ri)
    (short : key.2.length ≤ maxBitlen) (prepared : Prepared key t) (live : ri.holddown = false)
    (without : ri.extra = none) (above : below q key.2 = true) (summary : t.summaryAt q = true) :
    ¬ (t.bgpAggregateIncrement maxBitlen ri).Bookkeeping := by
  obtain ⟨inside, rfl⟩ := mem_of_find found
  have moved := moved_increment live short prepared
  intro right
  have member : (own true)^[t.summaries ri.key.2] ri ∈
      (t.bgpAggregateIncrement maxBitlen ri).routes := by
    rw [moved.routes]
    exact List.mem_map.mpr ⟨ri, inside, if_pos rfl⟩
  have place : ((own true)^[t.summaries ri.key.2] ri).p = ri.key.2 :=
    congrArg Prod.snd (key_iterate_own true _ ri)
  have count := right.suppress_eq _ member ((holddown_iterate_own ..).trans live)
  rw [place, moved.summaries] at count
  obtain ⟨n, more⟩ := Nat.exists_eq_succ_of_ne_zero (Nat.ne_of_gt (summaries_pos above summary))
  rw [more, suppress_bare live without] at count
  omega

/-- A restored route is taken off although it was not counted. -/
theorem not_bookkeeping_of_removed {attr : α} (kept : Kept maxBitlen t none)
    (found : t.find key = some ri) (short : key.2.length ≤ maxBitlen) (removed : ri.removed = true)
    (above : below q key.2 = true) (given : t.aggregates q = some aggregate) :
    ¬ (t.bgpUpdateKnown maxBitlen key attr answer).Bookkeeping := by
  intro right
  have prepared : Prepared key t := kept.prepared (Or.inl rfl)
  obtain ⟨back, result⟩ := bgpUpdateKnown_eq attr answer found short prepared
  have held := kept.held_of_find found (holddown_of_removed removed)
  have begun : Kept maxBitlen (t.modify key renewed) (some key) :=
    ((Kept.held_iff held).mp kept).modify key_renewed suppress_renewed (Or.inl rfl)
  have moved := moved_decrement short (prepared_modify key_renewed prepared)
  have restored : renewed ri ∈ (t.modify key renewed).routes :=
    List.mem_map.mpr ⟨ri, (mem_of_find found).1, if_pos (mem_of_find found).2⟩
  have one : (t.modify key renewed).change false key = -1 := by
    have once := countP_key begun.nodup restored (renewed_of_removed removed)
    rw [key_renewed, (mem_of_find found).2] at once
    rw [change, once]
    rfl
  have low : ((t.modify key renewed).bgpAggregateDecrement maxBitlen key).aggregates q =
      some { aggregate with count := aggregate.count - 1 } := by
    rw [moved.aggregates, show (t.modify key renewed).aggregates q = some aggregate from given,
      Option.map_some, if_pos (mem_covering.mpr above), one]
    rfl
  have count := begun.count_eq q aggregate given
  rw [result] at right
  generalize (t.modify key renewed).bgpAggregateDecrement maxBitlen key = taken at *
  have same : ∀ ri : PeerRoute π α, (updated (fun _ => attr) answer ri).key = ri.key := key_updated
  generalize updated (fun _ => attr) answer = f at *
  have others : ((taken.modify key f).routes.countP
      fun ri => ri.contributes q && some key ≠ some ri.key) =
      (t.modify key renewed).routes.countP
        fun ri => ri.contributes q && some key ≠ some ri.key := by
    rw [countP_modify fun ri here => by simp [same, here], moved.countP _ fun n ri => by
      rw [contributes_iterate_own, key_iterate_own]]
  have all := countP_without (taken.modify key f).routes above
  generalize f ((own false)^[t.summaries key.2] (renewed ri)) = ready at *
  cases live : ready.holddown with
  | true =>
    rw [bgpAggregateIncrement, if_pos live] at right
    have now := right.count_eq q _ low
    dsimp only at now
    omega
  | false =>
    obtain ⟨inside, rfl⟩ := mem_of_find back
    have again := moved_increment live short (prepared_modify same
      (moved.prepared (prepared_modify key_renewed prepared)))
    have final := right.count_eq q { aggregate with count := aggregate.count - 1 + 1 } (by
      rw [again.aggregates, show (taken.modify ready.key f).aggregates q =
        some { aggregate with count := aggregate.count - 1 } from low, Option.map_some,
        if_pos (mem_covering.mpr above), change_true])
    rw [again.countP (fun ri => ri.contributes q) fun n ri => contributes_iterate_own true n ri]
      at final
    have some : 0 < (taken.modify ready.key f).routes.countP
        fun ri => ri.key = ready.key && !ri.holddown :=
      List.countP_pos_iff.mpr ⟨ready, inside, by simp [live]⟩
    dsimp only at final
    omega

end Invariant

/-! ## All runs -/

section Runs

variable [DecidableEq π] [DecidableEq α] {maxBitlen : Nat} {t : AggTable π α}

theorem Kept.aggStep (kept : Kept maxBitlen t none) (event : AggEvent maxBitlen π α)
    (careful : Careful t event) : Kept maxBitlen (aggStep t event) none := by
  cases event with
  | update peer p attr filtered answer =>
    show Kept maxBitlen (t.bgpUpdateMain maxBitlen (peer, p.1) attr filtered answer) none
    unfold bgpUpdateMain
    cases found : t.find (peer, p.1) with
    | none =>
      cases filtered with
      | true => exact kept
      | false => exact kept.bgpUpdateNew found p.2
    | some ri =>
      cases filtered with
      | true => exact kept.bgpRibRemove p.2
      | false =>
        obtain ⟨restored, bare⟩ := careful rfl ri found
        show Kept maxBitlen (if _ then _ else _) none
        by_cases same : (!ri.removed && ri.attr = attr) = true
        · rw [if_pos same]
          exact kept.modify (fun _ => rfl) (fun _ => rfl) (Or.inr fun _ _ _ => rfl)
        · rw [if_neg same]
          refine kept.bgpUpdateKnown found p.2 restored fun without => bare ?_ without
          intro equal
          simp [without.1, equal] at same
  | withdraw peer p =>
    show Kept maxBitlen (t.bgpWithdraw maxBitlen (peer, p.1)) none
    unfold bgpWithdraw
    split_ifs
    · exact kept.bgpRibRemove p.2
    · exact kept
  | scanRoute peer p answer => exact kept.bgpScanRoute p.2 careful
  | clearRouteNode peer p nsf =>
    show Kept maxBitlen (t.bgpClearRouteNode maxBitlen (peer, p.1) nsf) none
    unfold bgpClearRouteNode
    split
    · exact kept
    · split_ifs
      · exact kept.modify (fun _ => rfl) (fun _ => rfl) (Or.inr fun _ _ _ => rfl)
      · exact kept.bgpRibRemove p.2
  | clearStaleRoute peer p =>
    show Kept maxBitlen (t.bgpClearStaleRoute maxBitlen (peer, p.1)) none
    unfold bgpClearStaleRoute
    split
    · exact kept
    · split_ifs
      · exact kept.bgpRibRemove p.2
      · exact kept
  | processMain p => exact kept.bgpProcessMain p.1
  | aggregateSet p summaryOnly => exact kept.bgpAggregateSet p.1 summaryOnly
  | aggregateUnset p => exact (kept.bgpAggregateUnset p.1).1

/-- A step after which the counters are right was careful. -/
theorem Kept.careful (kept : Kept maxBitlen t none) (event : AggEvent maxBitlen π α)
    (right : (Quagga.Bgpd.aggStep t event).Bookkeeping) : Careful t event := by
  have prepared : ∀ key, Prepared key t := fun key => kept.prepared (Or.inl rfl)
  cases event with
  | update peer p attr filtered answer =>
    rintro rfl ri found
    have result : (!ri.removed && ri.attr = attr) = false →
        (t.bgpUpdateKnown maxBitlen (peer, p.1) attr answer).Bookkeeping := by
      intro different
      change (t.bgpUpdateMain maxBitlen (peer, p.1) attr false answer).Bookkeeping at right
      rw [bgpUpdateMain, found] at right
      simpa [different] using right
    refine ⟨fun removed q above => ?_, fun different bare q above => ?_⟩
    · cases given : t.aggregates q with
      | none => rfl
      | some aggregate =>
        exact absurd (result (by rw [removed]; rfl))
          (not_bookkeeping_of_removed kept found p.2 removed above given)
    · refine Bool.eq_false_iff.mpr fun summary => ?_
      obtain ⟨used, invalid, without, valid, zero⟩ := bare
      obtain ⟨back, known⟩ := bgpUpdateKnown_eq attr answer found p.2 (prepared (peer, p.1))
      have now := result (by simp [different])
      rw [known] at now
      have moved := moved_decrement p.2 (prepared_modify key_renewed (prepared (peer, p.1)))
      refine not_bookkeeping_of_bare back p.2 (prepared_modify key_updated
        (moved.prepared (prepared_modify key_renewed (prepared _)))) ?_ ?_ above ?_ now
      · rw [holddown_updated, valid, removed_iterate_own, removed_renewed]
        rfl
      · rw [extra_updated, zero, if_neg (by simp), extra_iterate_own_eq_none, extra_renewed]
        exact without
      · exact (congrFun moved.summaryAt q).trans summary
  | scanRoute peer p answer =>
    rintro ri found ⟨used, invalid, without, valid, zero⟩ q above
    refine Bool.eq_false_iff.mpr fun summary => ?_
    obtain ⟨back, result⟩ := bgpScanRoute_eq maxBitlen found invalid valid
    change (t.bgpScanRoute maxBitlen (peer, p.1) answer).Bookkeeping at right
    rw [result] at right
    refine not_bookkeeping_of_bare back p.2 (prepared_modify key_updated (prepared _)) ?_ ?_
      above summary right
    · rw [holddown_updated, valid, used]
      rfl
    · rw [extra_updated, zero, if_neg (by simp)]
      exact without
  | _ => trivial

end Runs

end AggTable

/-- **The counters are right throughout a run exactly if each operation is careful.** -/
theorem bookkeeping_iff {maxBitlen : Nat} [DecidableEq π] [DecidableEq α]
    (history : List (AggEvent maxBitlen π α)) :
    Throughout aggStep AggTable.empty AggTable.Bookkeeping history ↔
      EachMeets aggStep AggTable.empty AggTable.Careful history :=
  throughout_iff_eachMeets (fun t => AggTable.Kept maxBitlen t none) AggTable.kept_empty
    (fun _ event kept => kept.aggStep event) (fun _ kept => kept.bookkeeping)
    (fun _ event kept => kept.careful event) history

/-- A route below an aggregate is withdrawn, and announced again before it is reaped. -/
def flap : List (AggEvent 32 Nat Nat) :=
  [.aggregateSet ⟨[true], by decide⟩ false,
   .update 1 ⟨[true, false], by decide⟩ 7 false ⟨true, 0⟩,
   .withdraw 1 ⟨[true, false], by decide⟩,
   .update 1 ⟨[true, false], by decide⟩ 7 false ⟨true, 0⟩]

/-- After this the aggregate counts no route. -/
theorem flap_uncounted : ¬ Throughout aggStep AggTable.empty AggTable.Bookkeeping flap := by
  intro throughout
  have wrong := throughout.here.count_eq [true] ⟨false, 0⟩ rfl
  exact absurd wrong (by decide)

end Quagga.Bgpd
