import Quagga.Zebra.Rib
import Quagga.Bgpd.Propagation

/-!
# Withdrawing a route from zebra

`bgp_zebra_withdraw` names the next hop that the route has when it is withdrawn. Zebra deletes its
entry only if the entry has this next hop or is resolved through it. An update changes the next hop
of a selected route in place; if the new next hop is unreachable as well, the route is withdrawn
with the new one, and the entry with the old one stays.

`withdraw_takes_effect_iff` describes the runs of both daemons in which no live entry is left after
a withdrawal. `withdraw_misses_entry` is a run in which one is left.

Zebra handles each message as it is sent. Next-hop scanning of `bgpd` is part of the runs, and so is
what happens in zebra apart from the messages of `bgpd`.
-/

set_option autoImplicit false

namespace Quagga.Bgpd

open Lib Library Zebra

/-! ## The two daemons -/

/-- What `bgp_scan` finds out about a route: whether its next hop is reachable, whether the way to
it changed, its IGP metric, and what the scan of dampening does. -/
structure Scanned where
  valid : Bool
  igpChanged : Bool
  igpMetric : Option Nat
  damped : Bool
  history : Bool
  deleted : Bool

/-- `bgp_scan` at a route. -/
def Scanned.apply (scanned : Scanned) (ri : BgpInfo) : BgpInfo :=
  if ri.FromUpdate then
    { ri with
      extra := scanned.igpMetric
      flags :=
        { ri.flags with
          valid := scanned.valid && !scanned.deleted
          damped := scanned.damped
          history := scanned.history
          removed := ri.flags.removed || scanned.deleted } }
  else ri

/-- `bgp_scan` at a node. -/
def NodeState.bgpScan {β : Type} (node : NodeState β) (scanned : Nat → Scanned) : NodeState β :=
  { node with
    rn := node.rn.map fun ri => (scanned ri.ptr).apply ri
    beyond := fun ptr => { node.beyond ptr with igpChanged := (scanned ptr).igpChanged }
    queued := node.queued + 1 }

/-- A node of `bgpd`, the entries for its prefix in zebra, and the last message between them. -/
structure Daemons (β : Type) where
  bgpd : Announcing β
  zebra : List RibEntry
  last : Option ZebraMsg

/-- What happens in the two daemons. -/
inductive DaemonsEvent (β : Type) where
  | route (event : RouteEvent β)
  | scan (scanned : Nat → Scanned)
  | elsewhere (event : Elsewhere)

/-- `zread_ipv4_add` and `zread_ipv4_delete`. -/
def ZebraMsg.zread : ZebraMsg → List RibEntry → List RibEntry
  | .add nexthop _ => ribAddIpv4Multipath zebraRouteBgp nexthop
  | .delete nexthop _ => ribDeleteIpv4 zebraRouteBgp nexthop

/-- Zebra handles the message that `bgpd` sent, if there is one. -/
def Daemons.deliver {β : Type} (s : Daemons β) (bgpd : Announcing β) : Daemons β :=
  { bgpd := bgpd
    zebra := bgpd.zebra.elim s.zebra fun msg => msg.zread s.zebra
    last := bgpd.zebra.or s.last }

section Daemons

variable {β : Type} [DecidableEq β] (policy : Policy β)

/-- One event. The message of an event of `bgpd` is the one that is there afterwards. -/
def daemonsStep : Except Fault (Daemons β) → DaemonsEvent β → Except Fault (Daemons β)
  | .error fault, _ => .error fault
  | .ok s, .route event =>
    (announcingStep policy (.ok { s.bgpd with zebra := none }) event).map s.deliver
  | .ok s, .scan scanned =>
    .ok { s with bgpd := { s.bgpd with node := s.bgpd.node.bgpScan scanned } }
  | .ok s, .elsewhere event => .ok { s with zebra := event.apply zebraRouteBgp s.zebra }

omit [DecidableEq β] in
/-- Both daemons without routes for the prefix, but for those that others gave to zebra. -/
def Daemons.start [Inhabited β] (others : List RibEntry) : Daemons β :=
  { bgpd := Announcing.start, zebra := others.filter (·.type ≠ zebraRouteBgp), last := none }

omit [DecidableEq β] in
/-- After a withdrawal zebra has no live entry of `bgpd`. -/
def Daemons.Withdrawn (s : Daemons β) : Prop :=
  ∀ nexthop metric, s.last = some (.delete nexthop metric) → liveOf zebraRouteBgp s.zebra = []

omit [DecidableEq β] in
/-- The route that is withdrawn still has the next hop that zebra has, or the one that zebra has
resolved it to. -/
def NextHopKept : Except Fault (Daemons β) → DaemonsEvent β → Prop
  | .ok s, .route .process =>
    s.bgpd.node.queued ≠ 0 → ∀ rn result old,
      bgpBestSelection (makeTrustFiles policy.bgp policy.files) policy.bgp s.bgpd.node.rn =
          .ok (rn, result) →
        routeAt rn result.old = some old → routeAt rn result.new = none →
          ∀ entry ∈ liveOf zebraRouteBgp s.zebra,
            entry.gate = (s.bgpd.node.pathOf old).nexthop ∨
              entry.rgate = (s.bgpd.node.pathOf old).nexthop
  | _, _ => True

end Daemons

/-! ## Messages and entries -/

/-- The next hop that zebra has after a message. -/
def ZebraMsg.installed : ZebraMsg → List Nat
  | .add nexthop _ => [nexthop]
  | .delete _ _ => []

/-- The routes of `bgpd` are in order, and the only live entry of zebra is the one that was added
last. -/
structure Daemons.Inv {β : Type} (s : Daemons β) : Prop where
  node : s.bgpd.node.Wf
  gates_eq : (liveOf zebraRouteBgp s.zebra).map RibEntry.gate =
    s.last.elim [] ZebraMsg.installed

/-- A withdrawal with a next hop matches every entry. -/
def Finds (entries : List RibEntry) (nexthop : Nat) : Prop :=
  ∀ entry ∈ entries, entry.gate = nexthop ∨ entry.rgate = nexthop

theorem length_installed (last : Option ZebraMsg) :
    (last.elim [] ZebraMsg.installed).length ≤ 1 := by
  rcases last with _ | _ | _ <;> simp [ZebraMsg.installed]

section Messages

variable {β : Type} {s : Daemons β}

theorem Daemons.Inv.length_live (inv : s.Inv) : (liveOf zebraRouteBgp s.zebra).length ≤ 1 := by
  have length_eq := congrArg List.length inv.gates_eq
  rw [List.length_map] at length_eq
  rw [length_eq]
  exact length_installed s.last

/-- One entry at most is there, so it is erased exactly if it is found. -/
theorem eraseP_eq_nil_iff_finds {entries : List RibEntry} (single : entries.length ≤ 1)
    (nexthop : Nat) :
    entries.eraseP (fun entry => entry.gate = nexthop || entry.rgate = nexthop) = [] ↔
      Finds entries nexthop := by
  match entries, single with
  | [], _ => simp [Finds]
  | [entry], _ =>
    by_cases found : entry.gate = nexthop ∨ entry.rgate = nexthop
    · simp [Finds]
    · simp [Finds]

variable {bgpd : Announcing β}

theorem Daemons.Inv.deliver (inv : s.Inv) (wf : bgpd.node.Wf) (finds : ∀ nexthop metric,
    bgpd.zebra = some (.delete nexthop metric) → Finds (liveOf zebraRouteBgp s.zebra) nexthop) :
    (s.deliver bgpd).Inv := by
  refine ⟨wf, ?_⟩
  unfold Daemons.deliver
  cases sent : bgpd.zebra with
  | none => exact inv.gates_eq
  | some msg =>
    cases msg with
    | add nexthop metric =>
      have replaced : (liveOf zebraRouteBgp s.zebra).tail = [] := by
        apply List.eq_nil_of_length_eq_zero
        rw [List.length_tail]
        have single := inv.length_live
        omega
      have client : zebraRouteBgp ≠ zebraRouteConnect := by decide
      simp only [Option.elim_some, ZebraMsg.zread, liveOf_ribAddIpv4Multipath client, replaced]
      rfl
    | delete nexthop metric =>
      have erased := (eraseP_eq_nil_iff_finds inv.length_live nexthop).mpr
        (finds nexthop metric sent)
      simp only [Option.elim_some, ZebraMsg.zread, liveOf_ribDeleteIpv4, erased]
      rfl

theorem Daemons.Inv.finds (inv : s.Inv) (withdrawn : (s.deliver bgpd).Withdrawn)
    {nexthop metric : Nat} (sent : bgpd.zebra = some (.delete nexthop metric)) :
    Finds (liveOf zebraRouteBgp s.zebra) nexthop := by
  rw [← eraseP_eq_nil_iff_finds inv.length_live, ← liveOf_ribDeleteIpv4]
  have empty := withdrawn nexthop metric (by rw [Daemons.deliver, sent]; rfl)
  rw [Daemons.deliver, sent] at empty
  exact empty

/-! ## The message of a processing -/

variable {policy : Policy β}

/-- A withdrawal is sent if there is no new route, with the next hop of the old one. -/
theorem NodeState.fibUpdate_eq_delete {node : NodeState β} {old new : Option BgpInfo}
    (learned : ∀ ri, new = some ri → ri.FromUpdate) {nexthop metric : Nat}
    (message : node.fibUpdate old new = some (.delete nexthop metric)) :
    new = none ∧ ∃ ri, old = some ri ∧ (node.pathOf ri).nexthop = nexthop := by
  unfold NodeState.fibUpdate at message
  cases new with
  | some ri =>
    rw [Option.filter_some, if_pos (by simpa using learned ri rfl)] at message
    cases message
  | none =>
    refine ⟨rfl, ?_⟩
    obtain ⟨ri, found, same⟩ := Option.map_eq_some_iff.mp message
    exact ⟨ri, (Option.filter_eq_some_iff.mp found).1, (ZebraMsg.delete.inj same).1⟩

/-- **What `bgp_process_main` sends to zebra.** It withdraws the old route exactly if there is no
new one. -/
theorem NodeState.Wf.process (wf : bgpd.node.Wf) (silent : bgpd.zebra = none) {bgpd' : Announcing β}
    (processed : bgpd.bgpProcessMain policy = .ok bgpd') :
    bgpd'.node.Wf ∧ ∃ rn result,
      bgpBestSelection (makeTrustFiles policy.bgp policy.files) policy.bgp bgpd.node.rn =
        .ok (rn, result) ∧
      (∀ nexthop metric, bgpd'.zebra = some (.delete nexthop metric) →
        routeAt rn result.new = none ∧
          ∃ old, routeAt rn result.old = some old ∧ (bgpd.node.pathOf old).nexthop = nexthop) ∧
      ∀ old, routeAt rn result.old = some old → routeAt rn result.new = none →
        bgpd'.zebra = some (bgpd.node.pathOf old).bgpZebraWithdraw := by
  obtain ⟨rn, result, selected, ⟨nothing, rfl⟩ | ⟨nothing, rfl⟩⟩ :=
    Announcing.bgpProcessMain_cases processed
  · have selection := (bgpBestSelection_result wf.routes.distinct).of_ok selected
    refine ⟨wf.kept selection nothing _, rn, result, selected, ?_, ?_⟩
    · intro nexthop metric message
      rw [Announcing.keep, silent, Option.or_none] at message
      obtain ⟨ri, -, same⟩ := Option.map_eq_some_iff.mp message
      cases same
    · intro old atOld atNew
      rw [same_of_nothingToDo nothing, atNew] at atOld
      cases atOld
  · have selection := (bgpBestSelection_result wf.routes.distinct).of_ok selected
    have learned {ptr : Option Nat} : ∀ ri, routeAt rn ptr = some ri → ri.FromUpdate :=
      fun ri found => selection.fromUpdate wf (List.mem_of_find?_eq_some found)
    refine ⟨wf.moved selection _, rn, result, selected, ?_, ?_⟩
    · intro nexthop metric message
      rw [Policy.move, silent, Option.or_none] at message
      exact NodeState.fibUpdate_eq_delete learned message
    · intro old atOld atNew
      rw [Policy.move, atNew, atOld, silent]
      simp [NodeState.fibUpdate, learned old atOld]

theorem NodeState.Wf.bgpScan {node : NodeState β} (wf : node.Wf) (scanned : Nat → Scanned) :
    (node.bgpScan scanned).Wf := by
  have same (ri : BgpInfo) : SameRoute ri ((scanned ri.ptr).apply ri) := by
    unfold Scanned.apply
    split_ifs <;> exact ⟨rfl, rfl, rfl, rfl⟩
  refine ⟨wf.routes.of_marks ?_, fun ri mem => ?_⟩
  · rw [NodeState.bgpScan, List.map_map]
    exact List.map_congr_left fun ri _ => (same ri).mark_eq
  · obtain ⟨before, beforeMem, rfl⟩ := List.mem_map.mp mem
    exact (same before).fromUpdate (wf.learned before beforeMem)

end Messages

/-! ## Runs -/

section Runs

variable {β : Type} {policy : Policy β} {s : Daemons β}

/-- An event of `bgpd` that sends nothing. -/
theorem Daemons.Inv.silent (inv : s.Inv) {node : NodeState β} (wf : node.Wf) :
    (s.deliver { s.bgpd with zebra := none, node := node }).Inv :=
  inv.deliver wf fun _ _ sent => by cases sent

/-- The next hop is kept exactly if the withdrawal that is sent finds the entry. -/
theorem Daemons.Inv.processed (inv : s.Inv) {bgpd : Announcing β}
    (processed : Announcing.bgpProcessMain policy { s.bgpd with zebra := none } = .ok bgpd)
    (queued : s.bgpd.node.queued ≠ 0) :
    bgpd.node.Wf ∧
      (NextHopKept policy (.ok s) (.route .process) ↔
        ∀ nexthop metric, bgpd.zebra = some (.delete nexthop metric) →
          Finds (liveOf zebraRouteBgp s.zebra) nexthop) := by
  have wf : ({ s.bgpd with zebra := none } : Announcing β).node.Wf := inv.node
  obtain ⟨wf', rn, result, selected, sent, sends⟩ := wf.process rfl processed
  refine ⟨wf', fun kept nexthop metric message => ?_, fun finds _ rn' result' old selected' => ?_⟩
  · obtain ⟨atNew, old, atOld, rfl⟩ := sent nexthop metric message
    exact kept queued rn result old selected atOld atNew
  · obtain ⟨rfl, rfl⟩ := Prod.mk.inj (Except.ok.inj (selected.symm.trans selected'))
    intro atOld atNew
    exact finds _ _ (sends old atOld atNew)

variable [DecidableEq β]

theorem daemonsStep_process (queued : s.bgpd.node.queued ≠ 0) :
    daemonsStep policy (.ok s) (.route .process) =
      (Announcing.bgpProcessMain policy { s.bgpd with zebra := none }).map s.deliver := by
  exact congrArg (Except.map s.deliver) (if_neg queued)

theorem Daemons.Inv.step (inv : s.Inv) {event : DaemonsEvent β}
    (kept : NextHopKept policy (.ok s) event) :
    Running Daemons.Inv (daemonsStep policy (.ok s) event) := by
  match event with
  | .elsewhere event => exact ⟨inv.node, (event.gates_apply s.zebra).trans inv.gates_eq⟩
  | .scan scanned => exact ⟨inv.node.bgpScan scanned, inv.gates_eq⟩
  | .route (.update update) => exact inv.silent (inv.node.bgpUpdateMain update).wf
  | .route (.withdraw withdrawal) => exact inv.silent (inv.node.bgpWithdraw withdrawal).wf
  | .route .process =>
    by_cases empty : s.bgpd.node.queued = 0
    · rw [daemonsStep, announcingStep]
      rw [if_pos empty]
      exact inv.silent inv.node
    · rw [daemonsStep_process empty]
      cases processed : Announcing.bgpProcessMain policy { s.bgpd with zebra := none } with
      | error fault => trivial
      | ok bgpd =>
        obtain ⟨wf, kept_iff⟩ := inv.processed processed empty
        exact inv.deliver wf (kept_iff.mp kept)

theorem Daemons.Inv.kept (inv : s.Inv) {event : DaemonsEvent β}
    (withdrawn : Running Daemons.Withdrawn (daemonsStep policy (.ok s) event)) :
    NextHopKept policy (.ok s) event := by
  match event with
  | .elsewhere _ => trivial
  | .scan _ => trivial
  | .route (.update _) => trivial
  | .route (.withdraw _) => trivial
  | .route .process =>
    by_cases empty : s.bgpd.node.queued = 0
    · exact fun queued => absurd empty queued
    · rw [daemonsStep_process empty] at withdrawn
      cases processed : Announcing.bgpProcessMain policy { s.bgpd with zebra := none } with
      | error fault =>
        intro _ rn result old selected
        obtain ⟨s', returned⟩ : ∃ s', Announcing.bgpProcessMain policy
            { s.bgpd with zebra := none } = .ok s' := Announcing.bgpProcessMain_ok selected
        cases processed.symm.trans returned
      | ok bgpd =>
        rw [processed] at withdrawn
        exact (inv.processed processed empty).2.mpr fun _ _ sent => inv.finds withdrawn sent

/-- **Withdrawals take effect exactly in the runs in which each route that is withdrawn has the next
hop that zebra has for it.** -/
theorem withdraw_takes_effect_iff [Inhabited β] (policy : Policy β) (others : List RibEntry)
    (history : List (DaemonsEvent β)) :
    Throughout (daemonsStep policy) (.ok (Daemons.start others)) (Running Daemons.Withdrawn)
        history ↔
      EachMeets (daemonsStep policy) (.ok (Daemons.start others)) (NextHopKept policy) history := by
  refine throughout_iff_eachMeets (Running Daemons.Inv) ?_ ?_ ?_ ?_ history
  · refine ⟨.start, ?_⟩
    have none : liveOf zebraRouteBgp (others.filter (·.type ≠ zebraRouteBgp)) = [] := by
      simp [liveOf, RibEntry.live]
    rw [Daemons.start, none]
    rfl
  · intro state event holds kept
    cases state with
    | error fault => trivial
    | ok s => exact holds.step kept
  · refine fun state holds => holds.mono fun s inv nexthop metric last => ?_
    have gates := inv.gates_eq
    rw [last] at gates
    exact List.map_eq_nil_iff.mp gates
  · intro state event holds withdrawn
    cases state with
    | error fault => trivial
    | ok s => exact holds.kept withdrawn

/-- **A route that gets an unreachable next hop stays in zebra with the old one.** -/
theorem withdraw_misses_entry :
    ∃ s, afterAll (daemonsStep openPolicy) (.ok (Daemons.start []))
        [.route (.update (acceptedUpdate 2 (pathWith 7 10) true)), .route .process,
          .route (.update (acceptedUpdate 2 (pathWith 8 10) false)), .route .process] = .ok s ∧
      s.last = some (.delete 8 10) ∧
      liveOf zebraRouteBgp s.zebra =
        [{ type := zebraRouteBgp, removed := false, gate := 7, rgate := 0 }] ∧
      ¬ s.Withdrawn := by
  refine ⟨_, rfl, rfl, rfl, fun withdrawn => ?_⟩
  exact absurd (withdrawn _ _ rfl) (by decide)

end Runs

end Quagga.Bgpd
