import Quagga.Library.DoublyLinked
import Quagga.Library.Histories
import Quagga.Lib.Stream
/-!
# The lists of dampening information

A `bgp_damp_info` "must be linked to reuse_list or no_reuse_list", says its declaration: to
`reuse_list[index]` while its route is `DAMPED`, and to `no_reuse_list` otherwise. The functions of
`bgp_damp.c` move it from one list to another. To take it out of its list they use the flag of the
route and the links of the neighbours.

The reuse timer first cuts off a whole reuse list and then goes through its entries. An entry whose
penalty has come down to half of the reuse limit is freed there, and for that it is taken out of a
list it is not in: out of `no_reuse_list`, with links to entries that have been moved. So the head
of `no_reuse_list` may be overwritten (`timer_loses_list`). As long as the timer finds no such entry
the lists are in order, however the steps follow one another (`lists_kept`).

Times are numbers. A route has at most one entry, and the entry is known by its route. What
`bgp_damp_decay` makes of a penalty, and the index that a penalty gives, are parameters. The values
that the functions return are left out, and so is what they do to the table apart from the flags of
the route.
-/

set_option autoImplicit false

namespace Quagga.Bgpd

open Lib Library Function

/-! ## The functions -/

/-- `struct bgp_damp_config`. The two functions stand for the arrays that are computed from the
configured times. -/
structure DampSettings where
  suppressValue : Nat
  reuseLimit : Nat
  ceiling : Nat
  maxSuppressTime : Int
  reuseListSize : Nat
  decay : Int → Nat → Nat
  decay_le : ∀ tdiff penalty, decay tdiff penalty ≤ penalty
  reuseIndex : Nat → Nat

/-- `struct bgp_damp_info`, without its links. -/
structure DampEntry where
  penalty : Nat
  tUpdated : Int
  suppressTime : Int
  index : Int
  withdrawn : Bool

/-- What is read of the flags of a `struct bgp_info`. -/
structure DampedInfo where
  damped : Bool
  history : Bool
  removed : Bool

/-- The lists: `reuse_list[i]`, and `none` for `no_reuse_list`. -/
abbrev DampList := Option Int

/-- The entries and the flags of the routes, and the lists. All entries are those of routes below
`size`. -/
structure DampState where
  size : Nat
  entries : Nat → Option DampEntry
  infos : Nat → DampedInfo
  threads : Threads DampList
  reuseOffset : Nat

variable (settings : DampSettings) (s : DampState)

namespace DampState

/-- Before the first withdrawal. -/
def start : DampState where
  size := 0
  entries _ := none
  infos _ := ⟨false, false, false⟩
  threads := ⟨fun _ => none, fun _ => none, fun _ => none⟩
  reuseOffset := 0

/-- The entry of a route and its flags. -/
def put (binfo : Nat) (entry : Option DampEntry) (info : DampedInfo) : DampState :=
  { s with
    entries := update s.entries binfo entry
    infos := update s.infos binfo info }

/-- `BGP_INFO_ADD`. -/
def listAdd (list : DampList) (binfo : Nat) : DampState :=
  { s with threads := s.threads.push list binfo }

/-- `BGP_INFO_DEL` and `bgp_reuse_list_delete`. -/
def listDel (list : DampList) (binfo : Nat) : DampState :=
  { s with threads := s.threads.unlink list binfo }

/-- `bgp_reuse_index`. -/
def bgpReuseIndex (penalty : Nat) : Int :=
  ((s.reuseOffset + settings.reuseIndex penalty) % settings.reuseListSize : Nat)

/-- `bgp_reuse_list_add`. -/
def bgpReuseListAdd (binfo : Nat) (e : DampEntry) : DampState :=
  let index := s.bgpReuseIndex settings e.penalty
  (s.put binfo (some { e with index := index }) (s.infos binfo)).listAdd (some index) binfo

/-- `bgp_damp_info_free`. -/
def bgpDampInfoFree (binfo : Nat) (e : DampEntry) (withdraw : Bool) : DampState :=
  let info := s.infos binfo
  let s := if info.damped then s.listDel (some e.index) binfo else s.listDel none binfo
  s.put binfo none
    { damped := false, history := false, removed := info.removed || (e.withdrawn && withdraw) }

variable (now : Int)

/-- The end of `bgp_damp_withdraw`, for an entry whose penalty has been raised. -/
def noteWithdrawn (s : DampState) (binfo : Nat) (e : DampEntry) (lastPenalty : Nat) : DampState :=
  let e := { e with withdrawn := true, tUpdated := now }
  let info := { s.infos binfo with history := true }
  let s := s.put binfo (some e) info
  if info.damped then
    if e.penalty ≠ lastPenalty then
      (s.listDel (some e.index) binfo).bgpReuseListAdd settings binfo e
    else s
  else if e.penalty ≥ settings.suppressValue then
    let e := { e with suppressTime := now }
    let s := s.put binfo (some e) { info with damped := true }
    (s.listDel none binfo).bgpReuseListAdd settings binfo e
  else s

/-- `bgp_damp_withdraw`. -/
def bgpDampWithdraw (attrChange : Bool) (s : DampState) (binfo : Nat) : DampState :=
  let penalty := if attrChange then 1000 / 2 else 1000
  match s.entries binfo with
  | none =>
    let e : DampEntry :=
      { penalty := penalty, tUpdated := now, suppressTime := 0, index := -1, withdrawn := true }
    let s := { s with size := max s.size (binfo + 1) }.put binfo (some e) (s.infos binfo)
    (s.listAdd none binfo).noteWithdrawn settings now binfo e 0
  | some e =>
    let raised := settings.decay (now - e.tUpdated) e.penalty + penalty
    let penalty := if raised > settings.ceiling then settings.ceiling else raised
    s.noteWithdrawn settings now binfo { e with penalty := penalty } e.penalty

/-- The end of `bgp_damp_update`. -/
def endUpdate (s : DampState) (binfo : Nat) (e : DampEntry) : DampState :=
  if 2 * e.penalty > settings.reuseLimit then
    s.put binfo (some { e with tUpdated := now }) (s.infos binfo)
  else s.bgpDampInfoFree binfo e false

/-- `bgp_damp_update`. -/
def bgpDampUpdate (s : DampState) (binfo : Nat) : DampState :=
  match s.entries binfo with
  | none => s
  | some e =>
    let e := { e with withdrawn := false, penalty := settings.decay (now - e.tUpdated) e.penalty }
    let info := { s.infos binfo with history := false }
    if info.damped && e.penalty < settings.reuseLimit then
      let e := { e with suppressTime := 0 }
      let s := (s.listDel (some e.index) binfo).put binfo (some e) { info with damped := false }
      (s.listAdd none binfo).endUpdate settings now binfo e
    else (s.put binfo (some e) info).endUpdate settings now binfo e

/-- `bgp_damp_scan`. -/
def bgpDampScan (s : DampState) (binfo : Nat) : Except Fault DampState :=
  match s.entries binfo with
  | none => .error .assertion
  | some e =>
    let info := s.infos binfo
    if info.damped then
      if now - e.suppressTime ≥ settings.maxSuppressTime then
        let e' := { e with penalty := settings.reuseLimit, suppressTime := 0, tUpdated := now }
        let s := s.listDel (some e.index) binfo
        .ok ((s.put binfo (some e') { info with damped := false }).listAdd none binfo)
      else .ok s
    else
      let e := { e with penalty := settings.decay (now - e.tUpdated) e.penalty }
      if 2 * e.penalty ≤ settings.reuseLimit then
        .ok ((s.put binfo (some e) info).bgpDampInfoFree binfo e true)
      else .ok (s.put binfo (some { e with tUpdated := now }) info)

/-- What `bgp_reuse_timer` does with one entry. -/
def reuseEntry (s : DampState) (binfo : Nat) (e : DampEntry) : DampState :=
  let e := { e with penalty := settings.decay (now - e.tUpdated) e.penalty, tUpdated := now }
  let info := s.infos binfo
  if e.penalty < settings.reuseLimit then
    let e := { e with suppressTime := 0 }
    let info := { info with damped := false, history := info.history && e.withdrawn }
    let s := s.put binfo (some e) info
    if 2 * e.penalty ≤ settings.reuseLimit then s.bgpDampInfoFree binfo e true
    else s.listAdd none binfo
  else s.bgpReuseListAdd settings binfo e

/-- The loop of `bgp_reuse_timer`. It is given a pass for each entry; longer lists than that go
round in a circle. -/
def reuseLoop (settings : DampSettings) (now : Int) :
    Nat → DampState → Option Nat → Except Fault DampState
  | _, s, none => .ok s
  | 0, _, some binfo => .error (.dangling binfo)
  | passes + 1, s, some binfo =>
    match s.entries binfo with
    | none => .error (.dangling binfo)
    | some e =>
      reuseLoop settings now passes (s.reuseEntry settings now binfo e) (s.threads.next binfo)

/-- `bgp_reuse_timer`. -/
def bgpReuseTimer (s : DampState) : Except Fault DampState :=
  let bucket : DampList := some s.reuseOffset
  let cut :=
    { s with
      threads := { s.threads with head := update s.threads.head bucket none }
      reuseOffset := (s.reuseOffset + 1) % settings.reuseListSize }
  cut.reuseLoop settings now s.size (s.threads.head bucket)

end DampState

/-- The steps. `bgp_damp_info_free` is called for the entry of a route, if it has one. -/
inductive DampStep where
  | withdraw (now : Int) (attrChange : Bool) (binfo : Nat)
  | update (now : Int) (binfo : Nat)
  | scan (now : Int) (binfo : Nat)
  | free (binfo : Nat) (withdraw : Bool)
  | reuseTimer (now : Int)

/-- One call. -/
def dampStep : DampStep → Except Fault DampState
  | .withdraw now attrChange binfo => .ok (s.bgpDampWithdraw settings now attrChange binfo)
  | .update now binfo => .ok (s.bgpDampUpdate settings now binfo)
  | .scan now binfo => s.bgpDampScan settings now binfo
  | .free binfo withdraw =>
    match s.entries binfo with
    | none => .ok s
    | some e => .ok (s.bgpDampInfoFree binfo e withdraw)
  | .reuseTimer now => s.bgpReuseTimer settings now

/-! ## Entries and their lists -/

namespace DampState

/-- The list that the entry of a route belongs to. -/
def home (binfo : Nat) : Option DampList :=
  (s.entries binfo).map fun e => if (s.infos binfo).damped then some e.index else none

/-- Every entry is linked in the list that it belongs to and in no other, and nothing else is. -/
def Disciplined : Prop :=
  ∃ lists, s.threads.Holds lists ∧ ∀ list binfo, binfo ∈ lists list ↔ s.home binfo = some list

/-- The same apart from some loose entries that are in no list. A route without an entry is not
damped. -/
structure Linked (s : DampState) (loose : List Nat) : Prop where
  lists : ∃ lists, s.threads.Holds lists ∧
    ∀ list binfo, binfo ∈ lists list ↔ binfo ∉ loose ∧ s.home binfo = some list
  calm : ∀ {binfo}, s.entries binfo = none → (s.infos binfo).damped = false
  small : ∀ {binfo e}, s.entries binfo = some e → binfo < s.size

variable {s : DampState} {loose : List Nat} {binfo : Nat} {e : DampEntry} {info : DampedInfo}

theorem Linked.disciplined (linked : s.Linked []) : s.Disciplined := by
  obtain ⟨lists, holds, homes⟩ := linked.lists
  exact ⟨lists, holds, by simpa using homes⟩

/-- A route without an entry may be called loose or not. -/
theorem linked_cons_iff (missing : s.home binfo = none) :
    s.Linked (binfo :: loose) ↔ s.Linked loose := by
  have same : ∀ list other, (other ∉ binfo :: loose ∧ s.home other = some list) ↔
      other ∉ loose ∧ s.home other = some list := by
    intro list other
    by_cases here : other = binfo
    · simp [here, missing]
    · simp [here]
  constructor
  · rintro ⟨⟨lists, holds, homes⟩, calm, small⟩
    exact ⟨⟨lists, holds, fun list other => (homes list other).trans (same list other)⟩, calm, small⟩
  · rintro ⟨⟨lists, holds, homes⟩, calm, small⟩
    exact ⟨⟨lists, holds, fun list other => (homes list other).trans (same list other).symm⟩, calm,
      small⟩

theorem Linked.listAdd (linked : s.Linked (binfo :: loose)) (new : binfo ∉ loose)
    {list : DampList} (belongs : s.home binfo = some list) :
    (s.listAdd list binfo).Linked loose := by
  obtain ⟨lists, holds, homes⟩ := linked.lists
  refine ⟨⟨_, holds.push (i := list) fun j => by simp [homes], fun j other => ?_⟩, linked.calm,
    linked.small⟩
  change _ ↔ other ∉ loose ∧ s.home other = some j
  rw [Threads.mem_push, homes]
  by_cases here : other = binfo
  · simp [here, new, belongs, eq_comm]
  · simp [here]

theorem Linked.listDel (linked : s.Linked loose) (inside : binfo ∉ loose) {list : DampList}
    (belongs : s.home binfo = some list) : (s.listDel list binfo).Linked (binfo :: loose) := by
  obtain ⟨lists, holds, homes⟩ := linked.lists
  have mem : binfo ∈ lists list := (homes list binfo).mpr ⟨inside, belongs⟩
  refine ⟨⟨_, holds.unlink mem, fun j other => ?_⟩, linked.calm, linked.small⟩
  rw [holds.mem_unlink mem, homes, List.mem_cons, not_or, and_assoc]
  rfl

@[simp] theorem put_home (s : DampState) (binfo : Nat) (entry : Option DampEntry)
    (info : DampedInfo) : (s.put binfo entry info).home binfo =
      entry.map fun e => if info.damped then some e.index else none := by
  simp [home, put]

theorem put_home_ne {entry : Option DampEntry} {other : Nat} (ne : other ≠ binfo) :
    (s.put binfo entry info).home other = s.home other := by
  simp [home, put, ne]

theorem Linked.put {entry : Option DampEntry} (linked : s.Linked loose) (small : binfo < s.size)
    (calm : entry = none → info.damped = false)
    (same : binfo ∈ loose ∨ (s.put binfo entry info).home binfo = s.home binfo) :
    (s.put binfo entry info).Linked loose := by
  obtain ⟨lists, holds, homes⟩ := linked.lists
  refine ⟨⟨lists, holds, fun list other => ?_⟩, fun {other} missing => ?_, fun {other f} found => ?_⟩
  · rw [homes]
    refine and_congr_right fun outside => ?_
    by_cases here : other = binfo
    · subst here
      rw [same.resolve_left outside]
    · rw [put_home_ne here]
  · by_cases here : other = binfo
    · subst here
      simp only [DampState.put, update_self] at missing ⊢
      exact calm missing
    · simp only [DampState.put, update_of_ne here] at missing ⊢
      exact linked.calm missing
  · by_cases here : other = binfo
    · exact here ▸ small
    · simp only [DampState.put, update_of_ne here] at found
      exact linked.small found

/-! ## The steps -/

variable {settings : DampSettings}

theorem home_of_damped (found : s.entries binfo = some e) (damped : (s.infos binfo).damped = true) :
    s.home binfo = some (some e.index) := by
  rw [home, found, Option.map_some, if_pos damped]

theorem home_of_calm (found : s.entries binfo = some e) (calm : ¬ (s.infos binfo).damped = true) :
    s.home binfo = some none := by
  rw [home, found, Option.map_some, if_neg calm]

theorem Linked.bgpReuseListAdd (linked : s.Linked (binfo :: loose)) (new : binfo ∉ loose)
    (small : binfo < s.size) (damped : (s.infos binfo).damped = true) (settings : DampSettings)
    (e : DampEntry) : (s.bgpReuseListAdd settings binfo e).Linked loose := by
  refine Linked.listAdd ?_ new (by simp [damped])
  exact linked.put small (by simp) (.inl List.mem_cons_self)

theorem Linked.bgpDampInfoFree (linked : s.Linked loose) (inside : binfo ∉ loose)
    (found : s.entries binfo = some e) (withdraw : Bool) :
    (s.bgpDampInfoFree binfo e withdraw).Linked loose := by
  have small := linked.small found
  unfold DampState.bgpDampInfoFree
  dsimp only
  refine (linked_cons_iff (put_home ..)).mp ?_
  split_ifs with damped
  · exact (linked.listDel inside (home_of_damped found damped)).put small (fun _ => rfl)
      (.inl List.mem_cons_self)
  · exact (linked.listDel inside (home_of_calm found damped)).put small (fun _ => rfl)
      (.inl List.mem_cons_self)

section

variable (linked : s.Linked [])

include linked

/-- An entry goes from its reuse list to `no_reuse_list`. -/
theorem Linked.released (found : s.entries binfo = some e)
    (damped : (s.infos binfo).damped = true) (calm : info.damped = false) (e' : DampEntry) :
    (((s.listDel (some e.index) binfo).put binfo (some e') info).listAdd none binfo).Linked [] := by
  have taken := linked.listDel (by simp) (home_of_damped found damped)
  refine Linked.listAdd ?_ (by simp) (by simp [calm])
  exact taken.put (linked.small found) (by simp) (.inl List.mem_cons_self)

theorem Linked.changed (found : s.entries binfo = some e) {e' : DampEntry}
    (index_eq : e'.index = e.index) (damped_eq : info.damped = (s.infos binfo).damped) :
    (s.put binfo (some e') info).Linked [] := by
  refine linked.put (linked.small found) (by simp) (.inr ?_)
  rw [put_home, home, found, Option.map_some, Option.map_some, index_eq, damped_eq]

theorem Linked.noteWithdrawn (found : s.entries binfo = some e)
    {e' : DampEntry} (index_eq : e'.index = e.index) (settings : DampSettings) (now : Int)
    (lastPenalty : Nat) : (s.noteWithdrawn settings now binfo e' lastPenalty).Linked [] := by
  have small := linked.small found
  let noted : DampEntry := { e' with withdrawn := true, tUpdated := now }
  let info : DampedInfo := { s.infos binfo with history := true }
  have put : (s.put binfo (some noted) info).Linked [] := linked.changed found index_eq rfl
  unfold DampState.noteWithdrawn
  dsimp only
  split_ifs with damped changed high
  · have taken : (DampState.listDel _ (some noted.index) binfo).Linked [binfo] :=
      put.listDel (by simp) (by simp [info, damped])
    have flag : (s.put binfo (some noted) info).infos binfo = info := update_self ..
    exact taken.bgpReuseListAdd (by simp) small ((congrArg _ flag).trans damped) settings _
  · exact put
  · -- the flag is set before the entry leaves its list, which makes no difference to either
    have taken : (DampState.listDel _ none binfo).Linked [binfo] :=
      put.listDel (by simp) (by simp [info, damped])
    have flagged : (DampState.put _ binfo (some { noted with suppressTime := now })
        { info with damped := true }).Linked [binfo] :=
      taken.put small (by simp) (.inl List.mem_cons_self)
    exact flagged.bgpReuseListAdd (by simp) small (by simp [DampState.put]) settings _
  · exact put

variable (settings : DampSettings)

theorem Linked.bgpDampWithdraw (now : Int)
    (attrChange : Bool) (binfo : Nat) :
    (s.bgpDampWithdraw settings now attrChange binfo).Linked [] := by
  unfold DampState.bgpDampWithdraw
  cases found : s.entries binfo with
  | none =>
    have calm := linked.calm found
    have room : DampState.Linked { s with size := max s.size (binfo + 1) } [binfo] := by
      refine (linked_cons_iff (by simp [home, found])).mpr ⟨linked.lists, linked.calm, ?_⟩
      exact fun found' => Nat.lt_of_lt_of_le (linked.small found') (Nat.le_max_left _ _)
    refine Linked.noteWithdrawn (Linked.listAdd ?_ (by simp) ?_) ?_ rfl settings now 0
    · exact room.put (Nat.le_max_right _ _) (by simp) (.inl List.mem_cons_self)
    · simp [calm]
    · exact update_self ..
  | some e =>
    refine linked.noteWithdrawn found ?_ settings now e.penalty
    rfl

theorem Linked.endUpdate (found : s.entries binfo = some e)
    (settings : DampSettings) (now : Int) : (s.endUpdate settings now binfo e).Linked [] := by
  unfold DampState.endUpdate
  split_ifs
  · exact linked.changed found rfl rfl
  · exact linked.bgpDampInfoFree (by simp) found false

theorem Linked.bgpDampUpdate (now : Int)
    (binfo : Nat) : (s.bgpDampUpdate settings now binfo).Linked [] := by
  unfold DampState.bgpDampUpdate
  cases found : s.entries binfo with
  | none => exact linked
  | some e =>
    dsimp only
    split_ifs with reused
    · refine Linked.endUpdate ?_ (update_self ..) settings now
      exact linked.released found (Bool.and_eq_true_iff.mp reused).1 rfl _
    · refine Linked.endUpdate ?_ (update_self ..) settings now
      exact linked.changed found rfl rfl

theorem Linked.bgpDampScan (now : Int)
    (binfo : Nat) : s.bgpDampScan settings now binfo = .error .assertion ∨
      ∃ s', s.bgpDampScan settings now binfo = .ok s' ∧ s'.Linked [] := by
  unfold DampState.bgpDampScan
  cases found : s.entries binfo with
  | none => exact .inl rfl
  | some e =>
    refine .inr ?_
    dsimp only
    split_ifs with damped late low
    · exact ⟨_, rfl, linked.released found damped rfl _⟩
    · exact ⟨s, rfl, linked⟩
    · refine ⟨_, rfl, Linked.bgpDampInfoFree ?_ (by simp) (update_self ..) true⟩
      exact linked.changed found rfl rfl
    · exact ⟨_, rfl, linked.changed found rfl rfl⟩

end

/-- The links that the loop of the timer follows. -/
def Trail (next : Nat → Option Nat) : List Nat → Prop
  | [] => True
  | a :: rest => next a = firstOf rest none ∧ Trail next rest

theorem trail_of_strung {next prev : Nat → Option Nat} {before : Option Nat} {nodes : List Nat}
    (strung : Strung next prev before nodes none) : Trail next nodes := by
  induction nodes generalizing before with
  | nil => trivial
  | cons a rest ih => exact ⟨strung.2.1, ih strung.2.2⟩

theorem Trail.congr {next next' : Nat → Option Nat} {nodes : List Nat} (trail : Trail next nodes)
    (same : ∀ x ∈ nodes, next' x = next x) : Trail next' nodes := by
  induction nodes with
  | nil => trivial
  | cons a rest ih =>
    exact ⟨(same a List.mem_cons_self).trans trail.1,
      ih trail.2 fun x inside => same x (.tail a inside)⟩

/-- The penalty of an entry has not come down to half of the limit when it is to be reused. -/
def Spared (settings : DampSettings) (now : Int) (e : DampEntry) : Prop :=
  settings.decay (now - e.tUpdated) e.penalty < settings.reuseLimit →
    settings.reuseLimit < 2 * settings.decay (now - e.tUpdated) e.penalty

/-- An entry that is spared goes into its new list; no other entry is touched. -/
theorem Linked.reuseEntry (linked : s.Linked (binfo :: loose)) (new : binfo ∉ loose)
    (found : s.entries binfo = some e) (damped : (s.infos binfo).damped = true) {now : Int}
    (spared : Spared settings now e) :
    (s.reuseEntry settings now binfo e).Linked loose ∧ ∀ other, other ≠ binfo →
      (s.reuseEntry settings now binfo e).entries other = s.entries other ∧
      (s.reuseEntry settings now binfo e).infos other = s.infos other ∧
      (s.reuseEntry settings now binfo e).threads.next other = s.threads.next other := by
  have small := linked.small found
  unfold DampState.reuseEntry
  dsimp only
  split_ifs with low half
  · exact absurd (spared low) (Nat.not_lt.mpr half)
  · refine ⟨Linked.listAdd ?_ new (by simp), fun other ne => ⟨?_, ?_, ?_⟩⟩
    · exact linked.put small (by simp) (.inl List.mem_cons_self)
    all_goals exact update_of_ne ne _ _
  · refine ⟨linked.bgpReuseListAdd new small damped settings _, fun other ne => ⟨?_, ?_, ?_⟩⟩
    all_goals exact update_of_ne ne _ _

/-- An entry that the timer comes to. -/
def Due (settings : DampSettings) (now : Int) (s : DampState) (binfo : Nat) : Prop :=
  ∃ e, s.entries binfo = some e ∧ (s.infos binfo).damped = true ∧ Spared settings now e

theorem Linked.reuseLoop {now : Int} {passes : Nat} (linked : s.Linked loose)
    (distinct : loose.Nodup) (trail : Trail s.threads.next loose)
    (due : ∀ other ∈ loose, s.Due settings now other) (enough : loose.length ≤ passes) :
    ∃ s', s.reuseLoop settings now passes (firstOf loose none) = .ok s' ∧ s'.Linked [] := by
  induction loose generalizing s passes with
  | nil =>
    refine ⟨s, ?_, linked⟩
    cases passes <;> rfl
  | cons binfo rest ih =>
    cases passes with
    | zero => cases enough
    | succ passes =>
      obtain ⟨e, found, damped, spared⟩ := due binfo List.mem_cons_self
      obtain ⟨new, distinct⟩ := List.nodup_cons.mp distinct
      obtain ⟨linked', frame⟩ := linked.reuseEntry new found damped spared
      have ne : ∀ {other}, other ∈ rest → other ≠ binfo := fun inside same => new (same ▸ inside)
      have onward : s.reuseLoop settings now (passes + 1) (firstOf (binfo :: rest) none) =
          (s.reuseEntry settings now binfo e).reuseLoop settings now passes
            (firstOf rest none) := by
        change (match s.entries binfo with | none => _ | some e => _) = _
        rw [found, ← trail.1]
      rw [onward]
      refine ih linked' distinct (trail.2.congr fun other inside => (frame other (ne inside)).2.2)
        (fun other inside => ?_) (Nat.le_of_succ_le_succ enough)
      obtain ⟨entries, infos, -⟩ := frame other (ne inside)
      unfold Due
      rw [entries, infos]
      exact due other (.tail binfo inside)

theorem Linked.bgpReuseTimer (linked : s.Linked []) {now : Int} (spared : ∀ {binfo e}, s.entries
    binfo = some e → s.home binfo = some (some (s.reuseOffset : Int)) → Spared settings now e) :
    ∃ s', s.bgpReuseTimer settings now = .ok s' ∧ s'.Linked [] := by
  obtain ⟨lists, holds, homes⟩ := linked.disciplined
  let bucket : DampList := some (s.reuseOffset : Int)
  unfold DampState.bgpReuseTimer
  dsimp only
  rw [holds.head_eq bucket]
  have entry : ∀ other ∈ lists bucket, ∃ e, s.entries other = some e := by
    intro other inside
    obtain ⟨e, found, -⟩ := Option.map_eq_some_iff.mp ((homes bucket other).mp inside)
    exact ⟨e, found⟩
  refine Linked.reuseLoop ?_ (holds.distinct bucket) (trail_of_strung (holds.strung bucket)) ?_ ?_
  · refine ⟨⟨_, holds.cut bucket, fun list other => ?_⟩, linked.calm, linked.small⟩
    change _ ↔ other ∉ lists bucket ∧ s.home other = some list
    rw [← homes]
    by_cases same : list = bucket
    · simp [same]
    · rw [update_of_ne same]
      exact ⟨fun inside => ⟨fun cut => same (holds.apart inside cut), inside⟩, And.right⟩
  · intro other inside
    obtain ⟨e, found⟩ := entry other inside
    have belongs := (homes bucket other).mp inside
    refine ⟨e, found, ?_, spared found belongs⟩
    by_contra free
    simp [home_of_calm found free] at belongs
  · refine length_le_of_lt (holds.distinct bucket) fun other inside => ?_
    obtain ⟨e, found⟩ := entry other inside
    exact linked.small found

end DampState

/-! ## The lists over all steps -/

/-- Go on with a call unless there was a fault. -/
def dampRun (settings : DampSettings) (state : Except Fault DampState) (step : DampStep) :
    Except Fault DampState :=
  state >>= (dampStep settings · step)

/-- The lists are in order, unless an assertion has ended the run. -/
def InOrder : Except Fault DampState → Prop
  | .ok s => s.Disciplined
  | .error fault => fault = .assertion

/-- The timer finds no entry in its list whose penalty has come down to half of the limit. -/
def TimerSpares (settings : DampSettings) : Except Fault DampState → DampStep → Prop
  | .ok s, .reuseTimer now =>
    ∀ binfo e, s.entries binfo = some e → s.home binfo = some (some (s.reuseOffset : Int)) →
      DampState.Spared settings now e
  | _, _ => True

/-- The lists are linked, or an assertion has failed. -/
def LinkedRun : Except Fault DampState → Prop
  | .ok s => s.Linked []
  | .error fault => fault = .assertion

theorem DampState.Linked.dampStep {settings : DampSettings} {s : DampState} {step : DampStep}
    (linked : s.Linked []) (spares : TimerSpares settings (.ok s) step) :
    dampStep settings s step = .error .assertion ∨
      ∃ s', dampStep settings s step = .ok s' ∧ s'.Linked [] := by
  cases step with
  | withdraw now attrChange binfo =>
    exact .inr ⟨_, rfl, linked.bgpDampWithdraw settings now attrChange binfo⟩
  | update now binfo => exact .inr ⟨_, rfl, linked.bgpDampUpdate settings now binfo⟩
  | scan now binfo => exact linked.bgpDampScan settings now binfo
  | free binfo withdraw =>
    cases found : s.entries binfo with
    | none => exact .inr ⟨s, by simp only [Bgpd.dampStep, found], linked⟩
    | some e =>
      exact .inr ⟨s.bgpDampInfoFree binfo e withdraw, by simp only [Bgpd.dampStep, found],
        linked.bgpDampInfoFree (by simp) found withdraw⟩
  | reuseTimer now => exact .inr (linked.bgpReuseTimer fun found => spares _ _ found)

theorem linkedRun_step {settings : DampSettings} (state : Except Fault DampState) (step : DampStep)
    (linked : LinkedRun state) (spares : TimerSpares settings state step) :
    LinkedRun (dampRun settings state step) := by
  cases state with
  | error fault => exact linked
  | ok s =>
    change LinkedRun (dampStep settings s step)
    rcases DampState.Linked.dampStep linked spares with fault | ⟨s', result, linked'⟩
    · rw [fault]
      rfl
    · rw [result]
      exact linked'

theorem linkedRun_start : LinkedRun (.ok .start) := by
  refine ⟨⟨fun _ => [], ⟨fun _ => rfl, fun _ => trivial, fun _ => List.nodup_nil, ?_⟩, ?_⟩,
    fun _ => rfl, ?_⟩ <;> simp [DampState.start, DampState.home]

/-- **Every entry is linked in the list that it belongs to and in no other**, in all states of a run
in which the timer finds no entry in its list whose penalty has come down to half of the limit. -/
theorem lists_kept (settings : DampSettings) {history : List DampStep}
    (spared : EachMeets (dampRun settings) (.ok .start) (TimerSpares settings) history) :
    Throughout (dampRun settings) (.ok .start) InOrder history := by
  intro before later split
  subst split
  have linked := spared.of_append.invariant LinkedRun linkedRun_start linkedRun_step
  revert linked
  cases afterAll (dampRun settings) (.ok .start) before with
  | error fault => exact id
  | ok s => exact DampState.Linked.disciplined

/-- The settings of a router that forgets penalties after a minute. -/
def forgetful : DampSettings where
  suppressValue := 2000
  reuseLimit := 750
  ceiling := 12000
  maxSuppressTime := 3600
  reuseListSize := 256
  decay tdiff penalty := if tdiff < 60 then penalty else 0
  decay_le tdiff penalty := by
    split_ifs
    exacts [Nat.le_refl _, Nat.zero_le _]
  reuseIndex _ := 0

/-- Two routes flap, and one of them is damped. -/
def twoFlaps : List DampStep := [.withdraw 0 true 0, .withdraw 0 false 1, .withdraw 0 false 1]

/-- The timer runs before the penalty is forgotten. -/
theorem twoFlaps_kept :
    EachMeets (dampRun forgetful) (.ok .start) (TimerSpares forgetful)
        (twoFlaps ++ [.reuseTimer 10]) ∧
      Throughout (dampRun forgetful) (.ok .start) InOrder (twoFlaps ++ [.reuseTimer 10]) := by
  have spared : EachMeets (dampRun forgetful) (.ok .start) (TimerSpares forgetful)
      (twoFlaps ++ [.reuseTimer 10]) := by
    refine eachMeets_concat.mpr ⟨?_, ?_⟩
    · simp only [twoFlaps, eachMeets_cons]
      exact ⟨trivial, trivial, trivial, eachMeets_nil⟩
    · rintro (_ | _ | a) e found belongs
      · cases belongs
      · obtain rfl := Option.some.inj found
        exact fun low => absurd low (by decide)
      · cases found
  exact ⟨spared, lists_kept forgetful spared⟩

/-- **The timer frees an entry and loses `no_reuse_list`.** -/
theorem timer_loses_list :
    ¬ Throughout (dampRun forgetful) (.ok .start) InOrder (twoFlaps ++ [.reuseTimer 60]) := by
  intro throughout
  obtain ⟨lists, holds, home⟩ : DampState.Disciplined _ := throughout.here
  have lost : firstOf (lists none) none = none := (holds.head_eq none).symm
  have inside : 0 ∈ lists none := (home none 0).mpr rfl
  cases same : lists none with
  | nil => simp [same] at inside
  | cons a rest => simp [same] at lost

end Quagga.Bgpd
