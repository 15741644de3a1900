import Quagga.Library.Histories
import Quagga.Bgpd.Rib

/-!
# The prefix count of a peer

`peer->pcount` counts the routes of a peer that are in use. It is not changed where routes come and
go: `bgp_info_set_flag` and `bgp_info_unset_flag` call `bgp_pcount_adjust` when a flag changes that
decides whether a route is usable, and this function counts the route, or takes it out of the count,
and keeps track of that in the flag `COUNTED`.

Two functions change `VALID` without that. `bgp_info_delete` unsets it after `REMOVED` has taken
the route out of the count. `bgp_info_restore` sets it after `REMOVED` is unset, when the route was
still not `VALID` and so was not counted: it leaves a usable route that is not counted
(`Counting.bgpInfoRestore_settled_iff`). It is `static`, and for a route of a neighbour only
`bgp_update_main` calls it, which counts the route when it sets `VALID` later on. So the counts are
right after every operation (`prefix_count`).
-/

set_option autoImplicit false

namespace Quagga.Bgpd

open Lib Library

/-! ## Flags -/

/-- The flags that are changed through `bgp_info_set_flag` and `bgp_info_unset_flag`. -/
inductive InfoFlag where
  | damped
  | history
  | selected
  | valid
  | attrChanged
  | dmedCheck
  | dmedSelected
  | stale
  | removed
  deriving DecidableEq

/-- Set or unset one flag. -/
def InfoFlags.put (flags : InfoFlags) (value : Bool) : InfoFlag → InfoFlags
  | .damped => { flags with damped := value }
  | .history => { flags with history := value }
  | .selected => { flags with selected := value }
  | .valid => { flags with valid := value }
  | .attrChanged => { flags with attrChanged := value }
  | .dmedCheck => { flags with dmedCheck := value }
  | .dmedSelected => { flags with dmedSelected := value }
  | .stale => { flags with stale := value }
  | .removed => { flags with removed := value }

/-- `BGP_INFO_VALID|BGP_INFO_UNUSEABLE`. -/
def InfoFlag.useability : InfoFlag → Bool
  | .valid | .history | .damped | .removed => true
  | _ => false

/-! ## Routes that are counted -/

/-- `struct bgp_damp_info`: the penalty, when it was computed, and whether the last record was a
withdrawal. -/
structure DampInfo where
  penalty : Nat
  tUpdated : Nat
  withdrawn : Bool
  deriving DecidableEq

/-- `struct bgp_damp_config`, with the decay of a penalty over time. -/
structure DampConfig where
  suppressValue : Nat
  reuseLimit : Nat
  ceiling : Nat
  decay : Nat → Nat → Nat

/-- A route of the main table, with the node that it belongs to, the flag `COUNTED` and its
dampening information. -/
structure TableRoute where
  node : Nat
  info : BgpInfo
  counted : Bool
  damp : Option DampInfo
  deriving DecidableEq

/-- One route, and the counts of all peers. -/
structure Counting where
  route : TableRoute
  pcount : Peer → Nat

variable (config : DampConfig) (dampening : Bool) (now : Nat) (c : Counting) (value : Bool)
  (mask : List InfoFlag) (attr : Attr) (reachable : Bool)

namespace Counting

/-- `BGP_INFO_HOLDDOWN`. -/
def holddown : Bool := c.route.info.holddown

/-- Replace the flags. -/
def withFlags (flags : InfoFlags) : Counting :=
  { c with route := { c.route with info := { c.route.info with flags := flags } } }

/-- Change the flag `COUNTED` and the count of the peer. -/
def withCounted (counted : Bool) (count : Nat) : Counting :=
  { route := { c.route with counted := counted }
    pcount := Function.update c.pcount c.route.info.peer count }

/-- `bgp_pcount_adjust` for a main table. A count of zero is not decremented. -/
def bgpPcountAdjust : Counting :=
  if c.route.info.peer = peerSelf then c
  else if c.holddown && c.route.counted then
    c.withCounted false (c.pcount c.route.info.peer - 1)
  else if !c.holddown && !c.route.counted then
    c.withCounted true (c.pcount c.route.info.peer + 1)
  else c

/-- `bgp_info_set_flag` and `bgp_info_unset_flag`. -/
def putFlags (c : Counting) : Counting :=
  let c := c.withFlags (mask.foldl (·.put value) c.route.info.flags)
  if mask.any InfoFlag.useability then c.bgpPcountAdjust else c

/-- `bgp_info_set_flag`. -/
def bgpInfoSetFlag (c : Counting) : Counting := c.putFlags true mask

/-- `bgp_info_unset_flag`. -/
def bgpInfoUnsetFlag (c : Counting) : Counting := c.putFlags false mask

/-- `bgp_info_delete`. -/
def bgpInfoDelete : Counting :=
  let c := c.bgpInfoSetFlag [.removed]
  c.withFlags (c.route.info.flags.put false .valid)

/-- `bgp_info_restore`. -/
def bgpInfoRestore : Counting :=
  let c := c.bgpInfoUnsetFlag [.removed]
  c.withFlags (c.route.info.flags.put true .valid)

/-- `bgp_rib_remove`. -/
def bgpRibRemove : Counting :=
  if c.route.info.flags.history then c else c.bgpInfoDelete

/-! ## Dampening -/

/-- Replace the dampening information. -/
def withDamp (damp : Option DampInfo) : Counting :=
  { c with route := { c.route with damp := damp } }

/-- `bgp_damp_info_free` with `withdraw` zero. -/
def bgpDampInfoFree : Counting :=
  (c.withDamp none).bgpInfoUnsetFlag [.history, .damped]

/-- `DEFAULT_PENALTY`. -/
def defaultPenalty : Nat := 1000

/-- `bgp_damp_withdraw`, and whether it returns `BGP_DAMP_SUPPRESSED`. -/
def bgpDampWithdraw (attrChange : Bool) (c : Counting) : Counting × Bool :=
  let more := if attrChange then defaultPenalty / 2 else defaultPenalty
  let penalty :=
    match c.route.damp with
    | none => more
    | some damp => min config.ceiling (config.decay (now - damp.tUpdated) damp.penalty + more)
  let c := c.withDamp (some { penalty := penalty, tUpdated := now, withdrawn := true })
  let c := c.bgpInfoSetFlag [.history]
  if c.route.info.flags.damped then (c, true)
  else if penalty ≥ config.suppressValue then (c.bgpInfoSetFlag [.damped], false)
  else (c, false)

/-- `bgp_damp_update`, and whether it returns `BGP_DAMP_SUPPRESSED`. -/
def bgpDampUpdate : Counting × Bool :=
  match c.route.damp with
  | none => (c, false)
  | some damp =>
    let penalty := config.decay (now - damp.tUpdated) damp.penalty
    let c := c.bgpInfoUnsetFlag [.history]
    let damped := c.route.info.flags.damped
    let c := if damped && penalty < config.reuseLimit then c.bgpInfoUnsetFlag [.damped] else c
    let suppressed := if damped then !(penalty < config.reuseLimit) else
      !(penalty < config.suppressValue)
    let tUpdated := if 2 * penalty > config.reuseLimit then now else damp.tUpdated
    let c := c.withDamp (some { penalty := penalty, tUpdated := tUpdated, withdrawn := false })
    (if 2 * penalty > config.reuseLimit then c else c.bgpDampInfoFree, suppressed)

/-- `bgp_rib_withdraw`, where `dampening` says that it is configured and the peer is an external
one. -/
def bgpRibWithdraw : Counting :=
  if dampening then
    let (c, suppressed) := c.bgpDampWithdraw config now false
    if suppressed then c else c.bgpRibRemove
  else c.bgpRibRemove

/-! ## Updates -/

/-- `bgp_update_main` for the same attributes. -/
def sameAttr : Counting :=
  let c := c.bgpInfoUnsetFlag [.attrChanged]
  if dampening && c.route.info.flags.history then (c.bgpDampUpdate config now).1
  else if c.route.info.flags.stale then c.bgpInfoUnsetFlag [.stale]
  else c

/-- `bgp_update_main` for new attributes, up to the dampening of the old route. -/
def noteNew : Counting :=
  let c := if c.route.info.flags.removed then c.bgpInfoRestore else c
  let c := if c.route.info.flags.stale then c.bgpInfoUnsetFlag [.stale] else c
  let c := c.bgpInfoSetFlag [.attrChanged]
  if dampening && !c.route.info.flags.history then (c.bgpDampWithdraw config now true).1 else c

/-- Store the new attributes. -/
def withAttr : Counting :=
  { c with route := { c.route with info := { c.route.info with attr := attr } } }

/-- `bgp_update_main` for new attributes, where `reachable` says that the next hop needs no lookup
or that the lookup succeeds. -/
def newAttr (c : Counting) : Counting :=
  let c := (c.noteNew config dampening now).withAttr attr
  let (c, suppressed) := if dampening then c.bgpDampUpdate config now else (c, false)
  if suppressed then c else c.putFlags reachable [.valid]

/-- `bgp_update_main` where the route is there already. -/
def implicitWithdraw (c : Counting) : Counting :=
  if !c.route.info.flags.removed && c.route.info.attr = attr then c.sameAttr config dampening now
  else c.newAttr config dampening now attr reachable

end Counting

/-! ## The table -/

/-- The routes of the main table, the latest one first, and the counts. -/
structure PrefixTable where
  routes : List TableRoute
  pcount : Peer → Nat

/-- Change the first route that a search finds. -/
def PrefixTable.modify (found : TableRoute → Bool) (change : Counting → Counting) :
    List TableRoute → (Peer → Nat) → PrefixTable
  | [], pcount => { routes := [], pcount := pcount }
  | route :: rest, pcount =>
    if found route then
      let c := change { route := route, pcount := pcount }
      { routes := c.route :: rest, pcount := c.pcount }
    else
      let table := modify found change rest pcount
      { table with routes := route :: table.routes }

/-- The route of a peer at a node. -/
def TableRoute.learnedAt (peer : Peer) (node : Nat) (route : TableRoute) : Bool :=
  route.node = node && learnedFrom peer route.info

/-- The operations on the table. The ones on a single route are given its address. Updates and
withdrawals come from neighbours; an update restores a route that is removed. -/
inductive CountStep where
  | update (peer : Peer) (neighbour : peer ≠ peerSelf) (node : Nat) (attr : Attr)
      (filtered reachable dampening : Bool) (now ptr : Nat)
  | withdraw (peer : Peer) (node : Nat) (dampening : Bool) (now : Nat)
  | ribRemove (ptr : Nat)
  | infoDelete (ptr : Nat)
  | infoReap (ptr : Nat)
  | setFlag (ptr : Nat) (mask : List InfoFlag)
  | unsetFlag (ptr : Nat) (mask : List InfoFlag)

/-- `bgp_update_main` where the route is not there yet. -/
def PrefixTable.addRoute (table : PrefixTable) (peer : Peer) (node : Nat) (attr : Attr)
    (reachable : Bool) (ptr : Nat) : PrefixTable :=
  let info : BgpInfo :=
    { ptr := ptr, peer := peer, attr := attr, extra := none, flags := newFlags
      type := zebraRouteBgp, subType := .normal }
  let c : Counting :=
    { route := { node := node, info := info, counted := false, damp := none }
      pcount := table.pcount }
  let c := c.putFlags reachable [.valid]
  { routes := c.route :: table.routes, pcount := c.pcount }

/-- One operation. `bgp_info_reap` is called for removed routes only. -/
def countStep (table : PrefixTable) : CountStep → PrefixTable
  | .update peer _ node attr filtered reachable dampening now ptr =>
    if filtered then
      .modify (·.learnedAt peer node) .bgpRibRemove table.routes table.pcount
    else if table.routes.any (·.learnedAt peer node) then
      .modify (·.learnedAt peer node) (.implicitWithdraw config dampening now attr reachable)
        table.routes table.pcount
    else table.addRoute peer node attr reachable ptr
  | .withdraw peer node dampening now =>
    .modify (·.learnedAt peer node)
      (fun c => if c.route.info.flags.history then c else c.bgpRibWithdraw config dampening now)
      table.routes table.pcount
  | .ribRemove ptr => .modify (·.info.ptr = ptr) .bgpRibRemove table.routes table.pcount
  | .infoDelete ptr => .modify (·.info.ptr = ptr) .bgpInfoDelete table.routes table.pcount
  | .infoReap ptr =>
    { table with
      routes := table.routes.filter fun route =>
        !(route.info.ptr = ptr && route.info.flags.removed) }
  | .setFlag ptr mask =>
    .modify (·.info.ptr = ptr) (.bgpInfoSetFlag mask) table.routes table.pcount
  | .unsetFlag ptr mask =>
    .modify (·.info.ptr = ptr) (.bgpInfoUnsetFlag mask) table.routes table.pcount

/-- No routes. -/
def PrefixTable.empty : PrefixTable := { routes := [], pcount := fun _ => 0 }

/-! ## The property -/

/-- The counts are the numbers of counted routes, and the counted routes are the usable ones. -/
structure PrefixCount (table : PrefixTable) : Prop where
  pcount_eq : ∀ peer, table.pcount peer =
    table.routes.countP fun route => route.info.peer = peer && route.counted
  counted_eq : ∀ route ∈ table.routes, route.counted = !route.info.holddown

/-! ## Changes of one route -/

namespace Counting

/-- The change of the count is the change of the flag `COUNTED`, and it is the peer's own count. -/
structure Balanced (c after : Counting) : Prop where
  peer_eq : after.route.info.peer = c.route.info.peer
  others : ∀ peer, peer ≠ c.route.info.peer → after.pcount peer = c.pcount peer
  here : c.route.counted.toNat ≤ c.pcount c.route.info.peer →
    after.pcount c.route.info.peer + c.route.counted.toNat =
      c.pcount c.route.info.peer + after.route.counted.toNat

/-- A neighbour's route is counted exactly if it is usable. -/
def Settled : Prop :=
  c.route.info.peer ≠ peerSelf → c.route.counted = !c.holddown

/-- A change that is balanced and leaves a settled route settled. -/
structure Keeps (c after : Counting) : Prop where
  balanced : Balanced c after
  settled : c.Settled → after.Settled

variable {c middle after : Counting}

theorem Balanced.refl (c : Counting) : Balanced c c := ⟨rfl, fun _ _ => rfl, fun _ => rfl⟩

theorem Balanced.trans (first : Balanced c middle) (second : Balanced middle after) :
    Balanced c after := by
  refine ⟨second.peer_eq.trans first.peer_eq, fun peer other => ?_, fun covered => ?_⟩
  · rw [second.others peer (first.peer_eq ▸ other), first.others peer other]
  · have one := first.here covered
    have two := second.here (by rw [first.peer_eq]; omega)
    rw [first.peer_eq] at two
    omega

theorem Balanced.of_eq (peer : after.route.info.peer = c.route.info.peer)
    (counted : after.route.counted = c.route.counted) (pcount : after.pcount = c.pcount) :
    Balanced c after :=
  ⟨peer, fun _ _ => congrFun pcount _, fun _ => by rw [pcount, counted]⟩

theorem Keeps.refl (c : Counting) : Keeps c c := ⟨.refl c, id⟩

theorem Keeps.trans (first : Keeps c middle) (second : Keeps middle after) : Keeps c after :=
  ⟨first.balanced.trans second.balanced, fun settled => second.settled (first.settled settled)⟩

@[simp] theorem bgpPcountAdjust_info (c : Counting) :
    c.bgpPcountAdjust.route.info = c.route.info := by
  unfold bgpPcountAdjust withCounted
  split_ifs <;> rfl

theorem bgpPcountAdjust_balanced (c : Counting) : Balanced c c.bgpPcountAdjust := by
  unfold bgpPcountAdjust
  by_cases self : c.route.info.peer = peerSelf
  · rw [if_pos self]
    exact .refl c
  · rw [if_neg self]
    by_cases gone : (c.holddown && c.route.counted) = true
    · rw [if_pos gone]
      refine ⟨rfl, fun peer other => Function.update_of_ne other .., fun covered => ?_⟩
      rw [(Bool.and_eq_true_iff.mp gone).2] at covered ⊢
      simp only [withCounted, Function.update_self, Bool.toNat_true, Bool.toNat_false] at covered ⊢
      omega
    · split_ifs with new
      · refine ⟨rfl, fun peer other => Function.update_of_ne other .., fun covered => ?_⟩
        have uncounted : c.route.counted = false := by
          simpa using (Bool.and_eq_true_iff.mp new).2
        simp [withCounted, uncounted]
      · exact .refl c

theorem bgpPcountAdjust_settled (c : Counting) : c.bgpPcountAdjust.Settled := by
  intro neighbour
  rw [bgpPcountAdjust_info] at neighbour
  unfold holddown
  rw [bgpPcountAdjust_info]
  unfold bgpPcountAdjust holddown withCounted
  rw [if_neg neighbour]
  cases held : c.route.info.holddown <;> cases counted : c.route.counted <;> simp [counted]

theorem putFlags_eq (c : Counting) : (c.putFlags value mask).route.info =
      { c.route.info with flags := mask.foldl (·.put value) c.route.info.flags } := by
  unfold putFlags withFlags
  split_ifs
  · rw [bgpPcountAdjust_info]
  · rfl

theorem holddown_foldl {mask : List InfoFlag} (info : BgpInfo)
    (untouched : mask.any InfoFlag.useability = false) (flags : InfoFlags) :
    ({ info with flags := mask.foldl (·.put value) flags } : BgpInfo).holddown =
      ({ info with flags := flags } : BgpInfo).holddown := by
  induction mask generalizing flags with
  | nil => rfl
  | cons flag rest ih =>
    rw [List.any_cons, Bool.or_eq_false_iff] at untouched
    rw [List.foldl_cons, ih untouched.2]
    cases flag with
    | valid | history | damped | removed => cases untouched.1
    | _ => rfl

theorem putFlags_settled (c : Counting)
    (touched : mask.any InfoFlag.useability = true) : (c.putFlags value mask).Settled := by
  unfold putFlags
  rw [if_pos touched]
  exact bgpPcountAdjust_settled _

theorem putFlags_keeps (c : Counting) : Keeps c (c.putFlags value mask) := by
  cases touched : mask.any InfoFlag.useability with
  | true =>
    refine ⟨?_, fun _ => putFlags_settled value mask c touched⟩
    unfold putFlags
    rw [if_pos touched]
    have flags : Balanced c (c.withFlags (mask.foldl (·.put value) c.route.info.flags)) :=
      .of_eq rfl rfl rfl
    exact flags.trans (bgpPcountAdjust_balanced _)
  | false =>
    have plain : c.putFlags value mask =
        c.withFlags (mask.foldl (·.put value) c.route.info.flags) := by
      unfold putFlags
      rw [if_neg (by simp [touched])]
    rw [plain]
    refine ⟨.of_eq rfl rfl rfl, fun settled neighbour => (settled neighbour).trans ?_⟩
    exact congrArg _ (holddown_foldl value c.route.info touched c.route.info.flags).symm

theorem bgpInfoDelete_keeps (c : Counting) : Keeps c c.bgpInfoDelete := by
  refine ⟨(putFlags_keeps true [.removed] c).balanced.trans (.of_eq rfl rfl rfl), ?_⟩
  intro _ neighbour
  have settled := putFlags_settled true [.removed] c rfl neighbour
  unfold holddown at settled
  unfold bgpInfoDelete bgpInfoSetFlag holddown withFlags
  rw [settled, putFlags_eq]
  simp [BgpInfo.holddown, InfoFlags.put]

theorem bgpInfoRestore_balanced (c : Counting) : Balanced c c.bgpInfoRestore :=
  (putFlags_keeps false [.removed] c).balanced.trans (.of_eq rfl rfl rfl)

theorem bgpInfoRestore_counted (c : Counting) (neighbour : c.route.info.peer ≠ peerSelf) :
    c.bgpInfoRestore.route.counted =
      !(!c.route.info.flags.valid || c.route.info.flags.history || c.route.info.flags.damped) := by
  have settled := putFlags_settled false [.removed] c rfl
    (by rw [putFlags_eq]; exact neighbour)
  unfold holddown at settled
  rw [putFlags_eq] at settled
  unfold bgpInfoRestore bgpInfoUnsetFlag withFlags
  rw [settled]
  simp [BgpInfo.holddown, InfoFlags.put]

theorem bgpInfoRestore_flags (c : Counting) :
    c.bgpInfoRestore.route.info =
      { c.route.info with flags := { c.route.info.flags with removed := false, valid := true } } := by
  unfold bgpInfoRestore bgpInfoUnsetFlag withFlags
  dsimp only
  rw [putFlags_eq]
  rfl

/-- **A restored route is settled exactly if it was valid, or is still unusable.** -/
theorem bgpInfoRestore_settled_iff (c : Counting) (neighbour : c.route.info.peer ≠ peerSelf) :
    c.bgpInfoRestore.Settled ↔
      (c.route.info.flags.valid || c.route.info.flags.history || c.route.info.flags.damped) =
        true := by
  have counted := bgpInfoRestore_counted c neighbour
  unfold Settled holddown
  rw [counted, bgpInfoRestore_flags]
  simp only [BgpInfo.holddown]
  cases c.route.info.flags.valid <;> cases c.route.info.flags.history <;>
    cases c.route.info.flags.damped <;> simp [neighbour]

theorem bgpRibRemove_keeps (c : Counting) : Keeps c c.bgpRibRemove := by
  unfold bgpRibRemove
  split_ifs
  · exact .refl c
  · exact bgpInfoDelete_keeps c

theorem withDamp_keeps (c : Counting) (damp : Option DampInfo) : Keeps c (c.withDamp damp) :=
  ⟨.of_eq rfl rfl rfl, id⟩

theorem bgpDampInfoFree_keeps (c : Counting) : Keeps c c.bgpDampInfoFree :=
  (withDamp_keeps c none).trans (putFlags_keeps false [.history, .damped] _)

/-- A withdrawn route is settled, since it becomes history. -/
theorem bgpDampWithdraw_settles (attrChange : Bool) (c : Counting) :
    Balanced c (c.bgpDampWithdraw config now attrChange).1 ∧
      (c.bgpDampWithdraw config now attrChange).1.Settled := by
  unfold bgpDampWithdraw
  dsimp only
  generalize (match c.route.damp with
    | none => if attrChange then defaultPenalty / 2 else defaultPenalty
    | some damp => min config.ceiling (config.decay (now - damp.tUpdated) damp.penalty +
        if attrChange then defaultPenalty / 2 else defaultPenalty)) = penalty
  let noted := c.withDamp (some { penalty := penalty, tUpdated := now, withdrawn := true })
  have history : Balanced c (noted.bgpInfoSetFlag [.history]) :=
    (withDamp_keeps c _).balanced.trans (putFlags_keeps true [.history] noted).balanced
  have settled : (noted.bgpInfoSetFlag [.history]).Settled :=
    putFlags_settled true [.history] noted rfl
  split_ifs
  · exact ⟨history, settled⟩
  · exact ⟨history.trans (putFlags_keeps true [.damped] _).balanced,
      putFlags_settled true [.damped] _ rfl⟩
  · exact ⟨history, settled⟩

theorem bgpDampUpdate_keeps (c : Counting) : Keeps c (c.bgpDampUpdate config now).1 := by
  unfold bgpDampUpdate
  cases c.route.damp with
  | none => exact .refl c
  | some damp =>
    dsimp only
    have history : Keeps c (c.bgpInfoUnsetFlag [.history]) := putFlags_keeps false [.history] c
    have reused : Keeps c
        (if (c.bgpInfoUnsetFlag [.history]).route.info.flags.damped &&
            decide (config.decay (now - damp.tUpdated) damp.penalty < config.reuseLimit) then
          (c.bgpInfoUnsetFlag [.history]).bgpInfoUnsetFlag [.damped]
        else c.bgpInfoUnsetFlag [.history]) := by
      split_ifs
      · exact history.trans (putFlags_keeps false [.damped] _)
      · exact history
    generalize (if (c.bgpInfoUnsetFlag [.history]).route.info.flags.damped &&
            decide (config.decay (now - damp.tUpdated) damp.penalty < config.reuseLimit) then
          (c.bgpInfoUnsetFlag [.history]).bgpInfoUnsetFlag [.damped]
        else c.bgpInfoUnsetFlag [.history]) = unset at reused ⊢
    split_ifs
    · exact reused.trans (withDamp_keeps _ _)
    · exact (reused.trans (withDamp_keeps _ _)).trans (bgpDampInfoFree_keeps _)

theorem bgpRibWithdraw_keeps (c : Counting) : Keeps c (c.bgpRibWithdraw config dampening now) := by
  unfold bgpRibWithdraw
  by_cases damped : dampening = true
  · obtain ⟨balanced, settled⟩ := bgpDampWithdraw_settles config now false c
    have withdrawn : Keeps c (c.bgpDampWithdraw config now false).1 := ⟨balanced, fun _ => settled⟩
    dsimp only
    split_ifs
    · exact withdrawn
    · exact withdrawn.trans (bgpRibRemove_keeps _)
  · rw [if_neg damped]
    exact bgpRibRemove_keeps c

theorem sameAttr_keeps (c : Counting) : Keeps c (c.sameAttr config dampening now) := by
  unfold sameAttr
  have unset : Keeps c (c.bgpInfoUnsetFlag [.attrChanged]) := putFlags_keeps false [.attrChanged] c
  dsimp only
  split_ifs
  · exact unset.trans (bgpDampUpdate_keeps config now _)
  · exact unset.trans (putFlags_keeps false [.stale] _)
  · exact unset

/-- With dampening the old route is settled before the new attributes are stored: a route that is
restored is settled, or it has no history and is withdrawn here. -/
theorem noteNew_settles (c : Counting)
    (neighbour : c.route.info.peer ≠ peerSelf) (settled : c.Settled) :
    Balanced c (c.noteNew config dampening now) ∧
      (dampening = true → (c.noteNew config dampening now).Settled) := by
  unfold noteNew
  dsimp only
  have restored : Balanced c (if c.route.info.flags.removed then c.bgpInfoRestore else c) ∧
      ((if c.route.info.flags.removed then c.bgpInfoRestore else c).Settled ∨
        (if c.route.info.flags.removed then c.bgpInfoRestore else c).route.info.flags.history =
          false) := by
    split_ifs
    · refine ⟨bgpInfoRestore_balanced c, ?_⟩
      rw [bgpInfoRestore_settled_iff c neighbour, bgpInfoRestore_flags]
      cases c.route.info.flags.history <;> simp
    · exact ⟨.refl c, .inl settled⟩
  generalize (if c.route.info.flags.removed then c.bgpInfoRestore else c) = first at restored ⊢
  obtain ⟨balanced, either⟩ := restored
  have fresh : Keeps first
        (if first.route.info.flags.stale then first.bgpInfoUnsetFlag [.stale] else first) ∧
      (if first.route.info.flags.stale then
          first.bgpInfoUnsetFlag [.stale] else first).route.info.flags.history =
        first.route.info.flags.history := by
    split_ifs
    · exact ⟨putFlags_keeps false [.stale] first, by rfl⟩
    · exact ⟨.refl first, rfl⟩
  generalize (if first.route.info.flags.stale then first.bgpInfoUnsetFlag [.stale] else first) =
    second at fresh ⊢
  have changed : Keeps second (second.bgpInfoSetFlag [.attrChanged]) :=
    putFlags_keeps true [.attrChanged] second
  have history : (second.bgpInfoSetFlag [.attrChanged]).route.info.flags.history =
      first.route.info.flags.history := by
    rw [bgpInfoSetFlag, ← fresh.2]
    rfl
  generalize second.bgpInfoSetFlag [.attrChanged] = third at changed history ⊢
  have toThird : Balanced c third := balanced.trans (fresh.1.trans changed).balanced
  split_ifs with withdrawn
  · obtain ⟨last, settledLast⟩ := bgpDampWithdraw_settles config now true third
    exact ⟨toThird.trans last, fun _ => settledLast⟩
  · refine ⟨toThird, fun damped => ?_⟩
    have old : first.route.info.flags.history = true := by
      simpa [damped, history] using withdrawn
    have settledFirst : first.Settled := either.resolve_right (by simp [old])
    exact changed.settled (fresh.1.settled settledFirst)

theorem newAttr_keeps (c : Counting) (neighbour : c.route.info.peer ≠ peerSelf)
    (settled : c.Settled) : Keeps c (c.newAttr config dampening now attr reachable) := by
  obtain ⟨balanced, settles⟩ := noteNew_settles config dampening now c neighbour settled
  unfold newAttr
  dsimp only
  have stored : Balanced c ((c.noteNew config dampening now).withAttr attr) :=
    balanced.trans (.of_eq rfl rfl rfl)
  by_cases damped : dampening = true
  · have settledStored : ((c.noteNew config dampening now).withAttr attr).Settled := settles damped
    have updated := bgpDampUpdate_keeps config now ((c.noteNew config dampening now).withAttr attr)
    have all : Keeps c
        (((c.noteNew config dampening now).withAttr attr).bgpDampUpdate config now).1 :=
      ⟨stored.trans updated.balanced, fun _ => updated.settled settledStored⟩
    split_ifs
    · exact all
    · exact all.trans (putFlags_keeps reachable [.valid] _)
  · rw [if_neg damped]
    exact ⟨stored.trans (putFlags_keeps reachable [.valid] _).balanced,
      fun _ => putFlags_settled reachable [.valid] _ rfl⟩

theorem implicitWithdraw_keeps (c : Counting) (neighbour : c.route.info.peer ≠ peerSelf)
    (settled : c.Settled) : Keeps c (c.implicitWithdraw config dampening now attr reachable) := by
  unfold implicitWithdraw
  split_ifs
  · exact sameAttr_keeps config dampening now c
  · exact newAttr_keeps config dampening now attr reachable c neighbour settled

end Counting

/-! ## The table -/

variable {pcount : Peer → Nat} {route : TableRoute} {routes before after : List TableRoute}
  {table : PrefixTable}

/-- The counts are right, and all routes are neighbours'. -/
structure CountedTable (table : PrefixTable) : Prop extends PrefixCount table where
  neighbours : ∀ route ∈ table.routes, route.info.peer ≠ peerSelf

theorem countedTable_empty : CountedTable .empty :=
  ⟨⟨fun _ => rfl, fun _ none => (by cases none)⟩, fun _ none => (by cases none)⟩

/-- A route that is counted is one of those that the count is the number of. -/
theorem CountedTable.covered (counted : CountedTable table) (mem : route ∈ table.routes) :
    route.counted.toNat ≤ table.pcount route.info.peer := by
  cases here : route.counted with
  | false => exact Nat.zero_le _
  | true =>
    rw [counted.pcount_eq]
    exact List.countP_pos_iff.mpr ⟨route, mem, by simp [here]⟩

theorem CountedTable.change {next : Counting}
    (counted : CountedTable ⟨before ++ route :: after, pcount⟩)
    (balanced : Counting.Balanced ⟨route, pcount⟩ next) (settled : next.Settled) :
    CountedTable ⟨before ++ next.route :: after, next.pcount⟩ := by
  have mem : route ∈ before ++ route :: after := List.mem_append_right _ List.mem_cons_self
  have same : next.route.info.peer = route.info.peer := balanced.peer_eq
  have neighbour : next.route.info.peer ≠ peerSelf := same ▸ counted.neighbours route mem
  refine ⟨⟨fun peer => ?_, ?_⟩, ?_⟩
  · have old : pcount peer = _ := counted.pcount_eq peer
    dsimp only at old ⊢
    rw [List.countP_append, List.countP_cons] at old ⊢
    rw [same]
    by_cases here : route.info.peer = peer
    · subst here
      have moved := balanced.here (counted.covered mem)
      dsimp only at moved
      cases counts : route.counted <;> cases counts' : next.route.counted <;>
        simp [counts, counts'] at old moved ⊢ <;> omega
    · rw [balanced.others peer (Ne.symm here)]
      simpa [here] using old
  · have others := List.forall_mem_append.mp counted.counted_eq
    exact List.forall_mem_append.mpr ⟨others.1,
      List.forall_mem_cons.mpr ⟨settled neighbour, (List.forall_mem_cons.mp others.2).2⟩⟩
  · have others := List.forall_mem_append.mp counted.neighbours
    exact List.forall_mem_append.mpr ⟨others.1,
      List.forall_mem_cons.mpr ⟨neighbour, (List.forall_mem_cons.mp others.2).2⟩⟩

/-- The first route that the search finds is changed, if there is one. -/
theorem PrefixTable.modify_eq (found : TableRoute → Bool) (change : Counting → Counting)
    (routes : List TableRoute) (pcount : Peer → Nat) :
    routes.find? found = none ∧ modify found change routes pcount = ⟨routes, pcount⟩ ∨
      ∃ before route after, routes = before ++ route :: after ∧
        routes.find? found = some route ∧
        modify found change routes pcount =
          ⟨before ++ (change ⟨route, pcount⟩).route :: after, (change ⟨route, pcount⟩).pcount⟩ := by
  induction routes with
  | nil => exact .inl ⟨rfl, rfl⟩
  | cons route rest ih =>
    rw [modify, List.find?_cons]
    cases found route with
    | true => exact .inr ⟨[], route, rest, rfl, rfl, rfl⟩
    | false =>
      rcases ih with ⟨none, same⟩ | ⟨before, first, after, split, here, changed⟩
      · exact .inl ⟨none, by simp [same]⟩
      · exact .inr ⟨route :: before, first, after, by rw [split]; rfl, here, by simp [changed]⟩

/-- **A change of one route that keeps it counted keeps the counts of the table.** -/
theorem CountedTable.modify (found : TableRoute → Bool) {change : Counting → Counting}
    (keeps : ∀ c : Counting, c.route.info.peer ≠ peerSelf → c.Settled →
      Counting.Keeps c (change c)) (counted : CountedTable table) :
    CountedTable (.modify found change table.routes table.pcount) := by
  rcases PrefixTable.modify_eq found change table.routes table.pcount with
    ⟨-, same⟩ | ⟨before, route, after, split, -, changed⟩
  · rwa [same]
  · have mem : route ∈ table.routes := by simp [split]
    have settled : Counting.Settled ⟨route, table.pcount⟩ := fun _ => counted.counted_eq route mem
    have kept := keeps ⟨route, table.pcount⟩ (counted.neighbours route mem) settled
    rw [changed]
    have whole : CountedTable ⟨before ++ route :: after, table.pcount⟩ := split ▸ counted
    exact whole.change kept.balanced (kept.settled settled)

theorem CountedTable.addRoute (counted : CountedTable table) {peer : Peer}
    (neighbour : peer ≠ peerSelf) (node : Nat) (attr : Attr) (reachable : Bool) (ptr : Nat) :
    CountedTable (table.addRoute peer node attr reachable ptr) := by
  -- The route is put in front uncounted first.
  let info : BgpInfo :=
    { ptr := ptr, peer := peer, attr := attr, extra := none, flags := newFlags
      type := zebraRouteBgp, subType := .normal }
  let route : TableRoute := { node := node, info := info, counted := false, damp := none }
  have added : CountedTable ⟨[] ++ route :: table.routes, table.pcount⟩ := by
    refine ⟨⟨fun other => ?_, List.forall_mem_cons.mpr ⟨rfl, counted.counted_eq⟩⟩,
      List.forall_mem_cons.mpr ⟨neighbour, counted.neighbours⟩⟩
    simpa [route] using counted.pcount_eq other
  exact added.change (Counting.putFlags_keeps reachable [.valid] _).balanced
    (Counting.putFlags_settled reachable [.valid] _ rfl)

theorem CountedTable.reap (counted : CountedTable table) (ptr : Nat) :
    CountedTable
      { table with
        routes := table.routes.filter fun route =>
          !(route.info.ptr = ptr && route.info.flags.removed) } := by
  refine ⟨⟨fun peer => ?_, ?_⟩, ?_⟩
  · rw [counted.pcount_eq peer, List.countP_filter]
    refine List.countP_congr fun route mem => ?_
    have isCounted := counted.counted_eq route mem
    cases removed : route.info.flags.removed with
    | false => simp
    | true =>
      have uncounted : route.counted = false := by
        rw [isCounted]
        simp [BgpInfo.holddown, removed]
      simp [uncounted]
  · exact fun route mem => counted.counted_eq route (List.mem_filter.mp mem).1
  · exact fun route mem => counted.neighbours route (List.mem_filter.mp mem).1

/-! ## Runs -/

theorem CountedTable.step {config : DampConfig} {next : CountStep} (counted : CountedTable table) :
    CountedTable (countStep config table next) := by
  cases next with
  | update peer neighbour node attr filtered reachable dampening now ptr =>
    rw [countStep]
    split_ifs
    · exact counted.modify _ fun c _ _ => Counting.bgpRibRemove_keeps c
    · exact counted.modify _ fun c neighbour settled =>
        Counting.implicitWithdraw_keeps config dampening now attr reachable c neighbour settled
    · exact counted.addRoute neighbour node attr reachable ptr
  | withdraw peer node dampening now =>
    refine counted.modify _ fun c _ _ => ?_
    split_ifs
    · exact .refl c
    · exact Counting.bgpRibWithdraw_keeps config dampening now c
  | ribRemove ptr => exact counted.modify _ fun c _ _ => Counting.bgpRibRemove_keeps c
  | infoDelete ptr => exact counted.modify _ fun c _ _ => Counting.bgpInfoDelete_keeps c
  | infoReap ptr => exact counted.reap ptr
  | setFlag ptr mask => exact counted.modify _ fun c _ _ => Counting.putFlags_keeps true mask c
  | unsetFlag ptr mask => exact counted.modify _ fun c _ _ => Counting.putFlags_keeps false mask c

/-- **The prefix counts are right after every operation.** -/
theorem prefix_count (config : DampConfig) (history : List CountStep) :
    Throughout (countStep config) .empty PrefixCount history := by
  intro before later _
  exact (invariant_afterAll CountedTable countedTable_empty
    (fun _ _ counted => counted.step) before).toPrefixCount

end Quagga.Bgpd
