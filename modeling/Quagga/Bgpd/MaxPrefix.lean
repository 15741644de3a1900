import Quagga.Bgpd.Capability
import Quagga.Bgpd.PrefixCount

/-!
# The limit on the prefixes of a peer

With `maximum-prefix` configured, `bgp_maximum_prefix_overflow` compares the prefix count of a peer
with the limit `pmax`, and ends the session if the count is above it. `bgp_update_main` calls it for
a route that it adds to the table. But the count rises in other places too: an update for a route
that is in the table already can bring it back into use, when it was withdrawn and has not been
reaped, was damped, or had an unreachable next hop; and so can next-hop scanning and the reuse timer
of dampening. And where the limit has been reported, it is not reported again until the session is
down, while the loop over the prefixes of a VPN update does not look at what `bgp_update` returns.

`withinLimit_iff` describes the runs in which the count is within the limit whenever
`bgp_update_main` returns 0, and `withdrawn_route_over_limit` is a run in which it is not.

The model is the main table of one address family with its limits. For `SAFI_MPLS_VPN` the arrays
`pmax` and `pmax_restart` are read behind their ends: what is there is a parameter.
-/

set_option autoImplicit false

namespace Quagga.Bgpd

open Library

/-! ## The limit -/

/-- The configuration of `maximum-prefix` for a peer; `restart` is in minutes, or zero. -/
structure MaxPrefix where
  pmax : Nat
  threshold : Nat
  warning : Bool
  restart : Nat

/-- The address family and the limits of the peers. The last field is what `pmax` and `pmax_restart`
hold at the index `BGP_SAFI_VPNV4`, behind their ends. -/
structure LimitConfig where
  afi : Nat
  safi : Nat
  limits : Peer → Option MaxPrefix
  outside : Peer → Nat × Nat

/-- The limit of the peer, if the session is ended when the count is above it. -/
def LimitConfig.hardLimit (config : LimitConfig) (peer : Peer) : Option Nat :=
  (config.limits peer).bind fun limit => if limit.warning then none else some limit.pmax

/-- The table with the status flags `PREFIX_LIMIT`, `PREFIX_THRESHOLD` and `PREFIX_OVERFLOW` of the
peers and their restart timers, in seconds. -/
structure LimitState where
  table : PrefixTable
  prefixLimit : Peer → Bool
  prefixThreshold : Peer → Bool
  prefixOverflow : Peer → Bool
  restartTimer : Peer → Option Nat

namespace LimitState

variable (config : LimitConfig)

/-- The notification of `bgp_maximum_prefix_overflow`: its data, with the flag and the timer that
are set along with it. -/
def notifyMaxPrefix (peer : Peer) (limit : MaxPrefix) (s : LimitState) :
    LimitState × Option (List Nat) :=
  let vpn := config.safi = safiMplsVpn
  let safi := if vpn then bgpSafiVpnv4 else config.safi
  let pmax := if vpn then (config.outside peer).1 else limit.pmax
  let restart := if vpn then (config.outside peer).2 else limit.restart
  let timer := if restart = 0 then s.restartTimer peer else
    (s.restartTimer peer).or (some (restart * 60))
  ({ s with
      prefixOverflow := Function.update s.prefixOverflow peer true
      restartTimer := Function.update s.restartTimer peer timer },
    some ([config.afi / 2 ^ 8, config.afi, safi, pmax / 2 ^ 24, pmax / 2 ^ 16, pmax / 2 ^ 8,
      pmax].map (· % 2 ^ 8)))

/-- `bgp_maximum_prefix_overflow`. It returns 1 with the data of a notification, and 0 otherwise. -/
def bgpMaximumPrefixOverflow (peer : Peer) (always : Bool) (s : LimitState) :
    LimitState × Option (List Nat) :=
  match config.limits peer with
  | none => (s, none)
  | some limit =>
    if s.table.pcount peer > limit.pmax then
      if s.prefixLimit peer && !always then (s, none)
      else
        let s := { s with prefixLimit := Function.update s.prefixLimit peer true }
        if limit.warning then (s, none) else s.notifyMaxPrefix config peer limit
    else
      let s := { s with prefixLimit := Function.update s.prefixLimit peer false }
      let above := decide (s.table.pcount peer > limit.pmax * limit.threshold / 100)
      ({ s with prefixThreshold := Function.update s.prefixThreshold peer above }, none)

end LimitState

/-! ## Updates -/

/-- An update, as in `CountStep.update`. -/
structure LimitUpdate where
  peer : Peer
  neighbour : peer ≠ peerSelf
  node : Nat
  attr : Attr
  filtered : Bool
  reachable : Bool
  dampening : Bool
  now : Nat
  ptr : Nat

variable (update : LimitUpdate)

/-- The update as a step of the count. -/
def LimitUpdate.step : CountStep :=
  .update update.peer update.neighbour update.node update.attr update.filtered update.reachable
    update.dampening update.now update.ptr

/-- The route that it replaces. -/
def LimitUpdate.previous (table : PrefixTable) : Option TableRoute :=
  table.routes.find? (·.learnedAt update.peer update.node)

variable (damp : DampConfig)

/-- `bgp_update_main`. It returns -1 with the data of a notification, and 0 otherwise. -/
def LimitState.bgpUpdateMain (config : LimitConfig) (update : LimitUpdate)
    (s : LimitState) : LimitState × Option (List Nat) :=
  let after := { s with table := countStep damp s.table update.step }
  if !update.filtered && (update.previous s.table).isNone then
    after.bgpMaximumPrefixOverflow config update.peer false
  else (after, none)

/-- The operations on single routes that happen besides updates. -/
def CountStep.besides : CountStep → Bool
  | .update .. => false
  | _ => true

/-- What happens to the table and the peers. `check` is what `bgp_scan` does for a peer, and `stop`
is `bgp_stop`, which resets the status flags of the address family. -/
inductive LimitEvent where
  | update (update : LimitUpdate)
  | besides (step : CountStep) (other : step.besides = true)
  | check (peer : Peer)
  | stop (peer : Peer)

/-- One event. -/
def limitStep (config : LimitConfig) (s : LimitState) : LimitEvent → LimitState
  | .update update => (s.bgpUpdateMain damp config update).1
  | .besides step _ => { s with table := countStep damp s.table step }
  | .check peer => (s.bgpMaximumPrefixOverflow config peer true).1
  | .stop peer =>
    { s with
      prefixLimit := Function.update s.prefixLimit peer false
      prefixThreshold := Function.update s.prefixThreshold peer false }

/-- An empty table. -/
def LimitState.start : LimitState :=
  { table := .empty, prefixLimit := fun _ => false, prefixThreshold := fun _ => false
    prefixOverflow := fun _ => false, restartTimer := fun _ => none }

/-! ## The property and the condition -/

/-- If `bgp_update_main` returns 0, the count of the peer is within its limit. -/
def WithinLimit (config : LimitConfig) (s : LimitState) : LimitEvent → Prop
  | .update update => ∀ pmax, config.hardLimit update.peer = some pmax →
      (s.bgpUpdateMain damp config update).2 = none →
        (s.bgpUpdateMain damp config update).1.table.pcount update.peer ≤ pmax
  | _ => True

/-- The penalty of a route whose attributes change. -/
def DampConfig.penalised (now : Nat) : Option DampInfo → Nat
  | none => Counting.defaultPenalty / 2
  | some info =>
    min damp.ceiling
      (damp.decay (now - info.tUpdated) info.penalty + Counting.defaultPenalty / 2)

/-- A damped route stays damped at this penalty. -/
def DampConfig.staysDamped (penalty : Nat) : Bool :=
  !(penalty < damp.reuseLimit) && 2 * penalty > damp.reuseLimit

/-- The penalty is above the limit for a route that is damped, or is not. -/
def DampConfig.suppresses (damped : Bool) (penalty : Nat) : Bool :=
  if damped then !(penalty < damp.reuseLimit) else !(penalty < damp.suppressValue)

/-- With dampening, whether a route with these flags and this dampening information is usable after
`bgp_damp_update`, where `valid` is what becomes of `VALID` if the update is suppressed, and
otherwise. -/
def DampConfig.usable (now : Nat) (damped : Bool) (valid : Bool → Bool) : Option DampInfo → Bool
  | none => false
  | some info =>
    let penalty := damp.decay (now - info.tUpdated) info.penalty
    valid (damp.suppresses damped penalty) && !(damped && damp.staysDamped penalty)

/-- Whether an update for a route that is in the table leaves it usable. -/
def LimitUpdate.revives (update : LimitUpdate) (route : TableRoute) : Bool :=
  let flags := route.info.flags
  if !flags.removed && route.info.attr = update.attr then
    if update.dampening && flags.history then
      damp.usable update.now flags.damped (fun _ => flags.valid) route.damp
    else !route.info.holddown
  else if !update.dampening then update.reachable && !flags.history && !flags.damped
  else
    let valid := fun suppressed =>
      if suppressed then flags.removed || flags.valid else update.reachable
    if flags.history then damp.usable update.now flags.damped valid route.damp
    else
      let penalty := damp.penalised update.now route.damp
      damp.usable update.now (flags.damped || penalty ≥ damp.suppressValue) valid
        (some { penalty := penalty, tUpdated := update.now, withdrawn := true })

/-- The route counts after the update. -/
def LimitUpdate.leavesUsable (update : LimitUpdate) (table : PrefixTable) : Bool :=
  !update.filtered &&
    match update.previous table with
    | none => update.reachable
    | some route => update.revives damp route

/-- The number of the other routes of the peer that are in use. -/
def LimitUpdate.others (table : PrefixTable) : Nat :=
  table.pcount update.peer -
    if (update.previous table).any (!·.info.holddown) then 1 else 0

/-- The route of the update is a new one and the limit is not reported yet, or the limit has room
for it besides the other routes in use. -/
def HasRoom (config : LimitConfig) (s : LimitState) : LimitEvent → Prop
  | .update update => ∀ pmax, config.hardLimit update.peer = some pmax →
      update.filtered = false ∧ update.previous s.table = none ∧
          s.prefixLimit update.peer = false ∨
        update.others s.table + (update.leavesUsable damp s.table).toNat ≤ pmax
  | _ => True

/-! ## What an update leaves of a route -/

namespace Counting

variable (c : Counting) (damp : DampConfig) (now : Nat)

@[simp] theorem bgpPcountAdjust_damp : c.bgpPcountAdjust.route.damp = c.route.damp := by
  unfold bgpPcountAdjust withCounted
  split_ifs <;> rfl

@[simp] theorem putFlags_damp (value : Bool) (mask : List InfoFlag) :
    (c.putFlags value mask).route.damp = c.route.damp := by
  unfold putFlags
  split_ifs
  · rw [bgpPcountAdjust_damp]
    rfl
  · rfl

/-- A route whose attributes change becomes history. -/
def changed : Counting :=
  (c.withDamp (some { penalty := damp.penalised now c.route.damp, tUpdated := now
                      withdrawn := true })).bgpInfoSetFlag [.history]

theorem bgpDampWithdraw_eq :
    c.bgpDampWithdraw damp now true =
      if (c.changed damp now).route.info.flags.damped then (c.changed damp now, true)
      else if damp.penalised now c.route.damp ≥ damp.suppressValue then
        ((c.changed damp now).bgpInfoSetFlag [.damped], false)
      else (c.changed damp now, false) := by
  unfold bgpDampWithdraw changed DampConfig.penalised
  cases c.route.damp <;> rfl

theorem changed_info :
    (c.changed damp now).route.info =
      { c.route.info with flags := { c.route.info.flags with history := true } } := by
  unfold changed bgpInfoSetFlag
  rw [putFlags_eq]
  rfl

/-- What a change of attributes does to the flags and the dampening information. -/
theorem bgpDampWithdraw_route :
    (c.bgpDampWithdraw damp now true).1.route.info =
        { c.route.info with
          flags := { c.route.info.flags with
            history := true
            damped := c.route.info.flags.damped ||
              damp.penalised now c.route.damp ≥ damp.suppressValue } } ∧
      (c.bgpDampWithdraw damp now true).1.route.damp =
        some { penalty := damp.penalised now c.route.damp, tUpdated := now
               withdrawn := true } := by
  have info := changed_info c damp now
  have kept : (c.changed damp now).route.damp =
      some { penalty := damp.penalised now c.route.damp, tUpdated := now, withdrawn := true } :=
    putFlags_damp ..
  rw [bgpDampWithdraw_eq, info]
  cases damped : c.route.info.flags.damped with
  | true =>
    refine ⟨?_, kept⟩
    rw [if_pos rfl, info, Bool.true_or, ← damped]
  | false =>
    rw [if_neg Bool.false_ne_true, Bool.false_or]
    split_ifs with above
    · rw [decide_eq_true above, bgpInfoSetFlag, putFlags_eq, putFlags_damp, info]
      exact ⟨rfl, kept⟩
    · rw [decide_eq_false above, info, ← damped]
      exact ⟨rfl, kept⟩

/-- A route that is announced again is history no longer, and not damped if its penalty is low. -/
def announced (penalty : Nat) : Counting :=
  let c := c.bgpInfoUnsetFlag [.history]
  if c.route.info.flags.damped && penalty < damp.reuseLimit then c.bgpInfoUnsetFlag [.damped] else c

theorem announced_info (penalty : Nat) :
    (c.announced damp penalty).route.info =
      { c.route.info with
        flags := { c.route.info.flags with
          history := false
          damped := c.route.info.flags.damped && !(penalty < damp.reuseLimit) } } := by
  have info : (c.bgpInfoUnsetFlag [.history]).route.info =
      { c.route.info with flags := { c.route.info.flags with history := false } } := by
    rw [bgpInfoUnsetFlag, putFlags_eq]
    rfl
  unfold announced
  dsimp only
  rw [info]
  by_cases low : penalty < damp.reuseLimit
  · cases damped : c.route.info.flags.damped with
    | true =>
      rw [decide_eq_true low, Bool.true_and, if_pos rfl, bgpInfoUnsetFlag, putFlags_eq, info]
      rfl
    | false =>
      rw [Bool.false_and, if_neg Bool.false_ne_true, info]
      simp [damped]
  · rw [decide_eq_false low, Bool.and_false, if_neg Bool.false_ne_true, info]
    simp

/-- What `bgp_damp_update` does to the flags, and when it suppresses. -/
theorem bgpDampUpdate_some {info : DampInfo} (known : c.route.damp = some info) :
    (c.bgpDampUpdate damp now).1.route.info =
        { c.route.info with
          flags := { c.route.info.flags with
            history := false
            damped := c.route.info.flags.damped &&
              damp.staysDamped (damp.decay (now - info.tUpdated) info.penalty) } } ∧
      (c.bgpDampUpdate damp now).2 =
        damp.suppresses c.route.info.flags.damped
          (damp.decay (now - info.tUpdated) info.penalty) := by
  unfold bgpDampUpdate
  rw [known]
  dsimp only
  generalize damp.decay (now - info.tUpdated) info.penalty = penalty
  have same : (c.bgpInfoUnsetFlag [.history]).route.info.flags.damped =
      c.route.info.flags.damped := by
    rw [bgpInfoUnsetFlag, putFlags_eq]
    rfl
  refine ⟨?_, by rw [same]; rfl⟩
  have left := announced_info c damp penalty
  unfold announced at left
  unfold DampConfig.staysDamped
  by_cases high : 2 * penalty > damp.reuseLimit
  · rw [if_pos high, decide_eq_true high, Bool.and_true]
    exact left
  · rw [if_neg high, decide_eq_false high, Bool.and_false, Bool.and_false, bgpDampInfoFree,
      bgpInfoUnsetFlag, putFlags_eq]
    unfold withDamp
    rw [left]
    rfl

theorem bgpDampUpdate_none (unknown : c.route.damp = none) :
    c.bgpDampUpdate damp now = (c, false) := by
  unfold bgpDampUpdate
  rw [unknown]

section

variable (historical : c.route.info.flags.history = true)
  (present : c.route.info.flags.removed = false)
include historical present

/-- Whether a route that is history is usable when it is announced with the same attributes. -/
theorem bgpDampUpdate_usable :
    (!(c.bgpDampUpdate damp now).1.holddown) =
      damp.usable now c.route.info.flags.damped (fun _ => c.route.info.flags.valid)
        c.route.damp := by
  cases known : c.route.damp with
  | none =>
    rw [bgpDampUpdate_none c damp now known]
    simp [holddown, BgpInfo.holddown, historical, DampConfig.usable]
  | some info =>
    unfold holddown
    rw [(bgpDampUpdate_some c damp now known).1]
    simp [BgpInfo.holddown, present, DampConfig.usable]

theorem reachable_usable (reachable : Bool) :
    (!(if (c.bgpDampUpdate damp now).2 then (c.bgpDampUpdate damp now).1
        else (c.bgpDampUpdate damp now).1.putFlags reachable [.valid]).holddown) =
      damp.usable now c.route.info.flags.damped
        (fun suppressed => if suppressed then c.route.info.flags.valid else reachable)
        c.route.damp := by
  cases known : c.route.damp with
  | none =>
    rw [bgpDampUpdate_none c damp now known, if_neg Bool.false_ne_true]
    unfold holddown
    rw [putFlags_eq]
    simp [BgpInfo.holddown, InfoFlags.put, historical, DampConfig.usable]
  | some info =>
    obtain ⟨flags, suppressed⟩ := bgpDampUpdate_some c damp now known
    rw [suppressed, DampConfig.usable]
    unfold holddown
    split_ifs
    · rw [flags]
      simp [BgpInfo.holddown, present]
    · rw [putFlags_eq, flags]
      simp [BgpInfo.holddown, InfoFlags.put, present]

end

theorem bgpInfoRestore_damp : c.bgpInfoRestore.route.damp = c.route.damp := by
  exact putFlags_damp ..

/-- The route before dampening: restored, not stale and marked as changed. -/
def marked : Counting :=
  let c := if c.route.info.flags.removed then c.bgpInfoRestore else c
  let c := if c.route.info.flags.stale then c.bgpInfoUnsetFlag [.stale] else c
  c.bgpInfoSetFlag [.attrChanged]

theorem marked_route :
    c.marked.route.info =
        { c.route.info with
          flags := { c.route.info.flags with
            removed := false
            valid := c.route.info.flags.removed || c.route.info.flags.valid
            stale := false
            attrChanged := true } } ∧
      c.marked.route.damp = c.route.damp := by
  unfold marked
  have restored : (if c.route.info.flags.removed then c.bgpInfoRestore else c).route.info =
        { c.route.info with
          flags := { c.route.info.flags with
            removed := false
            valid := c.route.info.flags.removed || c.route.info.flags.valid } } ∧
      (if c.route.info.flags.removed then c.bgpInfoRestore else c).route.damp = c.route.damp := by
    cases removed : c.route.info.flags.removed with
    | true => exact ⟨bgpInfoRestore_flags c, bgpInfoRestore_damp c⟩
    | false =>
      refine ⟨?_, rfl⟩
      rw [if_neg Bool.false_ne_true, Bool.false_or, ← removed]
  generalize (if c.route.info.flags.removed then c.bgpInfoRestore else c) = first at restored ⊢
  have fresh :
      (if first.route.info.flags.stale then
          first.bgpInfoUnsetFlag [.stale] else first).route.info =
        { first.route.info with flags := { first.route.info.flags with stale := false } } ∧
      (if first.route.info.flags.stale then
          first.bgpInfoUnsetFlag [.stale] else first).route.damp = first.route.damp := by
    cases stale : first.route.info.flags.stale with
    | true =>
      rw [if_pos rfl, bgpInfoUnsetFlag]
      exact ⟨rfl, putFlags_damp ..⟩
    | false =>
      refine ⟨?_, rfl⟩
      rw [if_neg Bool.false_ne_true, ← stale]
  constructor
  · rw [bgpInfoSetFlag, putFlags_eq, fresh.1, restored.1]
    rfl
  · rw [bgpInfoSetFlag, putFlags_damp, fresh.2, restored.2]

/-- **Whether new attributes leave a route usable.** -/
theorem newAttr_usable (dampening : Bool) (attr : Attr) (reachable : Bool) :
    (!(c.newAttr damp dampening now attr reachable).holddown) =
      (let flags := c.route.info.flags
      if !dampening then reachable && !flags.history && !flags.damped
      else
        let valid := fun suppressed =>
          if suppressed then flags.removed || flags.valid else reachable
        if flags.history then damp.usable now flags.damped valid c.route.damp
        else
          let penalty := damp.penalised now c.route.damp
          damp.usable now (flags.damped || penalty ≥ damp.suppressValue) valid
            (some { penalty := penalty, tUpdated := now, withdrawn := true })) := by
  obtain ⟨info, known⟩ := marked_route c
  have noted : c.noteNew damp dampening now =
      if dampening && !c.marked.route.info.flags.history then
        (c.marked.bgpDampWithdraw damp now true).1 else c.marked := rfl
  unfold newAttr
  rw [noted, info]
  cases dampening with
  | false =>
    simp only [Bool.false_eq_true, if_false]
    unfold holddown
    rw [putFlags_eq]
    simp [withAttr, info, BgpInfo.holddown, InfoFlags.put]
  | true =>
    simp only [Bool.true_and]
    cases history : c.route.info.flags.history with
    | true =>
      simp only [Bool.not_true, Bool.false_eq_true, if_false, if_true]
      have usable := reachable_usable (c.marked.withAttr attr) damp now
        (by simp [withAttr, info, history]) (by simp [withAttr, info]) reachable
      rw [usable]
      simp [withAttr, info, known]
    | false =>
      simp only [Bool.not_false, if_true]
      obtain ⟨flags, penalised⟩ := bgpDampWithdraw_route c.marked damp now
      have usable := reachable_usable
        ((c.marked.bgpDampWithdraw damp now true).1.withAttr attr) damp now
        (by simp [withAttr, flags]) (by simp [withAttr, flags, info]) reachable
      rw [usable]
      simp [withAttr, flags, penalised, info, known]

theorem sameAttr_usable (dampening : Bool) (present : c.route.info.flags.removed = false) :
    (!(c.sameAttr damp dampening now).holddown) =
      if dampening && c.route.info.flags.history then
        damp.usable now c.route.info.flags.damped (fun _ => c.route.info.flags.valid) c.route.damp
      else !c.holddown := by
  have info : (c.bgpInfoUnsetFlag [.attrChanged]).route.info =
      { c.route.info with flags := { c.route.info.flags with attrChanged := false } } :=
    putFlags_eq ..
  unfold sameAttr
  dsimp only
  rw [info]
  dsimp only
  by_cases damped : (dampening && c.route.info.flags.history) = true
  · rw [if_pos damped, if_pos damped, bgpDampUpdate_usable]
    · rw [info, bgpInfoUnsetFlag, putFlags_damp]
    · exact (Bool.and_eq_true_iff.mp damped).2
    · exact present
  · split_ifs
    · rfl
    · rfl

/-- **Whether an update leaves a route usable that is in the table.** -/
theorem implicitWithdraw_usable (pcount : Peer → Nat) (route : TableRoute) :
    (!(implicitWithdraw damp update.dampening update.now update.attr update.reachable
      { route := route, pcount := pcount }).holddown) = update.revives damp route := by
  unfold implicitWithdraw LimitUpdate.revives
  by_cases same : (!route.info.flags.removed && decide (route.info.attr = update.attr)) = true
  · rw [if_pos same, if_pos same]
    have present : route.info.flags.removed = false := by
      simpa using (Bool.and_eq_true_iff.mp same).1
    exact sameAttr_usable _ damp update.now update.dampening present
  · rw [if_neg same, if_neg same]
    exact newAttr_usable _ damp update.now update.dampening update.attr update.reachable

end Counting

/-! ## The count after an update -/

/-- What a balanced change that leaves the route settled makes of the count. -/
theorem Counting.Keeps.pcount_eq {c after : Counting} (keeps : Counting.Keeps c after)
    (settled : c.Settled) (neighbour : c.route.info.peer ≠ peerSelf)
    (covered : c.route.counted.toNat ≤ c.pcount c.route.info.peer) :
    after.pcount c.route.info.peer =
      c.pcount c.route.info.peer - (!c.holddown).toNat + (!after.holddown).toNat := by
  have here := keeps.balanced.here covered
  have before : c.route.counted = !c.holddown := settled neighbour
  have later : after.route.counted = !after.holddown :=
    keeps.settled settled (keeps.balanced.peer_eq ▸ neighbour)
  rw [before, later] at here
  rw [before] at covered
  omega

theorem addRoute_pcount (table : PrefixTable) {peer : Peer} (neighbour : peer ≠ peerSelf)
    (node : Nat) (attr : Attr) (reachable : Bool) (ptr : Nat) :
    (table.addRoute peer node attr reachable ptr).pcount peer =
      table.pcount peer + reachable.toNat := by
  let c : Counting :=
    { route := { node := node, counted := false, damp := none, info :=
        { ptr := ptr, peer := peer, attr := attr, extra := none, flags := newFlags
          type := zebraRouteBgp, subType := .normal } }
      pcount := table.pcount }
  have counted := (Counting.putFlags_keeps reachable [.valid] c).pcount_eq (fun _ => rfl)
    neighbour (Nat.zero_le _)
  unfold Counting.holddown at counted
  rw [Counting.putFlags_eq] at counted
  cases reachable with
  | true => exact counted
  | false => exact counted

theorem Counting.bgpRibRemove_holddown (c : Counting) : c.bgpRibRemove.holddown = true := by
  unfold bgpRibRemove holddown
  split_ifs with history
  · simp [BgpInfo.holddown, history]
  · rfl

/-- **The count after an update is the number of the other routes in use, with the route of the
update if it is left usable.** -/
theorem pcount_update (damp : DampConfig) {table : PrefixTable} (update : LimitUpdate)
    (counted : CountedTable table) :
    (countStep damp table update.step).pcount update.peer =
      update.others table + (update.leavesUsable damp table).toNat := by
  have present : (update.previous table).isSome =
      table.routes.any (·.learnedAt update.peer update.node) := by
    rw [Bool.eq_iff_iff, List.any_eq_true]
    exact List.find?_isSome
  have modified : ∀ change, (PrefixTable.modify (·.learnedAt update.peer update.node) change
      table.routes table.pcount).pcount = match update.previous table with
        | none => table.pcount
        | some route => (change { route := route, pcount := table.pcount }).pcount := by
    intro change
    unfold LimitUpdate.previous
    rcases PrefixTable.modify_eq (·.learnedAt update.peer update.node) change table.routes
      table.pcount with ⟨none, same⟩ | ⟨_, _, _, -, first, changed⟩
    · rw [none, same]
    · rw [first, changed]
  rw [LimitUpdate.step, countStep, ← present]
  unfold LimitUpdate.others LimitUpdate.leavesUsable
  cases found : update.previous table with
  | none =>
    cases update.filtered with
    | true => simp [modified, found]
    | false => simp [addRoute_pcount table update.neighbour]
  | some route =>
    have first : table.routes.find? (·.learnedAt update.peer update.node) = some route := found
    have mem : route ∈ table.routes := List.mem_of_find?_eq_some first
    have source : route.info.peer = update.peer := by
      have learned := List.find?_some first
      simp only [TableRoute.learnedAt, learnedFrom, Bool.and_eq_true,
        decide_eq_true_eq] at learned
      exact learned.2.1
    have settled : Counting.Settled { route := route, pcount := table.pcount } :=
      fun _ => counted.counted_eq route mem
    have neighbour := counted.neighbours route mem
    have covered := counted.covered mem
    have before : (if (some route).any (!·.info.holddown) then 1 else 0) =
        (!Counting.holddown { route := route, pcount := table.pcount }).toNat := by
      rw [Option.any_some]
      unfold Counting.holddown
      cases route.info.holddown <;> rfl
    rw [before]
    cases update.filtered with
    | true =>
      have left := (Counting.bgpRibRemove_keeps _).pcount_eq settled neighbour covered
      rw [Counting.bgpRibRemove_holddown] at left
      rw [if_pos rfl, modified, found]
      rw [source] at left
      exact left
    | false =>
      have keeps := Counting.implicitWithdraw_keeps damp update.dampening update.now update.attr
        update.reachable { route := route, pcount := table.pcount } neighbour settled
      have left := keeps.pcount_eq settled neighbour covered
      rw [Counting.implicitWithdraw_usable] at left
      rw [if_neg Bool.false_ne_true, Option.isSome_some, if_pos rfl, modified, found]
      rw [source] at left
      exact left

/-! ## Runs -/

variable {damp : DampConfig} {config : LimitConfig}

@[simp] theorem LimitState.bgpMaximumPrefixOverflow_table (peer : Peer) (always : Bool)
    (s : LimitState) : (s.bgpMaximumPrefixOverflow config peer always).1.table = s.table := by
  unfold bgpMaximumPrefixOverflow notifyMaxPrefix
  cases config.limits peer with
  | none => rfl
  | some limit =>
    dsimp only
    split_ifs <;> rfl

theorem LimitState.bgpUpdateMain_table (s : LimitState) :
    (s.bgpUpdateMain damp config update).1.table = countStep damp s.table update.step := by
  unfold bgpUpdateMain
  split_ifs
  · rw [bgpMaximumPrefixOverflow_table]
  · rfl

/-- With a hard limit, the check keeps quiet exactly if the count is within the limit or the limit
has been reported. -/
theorem LimitState.overflow_none_iff {peer : Peer} {pmax : Nat}
    (hard : config.hardLimit peer = some pmax) (s : LimitState) :
    (s.bgpMaximumPrefixOverflow config peer false).2 = none ↔
      s.table.pcount peer ≤ pmax ∨ s.prefixLimit peer = true := by
  unfold LimitConfig.hardLimit at hard
  unfold bgpMaximumPrefixOverflow notifyMaxPrefix
  cases configured : config.limits peer with
  | none => simp [configured] at hard
  | some limit =>
    rw [configured, Option.bind_some] at hard
    split_ifs at hard with warning
    cases hard
    dsimp only
    split_ifs with above reported
    · simp_all
    · simp_all
    · simp; omega

theorem CountedTable.limitStep {s : LimitState} (counted : CountedTable s.table)
    (event : LimitEvent) :
    CountedTable (Bgpd.limitStep damp config s event).table := by
  cases event with
  | update update =>
    rw [Bgpd.limitStep, LimitState.bgpUpdateMain_table]
    exact counted.step
  | besides step other => exact counted.step
  | check peer =>
    rw [Bgpd.limitStep, LimitState.bgpMaximumPrefixOverflow_table]
    exact counted
  | stop peer => exact counted

theorem withinLimit_iff_hasRoom {s : LimitState} (counted : CountedTable s.table)
    (event : LimitEvent) : WithinLimit damp config s event ↔ HasRoom damp config s event := by
  cases event with
  | update update =>
    refine forall_congr' fun pmax => forall_congr' fun hard => ?_
    have count := pcount_update damp update counted
    rw [LimitState.bgpUpdateMain_table, count]
    unfold LimitState.bgpUpdateMain
    by_cases asked : (!update.filtered && (update.previous s.table).isNone) = true
    · obtain ⟨accepted, new⟩ := Bool.and_eq_true_iff.mp asked
      have accepted : update.filtered = false := by simpa using accepted
      have new : update.previous s.table = none := by simpa using new
      rw [if_pos asked, LimitState.overflow_none_iff hard, count]
      cases s.prefixLimit update.peer with
      | true => simp
      | false => simp [accepted, new]
    · rw [if_neg asked]
      have old : ¬ (update.filtered = false ∧ update.previous s.table = none ∧
          s.prefixLimit update.peer = false) := by
        rintro ⟨accepted, new, -⟩
        simp [accepted, new] at asked
      rw [or_iff_right old]
      exact ⟨fun within => within rfl, fun room _ => room⟩
  | _ => exact Iff.rfl

/-- **The count of a peer is within its hard limit whenever `bgp_update_main` returns 0, exactly if
each update finds room for its route, or brings a new one while the limit is not reported.** -/
theorem withinLimit_iff (damp : DampConfig) (config : LimitConfig) (history : List LimitEvent) :
    EachMeets (limitStep damp config) .start (WithinLimit damp config) history ↔
      EachMeets (limitStep damp config) .start (HasRoom damp config) history := by
  exact eachMeets_congr (fun s => CountedTable s.table) countedTable_empty
    (fun s event counted => counted.limitStep event)
    (fun s event counted => withinLimit_iff_hasRoom counted event) history

/-- An update from the neighbour in AS 2, accepted and with a reachable next hop. -/
def plainUpdate (node ptr : Nat) : LimitUpdate :=
  { peer := neighbour 2, neighbour := by decide, node := node, attr := plainAttr, filtered := false
    reachable := true, dampening := false, now := 0, ptr := ptr }

/-- With a limit of one prefix, a route is withdrawn, another one comes in, and the first one comes
back before it is reaped. -/
theorem withdrawn_route_over_limit :
    let damp : DampConfig :=
      { suppressValue := 2000, reuseLimit := 750, ceiling := 12000
        decay := fun _ penalty => penalty }
    let config : LimitConfig :=
      { afi := 1, safi := 1, outside := fun _ => (0, 0)
        limits := fun _ => some { pmax := 1, threshold := 75, warning := false, restart := 0 } }
    ¬ EachMeets (limitStep damp config) .start (WithinLimit damp config)
        [.update (plainUpdate 0 1), .besides (.withdraw (neighbour 2) 0 false 0) rfl,
          .update (plainUpdate 1 2), .update (plainUpdate 0 3)] := by
  intro damp config meets
  have excess := @meets [.update (plainUpdate 0 1),
    .besides (.withdraw (neighbour 2) 0 false 0) rfl, .update (plainUpdate 1 2)] _ _ rfl 1 rfl rfl
  revert excess
  decide

end Quagga.Bgpd
