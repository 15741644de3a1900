import Quagga.Library.Binary32
import Quagga.Library.Selection
import Quagga.Bgpd.Route
import Quagga.Bgpd.TrustFiles

/-!
# Comparing two routes

`bgp_info_cmp` decides whether a route is preferable to the incumbent. It first reads the
two trust tables and adds, for the AS of each route's peer, the initial and the observed
trust. When both ASes have a voting result, the sum of a trust-weighted mean of the votes
and of this trust decides, in single-precision arithmetic; otherwise the trust alone does.
Only when that comparison does not decide do the attributes of the routes count.

The two comparisons differ on equal values. Without voting results an equal trust falls
through to the attributes; with them, the test for keeping the incumbent is `<=`, so equal
scores keep it whatever the attributes are.

For routes learned from configured neighbours, under the flags of `Bgp.KeyOrdered`, the
thirteen attribute steps compare one key in a linear order (`attributeSteps_eq`). Without
voting results the whole function compares one key, the trust first
(`prefersNew_eq_decisionKey`).
-/

set_option autoImplicit false

namespace Quagga.Bgpd

open Lib Library OrderDual

/-! ## The attribute steps

A step gives the returned value, or `none` where the source goes on to the next step. -/

variable (new exist : BgpInfo)

/-- Step 1, the weight. -/
def weightStep : Option Bool := preferGreater exist.weight new.weight

variable (bgp : Bgp)

variable (new exist : BgpInfo)

/-- Step 2, the local preference. -/
def prefStep : Option Bool :=
  preferGreater (exist.pref bgp) (new.pref bgp)

/-- Step 3, local routes. -/
def localRouteStep : Option Bool :=
  if new.subType = .static then some true
  else if exist.subType = .static then some false
  else if new.subType = .redistribute then some true
  else if exist.subType = .redistribute then some false
  else if new.subType = .aggregate then some true
  else if exist.subType = .aggregate then some false
  else none

/-- Step 4, the length of the AS path. -/
def aspathStep : Option Bool :=
  if bgp.aspathIgnore then none
  else if bgp.aspathConfed then
    preferLower (aspathCountHops exist.attr.aspath + aspathCountConfeds exist.attr.aspath)
      (aspathCountHops new.attr.aspath + aspathCountConfeds new.attr.aspath)
  else preferLower (aspathCountHops exist.attr.aspath) (aspathCountHops new.attr.aspath)

/-- Step 5, the origin. -/
def originStep : Option Bool := preferLower exist.attr.origin new.attr.origin

/-- Both routes are of the own AS. -/
def internalAsRoute : Bool :=
  aspathCountHops new.attr.aspath = 0 ∧ aspathCountHops exist.attr.aspath = 0

/-- Both routes are of the confederation. -/
def confedAsRoute : Bool :=
  aspathCountConfeds new.attr.aspath > 0 ∧ aspathCountConfeds exist.attr.aspath > 0 ∧
    aspathCountHops new.attr.aspath = 0 ∧ aspathCountHops exist.attr.aspath = 0

/-- Step 6, the MED, for routes that may be compared by it. -/
def medStep : Option Bool :=
  if bgp.alwaysCompareMed || (bgp.medConfed && confedAsRoute new exist)
      || aspathCmpLeft new.attr.aspath exist.attr.aspath
      || aspathCmpLeftConfed new.attr.aspath exist.attr.aspath
      || internalAsRoute new exist then
    preferLower (bgpMedValue bgp exist.attr) (bgpMedValue bgp new.attr)
  else none

/-- Step 7, the sort of the peer. -/
def sortStep : Option Bool :=
  if peerSort bgp new.peer = .ebgp ∧ peerSort bgp exist.peer = .ibgp then some true
  else if peerSort bgp new.peer = .ebgp ∧ peerSort bgp exist.peer = .confed then some true
  else if peerSort bgp new.peer = .ibgp ∧ peerSort bgp exist.peer = .ebgp then some false
  else if peerSort bgp new.peer = .confed ∧ peerSort bgp exist.peer = .ebgp then some false
  else none

/-- Step 8, the IGP metric. -/
def igpStep : Option Bool :=
  if new.extra.isSome || exist.extra.isSome then preferLower exist.igpmetric new.igpmetric
  else none

/-- Step 10, the route received first among external ones. -/
def oldestStep : Option Bool :=
  if ¬ bgp.compareRouterId ∧ peerSort bgp new.peer = .ebgp ∧ peerSort bgp exist.peer = .ebgp then
    if new.flags.selected then some true
    else if exist.flags.selected then some false
    else none
  else none

/-- Step 11, the originator or router id. -/
def routerIdStep : Option Bool := preferLower exist.routerId new.routerId

/-- Step 12, the length of the cluster list. -/
def clusterStep : Option Bool := preferLower exist.cluster new.cluster

/-- Step 13, the address of the neighbour. -/
def addressStep : Option Bool :=
  if sockunionCmp new.peer.suRemote exist.peer.suRemote = 1 then some false
  else if sockunionCmp new.peer.suRemote exist.peer.suRemote = -1 then some true
  else none

/-- The attribute steps in the order of the source; the last `return` is `1`. -/
def attributeSteps : Bool :=
  ((weightStep new exist).or <| (prefStep bgp new exist).or <| (localRouteStep new exist).or <|
    (aspathStep bgp new exist).or <| (originStep new exist).or <| (medStep bgp new exist).or <|
    (sortStep bgp new exist).or <| (igpStep new exist).or <| (oldestStep bgp new exist).or <|
    (routerIdStep new exist).or <| (clusterStep new exist).or <| addressStep new exist).getD true

/-! ## The trust comparison -/

/-- Read a file of trust values. -/
def readTrusts (file : Option Table) : Except Fault Words := do
  let table ← openTable file
  return scanTable table

/-- `(float) (inTrusts[as - 1] + obsTrusts[as - 1])`. -/
def directTrust (inTrusts obsTrusts : Words) (as : Nat) : Except Fault Binary32 := do
  let i ← tableIndex as
  return Binary32.ofNat ((inTrusts i).toNat + (obsTrusts i).toNat)

/-- The votes that count: the nonzero ones, except the entry of the own AS. -/
def counts (votes : Words) (i : Fin 10) : Bool :=
  votes i ≠ 0 ∧ (i : Nat) ≠ asIndex bgp.as

/-- An arithmetic in which votes are weighed. -/
structure Arithmetic (φ : Type) where
  ofNat : Nat → φ
  add : φ → φ → φ
  mul : φ → φ → φ
  div : φ → φ → φ

/-- That of `float`. -/
def Arithmetic.binary32 : Arithmetic Binary32 where
  ofNat := .ofNat
  add := .add
  mul := .mul
  div := .div

section Votes

variable {φ : Type} (arithmetic : Arithmetic φ)

/-- A loop over the votes that count, which adds up a term for each. -/
def sumCounted (votes : Words) (term : Fin 10 → φ) : φ :=
  (List.finRange 10).foldl
    (fun sum i => if counts bgp votes i then arithmetic.add sum (term i) else sum)
    (arithmetic.ofNat 0)

/-- The trust in the ASes whose votes count. -/
def sumTrustsIn (inTrusts votes : Words) : φ :=
  sumCounted bgp arithmetic votes fun i => arithmetic.ofNat (inTrusts i).toNat

/-- The votes that count, each weighted by the trust in its AS over the sum. -/
def votedTrustIn (inTrusts votes : Words) : φ :=
  sumCounted bgp arithmetic votes fun i =>
    arithmetic.mul (arithmetic.ofNat (votes i).toNat)
      (arithmetic.div (arithmetic.ofNat (inTrusts i).toNat)
        (sumTrustsIn bgp arithmetic inTrusts votes))

end Votes

/-- The votes weighed with `float`. -/
def votedTrust : Words → Words → Binary32 := votedTrustIn bgp .binary32

/-- With both voting results: a greater score takes the new route, any other ordered pair
keeps the incumbent. -/
def scoreStep (exist new : Binary32) : Option Bool :=
  if exist.lt new then some true else if new.le exist then some false else none

/-- Without both voting results: equal trust decides nothing. -/
def trustStep (exist new : Binary32) : Option Bool :=
  if exist.lt new then some true else if new.lt exist then some false else none

/-- `bgp_info_cmp`; the null pointer is `none`. -/
def bgpInfoCmp (files : Files) (bgp : Bgp) (new exist : Option BgpInfo) : Except Fault Bool :=
  match new, exist with
  | none, _ => .ok false
  | some _, none => .ok true
  | some new, some exist => do
      let obsTrusts ← readTrusts files.obsTrust
      let inTrusts ← readTrusts files.inTrust
      let newTrust ← directTrust inTrusts obsTrusts new.peer.as
      let existTrust ← directTrust inTrusts obsTrusts exist.peer.as
      let decided :=
        match files.voteresult exist.peer.as, files.voteresult new.peer.as with
        | some oldvotes, some newvotes =>
          scoreStep ((votedTrust bgp inTrusts (scanTable oldvotes)).add existTrust)
            ((votedTrust bgp inTrusts (scanTable newvotes)).add newTrust)
        | _, _ => trustStep existTrust newTrust
      return decided.getD (attributeSteps bgp new exist)

/-! ## The attribute steps compare keys -/

/-- The flags under which the decision does not depend on which route came first: every two
routes are compared by MED and by router id, and routes are not grouped by neighbour AS. -/
structure Bgp.KeyOrdered (bgp : Bgp) : Prop where
  alwaysCompareMed : bgp.alwaysCompareMed = true
  compareRouterId : bgp.compareRouterId = true
  deterministicMed : bgp.deterministicMed = false

/-- The length of the AS path as the configuration counts it. -/
def pathLength (aspath : Aspath) : Nat :=
  if bgp.aspathIgnore then 0
  else if bgp.aspathConfed then aspathCountHops aspath + aspathCountConfeds aspath
  else aspathCountHops aspath

/-- External routes before internal and confederation ones. -/
def externalRank (peer : Peer) : Nat := if peerSort bgp peer = .ebgp then 1 else 0

/-- The attributes of a route from the most to the least important one. -/
abbrev AttributeKey : Type :=
  ℕ ×ₗ ℕ ×ₗ ℕᵒᵈ ×ₗ ℕᵒᵈ ×ₗ ℕᵒᵈ ×ₗ ℕ ×ₗ ℕᵒᵈ ×ₗ ℕᵒᵈ ×ₗ ℕᵒᵈ ×ₗ (List ℕ)ᵒᵈ

/-- Higher weight and local preference, a shorter AS path, lower origin and a lower value in the
place of the MED, an external peer, lower IGP metric and router id, a shorter cluster list and a
lower address. -/
def attributeKeyWith (med : Nat) (ri : BgpInfo) : AttributeKey :=
  toLex (ri.weight, toLex (ri.pref bgp, toLex (toDual (pathLength bgp ri.attr.aspath),
    toLex (toDual ri.attr.origin, toLex (toDual med,
      toLex (externalRank bgp ri.peer, toLex (toDual ri.igpmetric,
        toLex (toDual ri.routerId, toLex (toDual ri.cluster,
          toDual (addressKey ri.peer.suRemote))))))))))

/-- The key with the MED of the route. -/
def attributeKey (ri : BgpInfo) : AttributeKey := attributeKeyWith bgp (bgpMedValue bgp ri.attr) ri

section Steps

variable {bgp : Bgp} {new exist : BgpInfo}

theorem localRouteStep_learned (newLearned : new.Learned) (existLearned : exist.Learned) :
    localRouteStep new exist = none := by
  simp [localRouteStep, newLearned.subType_eq, existLearned.subType_eq]

theorem aspathStep_eq :
    aspathStep bgp new exist =
      preferLower (pathLength bgp exist.attr.aspath) (pathLength bgp new.attr.aspath) := by
  cases ignore : bgp.aspathIgnore <;> cases confed : bgp.aspathConfed <;>
    simp [aspathStep, pathLength, ignore, confed]

theorem sortStep_eq (newLearned : new.Learned) (existLearned : exist.Learned) :
    sortStep bgp new exist =
      preferGreater (externalRank bgp exist.peer) (externalRank bgp new.peer) := by
  have newSort := newLearned.configured.sort_ne_internal bgp
  have existSort := existLearned.configured.sort_ne_internal bgp
  cases atNew : peerSort bgp new.peer <;> cases atExist : peerSort bgp exist.peer <;>
    simp_all [sortStep, externalRank, preferGreater]

theorem igpStep_eq : igpStep new exist = preferLower exist.igpmetric new.igpmetric := by
  cases atNew : new.extra <;> cases atExist : exist.extra <;>
    simp [igpStep, BgpInfo.igpmetric, atNew, atExist]

theorem oldestStep_eq (compareRouterId : bgp.compareRouterId = true) :
    oldestStep bgp new exist = none := by
  simp [oldestStep, compareRouterId]

theorem addressStep_eq :
    addressStep new exist =
      preferLower (addressKey exist.peer.suRemote) (addressKey new.peer.suRemote) := by
  rw [addressStep, sockunionCmp_eq, preferLower, preferGreater, orderSign]
  rcases lt_trichotomy (addressKey exist.peer.suRemote) (addressKey new.peer.suRemote)
    with less | same | greater
  · simp [less, less.not_gt]
  · simp [same]
  · simp [greater, greater.not_gt]

/-- For learned routes the attribute steps compare keys, where the MED step compares two numbers
for paths of the same length. -/
theorem attributeSteps_eq_of_med (compareRouterId : bgp.compareRouterId = true)
    (newLearned : new.Learned) (existLearned : exist.Learned) {newMed existMed : Nat}
    (medCompares : pathLength bgp exist.attr.aspath = pathLength bgp new.attr.aspath →
      medStep bgp new exist = preferLower existMed newMed) :
    attributeSteps bgp new exist =
      decide (attributeKeyWith bgp existMed exist ≤ attributeKeyWith bgp newMed new) := by
  rw [attributeSteps, localRouteStep_learned newLearned existLearned, aspathStep_eq,
    sortStep_eq newLearned existLearned, igpStep_eq, oldestStep_eq compareRouterId,
    addressStep_eq]
  simp only [Option.getD_or]
  -- One early exit for each component of the key, the address last.
  refine preferGreater_getD_lex <| preferGreater_getD_lex <| preferGreater_getD_lex_of_eq ?_
  intro same
  rw [medCompares (toDual_inj.mp same)]
  exact preferGreater_getD_lex <| preferGreater_getD_lex <| preferGreater_getD_lex <|
    preferGreater_getD_lex <| preferGreater_getD_lex <| preferGreater_getD_lex <|
    preferGreater_getD_true _ _

/-- **For learned routes the attribute steps compare attribute keys.** -/
theorem attributeSteps_eq (ordered : bgp.KeyOrdered) (newLearned : new.Learned)
    (existLearned : exist.Learned) :
    attributeSteps bgp new exist = decide (attributeKey bgp exist ≤ attributeKey bgp new) :=
  attributeSteps_eq_of_med ordered.compareRouterId newLearned existLearned
    fun _ => by simp [medStep, ordered.alwaysCompareMed]

end Steps

/-! ## The trust comparison of learned routes -/

/-- The contents of the two trust files. -/
structure Files.Trust (files : Files) (inTrust obsTrust : Table) : Prop where
  inTrust_eq : files.inTrust = some inTrust
  obsTrust_eq : files.obsTrust = some obsTrust

/-- `inTrust[as - 1] + obsTrust[as - 1]`, as read into the two arrays. -/
def trustSum (inTrust obsTrust : Table) (as : Nat) : Nat :=
  (scanTable inTrust (slot as)).toNat + (scanTable obsTrust (slot as)).toNat

/-- The voted trust plus the direct trust of an AS with a voting result. -/
def votedScore (bgp : Bgp) (inTrust obsTrust votes : Table) (as : Nat) : Binary32 :=
  (votedTrust bgp (scanTable inTrust) (scanTable votes)).add (.ofNat (trustSum inTrust obsTrust as))

/-- The decision between two routes whose ASes have table entries. -/
def prefersNew (files : Files) (bgp : Bgp) (inTrust obsTrust : Table) (new exist : BgpInfo) :
    Bool :=
  let decided :=
    match files.voteresult exist.peer.as, files.voteresult new.peer.as with
    | some oldvotes, some newvotes =>
      scoreStep (votedScore bgp inTrust obsTrust oldvotes exist.peer.as)
        (votedScore bgp inTrust obsTrust newvotes new.peer.as)
    | _, _ =>
      preferGreater (trustSum inTrust obsTrust exist.peer.as)
        (trustSum inTrust obsTrust new.peer.as)
  decided.getD (attributeSteps bgp new exist)

/-- A route's trust, then its attributes. -/
def decisionKey (bgp : Bgp) (inTrust obsTrust : Table) (ri : BgpInfo) : ℕ ×ₗ AttributeKey :=
  toLex (trustSum inTrust obsTrust ri.peer.as, attributeKey bgp ri)

theorem Peer.Configured.inTables {peer : Peer} (configured : peer.Configured) :
    InTables peer.as := ⟨configured.as_pos, configured.as_le⟩

section Learned

variable {files : Files} {bgp : Bgp} {inTrust obsTrust : Table} {new exist : BgpInfo}

theorem readTrusts_some (table : Table) : readTrusts (some table) = .ok (scanTable table) := rfl

theorem directTrust_ok {as : Nat} (inTables : InTables as) :
    directTrust (scanTable inTrust) (scanTable obsTrust) as =
      .ok (.ofNat (trustSum inTrust obsTrust as)) := by
  rw [directTrust, tableIndex_ok inTables]
  rfl

/-- Two table entries add up to a number that single precision represents. -/
theorem trustSum_lt (as : Nat) : trustSum inTrust obsTrust as < 2 ^ 24 := by
  have first := (scanTable inTrust (slot as)).toNat_lt
  have second := (scanTable obsTrust (slot as)).toNat_lt
  rw [trustSum]
  omega

/-- The trust comparison in single precision is the one of natural numbers. -/
theorem trustStep_ofNat (existAs newAs : Nat) :
    trustStep (.ofNat (trustSum inTrust obsTrust existAs))
        (.ofNat (trustSum inTrust obsTrust newAs)) =
      preferGreater (trustSum inTrust obsTrust existAs) (trustSum inTrust obsTrust newAs) := by
  rw [trustStep, Binary32.ofNat_lt_ofNat (trustSum_lt _) (trustSum_lt _),
    Binary32.ofNat_lt_ofNat (trustSum_lt _) (trustSum_lt _), preferGreater]
  simp only [decide_eq_true_eq]

/-- **With both trust files and ASes in the tables, `bgp_info_cmp` returns this decision.** -/
theorem bgpInfoCmp_eq_prefersNew (trust : files.Trust inTrust obsTrust)
    (newIn : InTables new.peer.as) (existIn : InTables exist.peer.as) :
    bgpInfoCmp files bgp (some new) (some exist) =
      .ok (prefersNew files bgp inTrust obsTrust new exist) := by
  rw [bgpInfoCmp, trust.inTrust_eq, trust.obsTrust_eq, readTrusts_some, readTrusts_some, ok_bind,
    ok_bind, directTrust_ok newIn, ok_bind, directTrust_ok existIn, ok_bind]
  simp only [trustStep_ofNat]
  rfl

/-- Without a voting result of one of the two ASes, the trust decides before the attributes. -/
theorem prefersNew_eq_of_attributes {κ : Type} [LinearOrder κ] {newKey existKey : κ}
    (attributes : attributeSteps bgp new exist = decide (existKey ≤ newKey))
    (unvoted : files.voteresult exist.peer.as = none ∨ files.voteresult new.peer.as = none) :
    prefersNew files bgp inTrust obsTrust new exist =
      decide (toLex (trustSum inTrust obsTrust exist.peer.as, existKey) ≤
        toLex (trustSum inTrust obsTrust new.peer.as, newKey)) := by
  rw [← preferGreater_getD_lex attributes]
  rcases unvoted with missing | missing
  · simp only [prefersNew, missing]
  · cases atExist : files.voteresult exist.peer.as <;> simp only [prefersNew, missing, atExist]

theorem prefersNew_eq_decisionKey (ordered : bgp.KeyOrdered) (newLearned : new.Learned)
    (existLearned : exist.Learned)
    (unvoted : files.voteresult exist.peer.as = none ∨ files.voteresult new.peer.as = none) :
    prefersNew files bgp inTrust obsTrust new exist =
      decide (decisionKey bgp inTrust obsTrust exist ≤ decisionKey bgp inTrust obsTrust new) :=
  prefersNew_eq_of_attributes (attributeSteps_eq ordered newLearned existLearned) unvoted

end Learned

end Quagga.Bgpd
