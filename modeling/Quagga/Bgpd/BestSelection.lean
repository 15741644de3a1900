import Mathlib.Data.Finset.Max
import Quagga.Bgpd.InfoCmp

/-!
# Best path selection

`bgp_best_selection` walks the routes of a RIB node and keeps the better of the incumbent
and the next eligible route. With deterministic MED it first marks one route of each group
of routes that enter through the same neighbour AS, and then walks only the marked ones.

Without deterministic MED the walk is a pass that selects by pairwise comparison
(`bgpBestSelection_select`), so what it returns is decided by the general facts about such
passes. When no AS has a voting result the comparison is one of keys, and the returned
route is the greatest one (`bgpBestSelection_greatest`): the choice depends on the routes
and not on their order.
-/

set_option autoImplicit false

namespace Quagga.Bgpd

open Lib Library

/-! ## The function -/

variable (ri : BgpInfo)

/-- `BGP_INFO_DMED_CHECK` set. -/
def BgpInfo.setDmedCheck : BgpInfo :=
  { ri with flags := { ri.flags with dmedCheck := true } }

/-- `BGP_INFO_DMED_CHECK` unset. -/
def BgpInfo.unsetDmedCheck : BgpInfo :=
  { ri with flags := { ri.flags with dmedCheck := false } }

/-- `BGP_INFO_DMED_SELECTED` unset. -/
def BgpInfo.unsetDmedSelected : BgpInfo :=
  { ri with flags := { ri.flags with dmedSelected := false } }

/-- Both deterministic-MED marks set. -/
def BgpInfo.setDmed : BgpInfo :=
  { ri with flags := { ri.flags with dmedCheck := true, dmedSelected := true } }

/-- Both deterministic-MED marks unset. -/
def BgpInfo.clearDmed : BgpInfo :=
  { ri with flags := { ri.flags with dmedCheck := false, dmedSelected := false } }

variable (files : Files)

/-- One route of the inner loop of deterministic MED: the routes and the index of
`new_select`, for the outer route `i`. -/
def dmedCompare (bgp : Bgp) (i : Nat) (st : List BgpInfo × Nat) (j : Nat) :
    Except Fault (List BgpInfo × Nat) :=
  match st.1[i]?, st.1[j]?, st.1[st.2]? with
  | some ri1, some ri2, some newSelect =>
    if ri2.flags.dmedCheck || ri2.holddown then .ok st
    else if aspathCmpLeft ri1.attr.aspath ri2.attr.aspath
        || aspathCmpLeftConfed ri1.attr.aspath ri2.attr.aspath then do
      let better ← bgpInfoCmp files bgp (some ri2) (some newSelect)
      let (rn, select) :=
        if better then (st.1.modify st.2 BgpInfo.unsetDmedSelected, j) else st
      return (rn.modify j BgpInfo.setDmedCheck, select)
    else .ok st
  | _, _, _ => .ok st

/-- One route of the outer loop of deterministic MED. -/
def dmedGroup (bgp : Bgp) (rn : List BgpInfo) (i : Nat) : Except Fault (List BgpInfo) :=
  match rn[i]? with
  | none => .ok rn
  | some ri1 =>
    if ri1.flags.dmedCheck || ri1.holddown then .ok rn
    else do
      let (rn, select) ←
        (List.range' (i + 1) (rn.length - (i + 1))).foldlM (dmedCompare files bgp i) (rn, i)
      return rn.modify select BgpInfo.setDmed

/-- The loops of deterministic MED. -/
def dmedPhase (bgp : Bgp) (rn : List BgpInfo) : Except Fault (List BgpInfo) :=
  if bgp.deterministicMed then (List.range rn.length).foldlM (dmedGroup files bgp) rn
  else .ok rn

/-- The main loop: the routes it has passed and did not reap, `old_select` by its address,
and `new_select`. -/
structure SelectState where
  rn : List BgpInfo
  old : Option Nat
  new : Option BgpInfo

/-- One route of the main loop. -/
def selectRoute (bgp : Bgp) (st : SelectState) (ri : BgpInfo) : Except Fault SelectState :=
  let old := if ri.flags.selected then some ri.ptr else st.old
  if ri.holddown then
    -- `bgp_info_reap` takes a removed route out of the list unless it is the selected one.
    if ri.flags.removed && old ≠ some ri.ptr then .ok { st with old := old }
    else .ok { st with rn := st.rn ++ [ri], old := old }
  else if bgp.deterministicMed && !ri.flags.dmedSelected then
    .ok { st with rn := st.rn ++ [ri.unsetDmedCheck], old := old }
  else do
    let better ← bgpInfoCmp files bgp (some ri.clearDmed) st.new
    return { rn := st.rn ++ [ri.clearDmed], old := old,
             new := if better then some ri.clearDmed else st.new }

/-- `struct bgp_info_pair`: the addresses of two routes. -/
structure BgpInfoPair where
  old : Option Nat
  new : Option Nat
  deriving DecidableEq

/-- `bgp_best_selection`: the routes of the node afterwards, and the result. -/
def bgpBestSelection (bgp : Bgp) (rn : List BgpInfo) :
    Except Fault (List BgpInfo × BgpInfoPair) := do
  let rn ← dmedPhase files bgp rn
  let st ← rn.foldlM (selectRoute files bgp) { rn := [], old := none, new := none }
  return (st.rn, { old := st.old, new := st.new.map BgpInfo.ptr })

/-! ## The main loop selects by pairwise comparison -/

section Learned

variable {files : Files} {bgp : Bgp} {inTrust obsTrust : Table}

/-- A route that the main loop compares with the incumbent: an eligible one, with deterministic
MED a marked one. -/
def BgpInfo.Considered (bgp : Bgp) (ri : BgpInfo) : Prop :=
  ri.Eligible ∧ (bgp.deterministicMed = true → ri.flags.dmedSelected = true)

instance (bgp : Bgp) (ri : BgpInfo) : Decidable (ri.Considered bgp) :=
  inferInstanceAs (Decidable (_ ∧ _))

theorem considered_iff_eligible (noGroups : bgp.deterministicMed = false) (ri : BgpInfo) :
    ri.Considered bgp ↔ ri.Eligible := by
  simp [BgpInfo.Considered, noGroups]

variable {ri : BgpInfo}

theorem selectRoute_skip (st : SelectState) (skipped : ¬ ri.Considered bgp) :
    ∃ st', selectRoute files bgp st ri = .ok st' ∧ st'.new = st.new := by
  rw [selectRoute]
  generalize (if ri.flags.selected then some ri.ptr else st.old) = old
  split_ifs with held reaped unmarked
  · exact ⟨_, rfl, rfl⟩
  · exact ⟨_, rfl, rfl⟩
  · exact ⟨_, rfl, rfl⟩
  · refine absurd ⟨Bool.eq_false_iff.mpr held, fun grouped => ?_⟩ skipped
    simpa [grouped] using unmarked

theorem selectRoute_compare (st : SelectState) (considered : ri.Considered bgp) :
    selectRoute files bgp st ri = (do
      let better ← bgpInfoCmp files bgp (some ri.clearDmed) st.new
      return { rn := st.rn ++ [ri.clearDmed],
               old := if ri.flags.selected then some ri.ptr else st.old,
               new := if better then some ri.clearDmed else st.new }) := by
  have notHeld : ri.holddown = false := considered.1
  have marked : (bgp.deterministicMed && !ri.flags.dmedSelected) = false := by
    cases grouped : bgp.deterministicMed with
    | false => rfl
    | true => simp [considered.2 grouped]
  rw [selectRoute]
  simp only [notHeld, marked, Bool.false_eq_true, if_false]

theorem selectRoute_considered (trust : files.Trust inTrust obsTrust) {st : SelectState}
    {best : Option BgpInfo} (considered : ri.Considered bgp) (learned : ri.Learned)
    (bestLearned : ∀ incumbent, best = some incumbent → incumbent.Learned)
    (atNew : st.new = best.map BgpInfo.clearDmed) :
    ∃ st', selectRoute files bgp st ri = .ok st' ∧
      st'.new = (keepPreferred (prefersNew files bgp inTrust obsTrust) best ri).map
        BgpInfo.clearDmed := by
  rw [selectRoute_compare st considered]
  cases best with
  | none =>
    rw [atNew]
    exact ⟨_, rfl, rfl⟩
  | some incumbent =>
    -- Unsetting the marks changes nothing that the comparison reads.
    have compared : bgpInfoCmp files bgp (some ri.clearDmed) (some incumbent.clearDmed) =
        .ok (prefersNew files bgp inTrust obsTrust ri incumbent) :=
      bgpInfoCmp_eq_prefersNew trust learned.configured.inTables
        (bestLearned incumbent rfl).configured.inTables
    rw [atNew, Option.map_some, compared]
    cases better : prefersNew files bgp inTrust obsTrust ri incumbent
    · simp [keepPreferred, better]
    · simp [keepPreferred, better]

theorem foldlM_selectRoute (trust : files.Trust inTrust obsTrust) :
    ∀ (rn : List BgpInfo) (st : SelectState) (best : Option BgpInfo),
      (∀ ri ∈ rn, ri.Learned) → (∀ incumbent, best = some incumbent → incumbent.Learned) →
      st.new = best.map BgpInfo.clearDmed →
      ∃ st', rn.foldlM (selectRoute files bgp) st = .ok st' ∧
        st'.new = ((rn.filter (BgpInfo.Considered bgp ·)).foldl
          (keepPreferred (prefersNew files bgp inTrust obsTrust)) best).map
            BgpInfo.clearDmed := by
  intro rn
  induction rn with
  | nil => exact fun _ _ _ _ atNew => ⟨_, rfl, atNew⟩
  | cons ri rest ih =>
    intro st best learned bestLearned atNew
    have restLearned : ∀ later ∈ rest, later.Learned :=
      fun later member => learned later (List.mem_cons_of_mem _ member)
    rw [List.foldlM_cons]
    by_cases considered : ri.Considered bgp
    · have riLearned := learned ri (List.mem_cons_self ..)
      obtain ⟨st', stepped, atNew'⟩ :=
        selectRoute_considered trust considered riLearned bestLearned atNew
      have keptLearned : ∀ incumbent,
          keepPreferred (prefersNew files bgp inTrust obsTrust) best ri = some incumbent →
            incumbent.Learned :=
        fun _ => keepPreferred_holds bestLearned riLearned
      rw [stepped, List.filter_cons_of_pos (by simpa using considered)]
      exact ih _ _ restLearned keptLearned atNew'
    · obtain ⟨st', stepped, unchanged⟩ := selectRoute_skip st considered
      rw [stepped, List.filter_cons_of_neg (by simpa using considered)]
      exact ih _ _ restLearned bestLearned (unchanged.trans atNew)

variable {rn : List BgpInfo}

/-- The returned route is the one that the pass over the considered routes selects. -/
theorem bgpBestSelection_of_dmedPhase (trust : files.Trust inTrust obsTrust) {marked : List BgpInfo}
    (phase : dmedPhase files bgp rn = .ok marked) (learned : ∀ ri ∈ marked, ri.Learned) :
    ∃ st, marked.foldlM (selectRoute files bgp) ⟨[], none, none⟩ = .ok st ∧
      bgpBestSelection files bgp rn = .ok (st.rn, ⟨st.old,
        (select (prefersNew files bgp inTrust obsTrust)
          (marked.filter (BgpInfo.Considered bgp ·))).map BgpInfo.ptr⟩) := by
  obtain ⟨st, walked, atNew⟩ := foldlM_selectRoute trust marked ⟨[], none, none⟩ none
    learned (fun _ absent => by cases absent) rfl
  refine ⟨st, walked, ?_⟩
  rw [bgpBestSelection, phase, ok_bind, walked, ok_bind, atNew, Option.map_map]
  rfl

section

variable (ordered : bgp.KeyOrdered) (trust : files.Trust inTrust obsTrust)
  (learned : ∀ ri ∈ rn, ri.Learned)
include ordered trust learned

/-- **The returned route is the one that the pass over the eligible routes selects.** -/
theorem bgpBestSelection_select :
    ∃ rn' old, bgpBestSelection files bgp rn = .ok (rn', ⟨old,
      (select (prefersNew files bgp inTrust obsTrust) (rn.filter (BgpInfo.Eligible ·))).map
        BgpInfo.ptr⟩) := by
  have noGroups : dmedPhase files bgp rn = .ok rn := by
    simp [dmedPhase, ordered.deterministicMed]
  obtain ⟨st, -, selected⟩ := bgpBestSelection_of_dmedPhase trust noGroups learned
  simp only [considered_iff_eligible ordered.deterministicMed] at selected
  exact ⟨st.rn, st.old, selected⟩

/-- A strict winner among the eligible routes is returned for every order of the list. -/
theorem bgpBestSelection_of_strictWinner {winner : BgpInfo}
    (strict : StrictWinner (prefersNew files bgp inTrust obsTrust)
      (rn.filter (BgpInfo.Eligible ·)) winner)
    {order : List BgpInfo} (perm : rn.Perm order) :
    ∃ rn' old, bgpBestSelection files bgp order = .ok (rn', ⟨old, some winner.ptr⟩) := by
  obtain ⟨rn', old, selected⟩ := bgpBestSelection_select ordered trust
    fun ri member => learned ri (perm.mem_iff.mpr member)
  rw [select_eq_of_strictWinner (strict.perm (perm.filter _))] at selected
  exact ⟨rn', old, selected⟩

theorem bgpBestSelection_of_holddown (held : ∀ ri ∈ rn, ri.holddown = true) {order : List BgpInfo}
    (perm : rn.Perm order) :
    ∃ rn' old, bgpBestSelection files bgp order = .ok (rn', ⟨old, none⟩) := by
  obtain ⟨rn', old, selected⟩ := bgpBestSelection_select ordered trust
    fun ri member => learned ri (perm.mem_iff.mpr member)
  have nothing : order.filter (BgpInfo.Eligible ·) = [] := by
    rw [List.filter_eq_nil_iff]
    intro ri member eligible
    have notHeld : ri.holddown = false := of_decide_eq_true eligible
    rw [held ri (perm.mem_iff.mpr member)] at notHeld
    cases notHeld
  rw [nothing] at selected
  exact ⟨rn', old, selected⟩

end

/-! ## Without voting results the greatest route is selected -/

/-- An eligible route of the node whose decision key no eligible route exceeds. -/
structure Greatest (bgp : Bgp) (inTrust obsTrust : Table) (rn : List BgpInfo) (ri : BgpInfo) :
    Prop where
  mem : ri ∈ rn
  eligible : ri.Eligible
  greatest : ∀ other ∈ rn, other.Eligible →
    decisionKey bgp inTrust obsTrust other ≤ decisionKey bgp inTrust obsTrust ri

theorem suRemote_eq_of_decisionKey {first second : BgpInfo}
    (same : decisionKey bgp inTrust obsTrust first = decisionKey bgp inTrust obsTrust second) :
    first.peer.suRemote = second.peer.suRemote := by
  simp only [decisionKey, attributeKey, attributeKeyWith, EmbeddingLike.apply_eq_iff_eq,
    Prod.mk.injEq] at same
  exact addressKey_injective same.2.2.2.2.2.2.2.2.2.2

theorem mem_eligible : ri ∈ rn.filter (BgpInfo.Eligible ·) ↔ ri ∈ rn ∧ ri.Eligible := by
  rw [List.mem_filter, decide_eq_true_eq]

theorem exists_greatest (bgp : Bgp) (inTrust obsTrust : Table)
    (some' : ¬ ∀ ri ∈ rn, ri.holddown = true) : ∃ ri, Greatest bgp inTrust obsTrust rn ri := by
  have nonempty : rn.filter (BgpInfo.Eligible ·) ≠ [] := by
    intro empty
    apply some'
    intro ri member
    by_contra notHeld
    exact List.filter_eq_nil_iff.mp empty ri member
      (decide_eq_true (Bool.eq_false_iff.mpr notHeld))
  obtain ⟨ri, member, greatest⟩ := Multiset.exists_max_image
    (decisionKey bgp inTrust obsTrust) (mt (Multiset.coe_eq_zero _).mp nonempty)
  obtain ⟨mem, eligible⟩ := mem_eligible.mp (Multiset.mem_coe.mp member)
  exact ⟨ri, mem, eligible, fun other otherMem otherEligible =>
    greatest other (Multiset.mem_coe.mpr (mem_eligible.mpr ⟨otherMem, otherEligible⟩))⟩

theorem Greatest.trustSum_le (best : Greatest bgp inTrust obsTrust rn ri) {other : BgpInfo}
    (member : other ∈ rn) (eligible : other.Eligible) :
    trustSum inTrust obsTrust other.peer.as ≤ trustSum inTrust obsTrust ri.peer.as := by
  rcases Prod.Lex.toLex_le_toLex.mp (best.greatest other member eligible) with less | ⟨same, -⟩
  · exact le_of_lt less
  · exact le_of_eq same

theorem Greatest.unique (addresses : (rn.map fun ri => ri.peer.suRemote).Nodup)
    {first second : BgpInfo} (best : Greatest bgp inTrust obsTrust rn first)
    (best' : Greatest bgp inTrust obsTrust rn second) : first = second := by
  have same : decisionKey bgp inTrust obsTrust first = decisionKey bgp inTrust obsTrust second :=
    le_antisymm (best'.greatest first best.mem best.eligible)
      (best.greatest second best'.mem best'.eligible)
  exact List.inj_on_of_nodup_map addresses best.mem best'.mem (suRemote_eq_of_decisionKey same)

theorem Greatest.strictWinner (ordered : bgp.KeyOrdered)
    (unvoted : ∀ as, files.voteresult as = none) (learned : ∀ ri ∈ rn, ri.Learned)
    (addresses : (rn.map fun ri => ri.peer.suRemote).Nodup) {winner : BgpInfo}
    (best : Greatest bgp inTrust obsTrust rn winner) :
    StrictWinner (prefersNew files bgp inTrust obsTrust) (rn.filter (BgpInfo.Eligible ·))
      winner := by
  apply strictWinner_of_key (decisionKey bgp inTrust obsTrust)
  · intro first firstMem second secondMem
    exact prefersNew_eq_decisionKey ordered (learned first (mem_eligible.mp firstMem).1)
      (learned second (mem_eligible.mp secondMem).1) (.inl (unvoted _))
  · intro first firstMem second secondMem same
    exact List.inj_on_of_nodup_map addresses (mem_eligible.mp firstMem).1
      (mem_eligible.mp secondMem).1 (suRemote_eq_of_decisionKey same)
  · exact mem_eligible.mpr ⟨best.mem, best.eligible⟩
  · intro other member
    obtain ⟨otherMem, eligible⟩ := mem_eligible.mp member
    exact best.greatest other otherMem eligible

/-- **Without voting results the route returned is the eligible one with the greatest key,
in every order of the list.** Nothing is returned only when every route is in holddown, and
no eligible route has a greater trust sum than the returned one. -/
theorem bgpBestSelection_greatest (ordered : bgp.KeyOrdered)
    (trust : files.Trust inTrust obsTrust) (unvoted : ∀ as, files.voteresult as = none)
    {rn : List BgpInfo} (learned : ∀ ri ∈ rn, ri.Learned)
    (addresses : (rn.map fun ri => ri.peer.suRemote).Nodup) :
    ∃ new : Option Nat,
      (∀ order, rn.Perm order →
        ∃ rn' old, bgpBestSelection files bgp order = .ok (rn', ⟨old, new⟩)) ∧
      (∀ ptr, new = some ptr ↔ ∃ ri, Greatest bgp inTrust obsTrust rn ri ∧ ri.ptr = ptr) ∧
      (new = none ↔ ∀ ri ∈ rn, ri.holddown = true) ∧
      (∀ ri, Greatest bgp inTrust obsTrust rn ri → ∀ other ∈ rn, other.Eligible →
        trustSum inTrust obsTrust other.peer.as ≤ trustSum inTrust obsTrust ri.peer.as) := by
  by_cases held : ∀ ri ∈ rn, ri.holddown = true
  · refine ⟨none, fun order perm => bgpBestSelection_of_holddown ordered trust learned held perm,
      ?_, ?_, fun ri best other => best.trustSum_le⟩
    · intro ptr
      constructor
      · intro absent
        cases absent
      · rintro ⟨ri, best, -⟩
        have notHeld : ri.holddown = false := best.eligible
        rw [held ri best.mem] at notHeld
        cases notHeld
    · exact ⟨fun _ => held, fun _ => rfl⟩
  · obtain ⟨winner, best⟩ := exists_greatest bgp inTrust obsTrust held
    have strict := best.strictWinner ordered unvoted learned addresses
    refine ⟨some winner.ptr,
      fun order perm => bgpBestSelection_of_strictWinner ordered trust learned strict perm,
      ?_, ?_, fun ri best other => best.trustSum_le⟩
    · intro ptr
      constructor
      · intro same
        exact ⟨winner, best, Option.some.inj same⟩
      · rintro ⟨ri, best', rfl⟩
        rw [best.unique addresses best']
    · constructor
      · intro absent
        cases absent
      · exact fun all => absurd all held

end Learned

/-- An instance with few options. -/
def plainBgp : Bgp :=
  { as := 1, defaultLocalPref := 100, alwaysCompareMed := true, deterministicMed := false,
    medMissingAsWorst := false, medConfed := false, compareRouterId := true,
    aspathIgnore := false, aspathConfed := false, confederation := false, confedId := 0,
    confedPeers := [] }

/-- A neighbour in an AS. -/
def neighbour (as : Nat) : Peer :=
  { host := as, as := as, localAs := 1, group := none, remoteId := as, suRemote := .inet as }

/-- The flags of a usable route. -/
def validFlags : InfoFlags :=
  { damped := false, history := false, selected := false, valid := true, attrChanged := false,
    dmedCheck := false, dmedSelected := false, stale := false, removed := false }

/-- Attributes of a route without a path. -/
def plainAttr : Attr :=
  { origin := 0, aspath := ⟨[]⟩, localPref := none, med := none, extra := none }

/-- A route with default attributes learned from the neighbour in the given AS. -/
def learnedRoute (as : Nat) : BgpInfo :=
  { ptr := as, peer := neighbour as, attr := plainAttr, extra := none, flags := validFlags,
    type := 9, subType := .normal }

/-- Files with these trust values and votes. -/
def filesOf (inTrust : Table) (voteresult : Nat → Option Table) : Files :=
  { myAS := some 1, inTrust := some inTrust, obsTrust := some fun _ => 50, neighborsN := 3,
    votes := fun _ => 0, votesRequests := fun _ => 0, votesResponses := fun _ => 0,
    voteresult := voteresult }

theorem plainBgp_keyOrdered : plainBgp.KeyOrdered := ⟨rfl, rfl, rfl⟩

theorem filesOf_trust (inTrust : Table) (voteresult : Nat → Option Table) :
    (filesOf inTrust voteresult).Trust inTrust fun _ => 50 := ⟨rfl, rfl⟩

/-- The route from AS 3 has the greater trust and is returned in both orders. -/
theorem bgpBestSelection_greatest_two :
    (∃ rn' old, bgpBestSelection (filesOf (fun i => 50 + i) fun _ => none) plainBgp
      [learnedRoute 2, learnedRoute 3] = .ok (rn', ⟨old, some 3⟩)) ∧
    ∃ rn' old, bgpBestSelection (filesOf (fun i => 50 + i) fun _ => none) plainBgp
      [learnedRoute 3, learnedRoute 2] = .ok (rn', ⟨old, some 3⟩) := by
  have learned : ∀ ri ∈ [learnedRoute 2, learnedRoute 3], ri.Learned := by decide
  obtain ⟨new, selected, greatest, -, -⟩ := bgpBestSelection_greatest plainBgp_keyOrdered
    (filesOf_trust (fun i => 50 + i) fun _ => none) (fun _ => rfl) learned (by decide)
  have best : Greatest plainBgp (fun i => 50 + i) (fun _ => 50)
      [learnedRoute 2, learnedRoute 3] (learnedRoute 3) := by
    refine ⟨by simp, by decide, ?_⟩
    intro other member _
    rcases List.mem_pair.mp member with rfl | rfl
    · exact Prod.Lex.toLex_le_toLex.mpr (.inl (by decide))
    · exact le_refl _
  obtain rfl : new = some 3 := (greatest 3).mpr ⟨_, best, rfl⟩
  exact ⟨selected _ (.refl _), selected _ (.swap ..)⟩

end Quagga.Bgpd
