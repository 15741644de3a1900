import Quagga.Bgpd.BestSelection

/-!
# Best path selection with voting results

When two ASes have a voting result, their routes are compared by scores; a pair in which one
AS has none is compared by trust. The two scales are mixed in one list, so three routes can
be preferred in a circle. Moreover the score comparison keeps the incumbent on equal scores,
whatever the attributes are, so of two routes with equal scores the first one in the list
stays.

The order of the list is irrelevant exactly when some eligible route is ahead of every other
one (`orderIndependent_iff`), where being ahead means to win the comparison from both sides
(`ahead_iff`).
-/

set_option autoImplicit false

namespace Quagga.Bgpd

open Lib Library

/-- The returned route is the same for every order of the list, and no other eligible route
of the list is preferable to it. -/
def OrderIndependent (files : Files) (bgp : Bgp) (rn : List BgpInfo) : Prop :=
  ∃ new : Option Nat,
    (∀ order, rn.Perm order →
      ∃ rn' old, bgpBestSelection files bgp order = .ok (rn', ⟨old, new⟩)) ∧
    ∀ ri ∈ rn, new = some ri.ptr → ∀ other ∈ rn, other.Eligible → other.ptr ≠ ri.ptr →
      bgpInfoCmp files bgp (some other) (some ri) = .ok false

/-- One learned route is ahead of another one. When both ASes have a voting result, its score
is greater, or a score is not a number and its attributes are better; otherwise its trust is
greater, or equal with better attributes. -/
def Ahead (files : Files) (bgp : Bgp) (inTrust obsTrust : Table) (first second : BgpInfo) : Prop :=
  match files.voteresult first.peer.as, files.voteresult second.peer.as with
  | some votes, some votes' =>
    let score := votedScore bgp inTrust obsTrust votes first.peer.as
    let score' := votedScore bgp inTrust obsTrust votes' second.peer.as
    score'.lt score = true ∨
      ((score = .nan ∨ score' = .nan) ∧ attributeKey bgp second < attributeKey bgp first)
  | _, _ => decisionKey bgp inTrust obsTrust second < decisionKey bgp inTrust obsTrust first

section Voted

variable {files : Files} {bgp : Bgp} {inTrust obsTrust : Table}

/-- A chain that a score comparison leaves undecided has a score that is not a number. -/
theorem scoreStep_getD_pair {score score' : Binary32} {rest rest' : Bool} :
    ((scoreStep score' score).getD rest = true ∧ (scoreStep score score').getD rest' = false) ↔
      (score'.lt score = true ∨
        ((score = .nan ∨ score' = .nan) ∧ rest = true ∧ rest' = false)) := by
  by_cases number : score = .nan
  · subst number
    simp [scoreStep]
  · by_cases number' : score' = .nan
    · subst number'
      simp [scoreStep]
    · simp only [scoreStep, Binary32.le_eq_not_lt number number',
        Binary32.le_eq_not_lt number' number, number, number']
      cases greater : score'.lt score with
      | true => simp [Binary32.lt_asymm greater]
      | false => simp

theorem decide_le_pair {κ : Type} [LinearOrder κ] {first second : κ} :
    (decide (second ≤ first) = true ∧ decide (first ≤ second) = false) ↔ second < first := by
  rw [decide_eq_true_eq, decide_eq_false_iff_not, lt_iff_le_not_ge]

/-- **A route is ahead of another one exactly when it wins both comparisons with it.** -/
theorem ahead_iff (ordered : bgp.KeyOrdered) {first second : BgpInfo} (learned : first.Learned)
    (learned' : second.Learned) :
    Ahead files bgp inTrust obsTrust first second ↔
      prefersNew files bgp inTrust obsTrust first second = true ∧
        prefersNew files bgp inTrust obsTrust second first = false := by
  cases voted : files.voteresult first.peer.as with
  | none =>
    rw [prefersNew_eq_decisionKey ordered learned learned' (.inr voted),
      prefersNew_eq_decisionKey ordered learned' learned (.inl voted), decide_le_pair]
    simp only [Ahead, voted]
  | some votes =>
    cases voted' : files.voteresult second.peer.as with
    | none =>
      rw [prefersNew_eq_decisionKey ordered learned learned' (.inl voted'),
        prefersNew_eq_decisionKey ordered learned' learned (.inr voted'), decide_le_pair]
      simp only [Ahead, voted, voted']
    | some votes' =>
      simp only [Ahead, prefersNew, voted, voted', scoreStep_getD_pair,
        attributeSteps_eq ordered learned learned', attributeSteps_eq ordered learned' learned,
        decide_le_pair]

/-- An order of the eligible routes extends to an order of the whole list. -/
theorem exists_order_of_eligible {rn others : List BgpInfo}
    (perm : (rn.filter (BgpInfo.Eligible ·)).Perm others) :
    ∃ order, rn.Perm order ∧ order.filter (BgpInfo.Eligible ·) = others := by
  refine ⟨others ++ rn.filter fun ri => !decide ri.Eligible, ?_, ?_⟩
  · exact (List.filter_append_perm _ rn).symm.trans (perm.append_right _)
  · have kept : others.filter (BgpInfo.Eligible ·) = others := by
      rw [List.filter_eq_self]
      intro ri member
      exact decide_eq_true (mem_eligible.mp (perm.mem_iff.mpr member)).2
    rw [List.filter_append, kept]
    simp

/-- An order-independent choice among eligible routes is a strict winner. -/
theorem OrderIndependent.strictWinner (ordered : bgp.KeyOrdered)
    (trust : files.Trust inTrust obsTrust) {rn : List BgpInfo} (learned : ∀ ri ∈ rn, ri.Learned)
    (ptrs : (rn.map BgpInfo.ptr).Nodup) (independent : OrderIndependent files bgp rn)
    (some' : ¬ ∀ ri ∈ rn, ri.holddown = true) :
    ∃ winner, StrictWinner (prefersNew files bgp inTrust obsTrust)
      (rn.filter (BgpInfo.Eligible ·)) winner := by
  obtain ⟨new, selected, unbeaten⟩ := independent
  -- Every order selects a route at the address `new`.
  have selects : ∀ others, (rn.filter (BgpInfo.Eligible ·)).Perm others →
      (select (prefersNew files bgp inTrust obsTrust) others).map BgpInfo.ptr = new := by
    intro others perm
    obtain ⟨order, orderPerm, rfl⟩ := exists_order_of_eligible perm
    obtain ⟨_, _, returned⟩ := selected order orderPerm
    obtain ⟨_, _, returned'⟩ := bgpBestSelection_select ordered trust
      fun ri member => learned ri (orderPerm.mem_iff.mpr member)
    rw [returned] at returned'
    simp only [Except.ok.injEq, Prod.mk.injEq, BgpInfoPair.mk.injEq] at returned'
    exact returned'.2.2.symm
  obtain ⟨_, anyBest⟩ := exists_greatest bgp inTrust obsTrust some'
  obtain ⟨winner, winnerMem, first⟩ := exists_select (prefersNew files bgp inTrust obsTrust)
    (List.ne_nil_of_mem (mem_eligible.mpr ⟨anyBest.mem, anyBest.eligible⟩))
  have atNew : new = some winner.ptr := by
    rw [← selects _ (.refl _), first]
    rfl
  obtain ⟨winnerIn, winnerEligible⟩ := mem_eligible.mp winnerMem
  refine ⟨winner, strictWinner_of_stable ((ptrs.of_map _).filter _) ?_ ?_⟩
  · intro others perm
    obtain ⟨chosen, same, samePtr⟩ := Option.map_eq_some_iff.mp ((selects others perm).trans atNew)
    have chosenMem := (mem_eligible.mp (perm.mem_iff.mpr (select_mem same))).1
    rw [same, List.inj_on_of_nodup_map ptrs chosenMem winnerIn samePtr]
  · intro other otherMem different
    obtain ⟨otherIn, otherEligible⟩ := mem_eligible.mp otherMem
    have lost := unbeaten winner winnerIn atNew other otherIn otherEligible
      fun samePtr => different (List.inj_on_of_nodup_map ptrs otherIn winnerIn samePtr)
    rw [bgpInfoCmp_eq_prefersNew trust (learned other otherIn).configured.inTables
      (learned winner winnerIn).configured.inTables] at lost
    exact Except.ok.inj lost

theorem strictWinner_of_ahead (ordered : bgp.KeyOrdered) {rn : List BgpInfo}
    (learned : ∀ ri ∈ rn, ri.Learned) (ptrs : (rn.map BgpInfo.ptr).Nodup) {winner : BgpInfo}
    (winnerIn : winner ∈ rn) (winnerEligible : winner.Eligible)
    (ahead : ∀ other ∈ rn, other.Eligible → other.ptr ≠ winner.ptr →
      Ahead files bgp inTrust obsTrust winner other) :
    StrictWinner (prefersNew files bgp inTrust obsTrust) (rn.filter (BgpInfo.Eligible ·))
      winner := by
  have wins : ∀ other ∈ rn.filter (BgpInfo.Eligible ·), other ≠ winner →
      prefersNew files bgp inTrust obsTrust winner other = true ∧
        prefersNew files bgp inTrust obsTrust other winner = false := by
    intro other member different
    obtain ⟨otherIn, eligible⟩ := mem_eligible.mp member
    have differentPtr : other.ptr ≠ winner.ptr :=
      fun samePtr => different (List.inj_on_of_nodup_map ptrs otherIn winnerIn samePtr)
    exact (ahead_iff ordered (learned winner winnerIn) (learned other otherIn)).mp
      (ahead other otherIn eligible differentPtr)
  exact ⟨mem_eligible.mpr ⟨winnerIn, winnerEligible⟩,
    fun other member different => (wins other member different).1,
    fun other member different => (wins other member different).2⟩

/-- **The choice does not depend on the order of the list exactly when no route is eligible,
or some eligible route is ahead of every other one.** -/
theorem orderIndependent_iff (ordered : bgp.KeyOrdered) (trust : files.Trust inTrust obsTrust)
    {rn : List BgpInfo} (learned : ∀ ri ∈ rn, ri.Learned) (ptrs : (rn.map BgpInfo.ptr).Nodup) :
    OrderIndependent files bgp rn ↔
      (∀ ri ∈ rn, ri.holddown = true) ∨
        ∃ winner ∈ rn, winner.Eligible ∧ ∀ other ∈ rn, other.Eligible →
          other.ptr ≠ winner.ptr → Ahead files bgp inTrust obsTrust winner other := by
  constructor
  · intro independent
    by_cases held : ∀ ri ∈ rn, ri.holddown = true
    · exact .inl held
    · obtain ⟨winner, strict⟩ := independent.strictWinner ordered trust learned ptrs held
      obtain ⟨winnerIn, winnerEligible⟩ := mem_eligible.mp strict.mem
      refine .inr ⟨winner, winnerIn, winnerEligible, ?_⟩
      intro other otherIn otherEligible differentPtr
      have member := mem_eligible.mpr ⟨otherIn, otherEligible⟩
      have different : other ≠ winner := fun same => differentPtr (congrArg _ same)
      exact (ahead_iff ordered (learned winner winnerIn) (learned other otherIn)).mpr
        ⟨strict.beats other member different, strict.unbeaten other member different⟩
  · rintro (held | ⟨winner, winnerIn, winnerEligible, ahead⟩)
    · refine ⟨none, fun order perm => bgpBestSelection_of_holddown ordered trust learned held perm,
        ?_⟩
      intro ri _ absent
      cases absent
    · have strict := strictWinner_of_ahead ordered learned ptrs winnerIn winnerEligible ahead
      refine ⟨some winner.ptr,
        fun order perm => bgpBestSelection_of_strictWinner ordered trust learned strict perm, ?_⟩
      intro ri riIn atPtr other otherIn eligible different
      obtain rfl : winner = ri :=
        List.inj_on_of_nodup_map ptrs winnerIn riIn (Option.some.inj atPtr)
      have lost := strict.unbeaten other (mem_eligible.mpr ⟨otherIn, eligible⟩)
        fun same => different (congrArg _ same)
      rw [bgpInfoCmp_eq_prefersNew trust (learned other otherIn).configured.inTables
        (learned winner winnerIn).configured.inTables, lost]

end Voted

/-- Trust in AS 3 is greater than in AS 4, and there greater than in AS 2; AS 5 votes for AS 2
and AS 3, and AS 4 has no voting result. -/
def circleFiles : Files :=
  filesOf (fun i => [50, 50, 60, 55, 70, 50, 50, 50, 50, 50].getD i 0) fun as =>
    if as = 2 then some fun i => if i = slot 5 then 50 else 0
    else if as = 3 then some fun i => if i = slot 5 then 10 else 0
    else none

/-- The votes put AS 2 ahead of AS 3 although its trust is lower. -/
theorem orderIndependent_voted_pair :
    OrderIndependent circleFiles plainBgp [learnedRoute 2, learnedRoute 3] := by
  refine (orderIndependent_iff plainBgp_keyOrdered (filesOf_trust ..) (by decide)
    (by decide)).mpr (.inr ⟨learnedRoute 2, by simp, by decide, ?_⟩)
  intro other member _ different
  rcases List.mem_pair.mp member with rfl | rfl
  · exact absurd rfl different
  · exact .inl (by decide +kernel)

/-- AS 2 wins against AS 3 by votes, AS 3 against AS 4 by trust and AS 4 against AS 2 by trust:
the last one to meet its loser is returned. -/
theorem not_orderIndependent_circle :
    plainBgp.KeyOrdered ∧
      (∀ ri ∈ [learnedRoute 2, learnedRoute 3, learnedRoute 4], ri.Learned) ∧
      ([learnedRoute 2, learnedRoute 3, learnedRoute 4].map BgpInfo.ptr).Nodup ∧
      ¬ OrderIndependent circleFiles plainBgp
        [learnedRoute 2, learnedRoute 3, learnedRoute 4] := by
  refine ⟨plainBgp_keyOrdered, by decide, by decide, ?_⟩
  rintro ⟨new, selected, -⟩
  have forward : (bgpBestSelection circleFiles plainBgp
      [learnedRoute 2, learnedRoute 3, learnedRoute 4]).toOption.map (·.2.new) =
        some (some 4) := by decide +kernel
  have backward : (bgpBestSelection circleFiles plainBgp
      [learnedRoute 4, learnedRoute 3, learnedRoute 2]).toOption.map (·.2.new) =
        some (some 2) := by decide +kernel
  obtain ⟨_, _, returned⟩ := selected _ (.refl _)
  obtain ⟨_, _, returned'⟩ := selected _
    (List.reverse_perm [learnedRoute 2, learnedRoute 3, learnedRoute 4]).symm
  rw [returned] at forward
  rw [show [learnedRoute 2, learnedRoute 3, learnedRoute 4].reverse =
    [learnedRoute 4, learnedRoute 3, learnedRoute 2] from rfl] at returned'
  rw [returned'] at backward
  cases forward.symm.trans backward

end Quagga.Bgpd
