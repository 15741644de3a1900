import Mathlib.Algebra.BigOperators.Field
import Mathlib.Algebra.BigOperators.Fin
import Quagga.Library.FloorAverage
import Quagga.Bgpd.Rib
import Quagga.Bgpd.VotingNode

/-!
# Trust as an average

`bgp_trust_receive` replaces the observed trust in the sender's AS by nine parts of it and one part
of the reported number, rounded down. No product or sum is cut off, so each entry is a running
average of the reports of its AS (`observed_trust_averages`). Under a constant report it settles
within a hundred messages, from below nine short of the report (`observed_trust_settles`).

A vote is the sum of the observed and the initial trust in an AS, in a word of two bytes. The sum
fits as long as no report is above `65544` less the initial trust, and it does not for every sequence
of greater reports (`vote_exact_iff`). Without rounding, the voted trust of `bgp_info_cmp` is a mean
of the votes, weighted by the initial trust (`voted_trust_mean`).
-/

set_option autoImplicit false

namespace Quagga.Bgpd

open Lib Library

/-! ## Reports -/

/-- A `TRUST` message of the AS that has the given entry in the tables. -/
structure TrustReport where
  entry : Fin 10
  report : UInt16

variable (files : Files)

/-- `bgp_trust_receive`. -/
def bgpTrustReceive (message : TrustReport) : Except Fault Files :=
  applyMessage (message.entry + 1) files (.trust message.report)

/-- Receive several reports. -/
def trustReceives (messages : List TrustReport) : Except Fault Files :=
  messages.foldlM bgpTrustReceive files

/-- The files of a daemon with these observed values. -/
def Files.observing (myAS : Nat) (observed : Words) : Files :=
  { files with myAS := some myAS, obsTrust := some (printWords observed) }

/-- The numbers that one AS has reported. -/
def reportsOf (i : Fin 10) (messages : List TrustReport) : List Nat :=
  (messages.filter fun message => message.entry = i).map fun message => message.report.toNat

/-- The observed values after the reports. -/
def averaged (observed : Words) (messages : List TrustReport) : Words := fun i =>
  UInt16.ofNat ((reportsOf i messages).foldl (blend 9) (observed i).toNat)

variable {observed : Words} {messages : List TrustReport} {i : Fin 10} (files : Files) (myAS : Nat)

/-- **No product or sum is cut off.** -/
theorem blendTrust_toNat (observed report : UInt16) :
    (blendTrust observed report).toNat = blend 9 observed.toNat report.toNat := by
  have observed_lt := observed.toNat_lt
  have report_lt := report.toNat_lt
  have fits : blend 9 observed.toNat report.toNat ≤ 65535 := blend_le (by omega) (by omega)
  exact UInt16.toNat_ofNat_of_lt' (Nat.lt_succ_of_le fits)

theorem averaged_toNat :
    (averaged observed messages i).toNat =
      (reportsOf i messages).foldl (blend 9) (observed i).toNat := by
  have start := (observed i).toNat_lt
  have fits : (reportsOf i messages).foldl (blend 9) (observed i).toNat ≤ 65535 := by
    refine foldl_blend_le (by omega) ?_
    simp only [reportsOf, List.mem_map]
    rintro _ ⟨message, -, rfl⟩
    have report_lt := message.report.toNat_lt
    omega
  exact UInt16.toNat_ofNat_of_lt' (Nat.lt_succ_of_le fits)

theorem inTables_succ (i : Fin 10) : InTables (i + 1) := ⟨Nat.le_add_left _ _, i.isLt⟩

theorem slot_succ (i : Fin 10) : slot (i + 1) = i :=
  Fin.ext (Nat.mod_eq_of_lt i.isLt)

theorem bgpTrustReceive_eq (message : TrustReport) :
    bgpTrustReceive (files.observing myAS observed) message =
      .ok (files.observing myAS (Function.update observed message.entry
        (blendTrust (observed message.entry) message.report))) := by
  have index := tableIndex_ok (inTables_succ message.entry)
  rw [slot_succ] at index
  simp only [bgpTrustReceive, applyMessage, Files.observing, openTable, ok_bind, index,
    scanTable_printWords]
  rfl

/-- **What the messages leave is the averages.** -/
theorem trustReceives_eq :
    trustReceives (files.observing myAS observed) messages =
      .ok (files.observing myAS (averaged observed messages)) := by
  induction messages generalizing observed with
  | nil =>
    have same : averaged observed [] = observed := by
      funext i
      simp [averaged, reportsOf]
    rw [same]
    rfl
  | cons message later ih =>
    have next : averaged (Function.update observed message.entry
        (blendTrust (observed message.entry) message.report)) later =
        averaged observed (message :: later) := by
      funext i
      rw [← UInt16.toNat_inj, averaged_toNat, averaged_toNat, reportsOf, reportsOf]
      by_cases own : message.entry = i
      · subst own
        rw [Function.update_self, List.filter_cons_of_pos (by simp), List.map_cons,
          List.foldl_cons, blendTrust_toNat]
      · rw [Function.update_of_ne (Ne.symm own), List.filter_cons_of_neg (by simpa using own)]
    rw [trustReceives, List.foldlM_cons, bgpTrustReceive_eq, ← next]
    exact ih

/-! ## Averages -/

/-- The messages come from the same ASes, and none of the first reports more. -/
def Below (messages messages' : List TrustReport) : Prop :=
  List.Forall₂ (fun m m' => m.entry = m'.entry ∧ m.report ≤ m'.report) messages messages'

theorem Below.reportsOf {messages' : List TrustReport} (below : Below messages messages')
    (i : Fin 10) : List.Forall₂ (· ≤ ·) (reportsOf i messages) (reportsOf i messages') := by
  induction below with
  | nil => exact .nil
  | @cons message message' _ _ first _ ih =>
    rw [Bgpd.reportsOf, Bgpd.reportsOf, List.filter_cons, List.filter_cons, first.1]
    split_ifs
    · exact .cons first.2 ih
    · exact ih

/-- **Observed trust is a running average of the reports of an AS: exact, between the bounds of its
initial value and the reports, untouched by other ASes, and monotone.** -/
theorem observed_trust_averages (observed : Words) (messages : List TrustReport) :
    ∃ result, trustReceives (files.observing myAS observed) messages =
        .ok (files.observing myAS result) ∧
      (∀ i, (result i).toNat = (reportsOf i messages).foldl (fun obs r => (obs * 9 + r) / 10)
        (observed i).toNat) ∧
      (∀ i low high, (∀ v ∈ (observed i).toNat :: reportsOf i messages, low ≤ v ∧ v ≤ high) →
        low ≤ (result i).toNat ∧ (result i).toNat ≤ high) ∧
      (∀ i, (∀ message ∈ messages, message.entry ≠ i) → result i = observed i) ∧
      ∀ observed' messages', (∀ i, observed i ≤ observed' i) → Below messages messages' →
        ∃ result', trustReceives (files.observing myAS observed') messages' =
            .ok (files.observing myAS result') ∧ ∀ i, result i ≤ result' i := by
  refine ⟨averaged observed messages, trustReceives_eq files myAS, fun _ => averaged_toNat,
    fun i low high between => ?_, fun i others => ?_, fun observed' messages' le below =>
    ⟨averaged observed' messages', trustReceives_eq files myAS, fun i => ?_⟩⟩
  · obtain ⟨first, reports⟩ := List.forall_mem_cons.mp between
    rw [averaged_toNat]
    exact ⟨le_foldl_blend first.1 fun r mem => (reports r mem).1,
      foldl_blend_le first.2 fun r mem => (reports r mem).2.trans (Nat.le_add_right _ _)⟩
  · have none : messages.filter (fun message => message.entry = i) = [] := by
      simpa using others
    rw [averaged, reportsOf, none]
    simp
  · rw [UInt16.le_iff_toNat_le, averaged_toNat, averaged_toNat]
    exact foldl_blend_mono (below.reportsOf i) (UInt16.le_iff_toNat_le.mp (le i))

/-! ## A constant report -/

theorem reportsOf_replicate (n : Nat) (i : Fin 10) (report : UInt16) :
    reportsOf i (List.replicate n ⟨i, report⟩) = List.replicate n report.toNat := by
  simp [reportsOf]

theorem foldl_replicate {α β : Type} (f : β → α → β) (a : α) (n : Nat) (b : β) :
    (List.replicate n a).foldl f b = (f · a)^[n] b := by
  induction n generalizing b with
  | zero => rfl
  | succ n ih => exact ih (f b a)

/-- The value at which an average settles. -/
def settled (observed report : Nat) : Nat :=
  if report < observed then report else if observed + 9 < report then report - 9 else observed

/-- A hundred steps are enough for words of two bytes. -/
theorem iterate_blend_settled {observed report : Nat} (observed_lt : observed < 65536)
    (report_lt : report < 65536) (n : Nat) :
    (blend 9 · report)^[100 + n] observed = settled observed report := by
  rw [settled, Nat.add_comm]
  split_ifs with above below
  · have fallen : (fall 9)^[100] 65535 = 0 := by decide +kernel
    have distance := (fall_monotone (w := 9)).iterate 100 (show observed - report ≤ 65535 by omega)
    rw [fallen, Nat.le_zero] at distance
    have stays : (fall 9)^[n] 0 = 0 := Function.iterate_fixed rfl n
    have start : observed = report + (observed - report) := by omega
    rw [start, iterate_blend_above, Function.iterate_add_apply, distance, stays, Nat.add_zero]
  · have risen : (rise 9)^[100] 65535 = 9 := by decide +kernel
    have le := (rise_monotone (w := 9)).iterate 100 (show report - observed ≤ 65535 by omega)
    have ge := (rise_monotone (w := 9)).iterate 100 (show 9 ≤ report - observed by omega)
    rw [risen] at le
    rw [iterate_rise_small (Nat.le_refl 9)] at ge
    have distance := Nat.le_antisymm le ge
    have start : observed = report - (report - observed) := by omega
    rw [start, iterate_blend_below _ (Nat.sub_le _ _), Function.iterate_add_apply, distance,
      iterate_rise_small (Nat.le_refl 9)]
  · have start : observed = report - (report - observed) := by omega
    rw [start, iterate_blend_below _ (Nat.sub_le _ _), iterate_rise_small (by omega)]

theorem averaged_settled (observed : Words) (i : Fin 10) (report : UInt16) (n : Nat) :
    (averaged observed (List.replicate (100 + n) ⟨i, report⟩) i).toNat =
      settled (observed i).toNat report.toNat := by
  rw [averaged_toNat, reportsOf_replicate, foldl_replicate]
  exact iterate_blend_settled (observed i).toNat_lt report.toNat_lt n

/-- **Under a constant report the observed trust settles within a hundred messages: at the report
from above, nine short of it from below, and where it was in between.** -/
theorem observed_trust_settles (observed : Words) (i : Fin 10) (report : UInt16) (n : Nat) :
    ∃ result, trustReceives (files.observing myAS observed)
        (List.replicate (100 + n) ⟨i, report⟩) = .ok (files.observing myAS result) ∧
      (result i).toNat =
        if report.toNat < (observed i).toNat then report.toNat
        else if (observed i).toNat + 9 < report.toNat then report.toNat - 9
        else (observed i).toNat :=
  ⟨_, trustReceives_eq files myAS, averaged_settled observed i report n⟩

/-! ## Votes -/

/-- The trust files that `bgp_process_main` makes for the AS with the given entry. -/
def Files.initial (bgp : Bgp) (own : Fin 10) : Files :=
  makeTrustFiles { bgp with as := own + 1 }
    { files with myAS := none, inTrust := none, obsTrust := none }

/-- The vote that is sent to the peer is the sum of the numbers in the files. -/
def VoteExact (peer : Peer) : Prop :=
  ∃ obsTrust inTrust code, files.obsTrust = some obsTrust ∧ files.inTrust = some inTrust ∧
    bgpVotingVoteResponseSend peer files = .ok (.queued peer (.voting (.voteResponse code))) ∧
    code.toNat = obsTrust (slot peer.as) + inTrust (slot peer.as)

/-- The initial value for a neighbour. -/
def initialTrust (own i : Fin 10) : Nat := (inTrustNumbers (own + 1)).getD i 0

theorem initialTrust_le (own i : Fin 10) : initialTrust own i ≤ 90 := by
  revert own i
  decide

theorem initialTrust_pos (own i : Fin 10) : 0 < (UInt16.ofNat (initialTrust own i)).toNat := by
  revert own i
  decide

theorem initial_eq (bgp : Bgp) (own : Fin 10) :
    files.initial bgp own =
      Files.observing { files with inTrust := some (initialTrust own) } (own + 1) fun _ => 50 := rfl

theorem voteExact_iff (myAS : Nat) (own i : Fin 10) (peer : Peer)
    (observed : Words) :
    VoteExact (Files.observing { files with inTrust := some (initialTrust own) } myAS observed)
      { peer with as := i + 1 } ↔ (observed i).toNat + initialTrust own i < 65536 := by
  have index := tableIndex_ok (inTables_succ i)
  have small := initialTrust_le own i
  have trusted : (UInt16.ofNat (initialTrust own i)).toNat = initialTrust own i :=
    UInt16.toNat_ofNat_of_lt' (Nat.lt_of_le_of_lt small (by decide))
  have sum : (observed i + UInt16.ofNat (initialTrust own i)).toNat =
      (observed i).toNat + initialTrust own i ↔ (observed i).toNat + initialTrust own i < 65536 := by
    rw [UInt16.toNat_add]
    omega
  simp only [VoteExact, bgpVotingVoteResponseSend, Files.observing, openTable, ok_bind, index,
    scanTable_printWords]
  rw [scanTable_apply, slot_succ, ← sum]
  constructor
  · rintro ⟨_, _, code, ⟨⟩, ⟨⟩, ⟨⟩, exact⟩
    exact exact
  · exact fun fits => ⟨_, _, _, rfl, rfl, rfl, fits⟩

/-- **The votes for a peer are exact, whatever it reports up to a number, if and only if that number
and the initial trust in its AS together are at most `65544`.** -/
theorem vote_exact_iff (bgp : Bgp) (own i : Fin 10) (peer : Peer) (most : UInt16) :
    (∀ messages : List TrustReport, (∀ m ∈ messages, m.entry = i → m.report ≤ most) →
      ∃ after, trustReceives (files.initial bgp own) messages = .ok after ∧
        VoteExact after { peer with as := i + 1 }) ↔
      most.toNat + (inTrustNumbers (own + 1)).getD i 0 ≤ 65544 := by
  have small := initialTrust_le own i
  change _ ↔ most.toNat + initialTrust own i ≤ 65544
  simp only [initial_eq, trustReceives_eq, Except.ok.injEq, exists_eq_left', voteExact_iff]
  constructor
  · -- the greatest report, over and over, is the worst that can happen
    intro fits
    have worst := fits (List.replicate (100 + 0) ⟨i, most⟩)
      fun m mem _ => (List.eq_of_mem_replicate mem) ▸ UInt16.le_refl most
    rw [averaged_settled, settled] at worst
    split_ifs at worst <;> omega
  · intro most_le messages reported
    have bounded : (averaged (fun _ => 50) messages i).toNat ≤ max 50 (most.toNat - 9) := by
      rw [averaged_toNat]
      refine foldl_blend_le (Nat.le_max_left _ _) fun r mem => ?_
      simp only [reportsOf, List.mem_map, List.mem_filter] at mem
      obtain ⟨message, ⟨mem, own⟩, rfl⟩ := mem
      have le := UInt16.le_iff_toNat_le.mp (reported message mem (of_decide_eq_true own))
      omega
    omega

/-- A peer of AS 2 that reports `65535` a hundred times does not get `65526 + 40` as its vote. -/
theorem vote_wraps : ∃ after,
    trustReceives (startedFiles.initial plainBgp 0) (List.replicate 100 ⟨1, 65535⟩) = .ok after ∧
      ¬ VoteExact after (neighbourOf 2 2) := by
  have settles := averaged_settled (fun _ => 50) 1 65535 0
  have peer : neighbourOf 2 2 = { neighbourOf 2 2 with as := (1 : Fin 10) + 1 } := rfl
  rw [initial_eq]
  refine ⟨_, trustReceives_eq _ _, ?_⟩
  rw [peer, voteExact_iff, settles]
  decide

/-! ## The voted trust -/

/-- The arithmetic without rounding. -/
def Arithmetic.exact : Arithmetic ℚ where
  ofNat n := n
  add a b := a + b
  mul a b := a * b
  div a b := a / b

/-- The sum of the trust in the ASes whose votes count, without rounding. -/
def sumTrustsExact (bgp : Bgp) : Words → Words → ℚ := sumTrustsIn bgp .exact

/-- The voted trust without rounding. -/
def votedTrustExact (bgp : Bgp) : Words → Words → ℚ := votedTrustIn bgp .exact

/-- What the vote of an AS weighs. -/
def share (bgp : Bgp) (inTrusts votes : Words) (i : Fin 10) : ℚ :=
  if counts bgp votes i then (inTrusts i).toNat / sumTrustsExact bgp inTrusts votes else 0

variable {bgp : Bgp} {inTrusts votes votes' : Words}

theorem sumCounted_exact (term : Fin 10 → ℚ) :
    sumCounted bgp .exact votes term = ∑ i, if counts bgp votes i then term i else 0 := by
  have folded (list : List (Fin 10)) (sum : ℚ) :
      list.foldl (fun sum i => if counts bgp votes i then sum + term i else sum) sum =
        sum + (list.map fun i => if counts bgp votes i then term i else 0).sum := by
    induction list generalizing sum with
    | nil => exact (add_zero sum).symm
    | cons i list ih =>
      rw [List.foldl_cons, ih, List.map_cons, List.sum_cons]
      split_ifs
      · exact add_assoc ..
      · rw [zero_add]
  have zero : Arithmetic.exact.ofNat 0 = 0 := Nat.cast_zero
  rw [Fin.sum_univ_def]
  refine (folded _ _).trans ?_
  rw [zero, zero_add]

theorem sumTrustsExact_eq : sumTrustsExact bgp inTrusts votes =
    ∑ i, if counts bgp votes i then ((inTrusts i).toNat : ℚ) else 0 := by
  rw [sumTrustsExact, sumTrustsIn, sumCounted_exact]
  simp only [Arithmetic.exact]

theorem votedTrustExact_eq : votedTrustExact bgp inTrusts votes =
    ∑ i, (votes i).toNat * share bgp inTrusts votes i := by
  rw [votedTrustExact, votedTrustIn, sumCounted_exact]
  simp only [share, sumTrustsExact, Arithmetic.exact, mul_ite, mul_zero]

theorem share_nonneg (i : Fin 10) : 0 ≤ share bgp inTrusts votes i := by
  have sum : 0 ≤ sumTrustsExact bgp inTrusts votes := by
    rw [sumTrustsExact_eq]
    exact Finset.sum_nonneg fun i _ => by split_ifs <;> simp
  unfold share
  split_ifs
  · exact div_nonneg (Nat.cast_nonneg _) sum
  · exact le_refl 0

theorem share_congr (same : ∀ i, counts bgp votes' i = counts bgp votes i) :
    share bgp inTrusts votes' = share bgp inTrusts votes := by
  funext i
  simp only [share, sumTrustsExact_eq, same]

/-- Numbers for the ASes, weighted in two ways that differ where votes do not count. -/
theorem sum_mul_share_le {f g : Fin 10 → ℚ} (le : ∀ i, counts bgp votes i = true → f i ≤ g i) :
    ∑ i, f i * share bgp inTrusts votes i ≤ ∑ i, g i * share bgp inTrusts votes i := by
  refine Finset.sum_le_sum fun i _ => ?_
  by_cases counted : counts bgp votes i = true
  · exact mul_le_mul_of_nonneg_right (le i counted) (share_nonneg i)
  · simp [share, counted]

/-- The weights of the votes that count add up to one. -/
theorem sum_mul_share (positive : sumTrustsExact bgp inTrusts votes ≠ 0) (value : ℚ) :
    ∑ i, value * share bgp inTrusts votes i = value := by
  have total : ∑ i, share bgp inTrusts votes i = 1 := by
    rw [← div_self positive]
    nth_rewrite 1 [sumTrustsExact_eq]
    rw [Finset.sum_div]
    refine Finset.sum_congr rfl fun i _ => ?_
    unfold share
    split_ifs <;> simp
  rw [← Finset.mul_sum, total, mul_one]

theorem counts_iff {own i : Fin 10} :
    counts { bgp with as := own + 1 } votes i = true ↔ votes i ≠ 0 ∧ i ≠ own := by
  rw [counts, decide_eq_true_iff, asIndex_eq (inTables_succ own), Nat.add_sub_cancel, ne_eq (i : Nat),
    ← Fin.ext_iff]

/-- **The voted trust is a weighted mean of the votes that count.** -/
theorem voted_trust_mean (bgp : Bgp) (own : Fin 10) :
    ∃ inTrust, (files.initial bgp own).inTrust = some inTrust ∧ ∀ votes : Words,
      let voted := votedTrustExact { bgp with as := own + 1 } (scanTable inTrust)
      ((∃ i, votes i ≠ 0 ∧ i ≠ own) →
        sumTrustsExact { bgp with as := own + 1 } (scanTable inTrust) votes ≠ 0 ∧
        ∀ low high : ℚ, (∀ i, votes i ≠ 0 ∧ i ≠ own → low ≤ (votes i).toNat ∧
          (votes i).toNat ≤ high) → low ≤ voted votes ∧ voted votes ≤ high) ∧
      ((∀ i, ¬ (votes i ≠ 0 ∧ i ≠ own)) → voted votes = 0) ∧
      (∀ vote, voted (Function.update votes own vote) = voted votes) ∧
      ∀ votes' : Words, (∀ i, votes' i ≠ 0 ∧ i ≠ own ↔ votes i ≠ 0 ∧ i ≠ own) →
        (∀ i, votes i ≠ 0 ∧ i ≠ own → votes i ≤ votes' i) → voted votes ≤ voted votes' := by
  refine ⟨initialTrust own, rfl, fun votes => ?_⟩
  simp only [votedTrustExact_eq, ← @counts_iff bgp _ own]
  refine ⟨fun ⟨i, counted⟩ => ?_, fun none => ?_, fun vote => ?_, fun votes' same le => ?_⟩
  · have positive : sumTrustsExact { bgp with as := own + 1 } (scanTable (initialTrust own)) votes ≠
        0 := by
      rw [sumTrustsExact_eq]
      refine (Finset.sum_pos' (fun j _ => by split_ifs <;> simp) ⟨i, Finset.mem_univ i, ?_⟩).ne'
      rw [if_pos counted, scanTable_apply, Nat.cast_pos]
      exact initialTrust_pos own i
    refine ⟨positive, fun low high between => ⟨?_, ?_⟩⟩
    · rw [← sum_mul_share positive low]
      exact sum_mul_share_le fun j counted => (between j counted).1
    · rw [← sum_mul_share positive high]
      exact sum_mul_share_le fun j counted => (between j counted).2
  · refine Finset.sum_eq_zero fun i _ => ?_
    rw [share, if_neg (none i), mul_zero]
  · have others : ∀ i, counts { bgp with as := own + 1 } votes i = true →
        Function.update votes own vote i = votes i :=
      fun i counted => Function.update_of_ne (counts_iff.mp counted).2 _ _
    rw [share_congr fun i => ?_]
    · exact le_antisymm (sum_mul_share_le fun i counted => by rw [others i counted])
        (sum_mul_share_le fun i counted => by rw [others i counted])
    · rw [Bool.eq_iff_iff, counts_iff, counts_iff]
      refine and_congr_left fun other => ?_
      rw [Function.update_of_ne other]
  · rw [share_congr fun i => Bool.eq_iff_iff.mpr (same i)]
    refine sum_mul_share_le fun i counted => ?_
    exact Nat.cast_le.mpr (UInt16.le_iff_toNat_le.mp (le i counted))

end Quagga.Bgpd
