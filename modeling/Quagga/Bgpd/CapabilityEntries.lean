import Quagga.Bgpd.OpenReceive

/-!
# The entries of the restart and ORF capabilities

The graceful restart capability lists families of four bytes each. The loop over them goes on
while more than four bytes are left, so it never comes to the last one:
`bgpCapabilityRestart_complete_iff` says that the flags are those of the whole list exactly
when the last entry adds nothing to what the peer and the entries before it have.

An ORF entry of an unknown family is left without skipping its pairs, which are then taken for
the next entries. `bgpCapabilityOrf_entries` says that all entries are read as they stand when
such an entry has no pairs, or is the last one with too few of them to pass for an entry.
-/

set_option autoImplicit false

namespace Quagga.Bgpd

open Lib Library

/-! ## Graceful restart -/

/-- A family in a graceful-restart capability. -/
structure RestartEntry where
  afi : Nat
  safi : Nat
  flag : UInt8

/-- So many entries from an offset on. -/
def restartEntries (s : Stream) : Nat → Nat → List RestartEntry
  | _, 0 => []
  | pnt, k + 1 =>
    ⟨(word (s.byte pnt) (s.byte (pnt + 1))).toNat, (s.byte (pnt + 2)).toNat, s.byte (pnt + 3)⟩ ::
      restartEntries s (pnt + 4) k

namespace RestartEntry

/-- What reading an entry does. -/
def read (peer : OpenPeer) (entry : RestartEntry) : OpenPeer :=
  restartFamily entry.afi entry.safi entry.flag peer

/-- The entry names a configured family. -/
def lists (families : Families) (afi safi : Nat) (entry : RestartEntry) : Bool :=
  entry.afi = afi ∧ bgpAfiSafiValidIndices entry.afi entry.safi = some safi ∧
    families.afc afi safi

/-- The entry lists a configured family with the forwarding bit. -/
def preserves (families : Families) (afi safi : Nat) (entry : RestartEntry) : Bool :=
  entry.lists families afi safi && entry.flag.toNat ≥ 128

end RestartEntry

/-- The restart flags that a peer gets from a list of entries, with those that it had. -/
def RestartRead (entries : List RestartEntry) (peer peer' : OpenPeer) : Prop :=
  ∀ afi safi,
    (peer'.afCap afi safi).restartAfRcv =
        ((peer.afCap afi safi).restartAfRcv || entries.any (·.lists peer.families afi safi)) ∧
    (peer'.afCap afi safi).restartAfPreserveRcv =
        ((peer.afCap afi safi).restartAfPreserveRcv ||
          entries.any (·.preserves peer.families afi safi))

theorem RestartEntry.read_families (peer : OpenPeer) (entry : RestartEntry) :
    (entry.read peer).families = peer.families := by
  rw [read, restartFamily]
  split
  · rfl
  · split_ifs <;> rfl

theorem RestartEntry.read_flags (peer : OpenPeer) (entry : RestartEntry) :
    RestartRead [entry] peer (entry.read peer) := by
  intro afi safi
  rw [read, restartFamily]
  cases valid : bgpAfiSafiValidIndices entry.afi entry.safi with
  | none => simp [lists, preserves, valid]
  | some known =>
    dsimp only
    by_cases same : entry.afi = afi ∧ known = safi
    · obtain ⟨rfl, rfl⟩ := same
      split_ifs with configured <;>
        simp [OpenPeer.setAfCap, lists, preserves, valid, configured]
    · have other : entry.lists peer.families afi safi = false := by
        simp only [lists, valid, Option.some.injEq]
        exact decide_eq_false fun listed => same ⟨listed.1, listed.2.1⟩
      have elsewhere : ¬ (afi = entry.afi ∧ safi = known) :=
        fun here => same ⟨here.1.symm, here.2.symm⟩
      split_ifs <;> simp [OpenPeer.setAfCap, preserves, other, elsewhere]

/-- Entry by entry, the flags of the list are set. -/
theorem restartRead_foldl (entries : List RestartEntry) (peer : OpenPeer) :
    RestartRead entries peer (entries.foldl RestartEntry.read peer) := by
  induction entries generalizing peer with
  | nil => simp [RestartRead]
  | cons entry entries ih =>
    intro afi safi
    obtain ⟨listed, preserved⟩ := ih (entry.read peer) afi safi
    obtain ⟨first, first'⟩ := entry.read_flags peer afi safi
    rw [entry.read_families] at listed preserved
    simp_all [Bool.or_assoc]

/-- An entry adds nothing to those before it. -/
def RestartEntry.Covered (last : RestartEntry) (entries : List RestartEntry) (peer : OpenPeer) :
    Prop :=
  ∀ afi safi,
    (last.lists peer.families afi safi → (peer.afCap afi safi).restartAfRcv ∨
      entries.any (·.lists peer.families afi safi)) ∧
    (last.preserves peer.families afi safi → (peer.afCap afi safi).restartAfPreserveRcv ∨
      entries.any (·.preserves peer.families afi safi))

theorem RestartRead.concat_iff {entries : List RestartEntry} {last : RestartEntry}
    {peer peer' : OpenPeer} (read : RestartRead entries peer peer') :
    RestartRead (entries ++ [last]) peer peer' ↔ last.Covered entries peer := by
  refine forall₂_congr fun afi safi => ?_
  obtain ⟨listed, preserved⟩ := read afi safi
  grind

section

variable {s : Stream} (fits : s.endp ≤ s.size)

include fits in
/-- The loop reads all entries but the last one. -/
theorem capabilityRestartLoop_run (k : Nat) {pnt : Nat} {st : OptionState}
    (there : st.s = s.seek pnt) (inside : pnt + 4 * k ≤ s.endp) {capabilityEnd : Nat}
    (ends : pnt + 4 * k = capabilityEnd) :
    (capabilityRestartLoop capabilityEnd).run st = .ok (.again { st with
      s := s.seek (pnt + 4 * (k - 1))
      peer := (restartEntries s pnt k).dropLast.foldl RestartEntry.read st.peer }) := by
  induction k generalizing pnt st with
  | zero =>
    have done : (capabilityRestartLoop capabilityEnd).guard st = false := by
      simpa [capabilityRestartLoop, there] using by omega
    simp [Loop.run_of_done done, restartEntries, ← there]
  | succ k ih =>
    cases k with
    | zero =>
      have done : (capabilityRestartLoop capabilityEnd).guard st = false := by
        simpa [capabilityRestartLoop, there] using by omega
      simp [Loop.run_of_done done, restartEntries, ← there]
    | succ k =>
      have going : (capabilityRestartLoop capabilityEnd).guard st = true := by
        simpa [capabilityRestartLoop, there] using by omega
      have afi : pnt + 2 ≤ s.endp := by omega
      have safi : pnt + 2 + 1 ≤ s.endp := by omega
      have flag : pnt + 3 + 1 ≤ s.endp := by omega
      have next : pnt + 4 * (k + 1 + 1 - 1) = pnt + 4 + 4 * (k + 1 - 1) := by omega
      rw [Loop.run_of_guard going, next]
      simp only [capabilityRestartLoop, there, streamGetw_seek fits afi, ok_bind,
        streamGetc_seek fits safi, streamGetc_seek fits flag]
      exact ih rfl (by omega) (by omega)

end

section

variable (k : Nat) (st : OptionState) (fits : st.s.endp ≤ st.s.size)
  (inside : st.s.getp + (2 + 4 * k) ≤ st.s.endp)

include fits inside in
theorem bgpCapabilityRestart_read :
    ∃ st', bgpCapabilityRestart (2 + 4 * k) st = .ok (.again st') ∧
      RestartRead (restartEntries st.s (st.s.getp + 2) k).dropLast st.peer st'.peer := by
  have sane : st.s.Sane := ⟨by omega, fits⟩
  have start : st.s.advance 2 = st.s.seek (st.s.getp + 2) := rfl
  rw [bgpCapabilityRestart, streamGetw_ok sane (by omega)]
  exact ⟨_, capabilityRestartLoop_run fits k start (by omega) (Nat.add_assoc _ _ _),
    restartRead_foldl _ _⟩

include fits inside in
/-- **The flags of a graceful restart capability are those of all its entries exactly when the
last one adds nothing.** -/
theorem bgpCapabilityRestart_complete_iff :
    (∃ st', bgpCapabilityRestart (2 + 4 * k) st = .ok (.again st') ∧
        RestartRead (restartEntries st.s (st.s.getp + 2) k) st.peer st'.peer) ↔
      ∀ entries last, restartEntries st.s (st.s.getp + 2) k = entries ++ [last] →
        last.Covered entries st.peer := by
  obtain ⟨st', parsed, read⟩ := bgpCapabilityRestart_read k st fits inside
  have unique : (∃ st', bgpCapabilityRestart (2 + 4 * k) st = .ok (.again st') ∧
      RestartRead (restartEntries st.s (st.s.getp + 2) k) st.peer st'.peer) ↔
        RestartRead (restartEntries st.s (st.s.getp + 2) k) st.peer st'.peer := by
    simp [parsed]
  rw [unique]
  obtain none | ⟨entries, last, some⟩ :=
    (restartEntries st.s (st.s.getp + 2) k).eq_nil_or_concat
  · rw [none] at read ⊢
    simpa using read
  · rw [some] at read ⊢
    rw [List.concat_eq_append, List.dropLast_concat] at read
    simp [read.concat_iff]

end

/-- The parser at the data of a capability. -/
def dataState (data : List UInt8) : OptionState :=
  ⟨⟨0, data.length, data⟩, configuredPeer, [], true, []⟩

/-- A restart time and the families IPv4 unicast and IPv6 unicast. -/
def twoFamilies : List UInt8 := [0, 120, 0, 1, 1, 128, 0, 2, 1, 128]

/-- A restart time and the family IPv4 unicast. -/
def oneFamily : List UInt8 := [0, 120, 0, 1, 1, 128]

theorem bgpCapabilityRestart_complete_iff_twoFamilies :
    ((∃ st', bgpCapabilityRestart (2 + 4 * 2) (dataState twoFamilies) = .ok (.again st') ∧
        RestartRead (restartEntries (dataState twoFamilies).s 2 2) configuredPeer st'.peer) ↔
      ∀ entries last, restartEntries (dataState twoFamilies).s 2 2 = entries ++ [last] →
        last.Covered entries configuredPeer) :=
  bgpCapabilityRestart_complete_iff 2 (dataState twoFamilies) (by decide) (by decide)

/-- The only family of the list is configured, and is not noted. -/
theorem bgpCapabilityRestart_oneFamily :
    ¬ ∃ st', bgpCapabilityRestart (2 + 4 * 1) (dataState oneFamily) = .ok (.again st') ∧
      RestartRead (restartEntries (dataState oneFamily).s 2 1) configuredPeer st'.peer := by
  rintro ⟨st', parsed, read⟩
  obtain ⟨st'', parsed', read'⟩ :=
    bgpCapabilityRestart_read 1 (dataState oneFamily) (by decide) (by decide)
  obtain rfl : st'' = st' := by simpa [parsed] using parsed'.symm
  exact absurd ((read' afiIp safiUnicast).1.symm.trans (read afiIp safiUnicast).1) (by decide)

/-! ## Outbound route filters -/

/-- Entries that fill the bytes up to an offset. -/
def OrfEntries (s : Stream) (last : Nat) : Nat → List OrfEntry → Prop
  | pnt, [] => pnt = last
  | pnt, entry :: entries =>
    entry = orfEntryAt s pnt ∧ OrfEntries s last (pnt + 5 + entry.pairs.length * 2) entries

/-- The family of the entry is a known one. -/
def OrfEntry.Known (entry : OrfEntry) : Prop :=
  (bgpAfiSafiValidIndices entry.afi entry.safi).isSome

/-- No pair of an unknown family is taken for the start of an entry. -/
def OrfReadable : List OrfEntry → Prop
  | [] => True
  | [entry] => entry.Known ∨ entry.pairs.length ≤ 2
  | entry :: entries => (entry.Known ∨ entry.pairs = []) ∧ OrfReadable entries

@[simp] theorem length_orfPairsAt (s : Stream) (pnt n : Nat) : (orfPairsAt s pnt n).length = n := by
  induction n generalizing pnt with
  | zero => rfl
  | succ n ih => rw [orfPairsAt, List.length_cons, ih]

theorem OrfEntry.read_of_empty (code : UInt8) {entry : OrfEntry} (empty : entry.pairs = [])
    (peer : OpenPeer) : entry.read code peer = peer := by
  rw [OrfEntry.read, empty]
  split <;> rfl

section

variable {s : Stream} {last : Nat}

theorem OrfEntries.le {entries : List OrfEntry} {pnt : Nat} (filled : OrfEntries s last pnt entries) :
    pnt + 5 * entries.length ≤ last := by
  induction entries generalizing pnt with
  | nil => exact Nat.le_of_eq filled
  | cons entry entries ih =>
    have rest := ih filled.2
    rw [List.length_cons]
    omega

variable (fits : s.endp ≤ s.size) (inside : last ≤ s.endp) (code : UInt8) (length : Nat)

include fits inside in
/-- From one entry to the next: the header and, when the family is known, the pairs are read. -/
theorem bgpCapabilityOrfEntry_read {pnt : Nat} {st : OptionState} (there : st.s = s.seek pnt)
    (ends : pnt + 5 + (orfEntryAt s pnt).pairs.length * 2 ≤ last)
    (counted : 5 + (orfEntryAt s pnt).pairs.length * 2 ≤ length) :
    ∃ next, bgpCapabilityOrfEntry code length st =
        .ok (.again { st with s := s.seek next, peer := (orfEntryAt s pnt).read code st.peer }) ∧
      ((orfEntryAt s pnt).Known → next = pnt + 5 + (orfEntryAt s pnt).pairs.length * 2) ∧
      (¬ (orfEntryAt s pnt).Known → next = pnt + 5) := by
  have entry := bgpCapabilityOrfEntry_seek fits code length there (by omega)
  have pairs : (orfEntryAt s pnt).pairs.length = (s.byte (pnt + 4)).toNat := length_orfPairsAt _ _ _
  rw [pairs] at ends counted ⊢
  rw [orfEntryEnd] at entry
  rw [OrfEntry.Known]
  dsimp only [orfEntryAt]
  cases known : bgpAfiSafiValidIndices (word (s.byte pnt) (s.byte (pnt + 1))).toNat
      (s.byte (pnt + 3)).toNat with
  | none =>
    rw [known] at entry
    dsimp only at entry
    rw [if_pos (by omega)] at entry
    exact ⟨pnt + 5, entry, by simp, fun _ => rfl⟩
  | some safi =>
    rw [known] at entry
    rw [if_neg (by omega)] at entry
    dsimp only at entry
    rw [if_pos (by omega)] at entry
    exact ⟨_, entry, fun _ => rfl, fun unknown => absurd rfl unknown⟩

include fits inside in
/-- An entry and those that follow it. -/
theorem capabilityOrf_run {start : Nat} (ends : start + length = last) (entries : List OrfEntry) :
    ∀ {pnt : Nat} {entry : OrfEntry} {st : OptionState}, st.s = s.seek pnt → start ≤ pnt →
      OrfEntries s last pnt (entry :: entries) → OrfReadable (entry :: entries) →
      ∃ s', bgpCapabilityOrfEntry code length st >>=
          Pass.next (capabilityOrfLoop code length last).run =
        .ok (.again { st with
                      s := s'
                      peer := (entry :: entries).foldl (fun peer entry => entry.read code peer)
                        st.peer }) := by
  induction entries with
  | nil =>
    rintro pnt _ st there after ⟨rfl, filled⟩ readable
    have atEnd : pnt + 5 + (orfEntryAt s pnt).pairs.length * 2 = last := filled
    obtain ⟨next, read, known, unknown⟩ :=
      bgpCapabilityOrfEntry_read fits inside code length there (by omega) (by omega)
    have done : ¬ next + 5 < last := by
      by_cases isKnown : (orfEntryAt s pnt).Known
      · have := known isKnown; omega
      · have := unknown isKnown; have := readable.resolve_left isKnown; omega
    rw [read]
    exact ⟨s.seek next, Loop.run_of_done (decide_eq_false done)⟩
  | cons entry' entries ih =>
    rintro pnt _ st there after ⟨rfl, filled⟩ ⟨inStep, readable⟩
    have le := OrfEntries.le filled
    obtain ⟨next, read, known, unknown⟩ :=
      bgpCapabilityOrfEntry_read fits inside code length there (by omega) (by omega)
    obtain rfl : next = pnt + 5 + (orfEntryAt s pnt).pairs.length * 2 := by
      by_cases isKnown : (orfEntryAt s pnt).Known
      · exact known isKnown
      · rw [unknown isKnown, inStep.resolve_left isKnown, List.length_nil]
    rw [read, ok_bind]
    by_cases more : pnt + 5 + (orfEntryAt s pnt).pairs.length * 2 + 5 < last
    · rw [Pass.next, Loop.run_of_guard (decide_eq_true more)]
      exact ih rfl (by omega) filled readable
    · -- A last entry without pairs is not read, and would change nothing.
      have rest := OrfEntries.le filled.2
      obtain rfl : entries = [] := List.length_eq_zero_iff.mp (by omega)
      have empty : entry'.pairs = [] := List.length_eq_zero_iff.mp (by omega)
      rw [Pass.next, Loop.run_of_done (decide_eq_false more)]
      simp only [List.foldl_cons, entry'.read_of_empty code empty]
      exact ⟨_, rfl⟩

end

/-- **The entries of an ORF capability are read one after the other, as they stand, when no
pairs of an unknown family can pass for an entry.** -/
theorem bgpCapabilityOrf_entries (code : UInt8) (length : Nat) (st : OptionState)
    (fits : st.s.endp ≤ st.s.size) (inside : st.s.getp + length ≤ st.s.endp)
    (entries : List OrfEntry) (nonempty : entries ≠ [])
    (filled : OrfEntries st.s (st.s.getp + length) st.s.getp entries)
    (readable : OrfReadable entries) :
    ∃ s', bgpCapabilityOrf code length st =
      .ok (.again { st with
                    s := s'
                    peer := entries.foldl (fun peer entry => entry.read code peer) st.peer }) := by
  obtain ⟨entry, entries, rfl⟩ := List.exists_cons_of_ne_nil nonempty
  have le := OrfEntries.le filled
  rw [List.length_cons] at le
  have there : st.s = st.s.seek st.s.getp := rfl
  rw [bgpCapabilityOrf_eq code there (by omega)]
  exact capabilityOrf_run fits inside code length rfl entries there (Nat.le_refl _) filled readable

/-- A known family with one pair, and an unknown one with two pairs. -/
def unknownLast : List UInt8 := [0, 1, 0, 1, 1, 64, 3, 0, 3, 0, 1, 2, 64, 3, 64, 3]

/-- An unknown family with one pair, and a known one with one pair. -/
def unknownFirst : List UInt8 := [0, 3, 0, 1, 1, 64, 3, 0, 1, 0, 1, 1, 64, 3]

theorem bgpCapabilityOrf_entries_unknownLast :
    ∃ s', bgpCapabilityOrf capabilityCodeOrf 16 (dataState unknownLast) =
      .ok (.again { dataState unknownLast with
                    s := s'
                    peer := (OrfEntry.mk 3 1 [(64, 3), (64, 3)]).read capabilityCodeOrf
                      ((OrfEntry.mk 1 1 [(64, 3)]).read capabilityCodeOrf configuredPeer) }) :=
  bgpCapabilityOrf_entries capabilityCodeOrf 16 (dataState unknownLast) (by decide) (by decide)
    [⟨1, 1, [(64, 3)]⟩, ⟨3, 1, [(64, 3), (64, 3)]⟩] nofun ⟨rfl, rfl, rfl⟩ ⟨.inl rfl, .inr (by decide)⟩

/-- The entry of the known family is not read as such: its flags stay as they were. -/
theorem bgpCapabilityOrf_unknownFirst :
    OrfEntries (dataState unknownFirst).s 14 0 [⟨3, 1, [(64, 3)]⟩, ⟨1, 1, [(64, 3)]⟩] ∧
      ∃ st', bgpCapabilityOrf capabilityCodeOrf 14 (dataState unknownFirst) = .ok (.again st') ∧
        st'.peer ≠ (OrfEntry.mk 1 1 [(64, 3)]).read capabilityCodeOrf
          ((OrfEntry.mk 3 1 [(64, 3)]).read capabilityCodeOrf configuredPeer) := by
  refine ⟨⟨rfl, rfl, rfl⟩, _, rfl, fun same => ?_⟩
  exact absurd (congrArg (fun peer => (peer.afCap 1 1).orfPrefixSmRcv) same) (by decide)

end Quagga.Bgpd
