import Quagga.Bgpd.UpdateReceive

/-!
# Merging the attributes for four-byte AS numbers

A neighbour without the AS4 capability sends `AGGREGATOR` and `AS_PATH` with two-byte numbers, and
what does not fit into these in `AS4_AGGREGATOR` and `AS4_PATH`. `bgp_attr_munge_as4_attrs` merges
them after all attributes have been read. What it should give is `mergedAggregator` and
`mergedPath`, of the attributes as they stand in the message.

Where only an `AS4_AGGREGATOR` was sent, its AS is taken over and its address is not. So the result
is right exactly if that address is zero (`as4Merge_iff`).
-/

set_option autoImplicit false

namespace Quagga.Bgpd

open Lib Library

/-! ## What merging should give -/

section Merged

variable (s : Stream) (heads : List AttrHead)

/-- The AS and the address of an `AGGREGATOR` with a two-byte number. -/
def aggregatorOf (head : AttrHead) : UInt32 × UInt32 :=
  (UInt32.ofNat (asAt s false head.value), longOf (s.slice (head.value + 2) 4))

/-- The AS and the address of an `AS4_AGGREGATOR`. -/
def as4AggregatorOf (head : AttrHead) : UInt32 × UInt32 :=
  (longOf (s.slice head.value 4), longOf (s.slice (head.value + 4) 4))

/-- There is an `AGGREGATOR`, and it has not just a placeholder for the AS. -/
def ownAggregator : Bool :=
  (attrOf heads .aggregator).any fun head => (aggregatorOf s head).1.toNat ≠ bgpAsTrans

/-- The new attribute counts, unless the old one has a number of its own. -/
def mergedAggregator : Option (UInt32 × UInt32) :=
  match attrOf heads .as4Aggregator with
  | some as4 =>
    if ownAggregator s heads then (attrOf heads .aggregator).map (aggregatorOf s)
    else some (as4AggregatorOf s as4)
  | none => (attrOf heads .aggregator).map (aggregatorOf s)

/-- The paths are reconciled, unless the new aggregator is ignored. -/
def mergedPath : Option Aspath :=
  let path := (attrOf heads .asPath).bind fun head =>
    (aspathRead s false head.value head.length).1
  let as4Path := (attrOf heads .as4Path).bind fun head =>
    (aspathRead s true head.value head.length).1
  if (attrOf heads .as4Aggregator).isSome ∧ ownAggregator s heads then path
  else as4Path.elim path fun as4Path => path.map (aspathReconcileAs4 · as4Path)

end Merged

/-- The aggregator, if there is one. -/
def PacketAttr.aggregator (attr : PacketAttr) : Option (UInt32 × UInt32) :=
  if attr.has bgpAttrTypeAggregator then some (attr.aggregatorAs, attr.aggregatorAddr) else none

/-- `bgp_attr_aspath_check` puts the local AS in front of an accepted path. -/
def UpdatePeer.withLocalAs (peer : UpdatePeer) (path : Aspath) : Aspath :=
  if peer.changeLocalAs ≠ 0 ∧ ¬ peer.localAsNoPrepend then aspathAddSeq path peer.changeLocalAs
  else path

/-! ## What the four attributes leave -/

section Fields

variable {peer : UpdatePeer} {s : Stream}

theorem mpReachChange_fields (head : AttrHead) (attr : PacketAttr) :
    (mpReachChange s head attr).aspath = attr.aspath ∧
      (mpReachChange s head attr).aggregatorAs = attr.aggregatorAs ∧
      (mpReachChange s head attr).aggregatorAddr = attr.aggregatorAddr := by
  rw [mpReachChange, mpNexthopChange]
  split_ifs <;> exact ⟨rfl, rfl, rfl⟩

theorem tracks_aggregator (incapable : peer.as4Rcv = false) :
    Tracks peer s (fun p => (p.attr.aggregatorAs, p.attr.aggregatorAddr)) .aggregator
      (aggregatorOf s) where
  known := by simp
  begins _ _ := rfl
  effect head p := by
    obtain ⟨-, as, addr⟩ := mpReachChange_fields (s := s) head p.attr
    rw [attrEffect]
    cases AttrKind.ofType head.type <;> simp only [reduceCtorEq, if_false] <;>
      (try split_ifs) <;> first | rfl | exact Prod.ext as addr | rw [incapable]; rfl

theorem tracks_aspath (incapable : peer.as4Rcv = false) :
    Tracks peer s (·.attr.aspath) .asPath
      fun head => (aspathRead s false head.value head.length).1 where
  known := by simp
  begins _ _ := rfl
  effect head p := by
    rw [attrEffect]
    cases AttrKind.ofType head.type <;> simp only [reduceCtorEq, if_false] <;>
      (try split_ifs) <;>
      first | rfl | exact (mpReachChange_fields head p.attr).1 | rw [incapable]; rfl

theorem tracks_as4Aggregator :
    Tracks peer s (fun p => (p.as4Aggregator, p.as4AggregatorAddr)) .as4Aggregator
      (as4AggregatorOf s) where
  known := by simp
  begins _ _ := rfl
  effect head p := by
    rw [attrEffect]
    cases AttrKind.ofType head.type <;> simp only [reduceCtorEq, if_false] <;>
      (try split_ifs) <;> rfl

theorem tracks_as4Path :
    Tracks peer s (·.as4Path) .as4Path fun head => (aspathRead s true head.value head.length).1 where
  known := by simp
  begins _ _ := rfl
  effect head p := by
    rw [attrEffect]
    cases AttrKind.ofType head.type <;> simp only [reduceCtorEq, if_false] <;>
      (try split_ifs) <;> rfl

end Fields

/-! ## What merging gives -/

section Merge

variable {peer : UpdatePeer} {s : Stream} {pnt stop : Nat} {heads : List AttrHead}

/-- The attributes between two offsets are those that the bytes say. -/
theorem AttrHeads.unique {heads' : List AttrHead} (block : AttrHeads s pnt heads stop)
    (block' : AttrHeads s pnt heads' stop) : heads = heads' := by
  let next (at' : Nat) : Nat := (headAt s at').attrEnd
  have nth {heads : List AttrHead} {stop : Nat} (block : AttrHeads s pnt heads stop) :
      ∃ n, heads = (List.range n).map (fun i => headAt s (next^[i] pnt)) ∧ stop = next^[n] pnt := by
    induction block with
    | nil => exact ⟨0, rfl, rfl⟩
    | snoc _ ih =>
      obtain ⟨n, rfl, rfl⟩ := ih
      refine ⟨n + 1, ?_, (Function.iterate_succ_apply' next n pnt).symm⟩
      rw [List.range_succ, List.map_append]
      rfl
  have rises : StrictMono fun n => next^[n] pnt := by
    refine strictMono_nat_of_lt_succ fun n => ?_
    rw [Function.iterate_succ_apply']
    have header := AttrHead.size_pos (headAt s (next^[n] pnt)).flag
    show next^[n] pnt < next^[n] pnt + _ + _
    omega
  obtain ⟨n, rfl, same⟩ := nth block
  obtain ⟨m, rfl, same'⟩ := nth block'
  rw [rises.injective (same.symm.trans same')]

variable {p : Parsed} (walked : Walked peer s pnt stop heads (stop, p))
  (valid : ∀ head ∈ heads, attrAccepted peer s head)
include walked valid

theorem Walked.noted_of_valid {β : Type} {field : Parsed → β} {kind : AttrKind}
    {value : AttrHead → β} (tracks : Tracks peer s field kind value) :
    field p = (attrOf heads kind).elim (field .zero) value := by
  have parsed_eq := walked.parsed_eq
  dsimp only at parsed_eq
  rw [parsed_eq]
  exact tracks.noted walked.types fun head member _ => valid head member

theorem Walked.has_eq {type : UInt8} (flagged : type ∈ flaggedTypes) :
    p.attr.has type = (attrOf heads (AttrKind.ofType type)).isSome := by
  have zero : ∀ type ∈ flaggedTypes, Parsed.zero.attr.has type = false :=
    forall_mem_of_all (by decide)
  rw [walked.noted_of_valid valid (tracks_has flagged)]
  cases attrOf heads (AttrKind.ofType type) with
  | none => exact zero type flagged
  | some head => rfl

theorem Walked.path_eq (type : UInt8) {field : Parsed → Option Aspath}
    {value : AttrHead → Option Aspath}
    (tracks : Tracks peer s field (AttrKind.ofType type) value) (zero : field .zero = none)
    (flagged : type ∈ flaggedTypes)
    (given : ∀ head, AttrKind.ofType head.type = AttrKind.ofType type →
      attrAccepted peer s head → (value head).isSome = true) :
    field p = (attrOf heads (AttrKind.ofType type)).bind value ∧
      p.attr.has type = (field p).isSome := by
  rw [walked.has_eq valid flagged, walked.noted_of_valid valid tracks, zero]
  cases found : attrOf heads (AttrKind.ofType type) with
  | none => exact ⟨rfl, rfl⟩
  | some head =>
    obtain ⟨member, isKind⟩ := mem_of_attrOf found
    exact ⟨rfl, (given head isKind (valid head member)).symm⟩

/-- The merged aggregator is right, unless an address is lost. -/
theorem Walked.mungeAggregator_iff (incapable : peer.as4Rcv = false) :
    (mungeAggregator p).1 =
        ((attrOf heads .as4Aggregator).isSome && ownAggregator s heads) ∧
      ((mungeAggregator p).2.attr.aggregator = mergedAggregator s heads ↔
        (attrOf heads .aggregator = none → ∀ as4 ∈ attrOf heads .as4Aggregator,
          (as4AggregatorOf s as4).2 = 0)) := by
  have has : p.attr.has bgpAttrTypeAggregator = (attrOf heads .aggregator).isSome :=
    walked.has_eq valid (by decide)
  have has4 : p.attr.has bgpAttrTypeAs4Aggregator = (attrOf heads .as4Aggregator).isSome :=
    walked.has_eq valid (by decide)
  have old := walked.noted_of_valid valid (tracks_aggregator incapable)
  have new := walked.noted_of_valid valid tracks_as4Aggregator
  rw [mungeAggregator, has, has4, mergedAggregator, ownAggregator]
  cases aggregator : attrOf heads .aggregator with
  | none =>
    rw [aggregator] at has old
    cases as4 : attrOf heads .as4Aggregator with
    | none => simp [PacketAttr.aggregator, has]
    | some head =>
      rw [as4] at new
      have taken : as4AggregatorOf s head = (p.as4Aggregator, p.as4AggregatorAddr) := new.symm
      have zero : p.attr.aggregatorAddr = 0 := congrArg Prod.snd old
      have set : (p.accept bgpAttrTypeAggregator fun attr =>
          { attr with aggregatorAs := p.as4Aggregator }).attr.aggregator =
            some (p.as4Aggregator, p.attr.aggregatorAddr) :=
        if_pos ((PacketAttr.has_set ..).trans (by simp))
      simp [set, zero, taken, eq_comm]
  | some head =>
    rw [aggregator] at has old
    have kept : aggregatorOf s head = (p.attr.aggregatorAs, p.attr.aggregatorAddr) := old.symm
    have same : p.attr.aggregator = some (p.attr.aggregatorAs, p.attr.aggregatorAddr) := if_pos has
    cases as4 : attrOf heads .as4Aggregator with
    | none => simp [same, kept]
    | some head4 =>
      rw [as4] at new
      have taken : as4AggregatorOf s head4 = (p.as4Aggregator, p.as4AggregatorAddr) := new.symm
      have changed : (p.change fun attr => { attr with
          aggregatorAs := p.as4Aggregator, aggregatorAddr := p.as4AggregatorAddr }).attr.aggregator =
            some (p.as4Aggregator, p.as4AggregatorAddr) := if_pos has
      by_cases trans : p.attr.aggregatorAs.toNat = bgpAsTrans
      · simp [kept, taken, trans, changed]
      · simp [kept, same, trans]

end Merge

section Parsed

variable {peer : UpdatePeer} {p : Parsed}

theorem mungeAggregator_keeps (p : Parsed) :
    (mungeAggregator p).2.attr.aspath = p.attr.aspath ∧
      (mungeAggregator p).2.as4Path = p.as4Path ∧
      (mungeAggregator p).2.attr.has bgpAttrTypeAsPath = p.attr.has bgpAttrTypeAsPath ∧
      (mungeAggregator p).2.attr.has bgpAttrTypeAs4Path = p.attr.has bgpAttrTypeAs4Path := by
  have others (attr : PacketAttr) :
      (attr.set bgpAttrTypeAggregator).has bgpAttrTypeAsPath = attr.has bgpAttrTypeAsPath ∧
        (attr.set bgpAttrTypeAggregator).has bgpAttrTypeAs4Path = attr.has bgpAttrTypeAs4Path := by
    rw [PacketAttr.has_set, PacketAttr.has_set, decide_eq_false (by decide),
      decide_eq_false (by decide), Bool.or_false, Bool.or_false]
    exact ⟨rfl, rfl⟩
  rw [mungeAggregator]
  split_ifs <;> first | exact ⟨rfl, rfl, rfl, rfl⟩ | exact ⟨rfl, rfl, others _⟩

/-- What is merged, for a message that is not refused. -/
theorem bgpAttrMungeAs4Attrs_proceed (incapable : peer.as4Rcv = false)
    (path : p.attr.has bgpAttrTypeAsPath = p.attr.aspath.isSome)
    (as4Path : p.attr.has bgpAttrTypeAs4Path = p.as4Path.isSome)
    (proceed : (bgpAttrMungeAs4Attrs peer p).1 = .proceed) :
    (bgpAttrMungeAs4Attrs peer p).2.attr.aggregator = (mungeAggregator p).2.attr.aggregator ∧
      (bgpAttrMungeAs4Attrs peer p).2.attr.has bgpAttrTypeAsPath =
        (bgpAttrMungeAs4Attrs peer p).2.attr.aspath.isSome ∧
      (bgpAttrMungeAs4Attrs peer p).2.attr.aspath =
        if (mungeAggregator p).1 then p.attr.aspath
        else p.as4Path.elim p.attr.aspath fun as4Path =>
          p.attr.aspath.map (aspathReconcileAs4 · as4Path) := by
  obtain ⟨path', as4Path', has, has4⟩ := mungeAggregator_keeps p
  rw [path, ← path'] at has
  rw [as4Path] at has4
  rw [bgpAttrMungeAs4Attrs, incapable, path, as4Path, if_neg (by simp)] at proceed ⊢
  by_cases missing : p.as4Path.isSome = true ∧ ¬ p.attr.aspath.isSome = true
  · rw [if_pos missing] at proceed
    cases proceed
  rw [if_neg missing]
  generalize mungeAggregator p = munged at *
  obtain ⟨ignore, q⟩ := munged
  dsimp only at path' as4Path' has has4 ⊢
  rw [has4]
  cases as4 : p.as4Path with
  | none =>
    rw [if_neg (by simp)]
    exact ⟨rfl, has, by simpa using path'⟩
  | some as4Path =>
    rw [as4] at missing as4Path'
    cases given : p.attr.aspath with
    | none => simp [given] at missing
    | some aspath =>
      rw [given] at path'
      cases ignore with
      | true => exact ⟨rfl, has, path'⟩
      | false =>
        rw [mungePath, path', as4Path']
        exact ⟨rfl, has.trans (by rw [path']; rfl), rfl⟩

theorem attrsParsed_proceed {merged : Parsed} (proceed : (attrsParsed peer p).1 = .proceed)
    (munged : bgpAttrMungeAs4Attrs peer p = (.proceed, merged))
    (has : merged.attr.has bgpAttrTypeAsPath = merged.attr.aspath.isSome) :
    (attrsParsed peer p).2.attr.aggregator = merged.attr.aggregator ∧
      (attrsParsed peer p).2.attr.aspath = merged.attr.aspath.map peer.withLocalAs := by
  rw [attrsParsed, munged] at proceed ⊢
  dsimp only at proceed ⊢
  cases path : merged.attr.aspath with
  | none => exact ⟨rfl, path⟩
  | some aspath =>
    rw [path] at has proceed
    simp only [has, Option.isSome_some, if_true, bgpAttrAspathCheck, UpdatePeer.withLocalAs,
      Option.map_some] at proceed ⊢
    split_ifs at proceed ⊢
    · exact ⟨rfl, rfl⟩
    · exact ⟨rfl, path⟩

end Parsed

/-- **For every block of attributes that are in order, from a neighbour without the AS4 capability,
`bgp_attr_parse` gives the merged aggregator and the merged path exactly if the address of an
`AS4_AGGREGATOR` without an `AGGREGATOR` is zero.** A local AS is put in front of the merged path. -/
theorem as4Merge_iff {peer : UpdatePeer} {s : Stream} {pnt size : Nat} {heads : List AttrHead}
    {st : AttrState} (fits : s.endp ≤ s.size) (inside : pnt + size ≤ s.endp)
    (incapable : peer.as4Rcv = false) (block : AttrHeads s pnt heads (pnt + size))
    (valid : ∀ head ∈ heads, attrAccepted peer s head)
    (parsed : bgpAttrParse peer size ⟨s.seek pnt, .zero⟩ = .ok (.proceed, st)) :
    (st.parsed.attr.aggregator = mergedAggregator s heads ∧
        st.parsed.attr.aspath = (mergedPath s heads).map peer.withLocalAs) ↔
      (attrOf heads .aggregator = none → ∀ as4 ∈ attrOf heads .as4Aggregator,
        (as4AggregatorOf s as4).2 = 0) := by
  rw [bgpAttrParse_seek fits inside] at parsed
  obtain ⟨heads', p, walked, proceed, read⟩ :=
    attrsRead_proceed (congrArg Prod.fst (Except.ok.inj parsed))
  rw [read] at parsed
  cases parsed
  obtain rfl := block.unique walked.before
  obtain ⟨path, has⟩ := walked.path_eq valid bgpAttrTypeAsPath (tracks_aspath incapable) rfl
    (by decide) fun head kind accepted => by
      have kind' : AttrKind.ofType head.type = .asPath := kind
      simp only [attrAccepted, kind', incapable] at accepted
      exact accepted.2
  obtain ⟨as4Path, has4⟩ := walked.path_eq valid bgpAttrTypeAs4Path tracks_as4Path rfl
    (by decide) fun head kind accepted => by
      have kind' : AttrKind.ofType head.type = .as4Path := kind
      simp only [attrAccepted, kind'] at accepted
      exact accepted.2
  obtain ⟨ignored, aggregator⟩ := walked.mungeAggregator_iff valid incapable
  cases munged : bgpAttrMungeAs4Attrs peer p with
  | mk ret merged =>
    cases ret with
    | error => simp [attrsParsed, munged] at proceed
    | withdraw => simp [attrsParsed, munged] at proceed
    | proceed =>
      have merge := bgpAttrMungeAs4Attrs_proceed incapable has has4 (by rw [munged])
      rw [munged, ignored] at merge
      obtain ⟨aggregator', path'⟩ := attrsParsed_proceed proceed munged merge.2.1
      refine Iff.trans (and_iff_left ?_) ?_
      · refine path'.trans ?_
        rw [merge.2.2, path, as4Path]
        simp only [Bool.and_eq_true]
        rfl
      · rw [← aggregator, ← merge.1, ← aggregator']

/-- A neighbour without the AS4 capability. -/
def twoByteAsPeer : UpdatePeer := { vpnPeer with as4Rcv := false }

/-- The three mandatory attributes, with others behind them. -/
def as4Block (more : List UInt8) : Stream :=
  streamOf ([0x40, 1, 1, 0, 0x40, 2, 4, 2, 1, 0xfd, 0xe9, 0x40, 3, 4, 10, 0, 0, 1] ++ more)

/-- An `AGGREGATOR` with the placeholder, and an `AS4_AGGREGATOR`. -/
def placeholderBlock : Stream :=
  as4Block [0xc0, 7, 6, 0x5b, 0xa0, 10, 0, 0, 9, 0xc0, 18, 8, 0, 1, 0, 0, 10, 0, 0, 9]

theorem as4Merge_placeholder :
    let heads := [0, 4, 11, 18, 27].map (headAt placeholderBlock)
    ∃ st, bgpAttrParse twoByteAsPeer 38 ⟨placeholderBlock.seek 0, .zero⟩ = .ok (.proceed, st) ∧
      st.parsed.attr.aggregator = mergedAggregator placeholderBlock heads ∧
      st.parsed.attr.aspath = (mergedPath placeholderBlock heads).map twoByteAsPeer.withLocalAs := by
  have block : AttrHeads placeholderBlock 0 ([0, 4, 11, 18, 27].map (headAt placeholderBlock)) 38 :=
    AttrHeads.nil.snoc.snoc.snoc.snoc.snoc
  obtain ⟨st, parsed⟩ : ∃ st, bgpAttrParse twoByteAsPeer 38 ⟨placeholderBlock.seek 0, .zero⟩ =
      .ok (.proceed, st) := ⟨_, rfl⟩
  exact ⟨st, parsed, (as4Merge_iff (by decide) (by decide) rfl block (by decide) parsed).mpr nofun⟩

/-- An `AS4_AGGREGATOR` alone. -/
def lonelyBlock : Stream := as4Block [0xc0, 18, 8, 0, 1, 0, 0, 10, 0, 0, 9]

/-- Its address is lost. -/
theorem as4Aggregator_addr_lost :
    let heads := [0, 4, 11, 18].map (headAt lonelyBlock)
    AttrHeads lonelyBlock 0 heads 29 ∧ (∀ head ∈ heads, attrAccepted twoByteAsPeer lonelyBlock head) ∧
      ∃ st, bgpAttrParse twoByteAsPeer 29 ⟨lonelyBlock.seek 0, .zero⟩ = .ok (.proceed, st) ∧
        st.parsed.attr.aggregator = some (65536, 0) ∧
        mergedAggregator lonelyBlock heads = some (65536, 0x0a000009) :=
  ⟨AttrHeads.nil.snoc.snoc.snoc.snoc, by decide, _, rfl, rfl, rfl⟩

end Quagga.Bgpd
