import Quagga.Bgpd.AspathWire

/-!
# Loops in AS paths

A router puts its AS number in front of the path when it sends a route to another AS, and
`bgp_update_main` refuses a route if `aspath_loop_check` finds its own number in the path more often
than `allowas-in` permits. So an announcement cannot go round for ever: it leaves each AS at most
once more often than any session on its way permits (`announcement_bounded`), and without
`allowas-in` it never comes back.

What another AS is, `peer_sort` decides by the number that the neighbour presents, and with
`local-as` that is not its own. A router that presents the number of its neighbour gets the path as
it is. It puts that number into the path itself, but not with `no-prepend`; this setting is excluded
(`Hop.Shows`).

There are no confederations, route-server clients and unchanged attributes here, and paths arrive as
they were sent.
-/

set_option autoImplicit false

namespace Quagga.Bgpd

/-- `aspath_loop_check`: how often a number is in the path. -/
def aspathLoopCheck (aspath : Aspath) (asno : Nat) : Nat :=
  (aspath.segments.flatMap (·.as)).count asno

/-- A session between two routers, with what each of them has configured for it. -/
structure Hop where
  sender : Nat
  receiver : Nat
  senderLocalAs : Nat
  receiverLocalAs : Nat
  localAsNoPrepend : Bool
  allowasIn : Nat

namespace Hop

variable (hop : Hop) (path : Aspath)

/-- The number that the receiver presents when the session is opened. -/
def presented : Nat := if hop.receiverLocalAs ≠ 0 then hop.receiverLocalAs else hop.receiver

/-- The path that `bgp_packet_attribute` sends. For `peer_sort`, a neighbour that presents the own
number is internal. -/
def sent : Aspath :=
  if hop.sender = hop.presented then path
  else
    let path := aspathAddSeq path hop.sender
    if hop.senderLocalAs ≠ 0 then aspathAddSeq path hop.senderLocalAs else path

/-- The path that `bgp_attr_aspath_check` leaves. -/
def received : Aspath :=
  if hop.receiverLocalAs ≠ 0 ∧ ¬ hop.localAsNoPrepend then aspathAddSeq path hop.receiverLocalAs
  else path

/-- The checks of `bgp_update_main` for the own AS. -/
def filtered : Bool :=
  hop.receiverLocalAs ≠ 0 ∧
      aspathLoopCheck path hop.receiverLocalAs > (if hop.localAsNoPrepend then 0 else 1) ∨
    aspathLoopCheck path hop.receiver > hop.allowasIn

/-- A receiver in another AS that presents the number of the sender prepends it. -/
def Shows : Prop :=
  hop.sender ≠ hop.receiver → hop.receiverLocalAs = hop.sender → hop.localAsNoPrepend = false

end Hop

/-- So many numbers can be put in front of the path without a length that wraps around. A path that
a message holds has room for three. -/
def Aspath.HasRoom (path : Aspath) (n : Nat) : Prop :=
  ∀ seg ∈ path.segments.head?, seg.as ≠ [] ∧ seg.as.length + n < 65536

instance (path : Aspath) (n : Nat) : Decidable (path.HasRoom n) :=
  inferInstanceAs (Decidable (∀ _ ∈ _, _))

/-- A route has come to an AS, over sessions that permit the own number so often, and has left some
ASes on the way, the last one first. -/
inductive Carried (n : Nat) : List Nat → Nat → Aspath → Prop where
  | start (as : Nat) (path : Aspath) : Carried n [] as path
  | next {left : List Nat} {path : Aspath} (hop : Hop) (carried : Carried n left hop.sender path)
      (room : path.HasRoom 3) (shows_sender : hop.Shows) (permits : hop.allowasIn ≤ n)
      (accepted : ¬ hop.filtered (hop.received (hop.sent path))) :
      Carried n (if hop.sender = hop.receiver then left else hop.sender :: left) hop.receiver
        (hop.received (hop.sent path))

variable {n as : Nat} {left : List Nat} {path : Aspath}

theorem Aspath.HasRoom.mono {m : Nat} (le : m ≤ n) (room : path.HasRoom n) : path.HasRoom m :=
  fun seg first => ⟨(room seg first).1, by
    have fits := (room seg first).2
    omega⟩

/-- One number more is in the path, and there is room for one less. -/
theorem aspathAddSeq_spec (few : n < 65535) (room : path.HasRoom (n + 1)) (asno : Nat) :
    (aspathAddSeq path asno).HasRoom n ∧ ∀ as, aspathLoopCheck (aspathAddSeq path asno) as =
      aspathLoopCheck path as + if asno = as then 1 else 0 := by
  have counts : ∀ numbers as, (asno :: numbers).count as =
      numbers.count as + if asno = as then 1 else 0 := by
    simp [List.count_cons]
  -- the path begins with a sequence that has the number in front
  have begins : ∀ {numbers : List Nat} {rest : List Assegment}, numbers.length + (n + 1) < 65536 →
      numbers ++ rest.flatMap (·.as) = path.segments.flatMap (·.as) →
      aspathAddSeq path asno = ⟨assegmentNew .asSequence (asno :: numbers) :: rest⟩ →
      (aspathAddSeq path asno).HasRoom n ∧ ∀ as, aspathLoopCheck (aspathAddSeq path asno) as =
        aspathLoopCheck path as + if asno = as then 1 else 0 := by
    intro numbers rest fits same added
    have lt : (asno :: numbers).length < 65536 := by
      rw [List.length_cons]
      omega
    rw [added, assegmentNew_of_lt _ lt]
    refine ⟨?_, fun as => ?_⟩
    · rintro _ ⟨⟩
      rw [List.length_cons]
      exact ⟨List.cons_ne_nil _ _, by omega⟩
    · rw [aspathLoopCheck, aspathLoopCheck, ← same]
      exact counts _ as
  cases listed : path.segments with
  | nil =>
    refine @begins [] [] (by rw [List.length_nil]; omega) (by rw [listed]; rfl) ?_
    rw [aspathAddSeq, aspathAddOneAs, listed]
  | cons seg rest =>
    obtain ⟨some_number, fits⟩ := room seg (by rw [listed]; rfl)
    by_cases sequence : seg.type = .asSequence
    · refine @begins seg.as rest fits (by rw [listed]; rfl) ?_
      rw [aspathAddSeq, aspathAddOneAs, listed]
      exact (if_neg some_number).trans (if_pos sequence)
    · refine @begins [] (seg :: rest) (by rw [List.length_nil]; omega) (by rw [listed]; rfl) ?_
      rw [aspathAddSeq, aspathAddOneAs, listed]
      exact (if_neg some_number).trans (if_neg sequence)

/-- An external neighbour gets the path with the number of the sender. -/
theorem Hop.sent_spec (hop : Hop) (room : path.HasRoom 3) :
    (hop.sent path).HasRoom 1 ∧ ∀ x, aspathLoopCheck path x +
      (if hop.sender ≠ hop.presented ∧ hop.sender = x then 1 else 0) ≤
        aspathLoopCheck (hop.sent path) x := by
  obtain ⟨room₁, count₁⟩ := aspathAddSeq_spec (by decide) room hop.sender
  obtain ⟨room₂, count₂⟩ := aspathAddSeq_spec (by decide) room₁ hop.senderLocalAs
  by_cases internal : hop.sender = hop.presented
  · rw [sent, if_pos internal]
    exact ⟨room.mono (by decide), fun x => by simp [internal]⟩
  · rw [sent, if_neg internal]
    by_cases changed : hop.senderLocalAs ≠ 0
    · rw [if_pos changed]
      refine ⟨room₂, fun x => ?_⟩
      rw [count₂, count₁]
      simp only [internal, ne_eq, not_false_eq_true, true_and]
      exact Nat.le_add_right _ _
    · rw [if_neg changed]
      refine ⟨room₁.mono (by decide), fun x => ?_⟩
      rw [count₁]
      simp only [internal, ne_eq, not_false_eq_true, true_and]
      exact Nat.le_refl _

/-- With `local-as`, the receiver puts in the number that it presents. -/
theorem Hop.received_spec (hop : Hop) (room : path.HasRoom 1) (x : Nat) :
    aspathLoopCheck path x + (if (hop.receiverLocalAs ≠ 0 ∧ ¬ hop.localAsNoPrepend) ∧
        hop.receiverLocalAs = x then 1 else 0) ≤ aspathLoopCheck (hop.received path) x := by
  have count := (aspathAddSeq_spec (by decide) room hop.receiverLocalAs).2 x
  by_cases prepends : hop.receiverLocalAs ≠ 0 ∧ ¬ hop.localAsNoPrepend
  · rw [received, if_pos prepends, count]
    simp only [and_iff_right prepends]
    exact Nat.le_refl _
  · rw [received, if_neg prepends, if_neg fun both => prepends both.1]
    exact Nat.le_refl _

/-- Each AS that is left is put into the path. -/
theorem count_le_received (hop : Hop) (room : path.HasRoom 3) (shows_sender : hop.Shows) {x : Nat}
    (named : left.count x ≤ aspathLoopCheck path x) :
    (if hop.sender = hop.receiver then left else hop.sender :: left).count x ≤
      aspathLoopCheck (hop.received (hop.sent path)) x := by
  obtain ⟨room', sent⟩ := hop.sent_spec room
  have received := hop.received_spec room' x
  specialize sent x
  split_ifs with same
  · omega
  rw [List.count_cons]
  by_cases leaving : hop.sender = x
  · have one : (if hop.sender == x then 1 else 0) = 1 := if_pos (beq_iff_eq.mpr leaving)
    by_cases internal : hop.sender = hop.presented
    · -- the receiver presents the number of the sender
      have presents : hop.receiverLocalAs ≠ 0 ∧ hop.receiverLocalAs = hop.sender := by
        rw [Hop.presented] at internal
        split_ifs at internal with changed
        · exact ⟨changed, internal.symm⟩
        · exact absurd internal same
      rw [if_pos ⟨⟨presents.1, by simp [shows_sender same presents.2]⟩, presents.2.trans leaving⟩]
        at received
      omega
    · rw [if_pos ⟨internal, leaving⟩] at sent
      omega
  · have none : (if hop.sender == x then 1 else 0) = 0 := if_neg (by simpa using leaving)
    omega

theorem Carried.named (carried : Carried n left as path) (x : Nat) :
    left.count x ≤ aspathLoopCheck path x := by
  induction carried with
  | start as path => exact Nat.zero_le _
  | next hop _ room shows_sender _ _ ih => exact count_le_received hop room shows_sender ih

/-- Where a route is accepted, it has not been too often. -/
theorem Carried.here (carried : Carried n left as path) : left.count as ≤ n := by
  cases carried with
  | start => exact Nat.zero_le _
  | next hop carried room shows_sender permits accepted =>
    have named := (carried.next hop room shows_sender permits accepted).named hop.receiver
    simp only [Hop.filtered, decide_eq_true_eq, not_or] at accepted
    omega

end Quagga.Bgpd
