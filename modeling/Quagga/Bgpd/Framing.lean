import Quagga.Lib.StreamBytes
import Quagga.Bgpd.PacketRead

/-!
# Messages in the byte stream of a connection

The bytes that a neighbour sends form messages: a header of 19 bytes declares the length of
its message. `frame` cuts a whole byte sequence into messages at once, up to the first header
that the checks refuse. `bgp_read` gets the same bytes in pieces, as many at a time as the
socket has, and keeps what is incomplete in `ibuf` and `packet_size`. On the session of a
configured peer, every way of splitting the sequence leads to the messages and the notification
of `frame` (`execute_frame`).

A connection that the neighbour opens starts on a dummy peer "until read Open packet". At its
end `bgp_read` deletes a dummy peer, and it comes there also when a read was partial. So the
same bytes can be dispatched or lost, as the first read has them all or not
(`split_open_lost`). Splitting makes no difference exactly on other sessions, and for sequences
without a first message (`reassembly_iff`).
-/

set_option autoImplicit false

namespace Quagga.Bgpd

open Lib Library

/-! ## Cutting a whole sequence -/

/-- A message: the type code and the body. -/
structure Message where
  code : UInt8
  body : List UInt8
  deriving DecidableEq

/-- What the reader does with the input: it dispatches a message, or notifies a header
error. -/
inductive ReadAction where
  | dispatched (message : Message)
  | notified (error : HeaderError)
  deriving DecidableEq

section Frame

-- Whether the session is still up after these messages have been received.
variable (goesOn : List Message → Bool)

/-- Cut off at most so many messages. -/
def frameWithin : Nat → List Message → List UInt8 → List ReadAction
  | 0, _, _ => []
  | n + 1, history, bytes =>
    if bytes.length < bgpHeaderSize then []
    else
      match headerError bytes with
      | some error => [.notified error]
      | none =>
        if bytes.length < headerLength bytes then []
        else
          let message : Message :=
            { code := headerCode bytes
              body := (bytes.take (headerLength bytes)).drop bgpHeaderSize }
          .dispatched message ::
            if goesOn (history ++ [message]) then
              frameWithin n (history ++ [message]) (bytes.drop (headerLength bytes))
            else []

/-- Cut a sequence of bytes into messages. -/
def frame (history : List Message) (bytes : List UInt8) : List ReadAction :=
  frameWithin goesOn (bytes.length + 1) history bytes

end Frame

/-- More messages than bytes are never cut off. -/
theorem frameWithin_enough (goesOn : List Message → Bool) (n : Nat) :
    ∀ {history : List Message} {bytes : List UInt8}, bytes.length < n →
      frameWithin goesOn n history bytes = frame goesOn history bytes := by
  induction n using Nat.strongRecOn with
  | ind n ih =>
    intro history bytes less
    obtain ⟨n, rfl⟩ : ∃ k, n = k + 1 := ⟨n - 1, by omega⟩
    rw [frame, frameWithin, frameWithin]
    by_cases short : bytes.length < bgpHeaderSize
    · rw [if_pos short, if_pos short]
    · cases checked : headerError bytes with
      | some error => rfl
      | none =>
        have bounds := headerLength_bounds checked
        have header : bgpHeaderSize = 19 := rfl
        have rest : (bytes.drop (headerLength bytes)).length < bytes.length := by
          rw [List.length_drop]
          omega
        dsimp only
        rw [ih n (by omega) (by omega), ih bytes.length (by omega) rest]

section FrameEquations

variable {goesOn : List Message → Bool} {history : List Message} {bytes : List UInt8}

theorem frame_unfinished (unfinished : Unfinished bytes) : frame goesOn history bytes = [] := by
  rw [frame, frameWithin]
  rcases unfinished with short | ⟨passed, incomplete⟩
  · rw [if_pos short]
  · by_cases short : bytes.length < bgpHeaderSize
    · rw [if_pos short]
    · rw [if_neg short, passed]
      exact if_pos incomplete

theorem frame_refused {error : HeaderError} (complete : bgpHeaderSize ≤ bytes.length)
    (refused : headerError bytes = some error) (rest : List UInt8) :
    frame goesOn history (bytes ++ rest) = [.notified error] := by
  have long : ¬ (bytes ++ rest).length < bgpHeaderSize := by
    rw [List.length_append]
    omega
  rw [frame, frameWithin, if_neg long, (header_append complete rest).2.2, refused]

/-- **A complete message is dispatched, and framing goes on behind it.** -/
theorem frame_message (complete : bgpHeaderSize ≤ bytes.length)
    (passed : headerError bytes = none) (length_eq : bytes.length = headerLength bytes)
    (rest : List UInt8) {message : Message}
    (message_eq : message = { code := headerCode bytes, body := bytes.drop bgpHeaderSize }) :
    frame goesOn history (bytes ++ rest) =
      .dispatched message ::
        if goesOn (history ++ [message]) then frame goesOn (history ++ [message]) rest else [] := by
  obtain ⟨length_append, code_append, error_append⟩ := header_append complete rest
  have long : ¬ (bytes ++ rest).length < bgpHeaderSize := by
    rw [List.length_append]
    omega
  have whole : ¬ (bytes ++ rest).length < headerLength bytes := by
    rw [List.length_append]
    omega
  have header : bgpHeaderSize = 19 := rfl
  rw [frame, frameWithin, if_neg long, error_append, passed]
  dsimp only
  rw [length_append, code_append, if_neg whole, ← length_eq, List.take_left, List.drop_left,
    frameWithin_enough goesOn _ (by rw [List.length_append]; omega), ← message_eq]

theorem frame_ne_nil (finished : ¬ Unfinished bytes) : frame goesOn history bytes ≠ [] := by
  obtain ⟨long, whole⟩ := not_or.mp finished
  rw [frame, frameWithin, if_neg long]
  cases checked : headerError bytes with
  | some error => exact List.cons_ne_nil _ _
  | none =>
    have complete : ¬ bytes.length < headerLength bytes := fun less => whole ⟨checked, less⟩
    rw [if_neg complete]
    exact List.cons_ne_nil _ _

end FrameEquations

/-! ## Reading in pieces -/

/-- What a nonblocking read gives when so many of the pending bytes have arrived. -/
def deliver (pending : List UInt8) (available : Nat) : SocketRead :=
  if pending.take available = [] then .retry else .bytes (pending.take available)

/-- A connection: the input of the peer that reads from it, the bytes that were sent and are not
read yet, the messages received so far, whether it is open, and whether the peer is the dummy
one of an accepted connection. -/
structure Connection where
  input : PeerIn
  pending : List UInt8
  history : List Message
  isOpen : Bool
  accepted : Bool

/-- One call of `bgp_read`, when so many bytes have arrived at its two reads. A dummy peer is
deleted at the end of the call; when it has received the `OPEN`, the connection goes on with the
configured peer. A peer whose host is in `toDrop` is left out. -/
def readCall (goesOn : List Message → Bool) (conn : Connection) (available : Nat × Nat) :
    Except Fault (Connection × List ReadAction) :=
  if conn.isOpen = false then .ok (conn, [])
  else do
    let atHeader := min (bgpHeaderSize - conn.input.ibuf.endp) available.1
    let (result, input) ← bgpReadPart conn.input (deliver conn.pending available.1)
      (deliver (conn.pending.drop atHeader) available.2)
    let pending := conn.pending.drop (input.ibuf.endp - conn.input.ibuf.endp)
    match result with
    | .waiting =>
      return ({ conn with input := input, pending := pending, isOpen := !conn.accepted }, [])
    | .closed => return ({ conn with input := input, pending := pending, isOpen := false }, [])
    | .notify error =>
      return ({ conn with input := input, pending := pending, isOpen := false },
        [.notified error])
    | .packet code _ =>
      let message : Message :=
        { code := code, body := input.ibuf.contents.drop bgpHeaderSize }
      let ibuf ← streamReset input.ibuf
      return ({ input := { ibuf := ibuf, packetSize := 0 }
                pending := pending
                history := conn.history ++ [message]
                isOpen := goesOn (conn.history ++ [message])
                accepted := false }, [.dispatched message])

/-- A connection before anything is read. -/
def Connection.start (accepted : Bool) (sent : List UInt8) : Connection :=
  { input := PeerIn.fresh, pending := sent, history := [], isOpen := true, accepted := accepted }

/-- All bytes that will be read have been read. -/
def Connection.Finished (conn : Connection) : Prop := conn.isOpen = false ∨ conn.pending = []

/-! ### One read -/

/-- A read takes what has arrived, but no more than it asked for. -/
theorem takenFrom_deliver (size : Nat) (pending : List UInt8) (available : Nat) :
    takenFrom size (deliver pending available) = pending.take (min size available) := by
  rw [← List.take_take, deliver]
  split_ifs with none
  · rw [none, List.take_nil]
    rfl
  · rfl

/-- Where nothing has arrived, the connection is still open. -/
theorem not_atEnd_deliver (pending : List UInt8) (available : Nat) :
    ¬ AtEnd (deliver pending available) := by
  rintro ⟨notRetry, size, asked, nothing⟩
  rw [deliver] at notRetry nothing
  split_ifs at notRetry nothing with none
  · exact notRetry rfl
  · exact none ((List.take_eq_nil_iff.mp nothing).resolve_left asked.ne')

/-- **One call collects a first part of the pending bytes**, no more than have arrived, and at least
one if one has. -/
theorem collectedBytes_deliver {bytes : List UInt8} (unfinished : Unfinished bytes)
    (pending : List UInt8) (available : Nat × Nat) :
    ∃ taken, collectedBytes bytes (deliver pending available.1)
        (deliver (pending.drop (min (bgpHeaderSize - bytes.length) available.1)) available.2) =
          bytes ++ taken ∧ taken <+: pending ∧
      taken.length ≤ available.1 + available.2 ∧
      (pending ≠ [] → 0 < available.1 → 0 < available.2 → taken ≠ []) := by
  rw [collectedBytes, takenFrom_deliver]
  by_cases short : bytes.length < bgpHeaderSize
  · generalize atHeader_eq : min (bgpHeaderSize - bytes.length) available.1 = atHeader
    have few : (pending.take atHeader).length ≤ available.1 := by
      rw [List.length_take]
      omega
    have progress : pending ≠ [] → 0 < available.1 → pending.take atHeader ≠ [] := by
      intro more arrived
      rw [Ne, List.take_eq_nil_iff, not_or]
      exact ⟨by omega, more⟩
    split_ifs with headed
    · rw [takenFrom_deliver]
      refine ⟨_, List.append_assoc .., ?_, ?_, fun more arrived _ =>
        List.append_ne_nil_of_left_ne_nil (progress more arrived) _⟩
      · conv_rhs => rw [← List.take_append_drop atHeader pending]
        exact (List.prefix_append_right_inj _).mpr (List.take_prefix _ _)
      · rw [List.length_append]
        exact Nat.add_le_add few ((List.length_take_le _ _).trans (Nat.min_le_right _ _))
    · exact ⟨_, rfl, List.take_prefix _ _, by omega, fun more arrived _ => progress more arrived⟩
  · obtain ⟨passed, incomplete⟩ := unfinished.resolve_left short
    rw [Nat.sub_eq_zero_of_le (Nat.not_lt.mp short), Nat.zero_min, List.take_zero, List.append_nil,
      if_pos ⟨Nat.not_lt.mp short, passed⟩, takenFrom_deliver]
    refine ⟨_, rfl, List.take_prefix _ _, ?_, fun more _ arrived => ?_⟩
    · rw [List.length_take]
      omega
    · rw [Ne, List.take_eq_nil_iff, not_or]
      exact ⟨by omega, more⟩

/-! ### Whole sequences -/

section Sequences

variable {goesOn : List Message → Bool}

/-- What a connection still has to frame. -/
def Connection.outstanding (conn : Connection) : List UInt8 :=
  conn.input.ibuf.contents ++ conn.pending

/-- What framing still gives on a connection. -/
def Connection.remaining (goesOn : List Message → Bool) (conn : Connection) : List ReadAction :=
  if conn.isOpen then frame goesOn conn.history conn.outstanding else []

variable {conn : Connection}

/-- **One call does the next of what framing gives.** A dummy peer that is left with a part of a
message is deleted. -/
theorem readCall_frame (goesOn : List Message → Bool) (isOpen : conn.isOpen = true)
    (readable : Readable conn.input) (available : Nat × Nat) :
    ∃ conn' actions, readCall goesOn conn available = .ok (conn', actions) ∧
      (conn'.isOpen = true → Readable conn'.input ∧ conn'.accepted = false) ∧
      ((conn.accepted = true ∧ actions = [] ∧ conn'.isOpen = false) ∨
        frame goesOn conn.history conn.outstanding = actions ++ conn'.remaining goesOn) ∧
      (conn.input.ibuf.endp + available.1 + available.2 < bgpHeaderSize →
        actions = [] ∧ conn'.isOpen = !conn.accepted) ∧
      (conn.pending ≠ [] → 0 < available.1 → 0 < available.2 →
        conn'.pending.length < conn.pending.length) := by
  obtain ⟨taken, taken_eq, ⟨rest, pending_eq⟩, few, progress⟩ :=
    collectedBytes_deliver readable.unfinished conn.pending available
  obtain ⟨result, input', read, call⟩ := bgpReadPart_spec readable (deliver conn.pending available.1)
    (deliver (conn.pending.drop
      (min (bgpHeaderSize - conn.input.ibuf.contents.length) available.1)) available.2)
  have contents' := call.contents_eq.trans taken_eq
  rw [length_contents readable.sane] at read
  rw [← call.contents_eq] at call
  have length' : input'.ibuf.contents.length = conn.input.ibuf.endp + taken.length := by
    rw [contents', List.length_append, length_contents readable.sane]
  have endp' : input'.ibuf.endp - conn.input.ibuf.endp = taken.length := by
    rw [← length_contents call.sane, length', Nat.add_sub_cancel_left]
  have pending' : conn.pending.drop (input'.ibuf.endp - conn.input.ibuf.endp) = rest := by
    rw [endp', ← pending_eq, List.drop_left]
  have outstanding' : conn.outstanding = input'.ibuf.contents ++ rest := by
    rw [Connection.outstanding, ← pending_eq, contents', List.append_assoc]
  have shorter : conn.pending ≠ [] → 0 < available.1 → 0 < available.2 →
      rest.length < conn.pending.length := by
    intro more arrived arrived'
    have some := List.length_pos_iff.mpr (progress more arrived arrived')
    rw [← pending_eq, List.length_append]
    omega
  rw [readCall, if_neg (by simp [isOpen])]
  dsimp only
  rw [read, ok_bind]
  rw [pending']
  have ended := call.ended
  cases result with
  | waiting =>
    refine ⟨_, _, rfl, ?_, ?_, fun _ => ⟨rfl, rfl⟩, shorter⟩
    · intro stillOpen
      exact ⟨ended, by simpa using stillOpen⟩
    · cases dummy : conn.accepted with
      | true => exact .inl ⟨rfl, rfl, rfl⟩
      | false =>
        right
        rw [outstanding']
        rfl
  | closed => exact (ended.2.elim (not_atEnd_deliver _ _) (not_atEnd_deliver _ _)).elim
  | notify error =>
    refine ⟨_, _, rfl, fun stillOpen => (by cases stillOpen), .inr ?_, ?_, shorter⟩
    · rw [outstanding', frame_refused ended.1 ended.2]
      rfl
    · omega
  | packet code size =>
    obtain ⟨reading, complete, code_eq, -⟩ := ended
    have endp_eq := length_contents call.sane
    have length_eq : input'.ibuf.contents.length = headerLength input'.ibuf.contents := by
      rw [endp_eq, complete, reading.packetSize_eq]
    have headed := reading.le_endp
    rw [← endp_eq] at headed
    have reset : streamReset input'.ibuf = .ok { input'.ibuf with getp := 0, endp := 0 } := by
      rw [streamReset, verifySane_ok call.sane]
      rfl
    rw [reset]
    refine ⟨_, _, rfl, ?_, .inr ?_, by omega, shorter⟩
    · exact fun _ => ⟨.inl ⟨rfl, rfl, rfl, call.size_eq⟩, rfl⟩
    · rw [outstanding', code_eq, frame_message headed reading.passed length_eq rest rfl]
      rfl

theorem execute_closed (closed : conn.isOpen = false) (split : List (Nat × Nat)) :
    execute (readCall goesOn) conn split = .ok (conn, []) := by
  induction split with
  | nil => rfl
  | cons available rest ih => simp only [execute, readCall, if_pos closed, ih, List.nil_append]

theorem remaining_closed (closed : conn.isOpen = false) : conn.remaining goesOn = [] := by
  simp [Connection.remaining, closed]

/-- **On the session of a configured peer the calls do what framing gives, in order.** -/
theorem execute_frame (goesOn : List Message → Bool) (split : List (Nat × Nat)) :
    ∀ {conn : Connection},
    (conn.isOpen = true → Readable conn.input ∧ conn.accepted = false) →
    ∃ conn' trace, execute (readCall goesOn) conn split = .ok (conn', trace) ∧
      conn.remaining goesOn = trace ++ conn'.remaining goesOn ∧
      (conn'.isOpen = true → Readable conn'.input) := by
  induction split with
  | nil => exact fun ready => ⟨_, [], rfl, rfl, fun isOpen => (ready isOpen).1⟩
  | cons available rest ih =>
    intro conn ready
    cases isOpen : conn.isOpen with
    | false =>
      exact ⟨conn, [], execute_closed isOpen _, rfl,
        fun stillOpen => by simp [isOpen] at stillOpen⟩
    | true =>
      obtain ⟨readable, configured⟩ := ready isOpen
      obtain ⟨conn₁, actions, called, ready₁, next, -⟩ :=
        readCall_frame goesOn isOpen readable available
      obtain ⟨conn', trace, executed, framed, readable'⟩ := ih ready₁
      have next := next.resolve_left fun dummy => by simp [configured] at dummy
      refine ⟨conn', actions ++ trace, ?_, ?_, readable'⟩
      · simp only [execute, called, executed]
      · rw [Connection.remaining, if_pos isOpen, next, framed, List.append_assoc]

/-- What may be left of a connection in which everything has been read frames to nothing. -/
theorem Connection.Finished.remaining (finished : conn.Finished)
    (readable : conn.isOpen = true → Readable conn.input) : conn.remaining goesOn = [] := by
  cases isOpen : conn.isOpen with
  | false => exact remaining_closed isOpen
  | true =>
    have nothing : conn.pending = [] := finished.resolve_left (by simp [isOpen])
    rw [Connection.remaining, if_pos isOpen, Connection.outstanding, nothing, List.append_nil]
    exact frame_unfinished (readable isOpen).unfinished

end Sequences

/-! ## Splitting makes no difference -/

/-- The bytes are read in the calls of this split, which do the actions of the trace. -/
def Reads (goesOn : List Message → Bool) (accepted : Bool) (sent : List UInt8)
    (split : List (Nat × Nat)) (trace : List ReadAction) : Prop :=
  ∃ conn, execute (readCall goesOn) (Connection.start accepted sent) split = .ok (conn, trace) ∧
    conn.Finished

section Reassembly

variable (goesOn : List Message → Bool)

theorem outstanding_start (accepted : Bool) (sent : List UInt8) :
    (Connection.start accepted sent).outstanding = sent := by
  have empty : PeerIn.fresh.ibuf.contents = [] := rfl
  rw [Connection.outstanding, Connection.start, empty, List.nil_append]

theorem readable_fresh : Readable PeerIn.fresh := .inl idle_fresh

variable {goesOn} {accepted : Bool} {sent : List UInt8} {split : List (Nat × Nat)}
  {trace : List ReadAction}

/-- A configured peer gets the framed messages, in whatever pieces it reads. -/
theorem Reads.frame_eq (reads : Reads goesOn false sent split trace) :
    trace = frame goesOn [] sent := by
  obtain ⟨conn, executed, finished⟩ := reads
  have ready : (Connection.start false sent).isOpen = true →
      Readable (Connection.start false sent).input ∧
        (Connection.start false sent).accepted = false := fun _ => ⟨readable_fresh, rfl⟩
  obtain ⟨conn', trace', executed', framed, readable⟩ := execute_frame goesOn split ready
  obtain ⟨rfl, rfl⟩ : conn = conn' ∧ trace = trace' := by
    simpa using executed.symm.trans executed'
  rw [finished.remaining readable, List.append_nil] at framed
  exact framed.symm

/-- No peer dispatches or notifies anything when there is no first message. -/
theorem Reads.unfinished (reads : Reads goesOn accepted sent split trace)
    (unfinished : Unfinished sent) : trace = [] := by
  obtain ⟨conn, executed, -⟩ := reads
  cases split with
  | nil =>
    cases executed
    rfl
  | cons available rest =>
    have isOpen : (Connection.start accepted sent).isOpen = true := rfl
    obtain ⟨conn₁, actions, called, ready₁, next, -⟩ :=
      readCall_frame goesOn isOpen readable_fresh available
    obtain ⟨conn', trace', executed', framed, -⟩ := execute_frame goesOn rest ready₁
    have nothing : actions = [] ∧ conn₁.remaining goesOn = [] := by
      rcases next with ⟨-, none, closed⟩ | next
      · exact ⟨none, remaining_closed closed⟩
      · rw [outstanding_start, frame_unfinished unfinished] at next
        exact List.append_eq_nil_iff.mp next.symm
    rw [nothing.2] at framed
    have trace_eq : trace = actions ++ trace' := by
      simp only [execute, called, executed', Except.ok.injEq, Prod.mk.injEq] at executed
      exact executed.2.symm
    rw [trace_eq, nothing.1, (List.append_eq_nil_iff.mp framed.symm).1]
    rfl

/-- A dummy peer whose first read has a single byte is deleted. -/
theorem reads_single_byte (sent : List UInt8) : Reads goesOn true sent [(1, 0)] [] := by
  have isOpen : (Connection.start true sent).isOpen = true := rfl
  obtain ⟨conn, actions, called, -, -, partly, -⟩ :=
    readCall_frame goesOn isOpen readable_fresh (1, 0)
  obtain ⟨rfl, closed⟩ := partly (by show 0 + 1 + 0 < 19; omega)
  refine ⟨conn, ?_, .inl closed⟩
  simp only [execute, called, List.append_nil]

theorem exists_execute_finished (goesOn : List Message → Bool) (n : Nat) :
    ∀ {conn : Connection}, conn.pending.length ≤ n →
      (conn.isOpen = true → Readable conn.input) →
      ∃ split conn' trace, execute (readCall goesOn) conn split = .ok (conn', trace) ∧
        conn'.Finished := by
  induction n with
  | zero =>
    intro conn none _
    exact ⟨[], conn, [], rfl, .inr (List.length_eq_zero_iff.mp (by omega))⟩
  | succ n ih =>
    intro conn few readable
    by_cases finished : conn.Finished
    · exact ⟨[], conn, [], rfl, finished⟩
    · obtain ⟨isOpen, more⟩ := not_or.mp finished
      obtain ⟨conn₁, actions, called, ready₁, -, -, shorter⟩ :=
        readCall_frame goesOn (by simpa using isOpen) (readable (by simpa using isOpen)) (1, 1)
      have less := shorter more Nat.one_pos Nat.one_pos
      obtain ⟨split, conn', trace, executed, finished'⟩ :=
        ih (by omega) fun isOpen₁ => (ready₁ isOpen₁).1
      refine ⟨(1, 1) :: split, conn', actions ++ trace, ?_, finished'⟩
      simp only [execute, called, executed]

end Reassembly

/-- **Every byte sequence can be read to its end, and the messages and the notification are those
of the whole sequence for every way of splitting it, exactly on the session of a configured peer
and for sequences without a first message.** -/
theorem reassembly_iff (goesOn : List Message → Bool) (accepted : Bool) (sent : List UInt8) :
    (∃ split trace, Reads goesOn accepted sent split trace) ∧
      ((∀ split split' trace trace', Reads goesOn accepted sent split trace →
          Reads goesOn accepted sent split' trace' →
          trace = trace' ∧ trace = frame goesOn [] sent) ↔
        accepted = false ∨ Unfinished sent) := by
  constructor
  · have few : (Connection.start accepted sent).pending.length ≤ sent.length := Nat.le_refl _
    obtain ⟨split, conn, trace, executed, finished⟩ :=
      exists_execute_finished goesOn sent.length few fun _ => readable_fresh
    exact ⟨split, trace, conn, executed, finished⟩
  · constructor
    · intro independent
      cases accepted with
      | false => exact .inl rfl
      | true =>
        right
        by_contra finished
        have deleted := independent [(1, 0)] [(1, 0)] [] [] (reads_single_byte sent)
          (reads_single_byte sent)
        exact frame_ne_nil finished deleted.2.symm
    · rintro (rfl | unfinished) split split' trace trace' reads reads'
      · exact ⟨reads.frame_eq.trans reads'.frame_eq.symm, reads.frame_eq⟩
      · rw [frame_unfinished unfinished, reads.unfinished unfinished, reads'.unfinished unfinished]
        exact ⟨rfl, rfl⟩

/-- An `OPEN` message. -/
def openMessage : List UInt8 :=
  List.replicate 16 0xff ++ [0, 29, 1, 4, 0, 2, 0, 180, 10, 0, 0, 2, 0]

set_option maxRecDepth 20000 in
/-- The `OPEN` of a connection that the neighbour opened is dispatched when the first call reads
it whole, and lost when the first read has 16 bytes of it. -/
theorem split_open_lost :
    Reads (fun _ => true) true openMessage [(29, 29)]
        [.dispatched { code := 1, body := openMessage.drop 19 }] ∧
      Reads (fun _ => true) true openMessage [(16, 0), (29, 29)] [] :=
  ⟨⟨_, rfl, .inr rfl⟩, ⟨_, rfl, .inl rfl⟩⟩

end Quagga.Bgpd
