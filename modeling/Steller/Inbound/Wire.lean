import Steller.Inbound.Conversation
import Steller.Inbound.Pipeline
import Steller.Std.Fault

/-!
# From the queue to the wire

The writing half of a session takes one item after another from the queue,
writes it to the socket and flushes.  A failure is printed and the next item
comes up.  So what the client gets is, for each item in turn, a beginning of it,
and the whole of it unless a failure was printed (`WriteHalf.written_run`).

With the reading half in front (`Session.wire`), this is one connection from end
to end, bytes in and bytes out: one reply for each request, in order, and only
one way to read them.
-/

namespace Steller

open FaultyWriter PrefixCode

/-! ## The writing half -/

/-- The writing half of a session: its writer, and what the queue will still bring.  After that
every sender is gone. -/
structure WriteHalf where
  writer : FaultyWriter
  receiver : List Bytes

namespace WriteHalf

/-- Block until the next bytes arrive; `none` means that every sender is gone. -/
def recv (self : WriteHalf) : Option Bytes × WriteHalf :=
  match self.receiver with
  | [] => (none, self)
  | msg :: receiver => (some msg, { self with receiver })

/-- `write_all(&msg).and_then(|()| flush())`. -/
def put (writer : FaultyWriter) (msg : Bytes) : Except IoError Unit × FaultyWriter :=
  match writer.writeAll msg with
  | (.error e, writer) => (.error e, writer)
  | (.ok (), writer) => writer.flushBuf

/-- The writer's loop, which looks at the flag before it waits; `n` looks have been taken.  How
each write went is printed if it failed. -/
def run (flag : Nat → Bool) (n : Nat) (self : WriteHalf) :
    List (Except IoError Unit) × WriteHalf :=
  if flag n then ([], self)
  else
    match _h : self.recv with
    | (none, self) => ([], self)
    | (some msg, next) =>
        let (result, writer) := put next.writer msg
        let (results, self) := run flag (n + 1) { next with writer }
        (result :: results, self)
termination_by self.receiver.length
decreasing_by
  rcases self with ⟨writer, _ | ⟨msg', receiver⟩⟩
  · cases _h
  · cases _h
    exact Nat.lt_succ_self _

/-- Dropping the writer flushes it once more, and nobody learns how that went. -/
def drop (self : WriteHalf) : Bytes := self.writer.flushBuf.2.buf.file

/-- The items that the loop comes to. -/
def taken (flag : Nat → Bool) : Nat → List Bytes → List Bytes
  | _, [] => []
  | n, msg :: msgs => if flag n then [] else msg :: taken flag (n + 1) msgs

/-- What got through of each item: the whole of it if the write succeeded, and else a beginning. -/
inductive Written : List Bytes → List (Except IoError Unit) → List Bytes → Prop
  | nil : Written [] [] []
  | whole {msg : Bytes} {msgs : List Bytes} {results : List (Except IoError Unit)}
      {pieces : List Bytes} :
      Written msgs results pieces → Written (msg :: msgs) (.ok () :: results) (msg :: pieces)
  | part {msg p : Bytes} {e : IoError} {msgs : List Bytes} {results : List (Except IoError Unit)}
      {pieces : List Bytes} :
      p <+: msg → Written msgs results pieces →
        Written (msg :: msgs) (.error e :: results) (p :: pieces)

section Run

variable {flag : Nat → Bool} {n : Nat} {writer : FaultyWriter} {msg : Bytes} {msgs : List Bytes}

theorem run_of_set (h : flag n = true) (self : WriteHalf) : self.run flag n = ([], self) := by
  rw [run, if_pos h]

theorem run_nil (h : flag n = false) : run flag n ⟨writer, []⟩ = ([], ⟨writer, []⟩) := by
  rw [run, if_neg (by rw [h]; exact Bool.false_ne_true)]
  rfl

theorem run_cons (h : flag n = false) :
    run flag n ⟨writer, msg :: msgs⟩ =
      ((put writer msg).1 :: (run flag (n + 1) ⟨(put writer msg).2, msgs⟩).1,
        (run flag (n + 1) ⟨(put writer msg).2, msgs⟩).2) := by
  rw [run, if_neg (by rw [h]; exact Bool.false_ne_true)]
  rfl

/-- One item: a beginning of it goes behind what was there, and the whole of it if the write
succeeds. -/
theorem put_cases (writer : FaultyWriter) (msg : Bytes) :
    ((put writer msg).1 = .ok () ∧ Grows writer (put writer msg).2 msg ∧
        (put writer msg).2.buf.queue = []) ∨
      ∃ e p, (put writer msg).1 = .error e ∧ p <+: msg ∧ Grows writer (put writer msg).2 p := by
  have hends := ends_writeAll writer msg
  rw [put]
  rcases hw : writer.writeAll msg with ⟨e | ⟨⟩, writer'⟩
  · rw [hw] at hends
    rcases hends with ⟨hok, -⟩ | ⟨e', p, -, hp, -, hg⟩
    · cases hok
    · exact .inr ⟨e, p, rfl, hp, hg⟩
  · rw [hw] at hends
    rcases hends with ⟨-, hg⟩ | ⟨e', p, herror, -⟩
    · have hgrows : Grows writer writer'.flushBuf.2 msg :=
        List.append_nil msg ▸ hg.trans (grows_flushBuf writer')
      dsimp only
      cases hr : writer'.flushBuf.1 with
      | ok u => exact .inl ⟨rfl, hgrows, queue_flushBuf hr⟩
      | error e => exact .inr ⟨e, msg, rfl, List.prefix_rfl, hgrows⟩
    · cases herror

/-- What the client gets: for each item that the loop comes to, in order, a beginning of it, and
the whole of it if the write succeeded.  All of it is on the wire, or still in the buffer. -/
theorem written_run (flag : Nat → Bool) (n : Nat) (writer : FaultyWriter) (msgs : List Bytes) :
    ∃ pieces, Written (taken flag n msgs) (run flag n ⟨writer, msgs⟩).1 pieces ∧
      Grows writer (run flag n ⟨writer, msgs⟩).2.writer pieces.flatten := by
  induction msgs generalizing n writer with
  | nil =>
      refine ⟨[], ?_⟩
      cases h : flag n with
      | true => rw [run_of_set h]; exact ⟨.nil, .refl writer⟩
      | false => rw [run_nil h]; exact ⟨.nil, .refl writer⟩
  | cons msg msgs ih =>
      cases h : flag n with
      | true =>
          rw [run_of_set h, taken, if_pos h]
          exact ⟨[], .nil, .refl writer⟩
      | false =>
          obtain ⟨pieces, hwritten, hgrows⟩ := ih (n + 1) (put writer msg).2
          rw [run_cons h, taken, if_neg (by rw [h]; exact Bool.false_ne_true)]
          rcases put_cases writer msg with ⟨hr, hg, -⟩ | ⟨e, p, hr, hp, hg⟩
          · rw [hr]
            exact ⟨msg :: pieces, .whole hwritten, hg.trans hgrows⟩
          · rw [hr]
            exact ⟨p :: pieces, .part hp hwritten, hg.trans hgrows⟩

end Run

end WriteHalf

/-! ## From end to end -/

/-- Whatever is served, there is one reply for each request. -/
theorem Serves.replies {clock : Nat → Readings} {n : Nat} {cache cache' : Cache}
    {requests : List Request} {writes : List WriteCommand} {acts : List Act}
    (h : Serves clock n cache requests cache' writes acts) :
    ∃ replies : List Reply, replies.length = requests.length ∧
      sends acts = replies.map Reply.toBytes := by
  induction h with
  | nil => exact ⟨[], rfl, rfl⟩
  | ping message _ ih =>
      obtain ⟨replies, hlen, hsends⟩ := ih
      exact ⟨_ :: replies, congrArg (· + 1) hlen, congrArg (List.cons _) hsends⟩
  | command _ _ _ _ ih =>
      obtain ⟨replies, hlen, hsends⟩ := ih
      exact ⟨_ :: replies, congrArg (· + 1) hlen, congrArg (List.cons _) hsends⟩

end Steller
