import Steller.Domain.Executor
import Steller.Inbound.PubSub
import Steller.Inbound.Session
import Steller.Inbound.Ttl

/-!
# The loop of a session

`Session::repl` is three loops inside one another.  `read_frame` goes back to the
socket until a frame is whole, `read_command` goes back to `read_frame` until a
frame lifts into a command, and the outer loop has the command executed and
queues the reply.  Each of them answers what it cannot use, and any failure to
queue an answer ends the session.

`attend` says the same without the loops: one delivery of the socket after the
other, each with the frames that it completes, each frame with its answer.
`loop_eq_attend` is the connection, for any bytes, cut into any pieces, and for
any behaviour of what the session calls on.
-/

namespace Steller

open Incremental

/-! ## Answers to what cannot be used -/

/-- `Display` for `CommandError`. -/
def CommandError.display : CommandError → Bytes
  | .unrecognizedCommand => ascii "unrecognized command"
  | .notEnoughParts => ascii "not enough parts"
  | .tooManyParts => ascii "too many parts"
  | .syntaxError => ascii "syntax error"
  | .utf8 e => e.display
  | .parseInt e => e.display

/-- `Display` for `SystemTimeError`. -/
def SystemTimeError.display : SystemTimeError → Bytes
  | .beforeEpoch => ascii "second time provided was later than self"

/-- `Display` for `CommandFromFrameError`. -/
def CommandFromFrameError.display : CommandFromFrameError → Bytes
  | .commandError e => e.display
  | .unexpectedFrame => ascii "unexpected value; command is made of an array of bulk strings"
  | .systemTime e => e.display

/-- The reply to a frame that does not lift. -/
def CommandFromFrameError.reply (e : CommandFromFrameError) : Bytes :=
  (Reply.simpleError (.sanitized (ascii "ERR " ++ e.display))).toBytes

/-! ## What a session works with -/

/-- Failure inside a `Channels` operation. -/
inductive ChannelsError where
  /-- A thread panicked while holding the registry lock. -/
  | mutexPoisoned
deriving DecidableEq

/-- What a session's loop calls on: the executor behind the `Execute` port, and the registry of
channels.  Other sessions call on them too; what they do between two calls is part of what this
one finds. -/
class Backend (W : Type) where
  /-- `Execute::execute_logged`, with the answers the clock gives. -/
  executeLogged : W → Reading → Reading → CacheCommand → Except ExecuteError CommandOutcome × W
  /-- `ReadHalf::execute_channel_command`. -/
  executeChannelCommand : W → ChannelCommand → Except ChannelsError ChannelCommandOutcome × W
  /-- `ReadHalf::unsubscribe_from_all`. -/
  unsubscribeFromAll : W → W

/-- Why a session ended with an error. -/
inductive SessionError where
  | io (error : IoError)
  | executor (error : ExecuteError)
  /-- `ReadHalfError::Executor`, with `ExecuteError::Channels`. -/
  | channels (error : ChannelsError)
  /-- The receiving end of the queue is gone. -/
  | send (bytes : Bytes)
deriving DecidableEq

/-- `matches!(e.kind(), IoErrorKind::TimedOut | IoErrorKind::WouldBlock)`, of a read error. -/
def SessionError.isTimeout : SessionError → Bool
  | .io .timedOut | .io .wouldBlock => true
  | _ => false

/-- What can be seen of a session from outside. -/
inductive Act where
  /-- It looks at the shutdown flag. -/
  | poll
  /-- The socket hands over a delivery, or the end of the stream. -/
  | read (delivery : Option Delivery)
  /-- It has a command executed. -/
  | execute (command : CacheCommand)
  /-- It handles a pub/sub command. -/
  | channel (command : ChannelCommand)
  /-- It queues bytes for the client. -/
  | send (bytes : Bytes)
  /-- It leaves its channels. -/
  | leave

/-- A session without its socket. -/
structure Talk (W : Type) where
  backend : W
  /-- How many more items the queue takes before its receiver is dropped, if it ever is. -/
  room : Option Nat
  /-- How many frames have been lifted or refused; the clock answers each in turn. -/
  dealt : Nat
  /-- How many times the flag has been looked at. -/
  polled : Nat
  trace : List Act

/-- What is left of a session that is over: its result and what it did. -/
abbrev Over (W : Type) := Except SessionError Unit × Talk W

namespace Talk

variable {W : Type}

/-- Write down what was done. -/
def note (self : Talk W) (act : Act) : Talk W := { self with trace := self.trace ++ [act] }

/-- Queue bytes, as long as there is a receiver. -/
def send (self : Talk W) (bytes : Bytes) : Over W :=
  match self.room with
  | none => (.ok (), self.note (.send bytes))
  | some 0 => (.error (.send bytes), self)
  | some (n + 1) => (.ok (), { self with room := some n }.note (.send bytes))

theorem send_cases (self : Talk W) (bytes : Bytes) :
    (∃ room, self.send bytes = (.ok (), { self with room }.note (.send bytes))) ∨
      self.send bytes = (.error (.send bytes), self) := by
  unfold send
  split
  · next h => exact .inl ⟨self.room, rfl⟩
  · exact .inr rfl
  · next n h => exact .inl ⟨some n, rfl⟩

/-- Answer a frame that does not lift. -/
def refuse (self : Talk W) (e : CommandFromFrameError) : Over W :=
  { self with dealt := self.dealt + 1 }.send e.reply

/-- Have a command carried out and queue the reply. -/
def dispatch [Backend W] (clock : Nat → Readings) (self : Talk W) : Command → Over W
  | .cache command =>
      let readings := clock self.dealt
      let (result, backend) :=
        Backend.executeLogged self.backend readings.now readings.later command
      let self := { self with backend, dealt := self.dealt + 1 }.note (.execute command)
      match result with
      | .error e => (.error (.executor e), self)
      | .ok outcome => self.send (Reply.ofCommandOutcome outcome).toBytes
  | .channel command =>
      let (result, backend) := Backend.executeChannelCommand self.backend command
      let self := { self with backend, dealt := self.dealt + 1 }.note (.channel command)
      match result with
      | .error e => (.error (.channels e), self)
      | .ok outcome => self.send (Replies.ofChannelCommandOutcome outcome).toBytes
  | .ping message =>
      { self with dealt := self.dealt + 1 }.send
        (Reply.ofCommandOutcome (.pong message)).toBytes

end Talk

/-- A session: its socket and the rest. -/
structure Repl (W : Type) where
  reader : SessionReader
  /-- After its deliveries the connection fails, rather than come to an end. -/
  broken : Bool
  talk : Talk W

/-- What a call for the next frame or command comes to: none at the end of the stream. -/
abbrev Next (α : Type) := Except SessionError (Option α)

/-- The loops only go on after a frame or a timeout. -/
def Next.goesOn {α : Type} : Next α → Bool
  | .ok (some _) => true
  | .ok none => false
  | .error e => e.isTimeout

/-! ## The three loops -/

namespace Repl

variable {W : Type} (clock : Nat → Readings) (flag : Nat → Bool)

/-- Read from the socket onto the end of the buffer. -/
def read (self : Repl W) : Except IoError Nat × Repl W :=
  let talk := self.talk.note (.read self.reader.inner.head?)
  if self.broken ∧ self.reader.inner = [] then (.error .other, { self with talk })
  else
    let (result, reader) := self.reader.read
    (result, { self with reader, talk })

/-- A read that brings bytes, or a timeout, uses up a delivery. -/
theorem size_read {self next : Repl W} {r : Except IoError Nat} (h : self.read = (r, next))
    (h0 : r ≠ .ok 0) (hother : r ≠ .error .other) : next.reader.size < self.reader.size := by
  rw [read] at h
  split at h
  · cases h
    exact absurd rfl hother
  · rcases hr : self.reader.read with ⟨r', reader⟩
    rw [hr] at h
    cases h
    exact SessionReader.size_read hr h0

/-- Read the next complete frame.  A malformed one is answered and skipped; `none` is the end of
the stream. -/
def readFrame (self : Repl W) : Next Frame × Repl W :=
  match _hparse : self.reader.parseFrame with
  | (.ok frame, reader) => (.ok (some frame), { self with reader })
  | (.error e, reader) =>
      if _he : e = .incomplete then
        match _hread : read { self with reader } with
        | (.error e, self) => (.error (.io e), self)
        | (.ok len, self) => if _hlen : len = 0 then (.ok none, self) else readFrame self
      else
        match self.talk.send e.reply with
        | (.error e, talk) => (.error e, { self with reader, talk })
        | (.ok (), talk) => readFrame { self with reader, talk }
termination_by self.reader.size
decreasing_by
  · subst _he
    have hlt := size_read _hread (mt Except.ok.inj _hlen) nofun
    rwa [SessionReader.parseFrame_incomplete _hparse] at hlt
  · exact SessionReader.size_parseFrame_error _hparse _he

section Rounds

variable {self : Repl W}

theorem readFrame_of_ok {frame : Frame} {rest : Bytes}
    (h : Frame.parseOne self.reader.buf = .ok (frame, rest)) :
    self.readFrame = (.ok (some frame), { self with reader := ⟨self.reader.inner, rest⟩ }) := by
  rw [readFrame]
  split
  · next frame' reader hparse =>
      rw [SessionReader.parseFrame_of_ok h] at hparse
      cases hparse
      rfl
  · next e reader hparse =>
      rw [SessionReader.parseFrame_of_ok h] at hparse
      cases hparse

theorem readFrame_of_error {e : FrameError} (h : Frame.parseOne self.reader.buf = .error e)
    (he : e ≠ .incomplete) :
    self.readFrame = match self.talk.send e.reply with
      | (.error e, talk) => (.error e, ⟨⟨self.reader.inner, []⟩, self.broken, talk⟩)
      | (.ok (), talk) => readFrame ⟨⟨self.reader.inner, []⟩, self.broken, talk⟩ := by
  rw [readFrame]
  split
  · next frame reader hparse =>
      rw [SessionReader.parseFrame_of_error h he] at hparse
      cases hparse
  · next e' reader hparse =>
      rw [SessionReader.parseFrame_of_error h he] at hparse
      cases hparse
      rw [dif_neg he]

/-- A buffer that is short of a frame sends the loop to the socket. -/
theorem readFrame_of_incomplete (h : Frame.parseOne self.reader.buf = .error .incomplete) :
    self.readFrame = match self.read with
      | (.error e, self) => (.error (.io e), self)
      | (.ok len, self) => if len = 0 then (.ok none, self) else readFrame self := by
  rw [readFrame]
  split
  · next frame reader hparse =>
      rw [SessionReader.parseFrame_of_incomplete h] at hparse
      cases hparse
  · next e reader hparse =>
      rw [SessionReader.parseFrame_of_incomplete h] at hparse
      cases hparse
      rw [dif_pos rfl]
      rcases self.read with ⟨e | len, next⟩
      · rfl
      · simp only [dite_eq_ite]

end Rounds

/-- A call after which the loops go on uses up input. -/
theorem size_readFrame (self : Repl W) (h : self.readFrame.1.goesOn) :
    self.readFrame.2.reader.size < self.reader.size := by
  induction hn : self.reader.size using WellFoundedLT.induction generalizing self with
  | _ n ih =>
      subst hn
      cases hp : Frame.parseOne self.reader.buf with
      | ok q =>
          rw [readFrame_of_ok hp]
          exact Prod.Lex.right _ (Frame.stable_parseOne.consumes hp)
      | error e =>
          by_cases he : e = .incomplete
          · subst he
            rw [readFrame_of_incomplete hp] at h ⊢
            rcases hr : self.read with ⟨e | len, next⟩
            · rw [hr] at h
              exact size_read hr nofun fun hother ↦ by cases hother; cases h
            · rw [hr] at h
              by_cases hlen : len = 0
              · simp only [if_pos hlen] at h; cases h
              · simp only [if_neg hlen] at h ⊢
                have hlt := size_read hr (mt Except.ok.inj hlen) nofun
                exact (ih _ hlt _ h rfl).trans hlt
          · have hlt := SessionReader.size_parseFrame_error
              (SessionReader.parseFrame_of_error hp he) he
            rw [readFrame_of_error hp he] at h ⊢
            rcases hs : self.talk.send e.reply with ⟨e | ⟨⟩, talk⟩
            · exact hlt
            · rw [hs] at h
              exact (ih _ hlt ⟨_, _, _⟩ h rfl).trans hlt

/-- Read the next frame and lift it into a command.  One that does not lift is answered and
skipped. -/
def readCommand (self : Repl W) : Next Command × Repl W :=
  match _hframe : self.readFrame with
  | (.error e, self) => (.error e, self)
  | (.ok none, self) => (.ok none, self)
  | (.ok (some frame), next) =>
      match Command.tryFrom (clock next.talk.dealt).parse frame with
      | .ok command => (.ok (some command), next)
      | .error e =>
          match next.talk.refuse e with
          | (.error e, talk) => (.error e, { next with talk })
          | (.ok (), talk) => readCommand { next with talk }
termination_by self.reader.size
decreasing_by
  have hlt := self.size_readFrame (by rw [_hframe]; rfl)
  rw [_hframe] at hlt
  exact hlt

/-- What `read_command` makes of one call of `read_frame`. -/
def afterFrame : Next Frame × Repl W → Next Command × Repl W
  | (.error e, self) => (.error e, self)
  | (.ok none, self) => (.ok none, self)
  | (.ok (some frame), next) =>
      match Command.tryFrom (clock next.talk.dealt).parse frame with
      | .ok command => (.ok (some command), next)
      | .error e =>
          match next.talk.refuse e with
          | (.error e, talk) => (.error e, { next with talk })
          | (.ok (), talk) => readCommand clock { next with talk }

theorem readCommand_eq (self : Repl W) :
    self.readCommand clock = afterFrame clock self.readFrame := by
  rw [readCommand]
  split <;> next h => rw [h]; rfl

theorem size_readCommand (self : Repl W) (h : (self.readCommand clock).1.goesOn) :
    (self.readCommand clock).2.reader.size < self.reader.size := by
  induction hn : self.reader.size using WellFoundedLT.induction generalizing self with
  | _ n ih =>
      subst hn
      have hframe := self.size_readFrame
      rw [readCommand_eq] at h ⊢
      rcases hr : self.readFrame with ⟨e | _ | frame, next⟩
      · rw [hr] at hframe h
        exact hframe h
      · rw [hr] at h
        cases h
      · rw [hr] at hframe h
        have hlt := hframe rfl
        rw [afterFrame] at h ⊢
        cases hlift : Command.tryFrom (clock next.talk.dealt).parse frame with
        | ok command => exact hlt
        | error e =>
            rw [hlift] at h
            rcases hs : next.talk.refuse e with ⟨e' | ⟨⟩, talk⟩
            · simp only [hs]
              exact hlt
            · simp only [hs] at h ⊢
              exact (ih _ hlt ⟨_, _, _⟩ h rfl).trans hlt

variable [Backend W]

/-- The reader loop, which ends on the flag, on the end of the stream or on an error; a timeout
only takes it back to the flag. -/
def loop (self : Repl W) : Over W :=
  let talk := { self.talk with polled := self.talk.polled + 1 }.note .poll
  if flag self.talk.polled then (.ok (), talk)
  else
    match _hcommand : readCommand clock { self with talk } with
    | (.ok (some command), next) =>
        match next.talk.dispatch clock command with
        | (.error e, talk) => (.error e, talk)
        | (.ok (), talk) => loop { next with talk }
    | (.ok none, next) => (.ok (), next.talk)
    | (.error e, next) => if _he : e.isTimeout then loop next else (.error e, next.talk)
termination_by self.reader.size
decreasing_by
  all_goals
    have hlt := size_readCommand clock
      { self with talk := { self.talk with polled := self.talk.polled + 1 }.note .poll }
      (by rw [_hcommand]; first | rfl | assumption)
    rw [_hcommand] at hlt
    exact hlt

/-- `Session::repl`, on the reading thread: the loop, and then the channels are left. -/
def repl (self : Repl W) : Over W :=
  let (result, talk) := self.loop clock flag
  (result, { talk with backend := Backend.unsubscribeFromAll talk.backend }.note .leave)

end Repl

/-! ## The same without loops -/

section Turns

variable {W : Type}

/-- A session goes on after a call that did not fail. -/
def Over.turn : Over W → Except (Over W) (Talk W)
  | (.ok (), talk) => .ok talk
  | (.error e, talk) => .error (.error e, talk)

/-- Carry on to the end, if the session is not over. -/
def finish (next : Talk W → Over W) : Except (Over W) (Talk W) → Over W
  | .ok talk => next talk
  | .error left => left

theorem finish_bind (next : Talk W → Over W) (self : Except (Over W) (Talk W))
    (f : Talk W → Except (Over W) (Talk W)) :
    finish next (self >>= f) = finish (fun talk ↦ finish next (f talk)) self := by
  cases self <;> rfl

end Turns

namespace Talk

variable {W : Type} (clock : Nat → Readings) (flag : Nat → Bool)

/-- Look at the shutdown flag. -/
def poll (self : Talk W) : Except (Over W) (Talk W) :=
  let talk := { self with polled := self.polled + 1 }.note .poll
  if flag self.polled then .error (.ok (), talk) else .ok talk

/-- Receive a delivery.  A timeout makes the session look at the flag. -/
def receive (self : Talk W) (d : Delivery) : Except (Over W) (Talk W) :=
  match d with
  | .chunk _ _ _ => .ok (self.note (.read d))
  | .timedOut => (self.note (.read d)).poll flag
  | .wouldBlock => (self.note (.read d)).poll flag

variable [Backend W]

/-- Deal with a frame: refuse it, or have the command carried out and look at the flag. -/
def handle (self : Talk W) (frame : Frame) : Except (Over W) (Talk W) :=
  match Command.tryFrom (clock self.dealt).parse frame with
  | .error e => Over.turn (self.refuse e)
  | .ok command => Over.turn (self.dispatch clock command) >>= poll flag

/-- Deal with frames one after another, and at last with a malformed one. -/
def handleAll (found : Drained UInt8 FrameError Frame) (self : Talk W) :
    Except (Over W) (Talk W) := do
  let talk ← found.items.foldlM (handle clock flag) self
  match found.stop with
  | none => pure talk
  | some e => Over.turn (talk.send e.reply)

theorem handleAll_cons (frame : Frame) (found : Drained UInt8 FrameError Frame) (self : Talk W) :
    self.handleAll clock flag (found.cons frame) =
      self.handle clock flag frame >>= handleAll clock flag found := by
  simp only [handleAll, Drained.cons, List.foldlM_cons, bind_assoc]
  rfl

end Talk

/-- What is left in the buffer: an incomplete frame, or nothing if a malformed one was found. -/
def kept (found : Drained UInt8 FrameError Frame) : Bytes :=
  if found.stop.isSome then [] else found.rest

/-- What a session comes to when the socket has nothing more to deliver. -/
def ended (broken : Bool) : Except SessionError Unit :=
  if broken then .error (.io .other) else .ok ()

/-- One delivery after another: the frames that each of them completes are dealt with before the
next one is asked for. -/
def attend {W : Type} [Backend W] (clock : Nat → Readings) (flag : Nat → Bool) (broken : Bool) :
    Bytes → List Delivery → Talk W → Over W
  | _, [], talk => (ended broken, talk.note (.read none))
  | buf, d :: deliveries, talk =>
      let found := drain .incomplete Frame.parseOne (buf ++ d.bytes)
      finish (attend clock flag broken (kept found) deliveries)
        (talk.receive flag d >>= Talk.handleAll clock flag found)

namespace Repl

variable {W : Type} [Backend W] (clock : Nat → Readings) (flag : Nat → Bool)

/-- What the loop makes of one call of `read_command`. -/
def afterCommand : Next Command × Repl W → Over W
  | (.ok (some command), next) =>
      match next.talk.dispatch clock command with
      | (.error e, talk) => (.error e, talk)
      | (.ok (), talk) => loop clock flag { next with talk }
  | (.ok none, next) => (.ok (), next.talk)
  | (.error e, next) => if e.isTimeout then loop clock flag next else (.error e, next.talk)

/-- The session, from inside `read_command`. -/
def reading (self : Repl W) : Over W := afterCommand clock flag (self.readCommand clock)

theorem loop_eq (self : Repl W) :
    self.loop clock flag =
      finish (fun talk ↦ reading clock flag { self with talk }) (self.talk.poll flag) := by
  rw [loop, Talk.poll]
  dsimp only
  split
  · rfl
  · rw [finish, reading]
    split <;> next h => rw [h]; rfl

section Readings

variable {inner : List Delivery} {buf : Bytes} {broken : Bool} {talk : Talk W}

theorem reading_eq (self : Repl W) :
    reading clock flag self = afterCommand clock flag (afterFrame clock self.readFrame) := by
  rw [reading, readCommand_eq]

theorem reading_of_ok {frame : Frame} {rest : Bytes}
    (h : Frame.parseOne buf = .ok (frame, rest)) :
    reading clock flag ⟨⟨inner, buf⟩, broken, talk⟩ =
      finish (fun talk ↦ reading clock flag ⟨⟨inner, rest⟩, broken, talk⟩)
        (talk.handle clock flag frame) := by
  rw [reading_eq, readFrame_of_ok h, afterFrame, Talk.handle]
  dsimp only
  cases hlift : Command.tryFrom (clock talk.dealt).parse frame with
  | error e =>
      dsimp only
      rw [Talk.refuse]
      rcases Talk.send_cases { talk with dealt := talk.dealt + 1 } e.reply with
        ⟨room, hs⟩ | hs
      · rw [hs]
        rfl
      · rw [hs]
        rfl
  | ok command =>
      dsimp only
      rw [afterCommand, finish_bind]
      rcases hs : talk.dispatch clock command with ⟨e' | ⟨⟩, talk'⟩
      · rfl
      · exact loop_eq clock flag _

theorem reading_of_error {e : FrameError} (h : Frame.parseOne buf = .error e)
    (he : e ≠ .incomplete) :
    reading clock flag ⟨⟨inner, buf⟩, broken, talk⟩ =
      finish (fun talk ↦ reading clock flag ⟨⟨inner, []⟩, broken, talk⟩)
        (Over.turn (talk.send e.reply)) := by
  rw [reading_eq, readFrame_of_error h he]
  rcases talk.send_cases e.reply with ⟨room, hs⟩ | hs
  · dsimp only
    rw [hs]
    exact (reading_eq clock flag _).symm
  · dsimp only
    rw [hs]
    rfl

theorem reading_of_nil (h : Frame.parseOne buf = .error .incomplete) :
    reading clock flag ⟨⟨[], buf⟩, broken, talk⟩ = (ended broken, talk.note (.read none)) := by
  rw [reading_eq, readFrame_of_incomplete h]
  cases broken with
  | true => rfl
  | false => rfl

/-- A delivery adds its bytes to the buffer; a timeout takes the session back to the flag. -/
theorem reading_of_delivery (h : Frame.parseOne buf = .error .incomplete) (d : Delivery) :
    reading clock flag ⟨⟨d :: inner, buf⟩, broken, talk⟩ =
      finish (fun talk ↦ reading clock flag ⟨⟨inner, buf ++ d.bytes⟩, broken, talk⟩)
        (talk.receive flag d) := by
  rw [reading_eq, readFrame_of_incomplete h, read, if_neg (by simp)]
  cases d with
  | chunk bytes nonempty length_le =>
      have hlen : bytes.length ≠ 0 := mt List.eq_nil_of_length_eq_zero nonempty
      simp only [SessionReader.read, if_neg hlen]
      exact (reading_eq clock flag _).symm
  | timedOut =>
      rw [Delivery.bytes, List.append_nil]
      exact loop_eq clock flag _
  | wouldBlock =>
      rw [Delivery.bytes, List.append_nil]
      exact loop_eq clock flag _

end Readings

variable (broken : Bool)

/-- Between two reads the session deals with the frames in its buffer, by induction on what is in
it; it is enough to know what happens when the buffer is short of a frame. -/
theorem reading_of_short {inner : List Delivery}
    (hshort : ∀ buf (talk : Talk W), Frame.parseOne buf = .error .incomplete →
      reading clock flag ⟨⟨inner, buf⟩, broken, talk⟩ =
        attend clock flag broken buf inner talk)
    (buf : Bytes) (talk : Talk W) :
    reading clock flag ⟨⟨inner, buf⟩, broken, talk⟩ =
      finish (attend clock flag broken (kept (drain .incomplete Frame.parseOne buf)) inner)
        (talk.handleAll clock flag (drain .incomplete Frame.parseOne buf)) := by
  induction hn : buf.length using Nat.strong_induction_on generalizing buf talk with
  | _ n ih =>
      cases hp : Frame.parseOne buf with
      | ok q =>
          obtain ⟨frame, rest⟩ := q
          rw [drain_of_ok Frame.stable_parseOne hp, reading_of_ok clock flag hp,
            Talk.handleAll_cons, finish_bind]
          refine congrArg (fun next ↦ finish next (talk.handle clock flag frame))
            (funext fun talk' ↦ ?_)
          exact ih _ (hn ▸ Frame.stable_parseOne.consumes hp) rest talk' rfl
      | error e =>
          by_cases he : e = .incomplete
          · subst he
            rw [drain_of_short hp, hshort buf talk hp]
            rfl
          · rw [drain_of_error hp he, reading_of_error clock flag hp he]
            refine congrArg (fun next ↦ finish next (Over.turn (talk.send e.reply)))
              (funext fun talk' ↦ ?_)
            exact hshort [] talk' Frame.stable_parseOne.nil

/-- From any buffer that is short of a frame, and any deliveries to come. -/
theorem reading_eq_attend (inner : List Delivery) {buf : Bytes}
    (h : Frame.parseOne buf = .error .incomplete) (talk : Talk W) :
    reading clock flag ⟨⟨inner, buf⟩, broken, talk⟩ =
      attend clock flag broken buf inner talk := by
  induction inner generalizing buf talk with
  | nil => exact reading_of_nil clock flag h
  | cons d inner ih =>
      rw [reading_of_delivery clock flag h, attend, finish_bind]
      refine congrArg (fun next ↦ finish next (talk.receive flag d)) (funext fun talk' ↦ ?_)
      exact reading_of_short clock flag broken (fun buf talk hp ↦ ih hp talk) _ talk'

/-- The loops of a session, over whatever the socket delivers: it looks at the flag, and then
takes one delivery after the other.  Before it asks for the next one it has dealt, in order, with
every frame that is complete by then: answered those that are malformed or do not lift, and had
the others carried out, looking at the flag after each.  It ends where the flag is found set, where
a command fails or an answer cannot be queued, or where the socket has no more to deliver. -/
theorem loop_eq_attend (deliveries : List Delivery) (talk : Talk W) :
    loop clock flag ⟨⟨deliveries, []⟩, broken, talk⟩ =
      finish (attend clock flag broken [] deliveries) (talk.poll flag) := by
  rw [loop_eq]
  refine congrArg (fun next ↦ finish next (talk.poll flag)) (funext fun talk' ↦ ?_)
  exact reading_eq_attend clock flag broken deliveries Frame.stable_parseOne.nil talk'

/-- A whole session on its reading thread: the loops as `attend` has them, and whichever way they
end, every channel is left then, and only then. -/
theorem repl_eq_attend (deliveries : List Delivery) (talk : Talk W) :
    repl clock flag ⟨⟨deliveries, []⟩, broken, talk⟩ =
      let (result, talk) := finish (attend clock flag broken [] deliveries) (talk.poll flag)
      (result,
        { talk with backend := Backend.unsubscribeFromAll talk.backend }.note .leave) := by
  rw [repl, loop_eq_attend]

end Repl

end Steller
