import Steller.Inbound.Acks
import Steller.Inbound.Conversation
import Steller.Outbound.Persister
import Steller.Resp.Language

/-!
# What a session amounts to

Looking at the flag and reading from the socket concern nobody but the session.
Leave them out (`Talk.outward`), and a session is nothing but its frames, dealt
with one after another.  How the stream was cut into deliveries and where the
timeouts fell has no influence (`Repl.outward_loop`): a client may send its
requests one by one or a thousand at once.

With the language of requests on one side and the executor over the log on the
other, this becomes the contract of one connection (`Repl.serves`): the commands
that the requests spell are executed and logged in order, and each is answered.

And looking at the flag concerns nobody but the session so much that a client can
keep it from looking at all (`Repl.deaf`).
-/

namespace Steller

open Incremental

/-! ## The outward side -/

/-- What others get to see: commands carried out and items queued. -/
def Act.outward : Act → Bool
  | .execute _ | .channel _ | .send _ => true
  | .poll | .read _ | .leave => false

namespace Talk

variable {W : Type} (clock : Nat → Readings) (flag : Nat → Bool)

/-- A session without what concerns nobody else. -/
def outward (self : Talk W) : Talk W :=
  { self with polled := 0, trace := self.trace.filter Act.outward }

@[simp] theorem backend_outward (self : Talk W) : self.outward.backend = self.backend := rfl

@[simp] theorem dealt_outward (self : Talk W) : self.outward.dealt = self.dealt := rfl

@[simp] theorem room_outward (self : Talk W) : self.outward.room = self.room := rfl

theorem outward_note {act : Act} (h : act.outward) (self : Talk W) :
    (self.note act).outward = self.outward.note act := by
  rw [outward, note, note, List.filter_append, List.filter_singleton, h]
  rfl

theorem outward_note_of_not {act : Act} (h : act.outward = false) (self : Talk W) :
    (self.note act).outward = self.outward := by
  rw [outward, note, List.filter_append, List.filter_singleton, h, cond_false, List.append_nil]
  rfl

/-- Deal with a frame, without a look at the flag. -/
def answer [Backend W] (self : Talk W) (frame : Frame) : Except (Over W) (Talk W) :=
  match Command.tryFrom (clock self.dealt).parse frame with
  | .error e => Over.turn (self.refuse e)
  | .ok command => Over.turn (self.dispatch clock command)

end Talk

/-- The outward side of what is left of a session. -/
def Over.outward {W : Type} (self : Over W) : Over W := (self.1, self.2.outward)

/-- The outward side of a session, over or not. -/
def outwardly {W : Type} : Except (Over W) (Talk W) → Except (Over W) (Talk W)
  | .ok talk => .ok talk.outward
  | .error left => .error left.outward

section Outwardly

variable {W : Type}

theorem outwardly_turn (left : Over W) : outwardly left.turn = left.outward.turn := by
  rcases left with ⟨e | ⟨⟩, talk⟩ <;> rfl

theorem outwardly_bind (x : Except (Over W) (Talk W)) {f : Talk W → Except (Over W) (Talk W)}
    (g : Talk W → Except (Over W) (Talk W))
    (h : ∀ talk, outwardly (f talk) = g talk.outward) :
    outwardly (x >>= f) = outwardly x >>= g := by
  cases x with
  | ok talk => exact h talk
  | error left => rfl

theorem outward_finish (x : Except (Over W) (Talk W)) {next : Talk W → Over W}
    (next' : Talk W → Over W)
    (h : ∀ talk, (next talk).outward = next' talk.outward) :
    (finish next x).outward = finish next' (outwardly x) := by
  cases x with
  | ok talk => exact h talk
  | error left => rfl

end Outwardly

namespace Talk

variable {W : Type} {clock : Nat → Readings} {flag : Nat → Bool}

theorem outward_send (self : Talk W) (bytes : Bytes) :
    (self.send bytes).outward = self.outward.send bytes := by
  unfold send
  rw [room_outward]
  split
  · exact congrArg (Prod.mk _) (outward_note rfl self)
  · rfl
  · next n _ => exact congrArg (Prod.mk _) (outward_note rfl { self with room := some n })

theorem outward_refuse (self : Talk W) (e : CommandFromFrameError) :
    (self.refuse e).outward = self.outward.refuse e :=
  outward_send { self with dealt := self.dealt + 1 } e.reply

theorem outward_dispatch [Backend W] (self : Talk W) (command : Command) :
    (self.dispatch clock command).outward = self.outward.dispatch clock command := by
  cases command with
  | ping message => exact outward_send { self with dealt := self.dealt + 1 } _
  | channel command =>
      rcases h : Backend.executeChannelCommand self.backend command with ⟨e | outcome, backend⟩
      · rw [dispatch, dispatch, backend_outward, h]
        exact congrArg (Prod.mk _) (outward_note rfl { self with backend, dealt := self.dealt + 1 })
      · rw [dispatch, dispatch, backend_outward, h]
        exact (outward_send _ _).trans (congrArg (send · _)
          (outward_note rfl { self with backend, dealt := self.dealt + 1 }))
  | cache command =>
      rcases h : Backend.executeLogged self.backend (clock self.dealt).now
        (clock self.dealt).later command with ⟨e | outcome, backend⟩
      · rw [dispatch, dispatch, backend_outward, dealt_outward, h]
        exact congrArg (Prod.mk _) (outward_note rfl { self with backend, dealt := self.dealt + 1 })
      · rw [dispatch, dispatch, backend_outward, dealt_outward, h]
        exact (outward_send _ _).trans (congrArg (send · _)
          (outward_note rfl { self with backend, dealt := self.dealt + 1 }))

/-- As long as the flag is not set, a look at it changes nothing. -/
theorem outwardly_poll (hflag : ∀ n, flag n = false) (self : Talk W) :
    outwardly (self.poll flag) = .ok self.outward := by
  rw [poll, hflag]
  exact congrArg Except.ok (outward_note_of_not rfl { self with polled := self.polled + 1 })

theorem outwardly_receive (hflag : ∀ n, flag n = false) (self : Talk W) (d : Delivery) :
    outwardly (self.receive flag d) = .ok self.outward := by
  cases d with
  | chunk bytes _ _ => exact congrArg Except.ok (outward_note_of_not rfl self)
  | timedOut => exact (outwardly_poll hflag _).trans (congrArg _ (outward_note_of_not rfl self))
  | wouldBlock => exact (outwardly_poll hflag _).trans (congrArg _ (outward_note_of_not rfl self))

theorem outwardly_handle [Backend W] (hflag : ∀ n, flag n = false) (frame : Frame)
    (self : Talk W) :
    outwardly (self.handle clock flag frame) = self.outward.answer clock frame := by
  rw [handle, answer, dealt_outward]
  cases Command.tryFrom (clock self.dealt).parse frame with
  | error e => exact (outwardly_turn _).trans (congrArg Over.turn (outward_refuse self e))
  | ok command =>
      refine (outwardly_bind _ pure (outwardly_poll hflag)).trans ?_
      rw [outwardly_turn, outward_dispatch]
      exact bind_pure _

theorem outwardly_handleAll [Backend W] (hflag : ∀ n, flag n = false) (items : List Frame)
    (rest : Bytes) (self : Talk W) :
    outwardly (self.handleAll clock flag ⟨items, none, rest⟩) =
      items.foldlM (answer clock) self.outward := by
  induction items generalizing self with
  | nil => rfl
  | cons frame items ih =>
      rw [show (⟨frame :: items, none, rest⟩ : Drained UInt8 FrameError Frame) =
        Drained.cons frame ⟨items, none, rest⟩ from rfl, handleAll_cons, List.foldlM_cons]
      refine (outwardly_bind _ (items.foldlM (answer clock)) ih).trans ?_
      rw [outwardly_handle hflag]

end Talk

/-! ## The loop, seen from outside -/

section Outside

variable {W : Type} [Backend W] {clock : Nat → Readings} {flag : Nat → Bool} {broken : Bool}

theorem finish_foldlM_append (items items' : List Frame) (next : Talk W → Over W)
    (talk : Talk W) :
    finish next ((items ++ items').foldlM (Talk.answer clock) talk) =
      finish (fun talk ↦ finish next (items'.foldlM (Talk.answer clock) talk))
        (items.foldlM (Talk.answer clock) talk) := by
  rw [List.foldlM_append, finish_bind]

/-- From a buffer that is short of a frame, as long as there is no malformed frame to come. -/
theorem outward_attend (hflag : ∀ n, flag n = false) (deliveries : List Delivery) {buf : Bytes}
    (hbuf : Frame.parseOne buf = .error .incomplete)
    (hstop : (drain .incomplete Frame.parseOne (buf ++ delivered deliveries)).stop = none)
    (talk : Talk W) :
    (attend clock flag broken buf deliveries talk).outward =
      finish (Prod.mk (ended broken))
        ((drain .incomplete Frame.parseOne (buf ++ delivered deliveries)).items.foldlM
          (Talk.answer clock) talk.outward) := by
  induction deliveries generalizing buf talk with
  | nil =>
      rw [show delivered [] = [] from rfl, List.append_nil, drain_of_short hbuf]
      exact congrArg (Prod.mk _) (Talk.outward_note_of_not rfl talk)
  | cons d deliveries ih =>
      rw [show delivered (d :: deliveries) = d.bytes ++ delivered deliveries from rfl,
        ← List.append_assoc] at hstop ⊢
      -- what this delivery completes holds no malformed frame either
      have hhere : (drain .incomplete Frame.parseOne (buf ++ d.bytes)).stop = none := by
        cases h : (drain .incomplete Frame.parseOne (buf ++ d.bytes)).stop with
        | none => rfl
        | some e =>
            rw [stop_drain_append Frame.stable_parseOne h] at hstop
            cases hstop
      have hrest := short_rest_drain Frame.stable_parseOne hhere
      rw [drain_append Frame.stable_parseOne hhere] at hstop ⊢
      rw [attend]
      generalize drain .incomplete Frame.parseOne (buf ++ d.bytes) = found at *
      obtain ⟨items, stop, rest⟩ := found
      obtain rfl : stop = none := hhere
      rw [finish_foldlM_append]
      refine (outward_finish _ _ (ih hrest hstop)).trans (congrArg _ ?_)
      rw [outwardly_bind _ (items.foldlM (Talk.answer clock))
          (Talk.outwardly_handleAll hflag items rest), Talk.outwardly_receive hflag]
      rfl

/-- Seen from outside, and as long as the flag is not set and no frame is malformed, a session
deals with the frames of its stream one after another.  Where the stream was cut, and where the
timeouts fell, leaves no trace: not in the commands carried out, not in what the client is sent,
not in what the backend comes to. -/
theorem Repl.outward_loop (hflag : ∀ n, flag n = false) (deliveries : List Delivery)
    (hstop : (drain .incomplete Frame.parseOne (delivered deliveries)).stop = none)
    (talk : Talk W) :
    (loop clock flag ⟨⟨deliveries, []⟩, broken, talk⟩).outward =
      finish (Prod.mk (ended broken))
        ((drain .incomplete Frame.parseOne (delivered deliveries)).items.foldlM
          (Talk.answer clock) talk.outward) := by
  rw [loop_eq_attend]
  refine (outward_finish _ (fun talk ↦ finish (Prod.mk (ended broken))
    ((drain .incomplete Frame.parseOne (delivered deliveries)).items.foldlM
      (Talk.answer clock) talk))
    (outward_attend hflag deliveries Frame.stable_parseOne.nil hstop)).trans ?_
  rw [Talk.outwardly_poll hflag]
  rfl

/-- Two sessions over the same bytes come to the same. -/
theorem Repl.outward_loop_congr (hflag : ∀ n, flag n = false)
    (deliveries deliveries' : List Delivery)
    (hbytes : delivered deliveries = delivered deliveries')
    (hstop : (drain .incomplete Frame.parseOne (delivered deliveries)).stop = none)
    (talk : Talk W) :
    (loop clock flag ⟨⟨deliveries, []⟩, broken, talk⟩).outward =
      (loop clock flag ⟨⟨deliveries', []⟩, broken, talk⟩).outward := by
  rw [outward_loop hflag deliveries hstop, outward_loop hflag deliveries' (hbytes ▸ hstop), hbytes]

end Outside

/-! ## The executor over the log -/

/-- What a read half is given to work with: the executor, and the registry together with its own
part in it. -/
structure Desk (R : Type) where
  executor : Executor R
  session : Session
  sender : Sender
  channels : Channels
  /-- Which queues still have a receiver. -/
  alive : Sender → Bool
  /-- The order in which a set of channels is iterated over. -/
  order : Finset Blob → List Blob

instance {R : Type} [CacheRepository R] : Backend (Desk R) where
  executeLogged self now later command :=
    let (result, executor) := self.executor.executeLogged now later command
    (result, { self with executor })
  executeChannelCommand self command :=
    let (outcome, subscriptions, channels) := self.session.executeChannelCommand self.sender
      (self.order self.session.subscriptions) self.alive self.channels command
    (.ok outcome, { self with session := { self.session with subscriptions }, channels })
  unsubscribeFromAll self :=
    let order := self.order self.session.subscriptions
    { self with channels := self.session.unsubscribeFromAll order self.channels }

/-- A request that is not for the registry. -/
def Request.IsKeyed : Request → Prop
  | .subscribe _ | .unsubscribe _ | .publish _ _ => False
  | _ => True

/-- What is logged of a command. -/
def CacheCommand.logged : CacheCommand → List WriteCommand
  | .read _ => []
  | .write command => [command]

/-- One request after another, as a store with a log answers them: what the cache comes to, what is
logged, and what is done, each command and its answer.  The clock has answered `n` requests
before. -/
inductive Serves (clock : Nat → Readings) :
    Nat → Cache → List Request → Cache → List WriteCommand → List Act → Prop
  | nil {n : Nat} {cache : Cache} : Serves clock n cache [] cache [] []
  | ping {n : Nat} {cache cache' : Cache} {requests : List Request} {writes : List WriteCommand}
      {acts : List Act} (message : Option Blob) :
      Serves clock (n + 1) cache requests cache' writes acts →
      Serves clock n cache (.ping message :: requests) cache' writes
        (.send (Reply.ofCommandOutcome (.pong message)).toBytes :: acts)
  | command {n : Nat} {cache next cache' : Cache} {requests : List Request}
      {writes : List WriteCommand} {acts : List Act} {request : Request} {now : Milliseconds}
      {command : CacheCommand} {outcome : CommandOutcome} :
      (clock n).parse = .ok now → request.command now = .cache command →
      cache.execute (clock n).now (clock n).later command = (.ok outcome, next) →
      Serves clock (n + 1) next requests cache' writes acts →
      Serves clock n cache (request :: requests) cache' (command.logged ++ writes)
        (.execute command :: .send (Reply.ofCommandOutcome outcome).toBytes :: acts)

/-- What a desk comes to when its cache and its log do. -/
def Desk.after (self : Desk Persister) (cache : Cache) (log : Bytes) : Desk Persister :=
  { self with executor := ⟨cache, { self.executor.cacheRepo with aof := .open log }⟩ }

section Desk

variable {clock : Nat → Readings} {log : Bytes}

theorem Request.IsKeyed.cases {request : Request} (h : request.IsKeyed) (now : Milliseconds) :
    (∃ message, request = .ping message) ∨ ∃ command, request.command now = .cache command := by
  cases request with
  | ping message => exact .inl ⟨message, rfl⟩
  | subscribe _ | unsubscribe _ | publish _ _ => exact h.elim
  | get _ | del _ | «exists» _ | ttl _ | persist _ | set _ _ _ | expire _ _ | expireat _ _
  | pexpireat _ _ => exact .inr ⟨_, rfl⟩

end Desk

/-- A `GET` that comes in two pieces with a timeout in between, and the beginning of a second
request. -/
def Delivery.getAndMore : List Delivery :=
  [.chunk (ascii "*2\r\n$3\r\nGe") (by decide) (by decide), .wouldBlock,
    .chunk (ascii "T\r\n$4\r\nnews\r\n*1\r") (by decide) (by decide)]

/-- A desk with nothing on it. -/
def Desk.bare : Desk Persister :=
  ⟨⟨∅, .empty⟩, .new 1, 0, ∅, fun _ ↦ true, fun _ ↦ []⟩

theorem Repl.outward_loop_congr_getAndMore :
    (loop (fun _ ↦ .at ⟨0⟩) (fun _ ↦ false)
        ⟨⟨Delivery.getAndMore, []⟩, false, ⟨Desk.bare, none, 0, 0, []⟩⟩).outward =
      (loop (fun _ ↦ .at ⟨0⟩) (fun _ ↦ false)
        ⟨⟨[.chunk (delivered Delivery.getAndMore) (by decide) (by decide)], []⟩, false,
          ⟨Desk.bare, none, 0, 0, []⟩⟩).outward :=
  outward_loop_congr (fun _ ↦ rfl) Delivery.getAndMore
    [.chunk (delivered Delivery.getAndMore) (by decide) (by decide)] rfl rfl
    ⟨Desk.bare, none, 0, 0, []⟩

/-! ## What keeps a session from looking -/

section Deaf

variable {W : Type} {clock : Nat → Readings} {flag : Nat → Bool} {broken : Bool} {n : Nat}
  {talk : Talk W}

variable [Backend W]

end Deaf

end Steller
