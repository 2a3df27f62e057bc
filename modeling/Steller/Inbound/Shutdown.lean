import Mathlib.Algebra.BigOperators.Group.List.Basic
import Mathlib.Algebra.Ring.Nat
import Steller.Lib.Transition

/-!
# The life of a server

`Server::run` owns the accept loop and the threads: one for signals, one for the
standard input if that is a terminal, the persister, the sweeper, and one for
each client, which starts a second one that writes.  They share a flag.  Whoever
sets it then opens a connection to the server's own address, a *knock*, because
the accept loop only looks at the flag when a connection comes in.

Every thread is a small machine here, and a run is any interleaving of their
steps and of what comes from outside: clients, signals, lines on the terminal,
calls that fail.

* `Lifecycle.served` — no knock is ever taken for a client.
* `Lifecycle.joins_all` — `run` returns only when every thread it started is done.
* `Lifecycle.waits_for_terminal` — so with a terminal attached it does not
  return before the thread there has had its line, whatever signals arrive.
* `Lifecycle.waits_for_reader` — nor before each client has read what is being
  written to it: writes have no timeout.
* `Lifecycle.shuts_down` — otherwise, once the flag is set the threads take so
  many steps and no more, and they do not get stuck before `run` has returned.

A timeout is a step of the thread that reads.  A client that sends one refused
frame after the other lets no timeout happen: then that step stays possible and
is not taken.
-/

namespace Steller

open Transition

/-! ## The threads -/

/-- What comes in at the listener. -/
inductive Connection where
  | client
  /-- The connection that `trigger_shutdown` opens. -/
  | knock
deriving DecidableEq

/-- A thread that waits for the word to shut down. -/
inductive Trigger where
  | waiting
  /-- In `trigger_shutdown`, before the flag is set. -/
  | storing
  /-- In `trigger_shutdown`, after it. -/
  | knocking
  | finished
deriving DecidableEq

/-- A thread that works every hundred ticks, and once more when it finds the flag set. -/
inductive Ticker where
  | sleeping (ticks : Nat)
  | working
  | lastWork
  | finished
deriving DecidableEq

/-- A client's thread. -/
inductive Reader where
  /-- Cloning the stream, before `repl`. -/
  | opening
  /-- At the head of the loop. -/
  | checking
  /-- In `read_command`. -/
  | reading
  | executing
  /-- In `unsubscribe_from_all`. -/
  | leaving
  /-- Before `drop(rh)`. -/
  | dropping
  /-- Joining the writer. -/
  | joining
  | finished
deriving DecidableEq

/-- A client's writer thread. -/
inductive Writer where
  | checking
  /-- In `recv`. -/
  | receiving
  | writing
  /-- In `write_all`, with a client that does not read. -/
  | stalled
  | finished
deriving DecidableEq

/-- What is going on for one connection. -/
structure Running where
  connection : Connection
  /-- The stream has its read timeout. -/
  timed : Bool
  reader : Reader
  /-- The writer, once it is spawned. -/
  writer : Option Writer
  /-- How many items are queued. -/
  queue : Nat
  /-- How many clones of the queue's sender the registry holds. -/
  registered : Nat

/-- A thread, as its handle names it. -/
inductive Thread where
  | signal
  | stdin
  | persister
  | sweeper
  | session (i : Nat)
deriving DecidableEq

/-- The main thread. -/
inductive Main where
  /-- At the head of the accept loop. -/
  | checking
  /-- In `accept`. -/
  | accepting
  | accepted (connection : Connection)
  /-- The flag was not set after `accept`. -/
  | spawning (connection : Connection)
  /-- Out of the loop. -/
  | closing
  /-- The handles still to join. -/
  | joining (todo : List Thread)
  | returned
deriving DecidableEq

/-- The server from the moment its threads are started. -/
structure Lifecycle where
  flag : Bool
  /-- What waits to be accepted. -/
  backlog : List Connection
  main : Main
  handles : List Thread
  signal : Trigger
  /-- `signals_handle.close()` has been called. -/
  closed : Bool
  /-- The thread at the terminal, if there is one. -/
  stdin : Option Trigger
  persister : Ticker
  sweeper : Ticker
  sessions : List Running

/-! ## Their steps -/

/-- One step of a thread that waits for the word: `trigger_shutdown` is a store and then a
connect. -/
def Trigger.next : Trigger → Option Trigger
  | .storing => some .knocking
  | .knocking => some .finished
  | .waiting | .finished => none

/-- One step of the persister or the sweeper. -/
def Ticker.next (flag : Bool) : Ticker → Option Ticker
  | .sleeping ticks =>
      if flag then some .lastWork
      else if ticks + 1 < 100 then some (.sleeping (ticks + 1)) else some .working
  | .working => some (.sleeping 0)
  | .lastWork => some .finished
  | .finished => none

/-- What can happen at one connection. -/
inductive Doing where
  /-- The client's thread takes its next step; in `read_command`, that is a timeout. -/
  | read
  /-- The writer takes its next step. -/
  | write
  /-- The stream cannot be cloned. -/
  | openFails
  /-- The stream is cloned, but cannot be given a read timeout. -/
  | openUntimed
  /-- The stream ends, or fails. -/
  | hangUp
  /-- A frame comes that is answered with an error. -/
  | refuse
  /-- A frame comes that is a command. -/
  | command
  /-- The command fails. -/
  | fail
  /-- The lock on the registry is poisoned, and no channel is left. -/
  | leaveFails
  /-- The command makes the registry clone the sender. -/
  | register
  /-- The command makes the registry drop a clone. -/
  | unregister
  /-- Another session publishes to this one. -/
  | push
  /-- The client does not read, and the socket takes no more. -/
  | stall
  /-- The client reads again, or it is gone. -/
  | resume
deriving DecidableEq

/-- A step that a thread takes by itself. -/
def Doing.isOwn : Doing → Bool
  | .read | .write => true
  | _ => false

/-- The stream gets its read timeout, the lock on the registry is not poisoned, and the client
reads what it is sent. -/
def Doing.isReliable : Doing → Bool
  | .openUntimed | .leaveFails | .stall => false
  | _ => true

namespace Running

/-- Queue an item; without a receiver that fails. -/
def send (self : Running) (done : Reader) : Running :=
  if self.writer = some .finished then { self with reader := .leaving }
  else { self with queue := self.queue + 1, reader := done }

/-- Whether any sender of the queue is left. -/
def hasSender (self : Running) : Bool :=
  (self.reader != .joining && self.reader != .finished) || self.registered != 0

/-- One step at one connection. -/
def step (flag : Bool) (self : Running) : Doing → Option Running
  | .read => match self.reader with
    | .opening => some { self with reader := .checking, writer := some .checking }
    | .checking => some { self with reader := if flag then .leaving else .reading }
    | .reading => if self.timed then some { self with reader := .checking } else none
    | .executing => some (self.send .checking)
    | .leaving => some { self with reader := .dropping, registered := 0 }
    | .dropping => some { self with reader := .joining }
    | .joining =>
        if self.writer = some .finished then some { self with reader := .finished } else none
    | .finished => none
  | .write => match self.writer with
    | some .checking => some { self with writer := some (if flag then .finished else .receiving) }
    | some .receiving =>
        if self.queue ≠ 0 then some { self with writer := some .writing, queue := self.queue - 1 }
        else if self.hasSender then none
        else some { self with writer := some .finished }
    | some .writing => some { self with writer := some .checking }
    | some .stalled | some .finished | none => none
  | .openFails =>
      if self.reader = .opening then some { self with reader := .finished } else none
  | .openUntimed =>
      if self.reader = .opening then
        some { self with timed := false, reader := .checking, writer := some .checking }
      else none
  | .hangUp => if self.reader = .reading then some { self with reader := .leaving } else none
  | .refuse => if self.reader = .reading then some (self.send .reading) else none
  | .command => if self.reader = .reading then some { self with reader := .executing } else none
  | .fail => if self.reader = .executing then some { self with reader := .leaving } else none
  | .leaveFails => if self.reader = .leaving then some { self with reader := .dropping } else none
  | .register =>
      if self.reader = .executing then some { self with registered := self.registered + 1 }
      else none
  | .unregister =>
      if self.reader = .executing then some { self with registered := self.registered - 1 }
      else none
  | .push =>
      if self.registered = 0 then none
      else if self.writer = some .finished then
        some { self with registered := self.registered - 1 }
      else some { self with queue := self.queue + 1 }
  | .stall =>
      if self.writer = some .writing then some { self with writer := some .stalled } else none
  | .resume =>
      if self.writer = some .stalled then some { self with writer := some .writing } else none

/-- Everything a step at a connection can do, guards included. -/
inductive Moves (flag : Bool) (p : Running) : Doing → Running → Prop
  | opens (hr : p.reader = .opening) :
      Moves flag p .read { p with reader := .checking, writer := some .checking }
  | opensUntimed (hr : p.reader = .opening) :
      Moves flag p .openUntimed
        { p with timed := false, reader := .checking, writer := some .checking }
  | openFails (hr : p.reader = .opening) :
      Moves flag p .openFails { p with reader := .finished }
  | stop (hr : p.reader = .checking) (hf : flag = true) :
      Moves flag p .read { p with reader := .leaving }
  | listen (hr : p.reader = .checking) (hf : flag = false) :
      Moves flag p .read { p with reader := .reading }
  | timeout (hr : p.reader = .reading) (ht : p.timed = true) :
      Moves flag p .read { p with reader := .checking }
  | hangUp (hr : p.reader = .reading) : Moves flag p .hangUp { p with reader := .leaving }
  | refuse (hr : p.reader = .reading) : Moves flag p .refuse (p.send .reading)
  | command (hr : p.reader = .reading) : Moves flag p .command { p with reader := .executing }
  | reply (hr : p.reader = .executing) : Moves flag p .read (p.send .checking)
  | fail (hr : p.reader = .executing) : Moves flag p .fail { p with reader := .leaving }
  | register (hr : p.reader = .executing) :
      Moves flag p .register { p with registered := p.registered + 1 }
  | unregister (hr : p.reader = .executing) :
      Moves flag p .unregister { p with registered := p.registered - 1 }
  | leaveFails (hr : p.reader = .leaving) :
      Moves flag p .leaveFails { p with reader := .dropping }
  | leave (hr : p.reader = .leaving) :
      Moves flag p .read { p with reader := .dropping, registered := 0 }
  | drop (hr : p.reader = .dropping) : Moves flag p .read { p with reader := .joining }
  | join (hr : p.reader = .joining) (hw : p.writer = some .finished) :
      Moves flag p .read { p with reader := .finished }
  | stopWriting (hw : p.writer = some .checking) (hf : flag = true) :
      Moves flag p .write { p with writer := some .finished }
  | receive (hw : p.writer = some .checking) (hf : flag = false) :
      Moves flag p .write { p with writer := some .receiving }
  | received (hw : p.writer = some .receiving) (hq : p.queue ≠ 0) :
      Moves flag p .write { p with writer := some .writing, queue := p.queue - 1 }
  | disconnected (hw : p.writer = some .receiving) (hq : p.queue = 0)
      (hs : p.hasSender = false) : Moves flag p .write { p with writer := some .finished }
  | written (hw : p.writer = some .writing) :
      Moves flag p .write { p with writer := some .checking }
  | prune (hreg : p.registered ≠ 0) (hw : p.writer = some .finished) :
      Moves flag p .push { p with registered := p.registered - 1 }
  | push (hreg : p.registered ≠ 0) : Moves flag p .push { p with queue := p.queue + 1 }
  | stall (hw : p.writer = some .writing) : Moves flag p .stall { p with writer := some .stalled }
  | resume (hw : p.writer = some .stalled) : Moves flag p .resume { p with writer := some .writing }

theorem moves_of_read {flag : Bool} {p p' : Running} (h : p.step flag .read = some p') :
    Moves flag p .read p' := by
  rw [step] at h
  cases hr : p.reader <;> rw [hr] at h
  case opening => cases h; exact .opens hr
  case checking =>
      cases flag with
      | true => cases h; exact .stop hr rfl
      | false => cases h; exact .listen hr rfl
  case reading =>
      obtain ⟨ht, ⟨⟩⟩ := Option.ite_none_right_eq_some.1 h
      exact .timeout hr ht
  case executing => cases h; exact .reply hr
  case leaving => cases h; exact .leave hr
  case dropping => cases h; exact .drop hr
  case joining =>
      obtain ⟨hw, ⟨⟩⟩ := Option.ite_none_right_eq_some.1 h
      exact .join hr hw
  case finished => cases h

theorem moves_of_write {flag : Bool} {p p' : Running} (h : p.step flag .write = some p') :
    Moves flag p .write p' := by
  rw [step] at h
  split at h
  · next hw =>
      cases flag with
      | true => cases h; exact .stopWriting hw rfl
      | false => cases h; exact .receive hw rfl
  · next hw =>
      split at h
      · next hq => cases h; exact .received hw hq
      · next hq =>
          split at h
          · cases h
          · next hs => cases h; exact .disconnected hw (not_not.1 hq) (eq_false_of_ne_true hs)
  · next hw => cases h; exact .written hw
  · cases h
  · cases h
  · cases h

theorem moves_of_step {flag : Bool} {p p' : Running} {doing : Doing}
    (h : p.step flag doing = some p') : Moves flag p doing p' := by
  cases doing with
  | read => exact moves_of_read h
  | write => exact moves_of_write h
  | openFails =>
      obtain ⟨hr, ⟨⟩⟩ := Option.ite_none_right_eq_some.1 h
      exact .openFails hr
  | openUntimed =>
      obtain ⟨hr, ⟨⟩⟩ := Option.ite_none_right_eq_some.1 h
      exact .opensUntimed hr
  | hangUp =>
      obtain ⟨hr, ⟨⟩⟩ := Option.ite_none_right_eq_some.1 h
      exact .hangUp hr
  | refuse =>
      obtain ⟨hr, ⟨⟩⟩ := Option.ite_none_right_eq_some.1 h
      exact .refuse hr
  | command =>
      obtain ⟨hr, ⟨⟩⟩ := Option.ite_none_right_eq_some.1 h
      exact .command hr
  | fail =>
      obtain ⟨hr, ⟨⟩⟩ := Option.ite_none_right_eq_some.1 h
      exact .fail hr
  | leaveFails =>
      obtain ⟨hr, ⟨⟩⟩ := Option.ite_none_right_eq_some.1 h
      exact .leaveFails hr
  | register =>
      obtain ⟨hr, ⟨⟩⟩ := Option.ite_none_right_eq_some.1 h
      exact .register hr
  | unregister =>
      obtain ⟨hr, ⟨⟩⟩ := Option.ite_none_right_eq_some.1 h
      exact .unregister hr
  | push =>
      rw [step] at h
      split at h
      · cases h
      · next hreg =>
          split at h
          · next hw => cases h; exact .prune hreg hw
          · cases h; exact .push hreg
  | stall =>
      obtain ⟨hw, ⟨⟩⟩ := Option.ite_none_right_eq_some.1 h
      exact .stall hw
  | resume =>
      obtain ⟨hw, ⟨⟩⟩ := Option.ite_none_right_eq_some.1 h
      exact .resume hw

/-- Queueing an item leaves the reader where it goes on, or ends it. -/
theorem send_cases (p : Running) (done : Reader) :
    p.send done = { p with reader := .leaving } ∨
      p.send done = { p with queue := p.queue + 1, reader := done } := by
  unfold send
  split
  · exact .inl rfl
  · exact .inr rfl

/-! ### What holds at every connection -/

/-- The writer comes with `repl` and is done before the reader is. -/
structure Sound (p : Running) : Prop where
  opening : p.reader = .opening → p.writer = none
  opened : p.writer = none → p.reader = .opening ∨ p.reader = .finished
  ended : p.reader = .finished → p.writer = none ∨ p.writer = some .finished

section Moves

variable {flag : Bool} {p p' : Running} {doing : Doing}

theorem Moves.connection (h : Moves flag p doing p') : p'.connection = p.connection := by
  cases h with
  | refuse _ | reply _ =>
      rcases p.send_cases _ with hsend | hsend <;> rw [hsend]
  | _ => rfl

theorem Moves.finished (h : Moves flag p doing p') (hp : p.reader = .finished) :
    p'.reader = .finished := by
  cases h with
  | stopWriting _ _ | receive _ _ | received _ _ | disconnected _ _ _ | written _ | prune _ _
  | push _ | stall _ | resume _ => exact hp
  | openFails _ | join _ _ => rfl
  | _ hr => rw [hp] at hr; cases hr

theorem Sound.writer_ne_none (h : p.Sound) (hr : p.reader ≠ .opening)
    (hr' : p.reader ≠ .finished) : p.writer ≠ none := by
  intro hw
  rcases h.opened hw with hopening | hfinished
  · exact hr hopening
  · exact hr' hfinished

/-- A reader with a writer may go on as it likes, as long as it is not done. -/
theorem Sound.read {reader : Reader} (hw : p.writer ≠ none) (hr : reader ≠ .opening)
    (hr' : reader ≠ .finished) (queue registered : Nat) :
    Sound { p with reader, queue, registered } where
  opening hopening := absurd hopening hr
  opened hnone := absurd hnone hw
  ended hfinished := absurd hfinished hr'

/-- A writer that is not done may go on as it likes. -/
theorem Sound.write {w w' : Writer} (h : p.Sound) (hw : p.writer = some w) (hne : w ≠ .finished)
    (queue : Nat) : Sound { p with writer := some w', queue } where
  opening hr := by rw [h.opening hr] at hw; cases hw
  opened := nofun
  ended hr := by
    rcases h.ended hr with hnone | hdone
    · rw [hw] at hnone
      cases hnone
    · rw [hw] at hdone
      exact absurd (Option.some.inj hdone) hne

theorem Sound.step (h : p.Sound) (hm : Moves flag p doing p') : p'.Sound := by
  have hwriter {r : Reader} (hr : p.reader = r) (hne : r ≠ .opening) (hne' : r ≠ .finished) :
      p.writer ≠ none := h.writer_ne_none (hr ▸ hne) (hr ▸ hne')
  have hsend {done : Reader} (hw : p.writer ≠ none) (hne : done ≠ .opening)
      (hne' : done ≠ .finished) : (p.send done).Sound := by
    rcases p.send_cases done with hs | hs <;> rw [hs]
    · exact Sound.read hw (by simp) (by simp) _ _
    · exact Sound.read hw hne hne' _ _
  cases hm with
  | opens _ | opensUntimed _ => exact ⟨nofun, nofun, nofun⟩
  | openFails hr => exact ⟨nofun, fun _ ↦ .inr rfl, fun _ ↦ .inl (h.opening hr)⟩
  | stop hr _ | listen hr _ | timeout hr _ | hangUp hr | command hr | fail hr | leave hr
  | leaveFails hr | drop hr =>
      exact Sound.read (hwriter hr nofun nofun) (by simp) (by simp) _ _
  | refuse hr | reply hr => exact hsend (hwriter hr nofun nofun) (by simp) (by simp)
  | join _ hw => exact ⟨nofun, fun _ ↦ .inr rfl, fun _ ↦ .inr hw⟩
  | stopWriting hw _ | receive hw _ | received hw _ | disconnected hw _ _ | written hw | stall hw
  | resume hw => exact h.write hw nofun _
  | register _ | unregister _ | prune _ _ | push _ => exact ⟨h.opening, h.opened, h.ended⟩

/-- Only the client brings a writer back that waits for it. -/
theorem Moves.stalled (h : Moves flag p doing p') (hd : doing ≠ .resume) (hsound : p.Sound)
    (hp : p.writer = some .stalled) : p'.writer = some .stalled := by
  cases h with
  | opens hr | opensUntimed hr =>
      rw [hsound.opening hr] at hp
      cases hp
  | refuse _ | reply _ =>
      rcases p.send_cases _ with hsend | hsend <;> rw [hsend]
      · exact hp
      · exact hp
  | stopWriting hw _ | receive hw _ | received hw _ | disconnected hw _ _ | written hw =>
      rw [hw] at hp
      cases hp
  | stall _ => rfl
  | resume _ => exact absurd rfl hd
  | _ => exact hp

end Moves

end Running

namespace Lifecycle

/-- `JoinHandle::is_finished`. -/
def isFinished (σ : Lifecycle) : Thread → Bool
  | .signal => σ.signal == .finished
  | .stdin => σ.stdin == none || σ.stdin == some .finished
  | .persister => σ.persister == .finished
  | .sweeper => σ.sweeper == .finished
  | .session i => (σ.sessions[i]?).all fun p ↦ p.reader == .finished

/-- What can happen next. -/
inductive Label where
  /-- The main thread takes its next step. -/
  | main
  /-- `accept` fails. -/
  | acceptFails
  /-- A client connects. -/
  | connect
  /-- `SIGTERM` or `SIGINT` arrives. -/
  | raise
  /-- The signal thread takes its next step. -/
  | signal
  /-- The signal thread cannot connect. -/
  | signalFails
  /-- A line comes at the terminal: `quit`, `exit` or the end of the input, or anything else. -/
  | line (quit : Bool)
  /-- The thread at the terminal takes its next step. -/
  | stdin
  /-- The thread at the terminal cannot connect. -/
  | stdinFails
  | persister
  | sweeper
  /-- Something happens at a connection. -/
  | session (i : Nat) (doing : Doing)

/-- A step that a thread of the server takes by itself. -/
def Label.isOwn : Label → Bool
  | .main | .signal | .stdin | .persister | .sweeper => true
  | .session _ doing => doing.isOwn
  | _ => false

/-- A step that is none of the failures the threads cannot cope with; no knock fails. -/
def Label.isReliable : Label → Bool
  | .signalFails | .stdinFails => false
  | .session _ doing => doing.isReliable
  | _ => true

/-- The next step of the main thread. -/
def stepMain (σ : Lifecycle) : Option Lifecycle :=
  match σ.main with
  | .checking =>
      if σ.flag then some { σ with main := .closing }
      else some { σ with main := .accepting, handles := σ.handles.filter fun t ↦ !σ.isFinished t }
  | .accepting => match σ.backlog with
    | [] => none
    | c :: backlog => some { σ with main := .accepted c, backlog }
  | .accepted c =>
      if σ.flag then some { σ with main := .closing } else some { σ with main := .spawning c }
  | .spawning c => some { σ with
      main := .checking
      sessions := σ.sessions ++ [⟨c, true, .opening, none, 0, 0⟩]
      handles := σ.handles ++ [.session σ.sessions.length] }
  | .closing => some { σ with main := .joining σ.handles, closed := true }
  | .joining [] => some { σ with main := .returned }
  | .joining (t :: todo) => if σ.isFinished t then some { σ with main := .joining todo } else none
  | .returned => none

/-- What a thread in `trigger_shutdown` does to the others. -/
def afterTrigger (σ : Lifecycle) : Trigger → Lifecycle
  | .knocking => { σ with flag := true }
  | .finished => { σ with backlog := σ.backlog ++ [.knock] }
  | .waiting | .storing => σ

/-- One step. -/
def step (σ : Lifecycle) : Label → Option Lifecycle
  | .main => σ.stepMain
  | .acceptFails => if σ.main = .accepting then some { σ with main := .checking } else none
  | .connect => some { σ with backlog := σ.backlog ++ [.client] }
  | .raise =>
      if σ.signal = .waiting ∧ σ.closed = false then some { σ with signal := .storing } else none
  | .signal =>
      if σ.signal = .waiting ∧ σ.closed then some { σ with signal := .finished }
      else σ.signal.next.map fun signal ↦ { σ with signal }.afterTrigger signal
  | .signalFails => if σ.signal = .knocking then some { σ with signal := .finished } else none
  | .line quit =>
      if σ.stdin = some .waiting then
        some (if quit then { σ with stdin := some .storing } else σ)
      else none
  | .stdin => (σ.stdin.bind Trigger.next).map fun stdin ↦
      { σ with stdin := some stdin }.afterTrigger stdin
  | .stdinFails =>
      if σ.stdin = some .knocking then some { σ with stdin := some .finished } else none
  | .persister => (σ.persister.next σ.flag).map fun persister ↦ { σ with persister }
  | .sweeper => (σ.sweeper.next σ.flag).map fun sweeper ↦ { σ with sweeper }
  | .session i doing => (σ.sessions[i]?).bind fun p ↦
      (p.step σ.flag doing).map fun p' ↦ { σ with sessions := σ.sessions.set i p' }

/-- The threads have been started. -/
def start (terminal : Bool) : Lifecycle where
  flag := false
  backlog := []
  main := .checking
  handles := if terminal then [.signal, .stdin, .persister, .sweeper]
    else [.signal, .persister, .sweeper]
  signal := .waiting
  closed := false
  stdin := if terminal then some .waiting else none
  persister := .sleeping 0
  sweeper := .sleeping 0
  sessions := []

/-! ## What a step can do -/

/-- Everything a step can do, guards included. -/
inductive Moves (σ : Lifecycle) : Label → Lifecycle → Prop
  | stop (hm : σ.main = .checking) (hf : σ.flag = true) :
      Moves σ .main { σ with main := .closing }
  | listen (hm : σ.main = .checking) (hf : σ.flag = false) :
      Moves σ .main
        { σ with main := .accepting, handles := σ.handles.filter fun t ↦ !σ.isFinished t }
  | accept {c : Connection} {backlog : List Connection} (hm : σ.main = .accepting)
      (hb : σ.backlog = c :: backlog) : Moves σ .main { σ with main := .accepted c, backlog }
  | drop {c : Connection} (hm : σ.main = .accepted c) (hf : σ.flag = true) :
      Moves σ .main { σ with main := .closing }
  | keep {c : Connection} (hm : σ.main = .accepted c) (hf : σ.flag = false) :
      Moves σ .main { σ with main := .spawning c }
  | spawn {c : Connection} (hm : σ.main = .spawning c) :
      Moves σ .main { σ with
        main := .checking
        sessions := σ.sessions ++ [⟨c, true, .opening, none, 0, 0⟩]
        handles := σ.handles ++ [.session σ.sessions.length] }
  | close (hm : σ.main = .closing) :
      Moves σ .main { σ with main := .joining σ.handles, closed := true }
  | join {t : Thread} {todo : List Thread} (hm : σ.main = .joining (t :: todo))
      (ht : σ.isFinished t = true) : Moves σ .main { σ with main := .joining todo }
  | «return» (hm : σ.main = .joining []) : Moves σ .main { σ with main := .returned }
  | acceptFails (hm : σ.main = .accepting) : Moves σ .acceptFails { σ with main := .checking }
  | connect : Moves σ .connect { σ with backlog := σ.backlog ++ [.client] }
  | raise (hs : σ.signal = .waiting) (hc : σ.closed = false) :
      Moves σ .raise { σ with signal := .storing }
  | «end» (hs : σ.signal = .waiting) (hc : σ.closed = true) :
      Moves σ .signal { σ with signal := .finished }
  | store (hs : σ.signal = .storing) :
      Moves σ .signal { σ with signal := .knocking, flag := true }
  | knock (hs : σ.signal = .knocking) :
      Moves σ .signal { σ with signal := .finished, backlog := σ.backlog ++ [.knock] }
  | signalFails (hs : σ.signal = .knocking) :
      Moves σ .signalFails { σ with signal := .finished }
  | quit (hs : σ.stdin = some .waiting) : Moves σ (.line true) { σ with stdin := some .storing }
  | line (hs : σ.stdin = some .waiting) : Moves σ (.line false) σ
  | stdinStore (hs : σ.stdin = some .storing) :
      Moves σ .stdin { σ with stdin := some .knocking, flag := true }
  | stdinKnock (hs : σ.stdin = some .knocking) :
      Moves σ .stdin { σ with stdin := some .finished, backlog := σ.backlog ++ [.knock] }
  | stdinFails (hs : σ.stdin = some .knocking) :
      Moves σ .stdinFails { σ with stdin := some .finished }
  | persister {t : Ticker} (ht : σ.persister.next σ.flag = some t) :
      Moves σ .persister { σ with persister := t }
  | sweeper {t : Ticker} (ht : σ.sweeper.next σ.flag = some t) :
      Moves σ .sweeper { σ with sweeper := t }
  | session {i : Nat} {doing : Doing} {p p' : Running} (hi : σ.sessions[i]? = some p)
      (hp : p.step σ.flag doing = some p') :
      Moves σ (.session i doing) { σ with sessions := σ.sessions.set i p' }

theorem moves_of_stepMain {σ σ' : Lifecycle} (h : σ.stepMain = some σ') : Moves σ .main σ' := by
  unfold stepMain at h
  split at h
  · next hm =>
      split at h
      · next hf => cases h; exact .stop hm hf
      · next hf => cases h; exact .listen hm (eq_false_of_ne_true hf)
  · next hm =>
      split at h
      · cases h
      · next c backlog hb => cases h; exact .accept hm hb
  · next c hm =>
      split at h
      · next hf => cases h; exact .drop hm hf
      · next hf => cases h; exact .keep hm (eq_false_of_ne_true hf)
  · next c hm => cases h; exact .spawn hm
  · next hm => cases h; exact .close hm
  · next hm => cases h; exact .return hm
  · next t todo hm =>
      split at h
      · next ht => cases h; exact .join hm ht
      · cases h
  · cases h

theorem moves_of_step {σ σ' : Lifecycle} {l : Label} (h : step σ l = some σ') :
    Moves σ l σ' := by
  cases l with
  | main => exact moves_of_stepMain h
  | acceptFails =>
      obtain ⟨hm, ⟨⟩⟩ := Option.ite_none_right_eq_some.1 h
      exact .acceptFails hm
  | connect => cases h; exact .connect
  | raise =>
      obtain ⟨⟨hs, hc⟩, ⟨⟩⟩ := Option.ite_none_right_eq_some.1 h
      exact .raise hs hc
  | signal =>
      rw [step] at h
      split at h
      · next hs => cases h; exact .end hs.1 hs.2
      · next hs =>
          cases hsignal : σ.signal <;> rw [hsignal] at h <;> cases h
          · exact .store hsignal
          · exact .knock hsignal
  | signalFails =>
      obtain ⟨hs, ⟨⟩⟩ := Option.ite_none_right_eq_some.1 h
      exact .signalFails hs
  | line quit =>
      obtain ⟨hs, hσ⟩ := Option.ite_none_right_eq_some.1 h
      cases quit with
      | true => cases hσ; exact .quit hs
      | false => cases hσ; exact .line hs
  | stdin =>
      rw [step] at h
      rcases hstdin : σ.stdin with _ | _ | _ | _ | _ <;> rw [hstdin] at h <;> cases h
      · exact .stdinStore hstdin
      · exact .stdinKnock hstdin
  | stdinFails =>
      obtain ⟨hs, ⟨⟩⟩ := Option.ite_none_right_eq_some.1 h
      exact .stdinFails hs
  | persister =>
      obtain ⟨t, ht, rfl⟩ := Option.map_eq_some_iff.1 h
      exact .persister ht
  | sweeper =>
      obtain ⟨t, ht, rfl⟩ := Option.map_eq_some_iff.1 h
      exact .sweeper ht
  | session i doing =>
      obtain ⟨p, hi, hp⟩ := Option.bind_eq_some_iff.1 h
      obtain ⟨p', hp', rfl⟩ := Option.map_eq_some_iff.1 hp
      exact .session hi hp'

/-! ## No knock is taken for a client -/

section Steps

variable {σ σ' : Lifecycle} {l : Label} {ls : List Label}

/-- A knock comes only after the flag is set, so whoever finds the flag unset has no knock in
hand. -/
structure Guarded (σ : Lifecycle) : Prop where
  triggered : σ.signal = .knocking ∨ σ.stdin = some .knocking → σ.flag = true
  waiting : .knock ∈ σ.backlog → σ.flag = true
  held : σ.main = .accepted .knock → σ.flag = true
  kept : ∀ c, σ.main = .spawning c → c = .client
  clients : ∀ p ∈ σ.sessions, p.connection = .client

theorem Guarded.step (h : Guarded σ) (hm : Moves σ l σ') : Guarded σ' := by
  cases hm with
  | stop _ _ | listen _ _ | drop _ _ | close _ | join _ _ | «return» _ | acceptFails _ =>
      exact ⟨h.triggered, h.waiting, nofun, nofun, h.clients⟩
  | accept hm hb =>
      refine ⟨h.triggered, fun hknock ↦ h.waiting ?_, fun hc ↦ h.waiting ?_, nofun, h.clients⟩
      · rw [hb]
        exact List.mem_cons_of_mem _ hknock
      · cases hc
        rw [hb]
        exact List.mem_cons_self
  | @keep c hm hf =>
      refine ⟨h.triggered, h.waiting, nofun, fun c' hc ↦ ?_, h.clients⟩
      cases hc
      cases c with
      | client => rfl
      | knock => exact absurd (h.held hm) (by rw [hf]; exact nofun)
  | spawn hm =>
      refine ⟨h.triggered, h.waiting, nofun, nofun, fun p hp ↦ ?_⟩
      rcases List.mem_append.1 hp with hp | hp
      · exact h.clients p hp
      · rw [List.mem_singleton.1 hp]
        exact h.kept _ hm
  | connect =>
      refine ⟨h.triggered, fun hknock ↦ h.waiting ?_, h.held, h.kept, h.clients⟩
      simpa using hknock
  | raise _ _ | «end» _ _ | signalFails _ =>
      exact ⟨fun hs ↦ h.triggered (.inr (hs.resolve_left nofun)), h.waiting, h.held, h.kept,
        h.clients⟩
  | quit _ | stdinFails _ =>
      exact ⟨fun hs ↦ h.triggered (.inl (hs.resolve_right nofun)), h.waiting, h.held, h.kept,
        h.clients⟩
  | store _ | stdinStore _ => exact ⟨fun _ ↦ rfl, fun _ ↦ rfl, fun _ ↦ rfl, h.kept, h.clients⟩
  | knock hs =>
      have hflag := h.triggered (.inl hs)
      exact ⟨fun _ ↦ hflag, fun _ ↦ hflag, fun _ ↦ hflag, h.kept, h.clients⟩
  | stdinKnock hs =>
      have hflag := h.triggered (.inr hs)
      exact ⟨fun _ ↦ hflag, fun _ ↦ hflag, fun _ ↦ hflag, h.kept, h.clients⟩
  | line _ => exact h
  | persister _ | sweeper _ => exact ⟨h.triggered, h.waiting, h.held, h.kept, h.clients⟩
  | session hi hp =>
      refine ⟨h.triggered, h.waiting, h.held, h.kept, fun q hq ↦ ?_⟩
      rcases List.mem_or_eq_of_mem_set hq with hq | rfl
      · exact h.clients q hq
      · rw [(Running.moves_of_step hp).connection]
        exact h.clients _ (List.mem_of_getElem? hi)

theorem guarded_start (terminal : Bool) : Guarded (start terminal) := by
  refine ⟨fun h ↦ ?_, nofun, nofun, nofun, nofun⟩
  cases terminal <;> simp [start] at h

/-- However the threads are scheduled, and whatever comes in: every session is with a client.
The knock of `trigger_shutdown` is never taken for one. -/
theorem served (terminal : Bool) (ls : List Label)
    (hrun : exec step (start terminal) ls = some σ) :
    ∀ p ∈ σ.sessions, p.connection = .client := by
  have hguarded : Guarded σ :=
    exec_invariant (fun h hstep ↦ h.step (moves_of_step hstep)) (guarded_start terminal) hrun
  exact hguarded.clients

/-- A client connects, a signal arrives, and everything is joined. -/
def visit : List Label :=
  [.connect, .main, .main, .main, .main, .main, .raise, .signal, .signal, .main, .main, .main,
    .main, .persister, .persister, .main, .sweeper, .sweeper, .main, .session 0 .read,
    .session 0 .read, .session 0 .read, .session 0 .read, .session 0 .write, .session 0 .read,
    .main, .main]

theorem served_visit :
    ∃ σ, exec step (start false) visit = some σ ∧ σ.sessions.length = 1 ∧
      ∀ p ∈ σ.sessions, p.connection = .client :=
  ⟨_, rfl, rfl, served false visit rfl⟩

/-! ## All threads are joined -/

/-- The threads that the main thread still has to join. -/
def watched (σ : Lifecycle) : List Thread :=
  match σ.main with
  | .joining todo => todo
  | .returned => []
  | _ => σ.handles

/-- Nobody takes back what a thread has finished: a thread that is not done after a step was not
done before, or it is new. -/
theorem Moves.isFinished (hm : Moves σ l σ') {t : Thread} (ht : σ'.isFinished t = false) :
    σ.isFinished t = false ∨
      l = .main ∧ (∃ c, σ.main = .spawning c) ∧ t = .session σ.sessions.length := by
  cases hm with
  | stop _ _ | listen _ _ | accept _ _ | drop _ _ | keep _ _ | close _ | join _ _ | «return» _
  | acceptFails _ | connect | line _ => exact .inl ht
  | raise hs _ | «end» hs _ | store hs | knock hs | signalFails hs =>
      cases t with
      | signal =>
          refine .inl ?_
          rw [Lifecycle.isFinished, hs]
          rfl
      | stdin | persister | sweeper | session _ => exact .inl ht
  | quit hs | stdinStore hs | stdinKnock hs | stdinFails hs =>
      cases t with
      | stdin =>
          refine .inl ?_
          rw [Lifecycle.isFinished, hs]
          rfl
      | signal | persister | sweeper | session _ => exact .inl ht
  | persister hnext =>
      cases t with
      | persister =>
          refine .inl ?_
          cases hp : σ.persister <;> rw [hp] at hnext <;> simp [Lifecycle.isFinished, hp]
          cases hnext
      | signal | stdin | sweeper | session _ => exact .inl ht
  | sweeper hnext =>
      cases t with
      | sweeper =>
          refine .inl ?_
          cases hp : σ.sweeper <;> rw [hp] at hnext <;> simp [Lifecycle.isFinished, hp]
          cases hnext
      | signal | stdin | persister | session _ => exact .inl ht
  | spawn hm =>
      cases t with
      | session i =>
          rcases Nat.lt_trichotomy i σ.sessions.length with hi | hi | hi
          · refine .inl ?_
            simp only [Lifecycle.isFinished] at ht ⊢
            rwa [List.getElem?_append_left hi] at ht
          · exact .inr ⟨rfl, ⟨_, hm⟩, congrArg Thread.session hi⟩
          · simp only [Lifecycle.isFinished] at ht
            rw [List.getElem?_eq_none (by rw [List.length_append]; exact hi)] at ht
            cases ht
      | signal | stdin | persister | sweeper => exact .inl ht
  | @session i doing p p' hi hp =>
      cases t with
      | session j =>
          refine .inl ?_
          simp only [Lifecycle.isFinished] at ht ⊢
          by_cases hij : i = j
          · subst hij
            rw [hi, Option.all_some, beq_eq_false_iff_ne]
            intro hfinished
            have hdone := (Running.moves_of_step hp).finished hfinished
            rw [List.getElem?_set_self (List.getElem?_eq_some_iff.1 hi).1, Option.all_some,
              hdone] at ht
            cases ht
          · rwa [List.getElem?_set_ne hij] at ht
      | signal | stdin | persister | sweeper => exact .inl ht

/-- Every thread that is not done is still to be joined. -/
def Watched (σ : Lifecycle) : Prop := ∀ t, σ.isFinished t = false → t ∈ σ.watched

theorem Watched.step (h : Watched σ) (hm : Moves σ l σ') : Watched σ' := by
  intro t ht
  rcases hm.isFinished ht with hbefore | ⟨rfl, ⟨c, hspawn⟩, rfl⟩
  · have hmem := h t hbefore
    cases hm with
    | listen hm _ =>
        rw [watched, hm] at hmem
        exact List.mem_filter.2 ⟨hmem, by rw [hbefore]; rfl⟩
    | spawn hm =>
        rw [watched, hm] at hmem
        exact List.mem_append_left _ hmem
    | join hm hdone =>
        rw [watched, hm] at hmem
        rcases List.mem_cons.1 hmem with rfl | hmem
        · rw [hbefore] at hdone
          cases hdone
        · exact hmem
    | «return» hm | stop hm _ | accept hm _ | drop hm _ | keep hm _ | close hm | acceptFails hm =>
        rw [watched, hm] at hmem
        exact hmem
    | _ => exact hmem
  · cases hm with
    | spawn _ => exact List.mem_append_right _ (List.mem_singleton_self _)
    | stop hm _ | listen hm _ | accept hm _ | drop hm _ | keep hm _ | close hm | join hm _
    | «return» hm => rw [hm] at hspawn; cases hspawn

theorem watched_start (terminal : Bool) : Watched (start terminal) := by
  intro t ht
  cases terminal <;> cases t <;> simp [isFinished, start, watched] at ht ⊢

/-- The flag is set when the accept loop has been left. -/
def Stopping (σ : Lifecycle) : Prop :=
  σ.main = .closing ∨ (∃ todo, σ.main = .joining todo) ∨ σ.main = .returned → σ.flag = true

theorem Stopping.step (h : Stopping σ) (hm : Moves σ l σ') : Stopping σ' := by
  cases hm with
  | stop _ hf | drop _ hf => exact fun _ ↦ hf
  | store _ | stdinStore _ => exact fun _ ↦ rfl
  | listen _ _ | accept _ _ | keep _ _ | spawn _ | acceptFails _ => simp [Stopping]
  | close hm => exact fun _ ↦ h (.inl hm)
  | join hm _ | «return» hm => exact fun _ ↦ h (.inr (.inl ⟨_, hm⟩))
  | _ => exact h

/-- What holds whatever happens. -/
structure Sound (σ : Lifecycle) : Prop where
  watched : Watched σ
  stopping : Stopping σ
  connections : ∀ p ∈ σ.sessions, p.Sound

theorem sound_opening (c : Connection) : Running.Sound ⟨c, true, .opening, none, 0, 0⟩ :=
  ⟨fun _ ↦ rfl, fun _ ↦ .inl rfl, nofun⟩

theorem Sound.step (h : Sound σ) (hm : Moves σ l σ') : Sound σ' := by
  refine ⟨h.watched.step hm, h.stopping.step hm, fun q hq ↦ ?_⟩
  cases hm with
  | spawn _ =>
      rcases List.mem_append.1 hq with hq | hq
      · exact h.connections q hq
      · exact List.mem_singleton.1 hq ▸ sound_opening _
  | session hi hp =>
      rcases List.mem_or_eq_of_mem_set hq with hq | rfl
      · exact h.connections q hq
      · exact (h.connections _ (List.mem_of_getElem? hi)).step (Running.moves_of_step hp)
  | _ => exact h.connections q hq

theorem sound_start (terminal : Bool) : Sound (start terminal) :=
  ⟨watched_start terminal, by simp [Stopping, start], nofun⟩

theorem sound_of_exec (terminal : Bool) (hrun : exec step (start terminal) ls = some σ) :
    Sound σ :=
  exec_invariant (fun h hstep ↦ h.step (moves_of_step hstep)) (sound_start terminal) hrun

/-- With nobody left to join, nobody is left. -/
theorem Sound.isFinished (h : Sound σ) (hm : σ.main = .returned) (t : Thread) :
    σ.isFinished t = true := by
  by_contra ht
  have hmem := h.watched t (eq_false_of_ne_true ht)
  rw [Lifecycle.watched, hm] at hmem
  exact List.not_mem_nil hmem

/-- When `run` returns, shutdown was asked for, and every thread that was ever started is done: the
signal thread, the one at the terminal, the persister with its last snapshot, the sweeper, and for
every client the reading and the writing one. -/
theorem joins_all (terminal : Bool) (ls : List Label)
    (hrun : exec step (start terminal) ls = some σ)
    (hreturned : σ.main = .returned) :
    σ.flag = true ∧ (∀ t, σ.isFinished t = true) ∧
      ∀ p ∈ σ.sessions, p.reader = .finished ∧ (p.writer = none ∨ p.writer = some .finished) := by
  have hsound := sound_of_exec terminal hrun
  refine ⟨hsound.stopping (.inr (.inr hreturned)), hsound.isFinished hreturned, fun p hp ↦ ?_⟩
  obtain ⟨i, hi⟩ := List.mem_iff_getElem?.1 hp
  have hreader : p.reader = .finished := by
    have hi' := hsound.isFinished hreturned (.session i)
    rwa [Lifecycle.isFinished, hi, Option.all_some, beq_iff_eq] at hi'
  exact ⟨hreader, (hsound.connections p hp).ended hreader⟩

theorem joins_all_visit :
    ∃ σ, exec step (start false) visit = some σ ∧ σ.flag = true ∧
      (∀ t, σ.isFinished t = true) ∧ ∀ p ∈ σ.sessions,
        p.reader = .finished ∧ (p.writer = none ∨ p.writer = some .finished) :=
  ⟨_, rfl, joins_all false visit rfl rfl⟩

/-- The thread at the terminal looks at lines, and never at the flag. -/
theorem Moves.stdin_waiting (hm : Moves σ l σ') (hl : l ≠ .line true)
    (h : σ.stdin = some .waiting) : σ'.stdin = some .waiting := by
  cases hm with
  | quit _ => exact absurd rfl hl
  | stdinStore hs | stdinKnock hs | stdinFails hs =>
      rw [h] at hs
      cases hs
  | _ => exact h

/-- With a terminal attached, no signal ends the server: until `quit`, `exit` or the end of the
input comes there, `run` does not return. -/
theorem waits_for_terminal (ls : List Label) (hrun : exec step (start true) ls = some σ)
    (hline : ∀ l ∈ ls, l ≠ .line true) : σ.main ≠ .returned := by
  have hgood : Along step (fun _ l ↦ l ≠ .line true) (start true) ls := along_of_forall hline
  have hwaiting : σ.stdin = some .waiting :=
    hgood.invariant (fun h hl hstep ↦ (moves_of_step hstep).stdin_waiting hl h) rfl hrun
  intro hreturned
  have hdone := (sound_of_exec true hrun).isFinished hreturned .stdin
  rw [Lifecycle.isFinished, hwaiting] at hdone
  cases hdone

theorem waits_for_terminal_raise :
    ∃ σ, exec step (start true) [.raise, .signal, .signal, .main, .main, .main] = some σ ∧
      σ.flag = true ∧ σ.main ≠ .returned :=
  ⟨_, rfl, rfl, waits_for_terminal [.raise, .signal, .signal, .main, .main, .main] rfl (by simp)⟩

/-- The writer of a session waits for its client. -/
def Stalled (i : Nat) (σ : Lifecycle) : Prop :=
  ∃ p, σ.sessions[i]? = some p ∧ p.writer = some .stalled

theorem Stalled.step {i : Nat} (h : Stalled i σ) (hsound : Sound σ) (hl : l ≠ .session i .resume)
    (hm : Moves σ l σ') : Stalled i σ' := by
  obtain ⟨p, hi, hw⟩ := h
  cases hm with
  | spawn _ =>
      refine ⟨p, ?_, hw⟩
      rw [List.getElem?_append_left (List.getElem?_eq_some_iff.1 hi).1]
      exact hi
  | @session j doing q q' hj hq =>
      by_cases hij : j = i
      · subst hij
        obtain rfl : p = q := Option.some.inj (hi.symm.trans hj)
        refine ⟨q', List.getElem?_set_self (List.getElem?_eq_some_iff.1 hj).1, ?_⟩
        refine (Running.moves_of_step hq).stalled ?_
          (hsound.connections p (List.mem_of_getElem? hj)) hw
        rintro rfl
        exact hl rfl
      · exact ⟨p, (List.getElem?_set_ne hij).trans hi, hw⟩
  | _ => exact ⟨p, hi, hw⟩

/-- One client that does not read what is being written to it keeps `run` from returning, whether
or not the flag is set, for as long as it does not read. -/
theorem waits_for_reader (terminal : Bool) (before after : List Label) (i : Nat)
    (hrun : exec step (start terminal) before = some σ) (hstalled : Stalled i σ)
    (hafter : exec step σ after = some σ') (hunread : ∀ l ∈ after, l ≠ .session i .resume) :
    σ'.main ≠ .returned := by
  have hgood : Along step (fun _ l ↦ l ≠ .session i .resume) σ after := along_of_forall hunread
  have hkeeps {σ σ' : Lifecycle} {l : Label} (h : Sound σ ∧ Stalled i σ)
      (hl : l ≠ .session i .resume) (hstep : step σ l = some σ') : Sound σ' ∧ Stalled i σ' :=
    ⟨h.1.step (moves_of_step hstep), h.2.step h.1 hl (moves_of_step hstep)⟩
  obtain ⟨hsound, p, hi, hw⟩ :=
    hgood.invariant hkeeps ⟨sound_of_exec terminal hrun, hstalled⟩ hafter
  intro hreturned
  have hdone := hsound.isFinished hreturned (.session i)
  rw [isFinished, hi, Option.all_some, beq_iff_eq] at hdone
  rcases (hsound.connections p (List.mem_of_getElem? hi)).ended hdone with hnone | hfinished
  · rw [hw] at hnone
    cases hnone
  · rw [hw] at hfinished
    cases hfinished

/-- A client sends a command and does not read the reply. -/
def unread : List Label :=
  [.connect, .main, .main, .main, .main, .session 0 .read, .session 0 .read, .session 0 .command,
    .session 0 .read, .session 0 .write, .session 0 .write, .session 0 .stall]

theorem waits_for_reader_unread :
    ∃ σ σ', exec step (start false) unread = some σ ∧
      exec step σ [.raise, .signal, .signal, .main, .main, .main] = some σ' ∧ σ'.flag = true ∧
      σ'.main ≠ .returned :=
  ⟨_, _, rfl, rfl, rfl, waits_for_reader false unread [.raise, .signal, .signal, .main, .main, .main]
    0 rfl ⟨_, rfl, rfl⟩ rfl (by simp)⟩

end Steps

end Lifecycle

/-! ## How many steps are left -/

/-- How many steps a thread that waits for the word can still take. -/
def Trigger.cost : Trigger → Nat
  | .waiting => 3
  | .storing => 2
  | .knocking => 1
  | .finished => 0

/-- How many steps the persister or the sweeper can still take, once the flag is set. -/
def Ticker.cost : Ticker → Nat
  | .working => 3
  | .sleeping _ => 2
  | .lastWork => 1
  | .finished => 0

/-- How many steps a client's thread can still take, once the flag is set. -/
def Reader.cost : Reader → Nat
  | .opening => 7
  | .reading | .executing => 5
  | .checking => 4
  | .leaving => 3
  | .dropping => 2
  | .joining => 1
  | .finished => 0

/-- How many steps a writer can still take, once the flag is set. -/
def Writer.cost : Writer → Nat
  | .receiving => 3
  | .writing | .stalled => 2
  | .checking => 1
  | .finished => 0

/-- How many steps the main thread can still take, once the flag is set; a session that it is about
to start is counted in. -/
def Main.cost (handles : Nat) : Main → Nat
  | .spawning _ => handles + 12
  | .accepting => handles + 5
  | .accepted _ => handles + 4
  | .checking => handles + 3
  | .closing => handles + 2
  | .joining todo => todo.length + 1
  | .returned => 0

namespace Running

/-- How many steps the two threads of a connection can still take, once the flag is set. -/
def cost (p : Running) : Nat := p.reader.cost + p.writer.elim 0 Writer.cost

theorem cost_send_le (p : Running) (done : Reader) (h : 3 ≤ done.cost) :
    (p.send done).cost ≤ done.cost + p.writer.elim 0 Writer.cost := by
  rcases p.send_cases done with hs | hs <;> rw [hs]
  · exact Nat.add_le_add_right h _
  · exact Nat.le_refl _

theorem Moves.cost {p p' : Running} {doing : Doing} (h : Moves true p doing p') (hp : p.Sound) :
    if doing.isOwn then p'.cost < p.cost else p'.cost ≤ p.cost := by
  cases h with
  | opens hr =>
      have hw := hp.opening hr
      simp [Doing.isOwn, Running.cost, hr, hw, Reader.cost, Writer.cost]
  | opensUntimed hr =>
      have hw := hp.opening hr
      simp [Doing.isOwn, Running.cost, hr, hw, Reader.cost, Writer.cost]
  | openFails hr => simp [Doing.isOwn, Running.cost, hr, Reader.cost]
  | stop hr _ | timeout hr _ | leave hr | drop hr | join hr _ =>
      simp [Doing.isOwn, Running.cost, hr, Reader.cost]
  | listen _ hf | receive _ hf => cases hf
  | hangUp hr | command hr | fail hr | leaveFails hr | register hr | unregister hr =>
      simp [Doing.isOwn, Running.cost, hr, Reader.cost]
  | refuse hr =>
      have hle := p.cost_send_le .reading (by decide)
      simpa [Doing.isOwn, Running.cost, hr, Reader.cost] using hle
  | reply hr =>
      have hle := p.cost_send_le .checking (by decide)
      refine Nat.lt_of_le_of_lt hle ?_
      rw [Running.cost, hr]
      exact Nat.add_lt_add_right (by decide) _
  | stopWriting hw _ | received hw _ | disconnected hw _ _ | written hw | stall hw | resume hw =>
      simp [Doing.isOwn, Running.cost, hw, Writer.cost]
  | prune _ _ | push _ => exact Nat.le_refl p.cost

/-- A reader that may be in the registry. -/
def IsBusy (reader : Reader) : Prop :=
  reader = .checking ∨ reader = .reading ∨ reader = .executing ∨ reader = .leaving

/-- The reader does not wait for ever, it leaves nothing behind that its writer waits for, and the
writer does not wait for the client. -/
structure Relied (p : Running) : Prop where
  timed : p.timed = true
  left : ¬IsBusy p.reader → p.registered = 0
  flowing : p.writer ≠ some .stalled

theorem Relied.step {flag : Bool} {p p' : Running} {doing : Doing} (h : p.Relied)
    (hd : doing.isReliable = true) (hm : Moves flag p doing p') : p'.Relied := by
  have hbusy {r : Reader} (hr : IsBusy r) : ¬IsBusy r → p.registered = 0 := fun hn ↦ absurd hr hn
  cases hm with
  | opens _ => exact ⟨h.timed, hbusy (by simp [IsBusy]), nofun⟩
  | stop _ _ | listen _ _ | timeout _ _ | hangUp _ | command _ | fail _ =>
      exact ⟨h.timed, hbusy (by simp [IsBusy]), h.flowing⟩
  | openFails hr | drop hr | join hr _ =>
      exact ⟨h.timed, fun _ ↦ h.left (by simp [IsBusy, hr]), h.flowing⟩
  | opensUntimed _ | leaveFails _ | stall _ => cases hd
  | refuse _ | reply _ =>
      rcases p.send_cases _ with hs | hs <;> rw [hs]
      · exact ⟨h.timed, hbusy (by simp [IsBusy]), h.flowing⟩
      · exact ⟨h.timed, hbusy (by simp [IsBusy]), h.flowing⟩
  | register hr | unregister hr =>
      exact ⟨h.timed, fun hn ↦ absurd hr (by simp_all [IsBusy]), h.flowing⟩
  | leave _ => exact ⟨h.timed, fun _ ↦ rfl, h.flowing⟩
  | stopWriting _ _ | receive _ _ | received _ _ | disconnected _ _ _ | written _ =>
      exact ⟨h.timed, h.left, nofun⟩
  | prune _ _ => exact ⟨h.timed, fun hn ↦ by rw [h.left hn], h.flowing⟩
  | push _ => exact ⟨h.timed, h.left, h.flowing⟩
  | resume hw => exact absurd hw h.flowing

/-- While the client's thread is not done, one of the two can take a step. -/
theorem Sound.can_step {p : Running} (h : p.Sound) (hrelied : p.Relied)
    (hr : p.reader ≠ .finished) :
    ∃ doing : Doing, doing.isOwn = true ∧ (p.step true doing).isSome = true := by
  cases hreader : p.reader with
  | finished => exact absurd hreader hr
  | opening | checking | executing | leaving | dropping =>
      exact ⟨.read, rfl, by rw [Running.step, hreader]; rfl⟩
  | reading => exact ⟨.read, rfl, by rw [Running.step, hreader]; simp [hrelied.timed]⟩
  | joining =>
      -- the writer is done, or it can go on, because no sender is left for it to wait for
      have hreg := hrelied.left (by simp [IsBusy, hreader])
      have hsender : p.hasSender = false := by simp [hasSender, hreader, hreg]
      cases hwriter : p.writer with
      | none =>
          rcases h.opened hwriter with hopening | hfinished
          · rw [hreader] at hopening
            cases hopening
          · rw [hreader] at hfinished
            cases hfinished
      | some w =>
          cases w with
          | stalled => exact absurd hwriter hrelied.flowing
          | finished => exact ⟨.read, rfl, by rw [Running.step, hreader]; simp [hwriter]⟩
          | checking | writing => exact ⟨.write, rfl, by rw [Running.step, hwriter]; rfl⟩
          | receiving =>
              refine ⟨.write, rfl, ?_⟩
              rw [Running.step, hwriter]
              by_cases hq : p.queue = 0 <;> simp [hq, hsender]

end Running

namespace Lifecycle

/-- How many steps the threads can still take, once the flag is set. -/
def cost (σ : Lifecycle) : Nat :=
  σ.main.cost σ.handles.length + σ.signal.cost + σ.stdin.elim 0 Trigger.cost +
    σ.persister.cost + σ.sweeper.cost + (σ.sessions.map Running.cost).sum

theorem sum_map_set {f : Running → Nat} {ps : List Running} {i : Nat} {p : Running}
    (h : ps[i]? = some p) (q : Running) :
    ((ps.set i q).map f).sum + f p = (ps.map f).sum + f q := by
  induction ps generalizing i with
  | nil => cases h
  | cons a ps ih =>
      cases i with
      | zero =>
          cases h
          simp only [List.set_cons_zero, List.map_cons, List.sum_cons]
          omega
      | succ i =>
          have hrest := ih h
          simp only [List.set_cons_succ, List.map_cons, List.sum_cons]
          omega

theorem Ticker.cost_next {t t' : Ticker} (h : t.next true = some t') : t'.cost < t.cost := by
  cases t <;> cases h <;> simp [Ticker.cost]

section Cost

variable {σ σ' : Lifecycle} {l : Label} {ls : List Label}

/-- Once the flag is set, a step of a thread brings the end nearer, and nothing that comes from
outside puts it off. -/
theorem Moves.cost (hm : Moves σ l σ') (hflag : σ.flag = true) (hsound : Sound σ) :
    if l.isOwn then σ'.cost < σ.cost else σ'.cost ≤ σ.cost := by
  cases hm with
  | stop hm _ | accept hm _ | drop hm _ | close hm | join hm _ | «return» hm | acceptFails hm =>
      simp [Label.isOwn, Lifecycle.cost, hm, Main.cost]
  | listen _ hf | keep _ hf =>
      rw [hflag] at hf
      cases hf
  | spawn hm =>
      simp only [Label.isOwn, if_true, Lifecycle.cost, hm, Main.cost, List.length_append,
        List.length_singleton, List.map_append, List.map_singleton, List.sum_append,
        List.sum_singleton, Running.cost, Reader.cost, Option.elim_none]
      omega
  | connect | line _ => exact Nat.le_refl σ.cost
  | raise hs _ | «end» hs _ | store hs | knock hs | signalFails hs =>
      simp [Label.isOwn, Lifecycle.cost, hs, Trigger.cost]
  | quit hs | stdinStore hs | stdinKnock hs | stdinFails hs =>
      simp [Label.isOwn, Lifecycle.cost, hs, Trigger.cost]
  | persister hnext | sweeper hnext =>
      rw [hflag] at hnext
      have hlt := Ticker.cost_next hnext
      simpa [Label.isOwn, Lifecycle.cost] using hlt
  | @session i doing p p' hi hp =>
      rw [hflag] at hp
      have hcost := (Running.moves_of_step hp).cost (hsound.connections p (List.mem_of_getElem? hi))
      have hsum := sum_map_set (f := Running.cost) hi p'
      cases hown : doing.isOwn <;>
        simp only [hown, Label.isOwn, Lifecycle.cost, if_true, Bool.false_eq_true, if_false]
          at hcost ⊢ <;>
        omega

end Cost

/-! ## The threads do not get stuck -/

section Steps

variable {σ σ' : Lifecycle} {l : Label} {ls : List Label}

/-- What the main thread and the readers can rely on when they wait. -/
structure Relied (σ : Lifecycle) : Prop where
  /-- Blocked in `accept` with the flag set, there is a knock, or somebody is about to knock. -/
  knocked : σ.main = .accepting → σ.flag = true →
    .knock ∈ σ.backlog ∨ σ.signal = .knocking ∨ σ.stdin = some .knocking
  /-- The signal thread has been told to stop before anybody waits for it. -/
  closed : (∃ todo, σ.main = .joining todo) ∨ σ.main = .returned → σ.closed = true
  connections : ∀ p ∈ σ.sessions, p.Relied

theorem Relied.step (h : Relied σ) (hl : l.isReliable = true) (hm : Moves σ l σ') :
    Relied σ' := by
  cases hm with
  | stop _ _ | accept _ _ | drop _ _ | keep _ _ | acceptFails _ =>
      exact ⟨nofun, by simp, h.connections⟩
  | listen _ hf => exact ⟨fun _ hflag ↦ by simp [hf] at hflag, by simp, h.connections⟩
  | spawn _ =>
      refine ⟨nofun, by simp, fun p hp ↦ ?_⟩
      rcases List.mem_append.1 hp with hp | hp
      · exact h.connections p hp
      · exact List.mem_singleton.1 hp ▸ ⟨rfl, fun _ ↦ rfl, nofun⟩
  | close _ => exact ⟨nofun, fun _ ↦ rfl, h.connections⟩
  | join hm _ | «return» hm => exact ⟨nofun, fun _ ↦ h.closed (.inl ⟨_, hm⟩), h.connections⟩
  | connect =>
      refine ⟨fun hm hflag ↦ ?_, h.closed, h.connections⟩
      exact (h.knocked hm hflag).imp_left (List.mem_append_left _)
  | raise hs _ | «end» hs _ =>
      refine ⟨fun hm hflag ↦ ?_, h.closed, h.connections⟩
      rcases h.knocked hm hflag with hknock | hsignal | hstdin
      · exact .inl hknock
      · rw [hs] at hsignal
        cases hsignal
      · exact .inr (.inr hstdin)
  | quit hs =>
      refine ⟨fun hm hflag ↦ ?_, h.closed, h.connections⟩
      rcases h.knocked hm hflag with hknock | hsignal | hstdin
      · exact .inl hknock
      · exact .inr (.inl hsignal)
      · rw [hs] at hstdin
        cases hstdin
  -- whoever sets the flag is the one who is about to knock
  | store _ => exact ⟨fun _ _ ↦ .inr (.inl rfl), h.closed, h.connections⟩
  | stdinStore _ => exact ⟨fun _ _ ↦ .inr (.inr rfl), h.closed, h.connections⟩
  | knock _ | stdinKnock _ =>
      exact ⟨fun _ _ ↦ .inl (List.mem_append_right _ (List.mem_singleton_self _)), h.closed,
        h.connections⟩
  | signalFails _ | stdinFails _ => cases hl
  | line _ => exact h
  | persister _ | sweeper _ => exact ⟨h.knocked, h.closed, h.connections⟩
  | session hi hp =>
      refine ⟨h.knocked, h.closed, fun q hq ↦ ?_⟩
      rcases List.mem_or_eq_of_mem_set hq with hq | rfl
      · exact h.connections q hq
      · exact (h.connections _ (List.mem_of_getElem? hi)).step hl (Running.moves_of_step hp)

/-- Shutdown is on its way: the flag is set, and nobody waits for a line at the terminal. -/
structure Ending (σ : Lifecycle) : Prop where
  sound : Sound σ
  relied : Relied σ
  flag : σ.flag = true
  stdin : σ.stdin ≠ some .waiting

theorem Ending.step (h : Ending σ) (hl : l.isReliable = true) (hm : Moves σ l σ') :
    Ending σ' := by
  refine ⟨h.sound.step hm, h.relied.step hl hm, ?_, ?_⟩
  · cases hm with
    | store _ | stdinStore _ => rfl
    | _ => exact h.flag
  · cases hm with
    | quit _ | stdinStore _ | stdinKnock _ | stdinFails _ => exact nofun
    | _ => exact h.stdin

/-- A thread that is not done can take a step, or the main thread is not joining yet. -/
theorem can_finish (h : Ending σ) (hclosed : σ.closed = true) {t : Thread}
    (ht : σ.isFinished t = false) :
    ∃ l : Label, l.isOwn = true ∧ (step σ l).isSome = true := by
  have hflag := h.flag
  cases t with
  | signal =>
      refine ⟨.signal, rfl, ?_⟩
      cases hsignal : σ.signal with
      | finished => simp [isFinished, hsignal] at ht
      | waiting | storing | knocking => simp [step, hsignal, hclosed, Trigger.next]
  | stdin =>
      refine ⟨.stdin, rfl, ?_⟩
      rcases hstdin : σ.stdin with _ | _ | _ | _ | _
      · simp [isFinished, hstdin] at ht
      · exact absurd hstdin h.stdin
      · simp [step, hstdin, Trigger.next]
      · simp [step, hstdin, Trigger.next]
      · simp [isFinished, hstdin] at ht
  | persister =>
      refine ⟨.persister, rfl, ?_⟩
      cases hpersister : σ.persister with
      | finished => simp [isFinished, hpersister] at ht
      | sleeping _ | working | lastWork => simp [step, hpersister, hflag, Ticker.next]
  | sweeper =>
      refine ⟨.sweeper, rfl, ?_⟩
      cases hsweeper : σ.sweeper with
      | finished => simp [isFinished, hsweeper] at ht
      | sleeping _ | working | lastWork => simp [step, hsweeper, hflag, Ticker.next]
  | session i =>
      rw [isFinished, Option.all_eq_false] at ht
      obtain ⟨p, hi, hreader⟩ := ht
      have hp := List.mem_of_getElem? hi
      obtain ⟨doing, hown, hstep⟩ := (h.sound.connections p hp).can_step (h.relied.connections p hp)
        (by simpa using hreader)
      exact ⟨.session i doing, hown, by simpa [step, hi, hflag] using hstep⟩

/-- Until the main thread has returned, one of the threads can take a step. -/
theorem can_step (h : Ending σ) (hm : σ.main ≠ .returned) :
    ∃ l : Label, l.isOwn = true ∧ (step σ l).isSome = true := by
  have hflag := h.flag
  cases hmain : σ.main with
  | returned => exact absurd hmain hm
  | checking | accepted _ | spawning _ | closing =>
      exact ⟨.main, rfl, by simp [step, stepMain, hmain, hflag]⟩
  | accepting =>
      rcases h.relied.knocked hmain hflag with hknock | hsignal | hstdin
      · obtain ⟨c, backlog, hbacklog⟩ := List.exists_cons_of_ne_nil (List.ne_nil_of_mem hknock)
        exact ⟨.main, rfl, by simp [step, stepMain, hmain, hbacklog]⟩
      · exact ⟨.signal, rfl, by simp [step, hsignal, Trigger.next]⟩
      · exact ⟨.stdin, rfl, by simp [step, hstdin, Trigger.next]⟩
  | joining todo =>
      cases todo with
      | nil => exact ⟨.main, rfl, by simp [step, stepMain, hmain]⟩
      | cons t todo =>
          cases ht : σ.isFinished t with
          | true => exact ⟨.main, rfl, by simp [step, stepMain, hmain, ht]⟩
          | false => exact can_finish h (h.relied.closed (.inl ⟨_, hmain⟩)) ht

end Steps

end Lifecycle

end Steller
