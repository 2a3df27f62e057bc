import Mathlib.Data.Finset.Card
import Mathlib.Logic.Function.Basic
import Steller.Domain.Channels
import Steller.Domain.Command
import Steller.Lib.Transition
import Steller.Resp.Reply

/-!
# Sessions and the registry

Any number of sessions share one registry.  A session owns a set of the channels
it has joined and a queue that its own replies and other sessions' messages go
into; a second thread, which may die at any time, takes them out and writes them
to the socket.

A pub/sub command is several steps.  `SUBSCRIBE` and `UNSUBSCRIBE` make one call
of the registry for each channel, each under the registry's lock, and then queue
all acks at once; `PUBLISH` makes one call and then queues its count.  Between
two steps of one session any other may take any number, so a session in the
middle of a command is in a state of its own, its `Activity`.

The queue here is everything that was ever put into it.
-/

namespace Steller

open Transition

/-! ## What goes into a queue -/

/-- A channel in an ack, or a null bulk. -/
def channelReply : Option Blob → Reply
  | some channelId => .bulkString channelId
  | none => .nullBulk

/-- The acks of a subscribe or an unsubscribe. -/
def ackReplies (verb : Blob) (inner : List SubUnsubInnerEntry) : List Reply :=
  inner.map fun entry ↦ .array [.bulkString verb, channelReply entry.channelId,
    .integer (min (entry.subscriptionCount : Int) (2 ^ 63 - 1))]

/-- `From<ChannelCommandOutcome> for Replies`. -/
def Replies.ofChannelCommandOutcome : ChannelCommandOutcome → Replies
  | .subscribe inner => ⟨ackReplies ⟨ascii "subscribe", by decide⟩ inner⟩
  | .unsubscribe inner => ⟨ackReplies ⟨ascii "unsubscribe", by decide⟩ inner⟩
  | .publish sentCount => ⟨[.integer sentCount.toNat]⟩

/-- The push a `PUBLISH` makes of its message. -/
def messageReply (channelId message : Blob) : Reply :=
  .array [.bulkString ⟨ascii "message", by decide⟩, .bulkString channelId, .bulkString message]

/-- One item in a session's queue. -/
inductive Parcel where
  /-- The replies to a pub/sub command. -/
  | replies (outcome : ChannelCommandOutcome)
  /-- A published message. -/
  | push (channelId message : Blob)
  /-- The reply to any other command, or an error. -/
  | other (bytes : Bytes)
deriving DecidableEq

/-- The bytes that are queued. -/
def Parcel.bytes : Parcel → Bytes
  | .replies outcome => (Replies.ofChannelCommandOutcome outcome).toBytes
  | .push channelId message => (messageReply channelId message).toBytes
  | .other bytes => bytes

/-- The outcome, if the item is the replies to a pub/sub command. -/
def Parcel.outcome? : Parcel → Option ChannelCommandOutcome
  | .replies outcome => some outcome
  | _ => none

/-- The channel and the message, if the item is a push. -/
def Parcel.message? : Parcel → Option (Blob × Blob)
  | .push channelId message => some (channelId, message)
  | _ => none

/-! ## One session -/

/-- Where a session is. -/
inductive Activity where
  /-- Between commands. -/
  | idle
  /-- In a `SUBSCRIBE`: the channels to come, and the entries so far. -/
  | subscribing (todo : List Blob) (inner : List SubUnsubInnerEntry)
  /-- In an `UNSUBSCRIBE`. -/
  | unsubscribing (todo : List Blob) (inner : List SubUnsubInnerEntry)
  /-- In a `PUBLISH`, before its call of the registry. -/
  | publishing (channelId message : Blob)
  /-- In a `PUBLISH`, after it. -/
  | published (sentCount : UInt32)
  /-- The loop over commands has ended. -/
  | stopped
  /-- In `unsubscribe_from_all`: the channels to come. -/
  | leaving (todo : List Blob)
  /-- Disconnected. -/
  | gone
deriving DecidableEq

/-- A session: its read half, and what is known of its write half. -/
structure Session where
  id : UInt32
  subscriptions : Finset Blob
  /-- The receiving half of the queue is still there. -/
  receiver : Bool
  queue : List Parcel
  activity : Activity

namespace Session

/-- A session that has just connected. -/
def new (id : UInt32) : Session := ⟨id, ∅, true, [], .idle⟩

/-- What the session's pub/sub commands have been answered. -/
def answers (self : Session) : List ChannelCommandOutcome := self.queue.filterMap Parcel.outcome?

/-- The messages that have reached the session's queue, each with its channel. -/
def pushes (self : Session) : List (Blob × Blob) := self.queue.filterMap Parcel.message?

/-- The list is one that iterating over the set can give. -/
def Enumerates (order : List Blob) (channels : Finset Blob) : Prop :=
  order.Nodup ∧ order.toFinset = channels

instance (order : List Blob) (channels : Finset Blob) : Decidable (Enumerates order channels) :=
  inferInstanceAs (Decidable (_ ∧ _))

/-- The start of a pub/sub command.  An `UNSUBSCRIBE` without arguments collects the set first, in
`order`; if that is empty, its one ack is ready. -/
def begun (self : Session) (order : List Blob) : ChannelCommand → Activity
  | .subscribe channelIds => .subscribing channelIds []
  | .unsubscribe channelIds =>
      let targets := if channelIds = [] then order else channelIds
      .unsubscribing targets (if targets = [] then [.newNull self.subscriptions.card] else [])
  | .publish channelId message => .publishing channelId message

/-- Start on a pub/sub command. -/
def begin (self : Session) (order : List Blob) (command : ChannelCommand) : Option Session :=
  if self.activity = .idle ∧ (command = .unsubscribe [] → Enumerates order self.subscriptions) then
    some { self with activity := self.begun order command }
  else none

/-- Note that a channel has been joined, in a `SUBSCRIBE` with `todo` to come. -/
def join (self : Session) (c : Blob) (todo : List Blob) (inner : List SubUnsubInnerEntry) :
    Session :=
  let subscriptions := insert c self.subscriptions
  let entry := SubUnsubInnerEntry.new c subscriptions.card
  { self with subscriptions, activity := .subscribing todo (inner ++ [entry]) }

/-- Note that a channel has been left, in an `UNSUBSCRIBE` with `todo` to come. -/
def part (self : Session) (c : Blob) (todo : List Blob) (inner : List SubUnsubInnerEntry) :
    Session :=
  let subscriptions := self.subscriptions.erase c
  let entry := SubUnsubInnerEntry.new c subscriptions.card
  { self with subscriptions, activity := .unsubscribing todo (inner ++ [entry]) }

/-- Queue something of one's own; without a receiver that ends the session's loop. -/
def send (self : Session) (parcel : Parcel) : Session :=
  if self.receiver then { self with queue := self.queue ++ [parcel], activity := .idle }
  else { self with activity := .stopped }

theorem send_cases (self : Session) (parcel : Parcel) :
    self.receiver = true ∧ self.send parcel =
        { self with queue := self.queue ++ [parcel], activity := .idle } ∨
      self.receiver = false ∧ self.send parcel = { self with activity := .stopped } := by
  unfold send
  cases hrec : self.receiver with
  | true => exact .inl ⟨rfl, if_pos rfl⟩
  | false => exact .inr ⟨rfl, if_neg nofun⟩

theorem activity_send {self : Session} (h : self.receiver = true) (parcel : Parcel) :
    (self.send parcel).activity = .idle := by
  rw [send, if_pos h]

theorem id_send (self : Session) (parcel : Parcel) : (self.send parcel).id = self.id := by
  unfold send
  split <;> rfl

theorem subscriptions_send (self : Session) (parcel : Parcel) :
    (self.send parcel).subscriptions = self.subscriptions := by
  unfold send
  split <;> rfl

theorem receiver_send (self : Session) (parcel : Parcel) :
    (self.send parcel).receiver = self.receiver := by
  unfold send
  split <;> rfl

theorem answers_send_replies {self : Session} (h : self.receiver = true)
    (outcome : ChannelCommandOutcome) :
    (self.send (.replies outcome)).answers = self.answers ++ [outcome] := by
  rw [send, if_pos h, answers, List.filterMap_append]
  rfl

/-- Receive messages, each on its channel. -/
def receive (self : Session) (messages : List (Blob × Blob)) : Session :=
  { self with queue := self.queue ++ messages.map fun m ↦ .push m.1 m.2 }

theorem answers_receive (self : Session) (messages : List (Blob × Blob)) :
    (self.receive messages).answers = self.answers := by
  rw [answers, receive, List.filterMap_append, List.filterMap_map]
  exact (congrArg _ (List.filterMap_eq_nil_iff.2 fun _ _ ↦ rfl)).trans (List.append_nil _)

theorem pushes_receive (self : Session) (messages : List (Blob × Blob)) :
    (self.receive messages).pushes = self.pushes ++ messages := by
  rw [pushes, receive, List.filterMap_append, List.filterMap_map]
  exact congrArg _ (List.filterMap_some)

theorem receive_nil (self : Session) : self.receive [] = self := by
  rw [receive, List.map_nil, List.append_nil]

end Session

/-- The outcome that is ready to be sent, once the registry has been called for everything. -/
def Activity.outcome? : Activity → Option ChannelCommandOutcome
  | .subscribing [] inner => some (.subscribe inner)
  | .unsubscribing [] inner => some (.unsubscribe inner)
  | .published sentCount => some (.publish sentCount)
  | _ => none

/-! ## All of them -/

/-- The registry and the sessions, in the order they connected. -/
structure Hub where
  channels : Channels
  sessions : List Session

namespace Hub

/-- Nobody has connected yet. -/
def init : Hub := ⟨∅, []⟩

/-- What can happen next. -/
inductive Label where
  /-- A client connects and its session is given an id. -/
  | connect (id : UInt32)
  /-- A session starts on a pub/sub command. -/
  | begin (session : Nat) (command : ChannelCommand) (order : List Blob)
  /-- A session takes the next step of what it is doing. -/
  | advance (session : Nat)
  /-- A session queues the reply to some other command. -/
  | other (session : Nat) (bytes : Bytes)
  /-- A session's loop ends, at the end of its input or on an error. -/
  | stop (session : Nat)
  /-- The receiving half of a session's queue is dropped. -/
  | hangUp (session : Nat)
  /-- A session whose loop has ended starts to clean up. -/
  | leave (session : Nat) (order : List Blob)

/-- The session with this number. -/
def session (σ : Hub) (s : Nat) : Option Session := σ.sessions[s]?

/-- Whether the receiver of a queue is there. -/
def alive (σ : Hub) (sender : Sender) : Bool := (σ.session sender).any Session.receiver

/-- Add a session. -/
def add (σ : Hub) (p : Session) : Hub := { σ with sessions := σ.sessions ++ [p] }

/-- Change one session. -/
def put (σ : Hub) (s : Nat) (p : Session) : Hub :=
  { σ with sessions := σ.sessions.set s p }

/-- Hand a message to every queue it reaches. -/
def deliver (σ : Hub) (reached : Multiset Sender) (c m : Blob) : Hub :=
  { σ with sessions := σ.sessions.mapIdx fun t p ↦
      p.receive (List.replicate (reached.count t) (c, m)) }

/-- The next step of session `s`, whose state is `p`. -/
def advance (σ : Hub) (s : Nat) (p : Session) : Option Hub :=
  match p.activity with
  | .subscribing (c :: todo) inner =>
      some ({ σ with channels := σ.channels.subscribe c p.id s }.put s (p.join c todo inner))
  | .unsubscribing (c :: todo) inner =>
      some ({ σ with channels := σ.channels.unsubscribe c p.id }.put s (p.part c todo inner))
  | .publishing c m =>
      let (sentCount, channels) := σ.channels.publish σ.alive c
      some (({ σ with channels }.put s { p with activity := .published sentCount }).deliver
        (σ.channels.reached σ.alive c) c m)
  | .leaving (c :: todo) =>
      some ({ σ with channels := σ.channels.unsubscribe c p.id }.put s
        { p with activity := .leaving todo })
  | .leaving [] => some (σ.put s { p with activity := .gone })
  | activity => activity.outcome?.map fun outcome ↦ σ.put s (p.send (.replies outcome))

/-- One step. -/
def step (σ : Hub) : Label → Option Hub
  | .connect id => some (σ.add (.new id))
  | .begin s command order =>
      (σ.session s).bind fun p ↦ (p.begin order command).map fun p' ↦ σ.put s p'
  | .advance s => (σ.session s).bind fun p ↦ σ.advance s p
  | .other s bytes => (σ.session s).bind fun p ↦
      if p.activity = .idle then some (σ.put s (p.send (.other bytes))) else none
  | .stop s => (σ.session s).bind fun p ↦
      if p.activity = .idle then some (σ.put s { p with activity := .stopped }) else none
  | .hangUp s => (σ.session s).bind fun p ↦ some (σ.put s { p with receiver := false })
  | .leave s order => (σ.session s).bind fun p ↦
      if p.activity = .stopped ∧ Session.Enumerates order p.subscriptions then
        some (σ.put s { p with activity := .leaving order })
      else none

/-! ## What a step can do -/

/-- Everything a step can do, guards included. -/
inductive Steps (σ : Hub) : Label → Hub → Prop
  | connect {id : UInt32} : Steps σ (.connect id) (σ.add (.new id))
  | begin {s : Nat} {p : Session} {command : ChannelCommand} {order : List Blob}
      (hs : σ.session s = some p) (hp : p.activity = .idle)
      (horder : command = .unsubscribe [] → Session.Enumerates order p.subscriptions) :
      Steps σ (.begin s command order) (σ.put s { p with activity := p.begun order command })
  | subscribe {s : Nat} {p : Session} {c : Blob} {todo : List Blob}
      {inner : List SubUnsubInnerEntry} (hs : σ.session s = some p)
      (hp : p.activity = .subscribing (c :: todo) inner) :
      Steps σ (.advance s)
        ({ σ with channels := σ.channels.subscribe c p.id s }.put s (p.join c todo inner))
  | unsubscribe {s : Nat} {p : Session} {c : Blob} {todo : List Blob}
      {inner : List SubUnsubInnerEntry} (hs : σ.session s = some p)
      (hp : p.activity = .unsubscribing (c :: todo) inner) :
      Steps σ (.advance s)
        ({ σ with channels := σ.channels.unsubscribe c p.id }.put s (p.part c todo inner))
  | publish {s : Nat} {p : Session} {c m : Blob} (hs : σ.session s = some p)
      (hp : p.activity = .publishing c m) :
      Steps σ (.advance s) (({ σ with channels := (σ.channels.publish σ.alive c).2 }.put s
        { p with activity := .published (σ.channels.publish σ.alive c).1 }).deliver
          (σ.channels.reached σ.alive c) c m)
  | reply {s : Nat} {p : Session} {outcome : ChannelCommandOutcome} (hs : σ.session s = some p)
      (hp : p.activity.outcome? = some outcome) :
      Steps σ (.advance s) (σ.put s (p.send (.replies outcome)))
  | leaveOne {s : Nat} {p : Session} {c : Blob} {todo : List Blob} (hs : σ.session s = some p)
      (hp : p.activity = .leaving (c :: todo)) :
      Steps σ (.advance s) ({ σ with channels := σ.channels.unsubscribe c p.id }.put s
        { p with activity := .leaving todo })
  | left {s : Nat} {p : Session} (hs : σ.session s = some p) (hp : p.activity = .leaving []) :
      Steps σ (.advance s) (σ.put s { p with activity := .gone })
  | other {s : Nat} {p : Session} {bytes : Bytes} (hs : σ.session s = some p)
      (hp : p.activity = .idle) : Steps σ (.other s bytes) (σ.put s (p.send (.other bytes)))
  | stop {s : Nat} {p : Session} (hs : σ.session s = some p) (hp : p.activity = .idle) :
      Steps σ (.stop s) (σ.put s { p with activity := .stopped })
  | hangUp {s : Nat} {p : Session} (hs : σ.session s = some p) :
      Steps σ (.hangUp s) (σ.put s { p with receiver := false })
  | leave {s : Nat} {p : Session} {order : List Blob} (hs : σ.session s = some p)
      (hp : p.activity = .stopped) (horder : Session.Enumerates order p.subscriptions) :
      Steps σ (.leave s order) (σ.put s { p with activity := .leaving order })

theorem steps_of_advance {σ σ' : Hub} {s : Nat} {p : Session} (hs : σ.session s = some p)
    (h : σ.advance s p = some σ') : Steps σ (.advance s) σ' := by
  unfold advance at h
  split at h
  · next hp => cases h; exact .subscribe hs hp
  · next hp => cases h; exact .unsubscribe hs hp
  · next hp => cases h; exact .publish hs hp
  · next hp => cases h; exact .leaveOne hs hp
  · next hp => cases h; exact .left hs hp
  · obtain ⟨outcome, hp, rfl⟩ := Option.map_eq_some_iff.1 h
    exact .reply hs hp

theorem steps_of_step {σ σ' : Hub} {l : Label} (h : step σ l = some σ') : Steps σ l σ' := by
  cases l with
  | connect id => cases h; exact .connect
  | begin s command order =>
      obtain ⟨p, hs, h⟩ := Option.bind_eq_some_iff.1 h
      obtain ⟨p', hp, rfl⟩ := Option.map_eq_some_iff.1 h
      obtain ⟨⟨hidle, horder⟩, hp⟩ := Option.ite_none_right_eq_some.1 hp
      obtain rfl := Option.some.inj hp
      exact .begin hs hidle horder
  | advance s =>
      obtain ⟨p, hs, h⟩ := Option.bind_eq_some_iff.1 h
      exact steps_of_advance hs h
  | other s bytes =>
      obtain ⟨p, hs, h⟩ := Option.bind_eq_some_iff.1 h
      split at h
      · next hp => cases h; exact .other hs hp
      · cases h
  | stop s =>
      obtain ⟨p, hs, h⟩ := Option.bind_eq_some_iff.1 h
      split at h
      · next hp => cases h; exact .stop hs hp
      · cases h
  | hangUp s =>
      obtain ⟨p, hs, h⟩ := Option.bind_eq_some_iff.1 h
      cases h
      exact .hangUp hs
  | leave s order =>
      obtain ⟨p, hs, h⟩ := Option.bind_eq_some_iff.1 h
      split at h
      · next hp => cases h; exact .leave hs hp.1 hp.2
      · cases h

theorem step_of_steps {σ σ' : Hub} {l : Label} (h : Steps σ l σ') : step σ l = some σ' := by
  cases h with
  | connect => rfl
  | begin hs hp horder => rw [step, hs, Option.bind_some, Session.begin, if_pos ⟨hp, horder⟩]; rfl
  | subscribe hs hp => rw [step, hs, Option.bind_some, advance, hp]
  | unsubscribe hs hp => rw [step, hs, Option.bind_some, advance, hp]
  | publish hs hp => rw [step, hs, Option.bind_some, advance, hp]
  | reply hs hp =>
      rw [step, hs, Option.bind_some]
      unfold advance
      split
      · next h => rw [h] at hp; cases hp
      · next h => rw [h] at hp; cases hp
      · next h => rw [h] at hp; cases hp
      · next h => rw [h] at hp; cases hp
      · next h => rw [h] at hp; cases hp
      · rw [hp]; rfl
  | leaveOne hs hp => rw [step, hs, Option.bind_some, advance, hp]
  | left hs hp => rw [step, hs, Option.bind_some, advance, hp]
  | other hs hp => rw [step, hs, Option.bind_some, if_pos hp]
  | stop hs hp => rw [step, hs, Option.bind_some, if_pos hp]
  | hangUp hs => rw [step, hs, Option.bind_some]
  | leave hs hp horder => rw [step, hs, Option.bind_some, if_pos ⟨hp, horder⟩]

/-! ## What a step does to one session -/

/-- What session `s` does to itself in a step, which may be another session's. -/
inductive Own (s : Nat) : Label → Session → Session → Prop
  | stay {l : Label} {p : Session} : Own s l p p
  | begin {p : Session} {command : ChannelCommand} {order : List Blob} (hp : p.activity = .idle)
      (horder : command = .unsubscribe [] → Session.Enumerates order p.subscriptions) :
      Own s (.begin s command order) p { p with activity := p.begun order command }
  | subscribe {p : Session} {c : Blob} {todo : List Blob} {inner : List SubUnsubInnerEntry}
      (hp : p.activity = .subscribing (c :: todo) inner) :
      Own s (.advance s) p (p.join c todo inner)
  | unsubscribe {p : Session} {c : Blob} {todo : List Blob} {inner : List SubUnsubInnerEntry}
      (hp : p.activity = .unsubscribing (c :: todo) inner) :
      Own s (.advance s) p (p.part c todo inner)
  | publish {p : Session} {c m : Blob} {sentCount : UInt32} (hp : p.activity = .publishing c m) :
      Own s (.advance s) p { p with activity := .published sentCount }
  | reply {p : Session} {outcome : ChannelCommandOutcome}
      (hp : p.activity.outcome? = some outcome) :
      Own s (.advance s) p (p.send (.replies outcome))
  | leaveOne {p : Session} {c : Blob} {todo : List Blob} (hp : p.activity = .leaving (c :: todo)) :
      Own s (.advance s) p { p with activity := .leaving todo }
  | left {p : Session} (hp : p.activity = .leaving []) :
      Own s (.advance s) p { p with activity := .gone }
  | other {p : Session} {bytes : Bytes} (hp : p.activity = .idle) :
      Own s (.other s bytes) p (p.send (.other bytes))
  | stop {p : Session} (hp : p.activity = .idle) :
      Own s (.stop s) p { p with activity := .stopped }
  | hangUp {p : Session} : Own s (.hangUp s) p { p with receiver := false }
  | leave {p : Session} {order : List Blob} (hp : p.activity = .stopped)
      (horder : Session.Enumerates order p.subscriptions) :
      Own s (.leave s order) p { p with activity := .leaving order }

/-- The channel and the message, if the step is the registry call of a `PUBLISH`. -/
def publication? (σ : Hub) : Label → Option (Blob × Blob)
  | .advance s => (σ.session s).bind fun p ↦ match p.activity with
    | .publishing c m => some (c, m)
    | _ => none
  | _ => none

/-- What the step puts into the queue of session `s` from a `PUBLISH`. -/
def arrivals (σ : Hub) (l : Label) (s : Nat) : List (Blob × Blob) :=
  match σ.publication? l with
  | some (c, m) => List.replicate ((σ.channels.reached σ.alive c).count s) (c, m)
  | none => []

variable {σ σ' : Hub} {l : Label} {s t : Nat} {p p' q : Session}

theorem lt_of_session (hs : σ.session s = some p) : s < σ.sessions.length :=
  (List.getElem?_eq_some_iff.1 hs).1

theorem put_self (hs : σ.session s = some p) (q : Session) : (σ.put s q).session s = some q :=
  List.getElem?_set_self (lt_of_session hs)

theorem put_of_ne (h : t ≠ s) (q : Session) : (σ.put s q).session t = σ.session t :=
  List.getElem?_set_ne h.symm

theorem length_put (σ : Hub) (s : Nat) (p : Session) :
    (σ.put s p).sessions.length = σ.sessions.length := List.length_set

theorem length_add (σ : Hub) (p : Session) :
    (σ.add p).sessions.length = σ.sessions.length + 1 := List.length_append

theorem session_deliver (σ : Hub) (reached : Multiset Sender) (c m : Blob) (s : Nat) :
    (σ.deliver reached c m).session s =
      (σ.session s).map fun p ↦ p.receive (List.replicate (reached.count s) (c, m)) :=
  List.getElem?_mapIdx

theorem add_of_lt (h : t < σ.sessions.length) (q : Session) :
    (σ.add q).session t = σ.session t := List.getElem?_append_left h

theorem add_of_some (hs : σ.session s = some p) (q : Session) :
    (σ.add q).session s = some p := (add_of_lt (lt_of_session hs) q).trans hs

theorem add_new (σ : Hub) (p : Session) : (σ.add p).session σ.sessions.length = some p :=
  List.getElem?_concat_length

theorem put_cases (hs : σ.session s = some p) (h : (σ.put s p').session t = some q) :
    t = s ∧ q = p' ∨ t ≠ s ∧ σ.session t = some q := by
  by_cases hts : t = s
  · subst hts
    rw [put_self hs] at h
    exact .inl ⟨rfl, (Option.some.inj h).symm⟩
  · rw [put_of_ne hts] at h
    exact .inr ⟨hts, h⟩

theorem deliver_cases {reached : Multiset Sender} {c m : Blob}
    (h : (σ.deliver reached c m).session t = some q) :
    ∃ p, σ.session t = some p ∧ q = p.receive (List.replicate (reached.count t) (c, m)) := by
  rw [session_deliver] at h
  obtain ⟨p, hp, rfl⟩ := Option.map_eq_some_iff.1 h
  exact ⟨p, hp, rfl⟩

theorem add_cases (h : (σ.add p).session t = some q) :
    t = σ.sessions.length ∧ q = p ∨ σ.session t = some q := by
  rcases Nat.lt_or_ge t σ.sessions.length with hlt | hge
  · exact .inr ((add_of_lt hlt p).symm.trans h)
  · rw [session, add, List.getElem?_append_right hge, List.getElem?_singleton] at h
    obtain ⟨hzero, hq⟩ := Option.ite_none_right_eq_some.1 h
    exact .inl ⟨Nat.le_antisymm (Nat.le_of_sub_eq_zero hzero) hge, (Option.some.inj hq).symm⟩

theorem publication?_advance (hs : σ.session s = some p) :
    σ.publication? (.advance s) = match p.activity with
      | .publishing c m => some (c, m)
      | _ => none := by
  rw [publication?, hs, Option.bind_some]

theorem arrivals_of_none (h : σ.publication? l = none) (s : Nat) : σ.arrivals l s = [] := by
  rw [arrivals, h]

theorem arrivals_of_some {c m : Blob} (h : σ.publication? l = some (c, m)) (s : Nat) :
    σ.arrivals l s = List.replicate ((σ.channels.reached σ.alive c).count s) (c, m) := by
  rw [arrivals, h]

/-- The session that takes the step moves, the others stay. -/
theorem own_put {channels : Channels} {pt pt' : Session} (hs : σ.session s = some p)
    (ht : σ.session t = some pt) (hown : Own t l pt pt') :
    ∃ p', Own s l p p' ∧ ({ σ with channels }.put t pt').session s = some p' := by
  by_cases hst : s = t
  · subst hst
    obtain rfl := Option.some.inj (hs.symm.trans ht)
    exact ⟨pt', hown, put_self ht _⟩
  · exact ⟨p, .stay, (put_of_ne hst _).trans hs⟩

/-- A step moves a session on by itself, and then adds what a `PUBLISH` sent. -/
theorem Steps.session (h : Steps σ l σ') (hs : σ.session s = some p) :
    ∃ p', Own s l p p' ∧ σ'.session s = some (p'.receive (σ.arrivals l s)) := by
  have hquiet {τ : Hub} (hnone : σ.publication? l = none)
      (hτ : ∃ p', Own s l p p' ∧ τ.session s = some p') :
      ∃ p', Own s l p p' ∧ τ.session s = some (p'.receive (σ.arrivals l s)) := by
    obtain ⟨p', hown, hp'⟩ := hτ
    refine ⟨p', hown, ?_⟩
    rw [arrivals_of_none hnone, Session.receive_nil, hp']
  cases h with
  | connect => exact hquiet rfl ⟨p, .stay, add_of_some hs _⟩
  | begin ht hp horder => exact hquiet rfl (own_put hs ht (.begin hp horder))
  | subscribe ht hp =>
      refine hquiet ?_ (own_put hs ht (.subscribe hp))
      rw [publication?_advance ht, hp]
  | unsubscribe ht hp =>
      refine hquiet ?_ (own_put hs ht (.unsubscribe hp))
      rw [publication?_advance ht, hp]
  | publish ht hp =>
      have hsome := publication?_advance ht
      rw [hp] at hsome
      obtain ⟨p', hown, hp'⟩ := own_put hs ht (.publish hp)
      refine ⟨p', hown, ?_⟩
      rw [session_deliver, hp', arrivals_of_some hsome, Option.map_some]
  | reply ht hp =>
      refine hquiet ?_ (own_put hs ht (.reply hp))
      rw [publication?_advance ht]
      split
      · next hpub => rw [hpub] at hp; cases hp
      · rfl
  | leaveOne ht hp =>
      refine hquiet ?_ (own_put hs ht (.leaveOne hp))
      rw [publication?_advance ht, hp]
  | left ht hp =>
      refine hquiet ?_ (own_put hs ht (.left hp))
      rw [publication?_advance ht, hp]
  | other ht hp => exact hquiet rfl (own_put hs ht (.other hp))
  | stop ht hp => exact hquiet rfl (own_put hs ht (.stop hp))
  | hangUp ht => exact hquiet rfl (own_put hs ht .hangUp)
  | leave ht hp horder => exact hquiet rfl (own_put hs ht (.leave hp horder))

theorem Own.pushes (h : Own s l p p') : p'.pushes = p.pushes := by
  have hsend (parcel : Parcel) (hparcel : parcel.message? = none) :
      (p.send parcel).pushes = p.pushes := by
    rcases p.send_cases parcel with ⟨-, hsend⟩ | ⟨-, hsend⟩ <;> rw [hsend]
    · rw [Session.pushes, List.filterMap_append, List.filterMap_cons_none hparcel]
      exact List.append_nil _
    · rfl
  cases h with
  | reply hp => exact hsend _ rfl
  | other hp => exact hsend _ rfl
  | _ => rfl

theorem Own.id_eq (h : Own s l p p') : p'.id = p.id := by
  cases h with
  | reply hp => exact p.id_send _
  | other hp => exact p.id_send _
  | _ => rfl

theorem Own.receiver (h : Own s l p p') (hrec : p'.receiver = true) : p.receiver = true := by
  cases h with
  | reply hp => exact (p.receiver_send _).symm.trans hrec
  | other hp => exact (p.receiver_send _).symm.trans hrec
  | hangUp => cases hrec
  | _ => exact hrec

/-- Sessions come by connecting, and never go out of the list. -/
theorem Steps.length (h : Steps σ l σ') :
    (∃ id, l = .connect id ∧ σ' = σ.add (.new id)) ∨
      σ'.sessions.length = σ.sessions.length := by
  cases h with
  | connect => exact .inl ⟨_, rfl, rfl⟩
  | publish hs hp => exact .inr (List.length_mapIdx.trans List.length_set)
  | _ => exact .inr List.length_set

/-- A session was there before the step, or it is the one that has just connected. -/
theorem Steps.session_or_new (h : Steps σ l σ') (hs : σ'.session s = some p') :
    (∃ p, σ.session s = some p) ∨
      s = σ.sessions.length ∧ ∃ id, l = .connect id ∧ p' = .new id := by
  rcases h.length with ⟨id, rfl, rfl⟩ | hlength
  · rcases add_cases hs with ⟨hnew, rfl⟩ | hs
    · exact .inr ⟨hnew, id, rfl, rfl⟩
    · exact .inl ⟨p', hs⟩
  · exact .inl ⟨_, List.getElem?_eq_getElem (hlength ▸ lt_of_session hs)⟩

/-- What a session's own moves keep, and messages that arrive, is true of it after any run, if it
is true before. -/
theorem own_invariant {Inv : Session → Prop} {Good : Label → Prop}
    (hown : ∀ {l p p'}, Good l → Own s l p p' → Inv p → Inv p')
    (hreceive : ∀ {p messages}, Inv p → Inv (p.receive messages)) {ls : List Label}
    (hrun : exec step σ ls = some σ') (hls : ∀ l ∈ ls, Good l) (hs : σ.session s = some p)
    (hp : Inv p) : ∃ p', σ'.session s = some p' ∧ Inv p' := by
  have hstep {σ σ' : Hub} {l : Label} (h : ∃ p, σ.session s = some p ∧ Inv p) (hl : Good l)
      (hstep : step σ l = some σ') : ∃ p', σ'.session s = some p' ∧ Inv p' := by
    obtain ⟨p, hs, hp⟩ := h
    obtain ⟨p', hp', hs'⟩ := (steps_of_step hstep).session hs
    exact ⟨_, hs', hreceive (hown hl hp' hp)⟩
  exact (along_of_forall hls).invariant hstep ⟨p, hs, hp⟩ hrun

end Hub

/-- A channel for small runs. -/
def news : Blob := ⟨ascii "news", by decide⟩

/-- A message for small runs. -/
def hello : Blob := ⟨ascii "hello", by decide⟩

end Steller
