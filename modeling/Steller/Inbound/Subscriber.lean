import Steller.Inbound.Pipeline
import Steller.Inbound.Transcript

/-!
# Reading the wire of a subscriber

Messages from other sessions and replies to a client's own commands come down one
connection, and nothing marks which is which but their form.  That is enough: no
reply looks like a message, and no message like an ack (`Hub.reads`).  So a
client that reads the bytes frame by frame gets every message that was published
to it, in order, and knows of the channels it has joined what the queue's own
transcript says.

The condition is that a session queues nothing else of its own, and its loop does
not (`Repl.sends_answers`).
-/

namespace Steller

open Incremental Transition

/-! ## What a frame says -/

/-- What a subscriber learns from a frame. -/
inductive Notice where
  | message (channelId message : Blob)
  | joined (channelId : Blob)
  | parted (channelId : Blob)
deriving DecidableEq

/-- A frame as a subscriber reads it; most frames tell it nothing. -/
def Reply.notice? : Reply → Option Notice
  | .array [.bulkString verb, .bulkString channelId, .bulkString message] =>
      if verb.bytes = ascii "message" then some (.message channelId message) else none
  | .array [.bulkString verb, .bulkString channelId, .integer _] =>
      if verb.bytes = ascii "subscribe" then some (.joined channelId)
      else if verb.bytes = ascii "unsubscribe" then some (.parted channelId)
      else none
  | _ => none

/-- The message, if that is what was read. -/
def Notice.message? : Notice → Option (Blob × Blob)
  | .message c m => some (c, m)
  | .joined _ | .parted _ => none

/-- Go on from what is known. -/
def Transcript.heed (self : Transcript) : Notice → Transcript
  | .message c m => if c ∈ self.acked then self else { self with early := self.early ++ [(c, m)] }
  | .joined c => { self with acked := insert c self.acked }
  | .parted c => { self with acked := self.acked.erase c }

/-- What a session queues that is neither acks nor a message. -/
inductive Spoken : Bytes → Prop
  | outcome (outcome : CommandOutcome) : Spoken (Reply.ofCommandOutcome outcome).toBytes
  | malformed (e : FrameError) : Spoken e.reply
  | refused (e : CommandFromFrameError) : Spoken e.reply

/-- It is a frame that tells a subscriber nothing. -/
theorem Spoken.exists_reply {bytes : Bytes} (h : Spoken bytes) :
    ∃ reply : Reply, bytes = reply.toBytes ∧ reply.notice? = none := by
  cases h with
  | outcome outcome =>
      refine ⟨_, rfl, ?_⟩
      cases outcome with
      | value value => cases value <;> rfl
      | pong message => cases message <;> rfl
      | ttl ttl => cases ttl <;> rfl
      | ok | bool _ | integer _ => rfl
  | malformed e => exact ⟨_, rfl, rfl⟩
  | refused e => exact ⟨_, rfl, rfl⟩

/-! ## One item of the queue -/

/-- Acks are notices of their channels; the ack of an `UNSUBSCRIBE` that had nothing to do is
none. -/
theorem notices_ackReplies {verb : Blob} (notice : Blob → Notice)
    (hverb : ∀ c n, Reply.notice? (.array [.bulkString verb, .bulkString c, .integer n]) =
      some (notice c)) (inner : List SubUnsubInnerEntry) :
    (ackReplies verb inner).filterMap Reply.notice? =
      (inner.filterMap SubUnsubInnerEntry.channelId).map notice := by
  rw [ackReplies, List.filterMap_map, List.map_filterMap]
  congr 1
  funext entry
  rw [Function.comp_apply]
  cases entry.channelId with
  | none => rfl
  | some c => exact hverb c _

namespace Transcript

theorem foldl_joined (r : Transcript) (cs : List Blob) :
    (cs.map Notice.joined).foldl heed r = { r with acked := r.acked ∪ cs.toFinset } := by
  induction cs generalizing r with
  | nil => simp
  | cons c cs ih =>
      rw [List.map_cons, List.foldl_cons, ih, heed]
      simp [Finset.insert_union, Finset.union_insert]

theorem foldl_parted (r : Transcript) (cs : List Blob) :
    (cs.map Notice.parted).foldl heed r = { r with acked := r.acked \ cs.toFinset } := by
  induction cs generalizing r with
  | nil => simp
  | cons c cs ih =>
      rw [List.map_cons, List.foldl_cons, ih, heed]
      simp [Finset.erase_sdiff_comm, Finset.sdiff_insert]

end Transcript

/-- A session queues nothing else of its own. -/
def Parcel.IsSpoken : Parcel → Prop
  | .other bytes => Spoken bytes
  | .replies _ | .push _ _ => True

/-- An item is frames, and they say what the item is. -/
theorem Parcel.exists_frames {parcel : Parcel} (h : parcel.IsSpoken) :
    ∃ frames : List Reply, parcel.bytes = frames.flatMap Reply.toBytes ∧
      (frames.filterMap Reply.notice?).filterMap Notice.message? = parcel.message?.toList ∧
      ∀ r, (frames.filterMap Reply.notice?).foldl Transcript.heed r = r.next parcel := by
  cases parcel with
  | replies outcome =>
      refine ⟨(Replies.ofChannelCommandOutcome outcome).inner, rfl, ?_⟩
      cases outcome with
      | subscribe inner =>
          rw [Replies.ofChannelCommandOutcome, notices_ackReplies .joined fun _ _ ↦ rfl]
          refine ⟨?_, fun r ↦ Transcript.foldl_joined r _⟩
          rw [List.filterMap_map]
          exact List.filterMap_eq_nil_iff.2 fun _ _ ↦ rfl
      | unsubscribe inner =>
          rw [Replies.ofChannelCommandOutcome, notices_ackReplies .parted fun _ _ ↦ rfl]
          refine ⟨?_, fun r ↦ Transcript.foldl_parted r _⟩
          rw [List.filterMap_map]
          exact List.filterMap_eq_nil_iff.2 fun _ _ ↦ rfl
      | publish sentCount => exact ⟨rfl, fun _ ↦ rfl⟩
  | push c m => exact ⟨[messageReply c m], (List.append_nil _).symm, rfl, fun _ ↦ rfl⟩
  | other bytes =>
      obtain ⟨reply, rfl, hnotice⟩ := Spoken.exists_reply h
      refine ⟨[reply], (List.append_nil _).symm, ?_, ?_⟩
      · rw [List.filterMap_cons_none hnotice]
        rfl
      · rw [List.filterMap_cons_none hnotice]
        exact fun _ ↦ rfl

/-- So is a queue. -/
theorem exists_frames_of_queue {queue : List Parcel} (h : ∀ parcel ∈ queue, parcel.IsSpoken) :
    ∃ frames : List Reply, queue.flatMap Parcel.bytes = frames.flatMap Reply.toBytes ∧
      (frames.filterMap Reply.notice?).filterMap Notice.message? =
        queue.filterMap Parcel.message? ∧
      ∀ r, (frames.filterMap Reply.notice?).foldl Transcript.heed r =
        queue.foldl Transcript.next r := by
  induction queue with
  | nil => exact ⟨[], rfl, rfl, fun _ ↦ rfl⟩
  | cons parcel queue ih =>
      obtain ⟨frames, hbytes, hmessages, hheed⟩ := Parcel.exists_frames (h parcel List.mem_cons_self)
      obtain ⟨rest, hbytes', hmessages', hheed'⟩ :=
        ih fun parcel' hparcel ↦ h parcel' (List.mem_cons_of_mem _ hparcel)
      refine ⟨frames ++ rest, ?_, ?_, fun r ↦ ?_⟩
      · rw [List.flatMap_cons, List.flatMap_append, hbytes, hbytes']
      · rw [List.filterMap_append, List.filterMap_append, hmessages, hmessages']
        cases hmessage : parcel.message? with
        | none => rw [List.filterMap_cons_none hmessage]; rfl
        | some m => rw [List.filterMap_cons_some hmessage]; rfl
      · rw [List.filterMap_append, List.foldl_append, hheed, hheed', List.foldl_cons]

/-! ## The wire -/

namespace Hub

variable {s : Nat} {l : Label} {ls : List Label} {σ : Hub} {p p' : Session}

theorem Own.isSpoken (hown : Own s l p p') (hl : ∀ bytes, l = .other s bytes → Spoken bytes)
    (h : ∀ parcel ∈ p.queue, parcel.IsSpoken) : ∀ parcel ∈ p'.queue, parcel.IsSpoken := by
  have hsend {own : Parcel} (hspoken : own.IsSpoken) :
      ∀ parcel ∈ (p.send own).queue, parcel.IsSpoken := by
    rcases p.send_cases own with ⟨-, heq⟩ | ⟨-, heq⟩ <;> rw [heq]
    · intro parcel hparcel
      rcases List.mem_append.1 hparcel with hparcel | hparcel
      · exact h parcel hparcel
      · exact List.mem_singleton.1 hparcel ▸ hspoken
    · exact h
  cases hown with
  | reply _ => exact hsend trivial
  | other _ => exact hsend (hl _ rfl)
  | _ => exact h

/-- What every session queues can be read, in every state of every run. -/
theorem isSpoken_of_exec (hrun : exec step init ls = some σ)
    (hspoken : ∀ l ∈ ls, ∀ s bytes, l = .other s bytes → Spoken bytes)
    (hs : σ.session s = some p) : ∀ parcel ∈ p.queue, parcel.IsSpoken := by
  have hstep {σ σ' : Hub} {l : Label}
      (h : ∀ s p, σ.session s = some p → ∀ parcel ∈ p.queue, parcel.IsSpoken)
      (hl : ∀ s bytes, l = .other s bytes → Spoken bytes) (hstep : step σ l = some σ') :
      ∀ s p, σ'.session s = some p → ∀ parcel ∈ p.queue, parcel.IsSpoken := by
    intro s p' hs'
    have hsteps := steps_of_step hstep
    rcases hsteps.session_or_new hs' with ⟨p, hs⟩ | ⟨-, id, -, rfl⟩
    · obtain ⟨q, hown, hq⟩ := hsteps.session hs
      obtain rfl := Option.some.inj (hs'.symm.trans hq)
      intro parcel hparcel
      rcases List.mem_append.1 hparcel with hparcel | hparcel
      · exact hown.isSpoken (hl s) (h s p hs) parcel hparcel
      · obtain ⟨m, -, rfl⟩ := List.mem_map.1 hparcel
        trivial
    · exact nofun
  have hinit : ∀ s p, init.session s = some p → ∀ parcel ∈ p.queue, parcel.IsSpoken :=
    fun _ _ hs ↦ (nomatch hs)
  exact (along_of_forall hspoken).invariant hstep hinit hrun s p hs

/-- However sessions and their commands are interleaved: what goes down a session's wire is a
sequence of frames in one way only, and a client that goes through it finds the messages published
to the session, all of them and in order, and knows the channels it has joined: those of the
session's own set, whenever the session is between commands. -/
theorem reads (ls : List Label) (hrun : exec step init ls = some σ)
    (hspoken : ∀ l ∈ ls, ∀ s bytes, l = .other s bytes → Spoken bytes)
    (hs : σ.session s = some p) :
    ∃ frames : List Reply,
      (∀ frames' : List Reply, p.queue.flatMap Parcel.bytes = frames'.flatMap Reply.toBytes ↔
        frames' = frames) ∧
      (frames.filterMap Reply.notice?).filterMap Notice.message? = p.pushes ∧
      (frames.filterMap Reply.notice?).foldl Transcript.heed ⟨∅, []⟩ = p.transcript ∧
      (p.receiver = true → p.activity = .idle → p.transcript.acked = p.subscriptions) := by
  obtain ⟨frames, hbytes, hmessages, hheed⟩ :=
    exists_frames_of_queue (isSpoken_of_exec hrun hspoken hs)
  refine ⟨frames, fun frames' ↦ ⟨fun h ↦ ?_, fun h ↦ h ▸ hbytes⟩, hmessages, hheed _, ?_⟩
  · exact PrefixCode.flatMap_injective Reply.delimited_toBytes Reply.toBytes_ne_nil
      (h.symm.trans hbytes)
  · intro hrec hidle
    have htracked := tracked_of_exec hrun hs hrec
    rw [Session.Tracked, hidle] at htracked
    exact htracked.symm

/-- A session joins a channel and pings, and another one publishes in between. -/
def chatter : List Label :=
  [.connect 1, .begin 0 (.subscribe [news]) [], .advance 0, .connect 2, .advance 0,
    .begin 1 (.publish news hello) [], .advance 1,
    .other 0 (Reply.ofCommandOutcome (.pong none)).toBytes]

theorem reads_chatter :
    ∃ σ p, exec step init chatter = some σ ∧ σ.session 0 = some p ∧ ∃ frames : List Reply,
      (∀ frames' : List Reply, p.queue.flatMap Parcel.bytes = frames'.flatMap Reply.toBytes ↔
        frames' = frames) ∧
      (frames.filterMap Reply.notice?).filterMap Notice.message? = p.pushes ∧
      (frames.filterMap Reply.notice?).foldl Transcript.heed ⟨∅, []⟩ = p.transcript ∧
      (p.receiver = true → p.activity = .idle → p.transcript.acked = p.subscriptions) := by
  have hspoken : ∀ l ∈ chatter, ∀ s bytes, l = .other s bytes → Spoken bytes := by
    rintro _ hl s bytes rfl
    have hbytes : bytes = (Reply.ofCommandOutcome (.pong none)).toBytes := by
      simp only [chatter, List.mem_cons, reduceCtorEq, List.not_mem_nil, Label.other.injEq,
        or_false, false_or] at hl
      exact hl.2
    rw [hbytes]
    exact .outcome (.pong none)
  have hreads {σ : Hub} {p : Session} (hrun) (hs : σ.session 0 = some p) :=
    reads chatter hrun hspoken hs
  exact ⟨_, _, rfl, rfl, hreads rfl rfl⟩

end Hub

/-! ## The loop says nothing else -/

/-- Acks, or what else a session queues of its own. -/
def IsAnswer (bytes : Bytes) : Prop :=
  (∃ outcome, bytes = (Parcel.replies outcome).bytes) ∨ Spoken bytes

section Loop

variable {W : Type} {flag : Nat → Bool} {talk : Talk W}

/-- A session has queued answers only. -/
def OnlyAnswers (talk : Talk W) : Prop := ∀ bytes ∈ sends talk.trace, IsAnswer bytes

theorem OnlyAnswers.note {a : Act} (h : OnlyAnswers talk) (ha : a.sent? = none) :
    OnlyAnswers (talk.note a) := by
  rw [OnlyAnswers, Talk.note, sends_concat, ha]
  exact fun bytes hbytes ↦ h bytes (by simpa using hbytes)

theorem OnlyAnswers.send (h : OnlyAnswers talk) {bytes : Bytes} (hbytes : IsAnswer bytes) :
    Leads OnlyAnswers (fun left ↦ OnlyAnswers left.2) (Over.turn (talk.send bytes)) := by
  rcases talk.turn_send_cases bytes with ⟨room, heq⟩ | heq
  · rw [heq]
    intro bytes' hbytes'
    rw [Talk.note, sends_concat] at hbytes'
    rcases List.mem_append.1 hbytes' with hbefore | hlast
    · exact h bytes' hbefore
    · obtain rfl := List.mem_singleton.1 hlast
      exact hbytes
  · rw [heq]
    exact h

theorem OnlyAnswers.poll (h : OnlyAnswers talk) :
    Leads OnlyAnswers (fun left ↦ OnlyAnswers left.2) (talk.poll flag) := by
  have hpolled : OnlyAnswers { talk with polled := talk.polled + 1 } := h
  rcases talk.poll_cases flag with ⟨-, heq⟩ | ⟨-, heq⟩
  · rw [heq]
    exact hpolled.note rfl
  · rw [heq]
    exact hpolled.note rfl

theorem OnlyAnswers.dispatch [Backend W] {clock : Nat → Readings} (h : OnlyAnswers talk)
    (command : Command) :
    Leads OnlyAnswers (fun left ↦ OnlyAnswers left.2)
      (Over.turn (talk.dispatch clock command)) := by
  cases command with
  | ping message =>
      have hdealt : OnlyAnswers { talk with dealt := talk.dealt + 1 } := h
      exact hdealt.send (.inr (.outcome (.pong message)))
  | channel command =>
      rcases hresult : Backend.executeChannelCommand talk.backend command with ⟨result, backend⟩
      have hdealt : OnlyAnswers { talk with backend, dealt := talk.dealt + 1 } := h
      have hcalled := hdealt.note (a := .channel command) rfl
      rw [Talk.dispatch, hresult]
      cases result with
      | error e => exact hcalled
      | ok outcome => exact hcalled.send (.inl ⟨outcome, rfl⟩)
  | cache command =>
      rcases hresult : Backend.executeLogged talk.backend (clock talk.dealt).now
        (clock talk.dealt).later command with ⟨result, backend⟩
      have hdealt : OnlyAnswers { talk with backend, dealt := talk.dealt + 1 } := h
      have hcalled := hdealt.note (a := .execute command) rfl
      rw [Talk.dispatch, hresult]
      cases result with
      | error e => exact hcalled
      | ok outcome => exact hcalled.send (.inr (.outcome outcome))

theorem OnlyAnswers.handle [Backend W] {clock : Nat → Readings} (h : OnlyAnswers talk)
    (frame : Frame) :
    Leads OnlyAnswers (fun left ↦ OnlyAnswers left.2) (talk.handle clock flag frame) := by
  rw [Talk.handle]
  cases Command.tryFrom (clock talk.dealt).parse frame with
  | error e =>
      have hdealt : OnlyAnswers { talk with dealt := talk.dealt + 1 } := h
      exact hdealt.send (.inr (.refused e))
  | ok command => exact (h.dispatch command).bind fun talk' h' ↦ h'.poll

theorem OnlyAnswers.receive (h : OnlyAnswers talk) (d : Delivery) :
    Leads OnlyAnswers (fun left ↦ OnlyAnswers left.2) (talk.receive flag d) := by
  have hread : OnlyAnswers (talk.note (.read (some d))) := h.note rfl
  cases d with
  | chunk bytes nonempty length_le => exact hread
  | timedOut => exact hread.poll
  | wouldBlock => exact hread.poll

end Loop

/-- Everything that the loop of a session queues is the replies to a pub/sub command, the reply to
another command, or an error. -/
theorem Repl.sends_answers {W : Type} [Backend W] (clock : Nat → Readings) (flag : Nat → Bool)
    (broken : Bool) (deliveries : List Delivery) (backend : W) (room : Option Nat) :
    ∀ bytes ∈ sends (acts clock flag broken deliveries backend room), IsAnswer bytes := by
  have hstart : OnlyAnswers (Talk.start backend room) :=
    fun bytes hbytes ↦ absurd hbytes List.not_mem_nil
  rw [acts, loop_eq_attend]
  refine Leads.finish (Q := fun left ↦ OnlyAnswers left.2) hstart.poll fun talk h ↦ ?_
  exact attend_rule (P := fun _ _ _ ↦ OnlyAnswers) (fun d rest buf talk h ↦ h.receive d)
    (fun rest buf n frame talk h ↦ h.handle frame)
    (fun rest buf n e talk h ↦ h.send (.inr (.malformed e))) (fun buf talk h ↦ h.note rfl) h

theorem Repl.sends_answers_pong :
    ascii "+PONG\r\n" ∈ sends (acts (fun _ ↦ .at ⟨0⟩) (fun _ ↦ false) false
        [.chunk (ascii "*1\r\n$4\r\nPING\r\n") (by decide) (by decide)] Desk.bare none) ∧
      IsAnswer (ascii "+PONG\r\n") := by
  have hmem : ascii "+PONG\r\n" ∈ sends (acts (fun _ ↦ .at ⟨0⟩) (fun _ ↦ false) false
      [.chunk (ascii "*1\r\n$4\r\nPING\r\n") (by decide) (by decide)] Desk.bare none) := by
    rw [acts, loop_eq_attend]
    exact List.mem_singleton_self _
  exact ⟨hmem, sends_answers _ _ _ _ _ _ _ hmem⟩

end Steller
