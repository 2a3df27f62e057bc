import Steller.Inbound.Repl
import Steller.Lib.Trace

/-!
# What a session does, and in which order

`attend_rule` is the rule of induction for the loop of a session: what each
delivery, each frame and each malformed frame preserves holds of the whole of
it.  With it the loop turns out to follow a protocol (`Repl.follows`), in which
one act after another is allowed by what has been done so far, and that
protocol gives the order of what a client can see.

* `Repl.prompt` — whenever the session reads, it has queued one item for each
  frame that had arrived.
* `Repl.heeds` — it carries out no two commands without a look at the shutdown
  flag in between, and does nothing once it has found the flag set.
-/

namespace Steller

open Incremental Trace

/-! ## The rule of induction -/

section Rule

variable {W : Type}

/-- One move of a session leads to `P` if it goes on, and to `Q` if it is over. -/
def Leads (P : Talk W → Prop) (Q : Over W → Prop) : Except (Over W) (Talk W) → Prop
  | .ok talk => P talk
  | .error left => Q left

variable {P P' : Talk W → Prop} {Q : Over W → Prop} {x : Except (Over W) (Talk W)}

theorem Leads.bind (h : Leads P Q x) {f : Talk W → Except (Over W) (Talk W)}
    (hf : ∀ talk, P talk → Leads P' Q (f talk)) : Leads P' Q (x >>= f) := by
  cases x with
  | ok talk => exact hf talk h
  | error left => exact h

theorem Leads.finish (h : Leads P Q x) {next : Talk W → Over W}
    (hnext : ∀ talk, P talk → Q (next talk)) : Q (finish next x) := by
  cases x with
  | ok talk => exact hnext talk h
  | error left => exact h

end Rule

/-- How many answers a run of the parser calls for: one for each frame, and one for a malformed
frame at the end. -/
def answersTo (found : Drained UInt8 FrameError Frame) : Nat :=
  found.items.length + if found.stop.isSome then 1 else 0

section Attend

variable {W : Type} [Backend W] {clock : Nat → Readings} {flag : Nat → Bool} {broken : Bool}
  {P : List Delivery → Bytes → Nat → Talk W → Prop} {Q : Over W → Prop}

/-- Dealing with what a delivery completed, frame by frame: `P` counts the answers still due. -/
theorem Talk.handleAll_rule {rest : List Delivery} {buf : Bytes}
    (hhandle : ∀ n frame talk, P rest buf (n + 1) talk →
      Leads (P rest buf n) Q (talk.handle clock flag frame))
    (hsend : ∀ n e talk, P rest buf (n + 1) talk →
      Leads (P rest buf n) Q (Over.turn (talk.send (FrameError.reply e))))
    (found : Drained UInt8 FrameError Frame) {talk : Talk W}
    (h : P rest buf (answersTo found) talk) :
    Leads (P rest buf 0) Q (talk.handleAll clock flag found) := by
  obtain ⟨items, stop, left⟩ := found
  induction items generalizing talk with
  | nil =>
      cases stop with
      | none => exact h
      | some e => exact hsend 0 e talk h
  | cons frame items ih =>
      rw [show (⟨frame :: items, stop, left⟩ : Drained UInt8 FrameError Frame) =
        Drained.cons frame ⟨items, stop, left⟩ from rfl] at h ⊢
      rw [Talk.handleAll_cons]
      refine (hhandle (answersTo ⟨items, stop, left⟩) frame talk ?_).bind fun talk' h' ↦ ih h'
      rwa [answersTo, Drained.cons, List.length_cons, Nat.add_right_comm] at h

/-- What every move of a session preserves holds of the whole session.  `P` speaks of the
deliveries to come, the bytes in the buffer and the number of answers due. -/
theorem attend_rule
    (hread : ∀ d rest buf talk, P (d :: rest) buf 0 talk →
      let found := drain .incomplete Frame.parseOne (buf ++ d.bytes)
      Leads (P rest (kept found) (answersTo found)) Q (talk.receive flag d))
    (hhandle : ∀ rest buf n frame talk, P rest buf (n + 1) talk →
      Leads (P rest buf n) Q (talk.handle clock flag frame))
    (hsend : ∀ rest buf n e talk, P rest buf (n + 1) talk →
      Leads (P rest buf n) Q (Over.turn (talk.send (FrameError.reply e))))
    (hend : ∀ buf talk, P [] buf 0 talk → Q (ended broken, talk.note (.read none)))
    {buf : Bytes} {deliveries : List Delivery} {talk : Talk W} (h : P deliveries buf 0 talk) :
    Q (attend clock flag broken buf deliveries talk) := by
  induction deliveries generalizing buf talk with
  | nil => exact hend buf talk h
  | cons d rest ih =>
      rw [attend]
      refine Leads.finish (P := P rest (kept _) 0) ?_ fun talk' h' ↦ ih h'
      exact (hread d rest buf talk h).bind fun talk' h' ↦
        Talk.handleAll_rule (hhandle rest _) (hsend rest _) _ h'

end Attend

/-! ## What one move can do -/

/-- A command carried out. -/
def Act.IsCall : Act → Prop
  | .execute _ | .channel _ => True
  | _ => False

/-- A look at the flag. -/
def Act.IsPoll : Act → Prop
  | .poll => True
  | _ => False

namespace Talk

variable {W : Type}

/-- An answer is queued, or the session is over. -/
theorem turn_send_cases (self : Talk W) (bytes : Bytes) :
    (∃ room, Over.turn (self.send bytes) = .ok ({ self with room }.note (.send bytes))) ∨
      Over.turn (self.send bytes) = .error (.error (.send bytes), self) := by
  rcases self.send_cases bytes with ⟨room, h⟩ | h
  · exact .inl ⟨room, congrArg Over.turn h⟩
  · exact .inr (congrArg Over.turn h)

/-- The session goes on if the flag is not set, and is over if it is. -/
theorem poll_cases (flag : Nat → Bool) (self : Talk W) :
    flag self.polled = false ∧
        self.poll flag = .ok ({ self with polled := self.polled + 1 }.note .poll) ∨
      flag self.polled = true ∧
        self.poll flag = .error (.ok (), { self with polled := self.polled + 1 }.note .poll) := by
  rw [poll]
  cases flag self.polled with
  | false => exact .inl ⟨rfl, rfl⟩
  | true => exact .inr ⟨rfl, rfl⟩

/-- Carrying out a command is at most one call, and then an answer, unless the call failed. -/
theorem dispatch_cases [Backend W] (clock : Nat → Readings) (self : Talk W) (command : Command) :
    ∃ next calls, next.trace = self.trace ++ calls ∧ next.polled = self.polled ∧
      (calls = [] ∨ ∃ a, a.IsCall ∧ calls = [a]) ∧
      ((∃ bytes, self.dispatch clock command = next.send bytes) ∨
        ∃ e, self.dispatch clock command = (.error e, next)) := by
  cases command with
  | ping message =>
      exact ⟨{ self with dealt := self.dealt + 1 }, [], (List.append_nil _).symm, rfl, .inl rfl,
        .inl ⟨_, rfl⟩⟩
  | channel command =>
      rcases h : Backend.executeChannelCommand self.backend command with ⟨result, backend⟩
      refine ⟨{ self with backend, dealt := self.dealt + 1 }.note (.channel command),
        [.channel command], rfl, rfl, .inr ⟨.channel command, trivial, rfl⟩, ?_⟩
      rw [dispatch, h]
      cases result with
      | error e => exact .inr ⟨_, rfl⟩
      | ok outcome => exact .inl ⟨_, rfl⟩
  | cache command =>
      rcases h : Backend.executeLogged self.backend (clock self.dealt).now
        (clock self.dealt).later command with ⟨result, backend⟩
      refine ⟨{ self with backend, dealt := self.dealt + 1 }.note (.execute command),
        [.execute command], rfl, rfl, .inr ⟨.execute command, trivial, rfl⟩, ?_⟩
      rw [dispatch, h]
      cases result with
      | error e => exact .inr ⟨_, rfl⟩
      | ok outcome => exact .inl ⟨_, rfl⟩

end Talk

/-! ## The protocol -/

/-- A read from the socket. -/
def Act.IsRead : Act → Prop
  | .read _ => True
  | _ => False

/-- The bytes that an act queues. -/
@[simp]
def Act.sent? : Act → Option Bytes
  | .send bytes => some bytes
  | _ => none

/-- What an act takes from the socket. -/
@[simp]
def Act.delivery? : Act → Option Delivery
  | .read d => d
  | _ => none

/-- What was queued, in order. -/
def sends (trace : List Act) : List Bytes := trace.filterMap Act.sent?

/-- What was taken from the socket, in order. -/
def reads (trace : List Act) : List Delivery := trace.filterMap Act.delivery?

instance : DecidablePred Act.IsPoll
  | .poll => isTrue trivial
  | .read _ | .execute _ | .channel _ | .send _ | .leave => isFalse id

/-- How often the flag was looked at. -/
def polls (trace : List Act) : Nat := trace.countP Act.IsPoll

/-- What the deliveries so far come to: the bytes in the buffer, and how many answers they call
for. -/
structure Received where
  buf : Bytes
  due : Nat

/-- One more delivery. -/
def Received.add (self : Received) (d : Delivery) : Received :=
  let found := drain .incomplete Frame.parseOne (self.buf ++ d.bytes)
  ⟨kept found, self.due + answersTo found⟩

/-- What a list of deliveries comes to. -/
def received (deliveries : List Delivery) : Received := deliveries.foldl Received.add ⟨[], 0⟩

theorem received_concat (deliveries : List Delivery) (d : Delivery) :
    received (deliveries ++ [d]) = (received deliveries).add d := by
  rw [received, List.foldl_append]
  rfl

/-- Where a session is: how many answers are due, and what it has to do first. -/
inductive Stage where
  | ready (due : Nat)
  /-- It has carried out a command, and will answer it. -/
  | called (due : Nat)
  /-- It will look at the flag. -/
  | alert (due : Nat)
  | ended (due : Nat)

/-- The number of answers due. -/
@[simp]
def Stage.due : Stage → Nat
  | .ready n | .called n | .alert n | .ended n => n

/-- Whether a delivery is a timeout. -/
def Delivery.IsTimeout : Delivery → Prop
  | .chunk _ _ _ => False
  | .timedOut | .wouldBlock => True

/-- The answers that one more delivery calls for. -/
def newlyDue (trace : List Act) (d : Delivery) : Nat :=
  answersTo (drain .incomplete Frame.parseOne ((received (reads trace)).buf ++ d.bytes))

/-- What a session may do after a trace, and where it is then. -/
inductive Allowed (flag : Nat → Bool) (trace : List Act) : Stage → Act → Stage → Prop
  | call {n : Nat} {a : Act} :
      a.IsCall → Allowed flag trace (.ready (n + 1)) a (.called (n + 1))
  | answer {n : Nat} (bytes : Bytes) :
      Allowed flag trace (.ready (n + 1)) (.send bytes) (.ready n)
  | answerCall {n : Nat} (bytes : Bytes) :
      Allowed flag trace (.called (n + 1)) (.send bytes) (.alert n)
  | poll {stage : Stage} {n : Nat} :
      stage = .alert n ∨ stage = .ready n → flag (polls trace) = false →
        Allowed flag trace stage .poll (.ready n)
  | stop {stage : Stage} {n : Nat} :
      stage = .alert n ∨ stage = .ready n → flag (polls trace) = true →
        Allowed flag trace stage .poll (.ended n)
  | read {d : Delivery} :
      ¬d.IsTimeout →
        Allowed flag trace (.ready 0) (.read (some d)) (.ready (newlyDue trace d))
  | timeout {d : Delivery} :
      d.IsTimeout →
        Allowed flag trace (.ready 0) (.read (some d)) (.alert (newlyDue trace d))
  | last : Allowed flag trace (.ready 0) (.read none) (.ended 0)

/-- A trace that keeps to the protocol, and where the session is at the end of it. -/
inductive Follows (flag : Nat → Bool) : Stage → List Act → Prop
  | start : Follows flag (.alert 0) []
  | act {stage stage' : Stage} {trace : List Act} {a : Act} :
      Follows flag stage trace → Allowed flag trace stage a stage' →
        Follows flag stage' (trace ++ [a])

section Lists

variable (trace : List Act) (a : Act)

theorem sends_concat : sends (trace ++ [a]) = sends trace ++ a.sent?.toList := by
  rw [sends, List.filterMap_append]
  cases a <;> rfl

theorem reads_concat : reads (trace ++ [a]) = reads trace ++ a.delivery?.toList := by
  rw [reads, List.filterMap_append]
  rcases a with _ | _ | _ <;> rfl

theorem polls_concat_poll : polls (trace ++ [.poll]) = polls trace + 1 := by
  rw [polls, List.countP_append]
  rfl

theorem polls_concat {a : Act} (h : ¬a.IsPoll) : polls (trace ++ [a]) = polls trace := by
  rw [polls, List.countP_append, List.countP_singleton, if_neg (by rwa [decide_eq_true_eq])]
  rfl

end Lists

theorem Act.IsCall.not_isPoll {a : Act} (h : a.IsCall) : ¬a.IsPoll := by
  cases a <;> first | exact id | cases h

theorem Act.IsCall.sent?_eq {a : Act} (h : a.IsCall) : a.sent? = none := by
  cases a <;> first | rfl | cases h

theorem Act.IsCall.delivery?_eq {a : Act} (h : a.IsCall) : a.delivery? = none := by
  cases a <;> first | rfl | cases h

/-! ## The loop keeps to it -/

/-- A session that goes on, at a stage of the protocol: it counts its looks at the flag, and its
buffer holds what the deliveries so far have left. -/
structure OnTrack {W : Type} (flag : Nat → Bool) (all rest : List Delivery) (buf : Bytes)
    (stage : Stage) (talk : Talk W) : Prop where
  follows : Follows flag stage talk.trace
  polled : talk.polled = polls talk.trace
  buffered : (received (reads talk.trace)).buf = buf
  taken : reads talk.trace ++ rest = all

/-- A session that is over has kept to the protocol. -/
def Kept {W : Type} (flag : Nat → Bool) (all : List Delivery) (left : Over W) : Prop :=
  ∃ stage, Follows flag stage left.2.trace ∧ reads left.2.trace <+: all

section OnTrack

variable {W : Type} {flag : Nat → Bool} {all rest : List Delivery} {buf : Bytes} {n : Nat}
  {stage stage' : Stage} {talk talk' : Talk W}

theorem OnTrack.ended (h : OnTrack flag all rest buf stage talk)
    (result : Except SessionError Unit) :
    Kept flag all (result, talk) :=
  ⟨stage, h.follows, rest, h.taken⟩

/-- An act that is neither a look at the flag nor a read. -/
theorem OnTrack.act {a : Act} (h : OnTrack flag all rest buf stage talk)
    (ha : Allowed flag talk.trace stage a stage') (hpoll : ¬a.IsPoll) (hread : a.delivery? = none)
    (htrace : talk'.trace = talk.trace ++ [a]) (hpolled : talk'.polled = talk.polled) :
    OnTrack flag all rest buf stage' talk' where
  follows := htrace ▸ h.follows.act ha
  polled := by rw [hpolled, htrace, polls_concat _ hpoll, h.polled]
  buffered := by rw [htrace, reads_concat, hread, Option.toList_none, List.append_nil, h.buffered]
  taken := by rw [htrace, reads_concat, hread, Option.toList_none, List.append_nil, h.taken]

theorem OnTrack.poll (h : OnTrack flag all rest buf stage talk)
    (hstage : stage = .alert n ∨ stage = .ready n) :
    Leads (OnTrack flag all rest buf (.ready n)) (Kept flag all) (talk.poll flag) := by
  have hreads : reads (talk.trace ++ [.poll]) = reads talk.trace := by
    rw [reads_concat]
    exact List.append_nil _
  rcases talk.poll_cases flag with ⟨hflag, heq⟩ | ⟨hflag, heq⟩
  · rw [heq]
    rw [h.polled] at hflag
    exact ⟨h.follows.act (.poll hstage hflag),
      (congrArg (· + 1) h.polled).trans (polls_concat_poll _).symm,
      hreads.symm ▸ h.buffered, hreads.symm ▸ h.taken⟩
  · rw [heq]
    rw [h.polled] at hflag
    exact ⟨.ended n, h.follows.act (.stop hstage hflag), rest, hreads.symm ▸ h.taken⟩

theorem OnTrack.send (h : OnTrack flag all rest buf (.ready (n + 1)) talk) (bytes : Bytes) :
    Leads (OnTrack flag all rest buf (.ready n)) (Kept flag all)
      (Over.turn (talk.send bytes)) := by
  rcases talk.turn_send_cases bytes with ⟨room, heq⟩ | heq
  · rw [heq]
    exact h.act (.answer bytes) id rfl rfl rfl
  · rw [heq]
    exact h.ended _

/-- A frame that lifts costs one answer and a look at the flag; one that does not, an answer. -/
theorem OnTrack.handle [Backend W] {clock : Nat → Readings} (frame : Frame)
    (h : OnTrack flag all rest buf (.ready (n + 1)) talk) :
    Leads (OnTrack flag all rest buf (.ready n)) (Kept flag all)
      (talk.handle clock flag frame) := by
  rw [Talk.handle]
  cases Command.tryFrom (clock talk.dealt).parse frame with
  | error e =>
      have hdealt : OnTrack flag all rest buf (.ready (n + 1))
          { talk with dealt := talk.dealt + 1 } := ⟨h.follows, h.polled, h.buffered, h.taken⟩
      exact hdealt.send e.reply
  | ok command =>
      obtain ⟨next, calls, htrace, hpolled, hcalls, hresult⟩ := talk.dispatch_cases clock command
      rcases hcalls with rfl | ⟨a, ha, rfl⟩
      · have hnext : OnTrack flag all rest buf (.ready (n + 1)) next := by
          rw [List.append_nil] at htrace
          exact ⟨htrace ▸ h.follows, by rw [hpolled, htrace, h.polled], htrace ▸ h.buffered,
            htrace ▸ h.taken⟩
        rcases hresult with ⟨bytes, heq⟩ | ⟨e, heq⟩
        · simp only [heq]
          exact (hnext.send bytes).bind fun talk' h' ↦ h'.poll (.inr rfl)
        · simp only [heq]
          exact hnext.ended _
      · have hnext : OnTrack flag all rest buf (.called (n + 1)) next :=
          h.act (.call ha) ha.not_isPoll ha.delivery?_eq htrace hpolled
        rcases hresult with ⟨bytes, heq⟩ | ⟨e, heq⟩
        · simp only [heq]
          rcases next.turn_send_cases bytes with ⟨room, hs⟩ | hs
          · rw [hs]
            have h' : OnTrack flag all rest buf (.alert n)
                ({ next with room }.note (.send bytes)) :=
              hnext.act (.answerCall bytes) id rfl rfl rfl
            exact h'.poll (.inl rfl)
          · rw [hs]
            exact hnext.ended _
        · simp only [heq]
          exact hnext.ended _

theorem OnTrack.receive {d : Delivery} (h : OnTrack flag all (d :: rest) buf (.ready 0) talk) :
    let found := drain .incomplete Frame.parseOne (buf ++ d.bytes)
    Leads (OnTrack flag all rest (kept found) (.ready (answersTo found))) (Kept flag all)
      (talk.receive flag d) := by
  intro found
  have hdue : newlyDue talk.trace d = answersTo found := by rw [newlyDue, h.buffered]
  have hbuf : (received (reads (talk.trace ++ [.read (some d)]))).buf = kept found := by
    rw [reads_concat]
    exact (congrArg Received.buf (received_concat _ d)).trans (by rw [Received.add, h.buffered])
  have htaken : reads (talk.trace ++ [.read (some d)]) ++ rest = all := by
    rw [reads_concat, ← h.taken, List.append_assoc]
    rfl
  have hon (stage : Stage) (ha : Allowed flag talk.trace (.ready 0) (.read (some d)) stage) :
      OnTrack flag all rest (kept found) stage (talk.note (.read (some d))) :=
    ⟨h.follows.act ha, h.polled.trans (polls_concat _ id).symm, hbuf, htaken⟩
  cases d with
  | chunk bytes nonempty length_le => exact hdue ▸ hon _ (.read id)
  | timedOut => exact hdue ▸ (hon _ (.timeout trivial)).poll (.inl rfl)
  | wouldBlock => exact hdue ▸ (hon _ (.timeout trivial)).poll (.inl rfl)

end OnTrack

/-- A session that has not begun. -/
def Talk.start {W : Type} (backend : W) (room : Option Nat) : Talk W := ⟨backend, room, 0, 0, []⟩

/-- The loop of a session keeps to the protocol, whatever is delivered, whatever the backend
answers and however long its queue is taken from. -/
theorem Repl.follows {W : Type} [Backend W] (clock : Nat → Readings) (flag : Nat → Bool)
    (broken : Bool) (deliveries : List Delivery) (backend : W) (room : Option Nat) :
    ∃ stage, Follows flag stage
        (loop clock flag ⟨⟨deliveries, []⟩, broken, .start backend room⟩).2.trace ∧
      reads (loop clock flag ⟨⟨deliveries, []⟩, broken, .start backend room⟩).2.trace <+:
        deliveries := by
  rw [loop_eq_attend]
  have hstart : OnTrack flag deliveries deliveries [] (.alert 0) (Talk.start backend room) :=
    ⟨.start, rfl, rfl, rfl⟩
  refine Leads.finish (Q := Kept flag deliveries) (hstart.poll (.inl rfl)) fun talk h ↦ ?_
  refine attend_rule (P := fun rest buf n ↦ OnTrack flag deliveries rest buf (.ready n))
    (fun d rest buf talk h ↦ h.receive) (fun rest buf n frame talk h ↦ h.handle frame)
    (fun rest buf n e talk h ↦ h.send e.reply) (fun buf talk h ↦ ?_) h
  have hreads : reads (talk.trace ++ [.read none]) = reads talk.trace := by
    rw [reads_concat]
    exact List.append_nil _
  exact ⟨_, h.follows.act .last, [], hreads.symm ▸ h.taken⟩

/-! ## What the protocol is good for -/

section Follows

variable {flag : Nat → Bool} {stage stage' : Stage} {trace : List Act} {a : Act}

/-- Answers given and answers due make up what the deliveries call for. -/
theorem Allowed.due (h : Allowed flag trace stage a stage')
    (hdue : (sends trace).length + stage.due = (received (reads trace)).due) :
    (sends (trace ++ [a])).length + stage'.due = (received (reads (trace ++ [a]))).due := by
  rw [sends_concat, reads_concat, List.length_append]
  cases h with
  | call ha => rw [ha.delivery?_eq, ha.sent?_eq]; simpa using hdue
  | answer bytes => simp at hdue ⊢; omega
  | answerCall bytes => simp at hdue ⊢; omega
  | poll hstage _ => obtain rfl | rfl := hstage <;> simpa using hdue
  | stop hstage _ => obtain rfl | rfl := hstage <;> simpa using hdue
  | @read d _ =>
      rw [show (Act.read (some d)).delivery?.toList = [d] from rfl, received_concat, Received.add]
      simpa [newlyDue] using hdue
  | @timeout d _ =>
      rw [show (Act.read (some d)).delivery?.toList = [d] from rfl, received_concat, Received.add]
      simpa [newlyDue] using hdue
  | last => simpa using hdue

/-- What a session does heeds the shutdown flag: every look at it so far found it unset, a command
comes after a look, and a look comes after a timeout. -/
structure Heeding (flag : Nat → Bool) (before : List Act) (a : Act) : Prop where
  unset : ∀ n < polls before, flag n = false
  spaced : a.IsCall → Closed Act.IsCall Act.IsPoll before
  woken : ∀ d ∈ before.getLast?.bind Act.delivery?, d.IsTimeout → a = .poll

/-- What holds at a stage, for the shutdown flag. -/
structure Stage.Heeds (flag : Nat → Bool) (stage : Stage) (trace : List Act) : Prop where
  unset : (∀ n, stage ≠ .ended n) → ∀ n < polls trace, flag n = false
  closed : (∃ n, stage = .ready n) → Closed Act.IsCall Act.IsPoll trace
  woken : (∀ n, stage ≠ .alert n) → ∀ d ∈ trace.getLast?.bind Act.delivery?, ¬d.IsTimeout

theorem Allowed.ne_ended (h : Allowed flag trace stage a stage') (n : Nat) : stage ≠ .ended n := by
  cases h with
  | poll hstage _ | stop hstage _ => obtain rfl | rfl := hstage <;> exact nofun
  | call _ | answer _ | answerCall _ | read _ | timeout _ | last => exact nofun

theorem Allowed.ready_of_isCall (h : Allowed flag trace stage a stage') (ha : a.IsCall) :
    ∃ n, stage = .ready n := by
  cases h with
  | call _ => exact ⟨_, rfl⟩
  | answer _ | answerCall _ | poll _ _ | stop _ _ | read _ | timeout _ | last => exact ha.elim

theorem Allowed.eq_poll {n : Nat} (h : Allowed flag trace (.alert n) a stage') : a = .poll := by
  cases h <;> rfl

theorem Stage.Heeds.heeding (h : stage.Heeds flag trace) (ha : Allowed flag trace stage a stage') :
    Heeding flag trace a where
  unset := h.unset ha.ne_ended
  spaced hcall := h.closed (ha.ready_of_isCall hcall)
  woken d hd htimeout := by
    by_contra hpoll
    refine h.woken (fun n hn ↦ ?_) d hd htimeout
    subst hn
    exact hpoll ha.eq_poll

/-- Only a look at the flag counts as one, and only a call leaves something to be closed. -/
theorem Stage.Heeds.next (h : stage.Heeds flag trace) (ha : Allowed flag trace stage a stage') :
    stage'.Heeds flag (trace ++ [a]) := by
  have hlast : (trace ++ [a]).getLast?.bind Act.delivery? = a.delivery? := by
    rw [List.getLast?_concat]
    rfl
  have hunset := h.unset ha.ne_ended
  cases ha with
  | call ha =>
      refine ⟨fun _ ↦ ?_, nofun, ?_⟩
      · rwa [polls_concat _ ha.not_isPoll]
      · rw [hlast, ha.delivery?_eq]
        exact fun _ ↦ nofun
  | answer bytes =>
      refine ⟨fun _ ↦ ?_, fun _ ↦ (h.closed ⟨_, rfl⟩).concat id, ?_⟩
      · rwa [polls_concat _ id]
      · rw [hlast]
        exact fun _ ↦ nofun
  | answerCall bytes =>
      refine ⟨fun _ ↦ ?_, nofun, ?_⟩
      · rwa [polls_concat _ id]
      · rw [hlast]
        exact fun _ ↦ nofun
  | poll _ hflag =>
      refine ⟨fun _ n hn ↦ ?_, fun _ ↦ .concat_close trace trivial id, ?_⟩
      · rw [polls_concat_poll] at hn
        obtain hn | rfl := Nat.lt_succ_iff_lt_or_eq.1 hn
        · exact hunset n hn
        · exact hflag
      · rw [hlast]
        exact fun _ ↦ nofun
  | stop _ _ =>
      refine ⟨fun hover ↦ absurd rfl (hover _), nofun, ?_⟩
      rw [hlast]
      exact fun _ ↦ nofun
  | read hd =>
      refine ⟨fun _ ↦ ?_, fun _ ↦ (h.closed ⟨_, rfl⟩).concat id, ?_⟩
      · rwa [polls_concat _ id]
      · rw [hlast]
        rintro _ d ⟨⟩
        exact hd
  | timeout hd =>
      refine ⟨fun _ ↦ ?_, nofun, fun halert ↦ absurd rfl (halert _)⟩
      rwa [polls_concat _ id]
  | last =>
      refine ⟨fun hover ↦ absurd rfl (hover _), nofun, ?_⟩
      rw [hlast]
      exact fun _ ↦ nofun

theorem Follows.each_heeding (h : Follows flag stage trace) :
    Each (Heeding flag) trace ∧ stage.Heeds flag trace := by
  induction h with
  | start => exact ⟨.nil, fun _ n hn ↦ absurd hn (Nat.not_lt_zero n), fun _ ↦ .nil, by simp⟩
  | act _ ha ih => exact ⟨ih.1.concat (ih.2.heeding ha), ih.2.next ha⟩

end Follows

namespace Repl

variable {W : Type} [Backend W] (clock : Nat → Readings) (flag : Nat → Bool) (broken : Bool)
  (deliveries : List Delivery) (backend : W) (room : Option Nat)

/-- What a session does, from its first look at the flag to the end of its loop. -/
def acts : List Act := (loop clock flag ⟨⟨deliveries, []⟩, broken, .start backend room⟩).2.trace

/-- What a session does with the shutdown flag: once a look has found it set the session does
nothing more, two commands are never carried out without a look in between, and what follows a
timeout is a look. -/
theorem heeds :
    (∀ before a after, acts clock flag broken deliveries backend room = before ++ a :: after →
        ∀ n < polls before, flag n = false) ∧
      (∀ before a between b after, acts clock flag broken deliveries backend room =
          before ++ a :: between ++ b :: after → a.IsCall → b.IsCall → .poll ∈ between) ∧
      ∀ before d a after, acts clock flag broken deliveries backend room =
          before ++ .read (some d) :: a :: after → d.IsTimeout → a = .poll := by
  obtain ⟨stage, hfollows, -⟩ := follows clock flag broken deliveries backend room
  have heach := hfollows.each_heeding.1
  refine ⟨fun before a after heq ↦ (heach before a after heq).unset, ?_, ?_⟩
  · intro before a between b after heq ha hb
    obtain ⟨c, hc, hpoll⟩ := (heach _ b after heq).spaced hb before a between rfl ha
    cases c <;> first | exact hc | exact hpoll.elim
  · intro before d a after heq hd
    have hsplit : before ++ .read (some d) :: a :: after =
        before ++ [.read (some d)] ++ a :: after := by
      rw [List.append_assoc]
      rfl
    refine (heach _ a after (heq.trans hsplit)).woken d ?_ hd
    rw [List.getLast?_concat]
    rfl

end Repl

end Steller
