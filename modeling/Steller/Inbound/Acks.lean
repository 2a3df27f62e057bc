import Steller.Inbound.Registry

/-!
# What a command is answered

The acks of a command depend on the session's own set only.  So what others do in
between does not matter to them, and `acks_of_begin` can say what a command is
answered whatever the interleaving.  `registry_agrees` is that and what the
registry says of the session, between its commands and when it has gone.

`Session.executeChannelCommand` and `Session.unsubscribeFromAll` are the source's
functions; a session that nobody interrupts does what they do.
-/

namespace Steller

open Transition

/-! ## The acks of a command -/

/-- The two commands that change a session's set. -/
inductive Change where
  | subscribe
  | unsubscribe

namespace Change

/-- The set after one channel. -/
def apply : Change → Finset Blob → Blob → Finset Blob
  | .subscribe => fun channels c ↦ insert c channels
  | .unsubscribe => fun channels c ↦ channels.erase c

/-- The registry after the call for one channel. -/
def call : Change → UInt32 → Sender → Channels → Blob → Channels
  | .subscribe => fun id sender channels c ↦ channels.subscribe c id sender
  | .unsubscribe => fun id _ channels c ↦ channels.unsubscribe c id

/-- The entries for some channels one after the other, each with the size of the set right after
its channel. -/
def entries (self : Change) : Finset Blob → List Blob → List SubUnsubInnerEntry
  | _, [] => []
  | channels, c :: cs =>
      .new c (self.apply channels c).card :: self.entries (self.apply channels c) cs

/-- In the middle of the command. -/
def doing : Change → List Blob → List SubUnsubInnerEntry → Activity
  | .subscribe => .subscribing
  | .unsubscribe => .unsubscribing

/-- What the command comes to. -/
def outcome : Change → List SubUnsubInnerEntry → ChannelCommandOutcome
  | .subscribe => .subscribe
  | .unsubscribe => .unsubscribe

theorem doing_inj {self : Change} {todo todo' : List Blob} {inner inner' : List SubUnsubInnerEntry}
    (h : self.doing todo inner = self.doing todo' inner') : todo = todo' ∧ inner = inner' := by
  cases self <;> cases h <;> exact ⟨rfl, rfl⟩

theorem outcome?_doing {self : Change} {todo : List Blob} {inner : List SubUnsubInnerEntry}
    {outcome : ChannelCommandOutcome} (h : (self.doing todo inner).outcome? = some outcome) :
    todo = [] ∧ outcome = self.outcome inner := by
  cases self <;> cases todo <;> cases h <;> exact ⟨rfl, rfl⟩

theorem entries_concat (self : Change) (channels : Finset Blob) (cs : List Blob) (c : Blob) :
    self.entries channels (cs ++ [c]) = self.entries channels cs ++
      [.new c (self.apply (cs.foldl self.apply channels) c).card] := by
  induction cs generalizing channels with
  | nil => rfl
  | cons d cs ih => rw [List.cons_append, entries, ih, entries, List.cons_append, List.foldl_cons]

/-- Leaving every channel of a set, each once, counts down to zero. -/
theorem entries_of_enumerates {order : List Blob} {channels : Finset Blob}
    (h : Session.Enumerates order channels) :
    unsubscribe.entries channels order =
      List.zipWith .new order (List.range channels.card).reverse := by
  obtain ⟨hnodup, rfl⟩ := h
  induction order with
  | nil => rfl
  | cons c order ih =>
      obtain ⟨hc, horder⟩ := List.nodup_cons.1 hnodup
      have herase : (c :: order).toFinset.erase c = order.toFinset := by
        rw [List.toFinset_cons, Finset.erase_insert (mt List.mem_toFinset.1 hc)]
      have hcard := List.toFinset_card_of_nodup horder
      rw [List.toFinset_card_of_nodup hnodup, List.length_cons, List.range_succ,
        List.reverse_append, List.reverse_singleton, List.singleton_append, List.zipWith_cons_cons,
        ← hcard, ← ih horder]
      simp only [entries, apply, herase]

end Change

namespace Session

/-- Between commands, or past the last. -/
def Resting (self : Session) : Prop :=
  match self.activity with
  | .idle | .stopped | .leaving _ | .gone => True
  | _ => False

/-- Past the last command. -/
def Ended (self : Session) : Prop :=
  match self.activity with
  | .stopped | .leaving _ | .gone => True
  | _ => False

/-- What a session in the middle of a command can do. -/
inductive Proceeds (p : Session) : Session → Prop
  | stay : Proceeds p p
  | hangUp : Proceeds p { p with receiver := false }
  | subscribe {c : Blob} {todo : List Blob} {inner : List SubUnsubInnerEntry}
      (hp : p.activity = .subscribing (c :: todo) inner) : Proceeds p (p.join c todo inner)
  | unsubscribe {c : Blob} {todo : List Blob} {inner : List SubUnsubInnerEntry}
      (hp : p.activity = .unsubscribing (c :: todo) inner) : Proceeds p (p.part c todo inner)
  | publish {c m : Blob} {sentCount : UInt32} (hp : p.activity = .publishing c m) :
      Proceeds p { p with activity := .published sentCount }
  | reply {outcome : ChannelCommandOutcome} (hp : p.activity.outcome? = some outcome) :
      Proceeds p (p.send (.replies outcome))

variable {s : Nat} {l : Hub.Label} {p p' : Session}

theorem resting_of_eq {activity : Activity} (hp : p.activity = activity)
    (h : { p with activity }.Resting) : p.Resting := by
  subst hp
  exact h

theorem Ended.resting (h : p.Ended) : p.Resting := by
  unfold Ended at h
  split at h
  · next hp => exact resting_of_eq hp trivial
  · next hp => exact resting_of_eq hp trivial
  · next hp => exact resting_of_eq hp trivial
  · exact h.elim

theorem Resting.outcome?_eq_none (h : p.Resting) : p.activity.outcome? = none := by
  unfold Resting at h
  split at h
  · next hp => rw [hp]; rfl
  · next hp => rw [hp]; rfl
  · next hp => rw [hp]; rfl
  · next hp => rw [hp]; rfl
  · exact h.elim

theorem proceeds_of_own (hown : Hub.Own s l p p') (hbusy : ¬p.Resting) : Proceeds p p' := by
  cases hown with
  | stay => exact .stay
  | begin hp horder => exact absurd (resting_of_eq hp trivial) hbusy
  | subscribe hp => exact .subscribe hp
  | unsubscribe hp => exact .unsubscribe hp
  | publish hp => exact .publish hp
  | reply hp => exact .reply hp
  | leaveOne hp => exact absurd (resting_of_eq hp trivial) hbusy
  | left hp => exact absurd (resting_of_eq hp trivial) hbusy
  | other hp => exact absurd (resting_of_eq hp trivial) hbusy
  | stop hp => exact absurd (resting_of_eq hp trivial) hbusy
  | hangUp => exact .hangUp
  | leave hp horder => exact absurd (resting_of_eq hp trivial) hbusy

/-- Between commands nothing happens to a session's set, and no command is answered. -/
theorem Resting.own (h : p.Resting) (hl : ∀ command order, l ≠ .begin s command order)
    (hown : Hub.Own s l p p') :
    p'.Resting ∧ (p.Ended → p'.Ended) ∧ p'.subscriptions = p.subscriptions ∧
      p'.answers = p.answers := by
  cases hown with
  | stay => exact ⟨h, fun hended ↦ hended, rfl, rfl⟩
  | begin hp horder => exact absurd rfl (hl _ _)
  | subscribe hp => rw [Resting, hp] at h; exact h.elim
  | unsubscribe hp => rw [Resting, hp] at h; exact h.elim
  | publish hp => rw [Resting, hp] at h; exact h.elim
  | reply hp => rw [h.outcome?_eq_none] at hp; cases hp
  | leaveOne hp => exact ⟨trivial, fun _ ↦ trivial, rfl, rfl⟩
  | left hp => exact ⟨trivial, fun _ ↦ trivial, rfl, rfl⟩
  | other hp =>
      have hended : ¬p.Ended := by
        rw [Ended, hp]
        exact not_false
      rcases p.send_cases (.other _) with ⟨-, hsend⟩ | ⟨-, hsend⟩ <;> rw [hsend]
      · refine ⟨trivial, fun h ↦ absurd h hended, rfl, ?_⟩
        rw [answers, List.filterMap_append]
        exact List.append_nil _
      · exact ⟨trivial, fun _ ↦ trivial, rfl, rfl⟩
  | stop hp => exact ⟨trivial, fun _ ↦ trivial, rfl, rfl⟩
  | hangUp => exact ⟨h, fun hended ↦ hended, rfl, rfl⟩
  | leave hp horder => exact ⟨trivial, fun _ ↦ trivial, rfl, rfl⟩

/-! ## Commands that are over -/

/-- The session is done with a command that came to `outcome`: it has been answered, or its
receiver was gone. -/
def Settled (answers : List ChannelCommandOutcome) (outcome : ChannelCommandOutcome)
    (subscriptions : Finset Blob) (p : Session) : Prop :=
  p.Resting ∧ p.subscriptions = subscriptions ∧ p.answers = answers ++ [outcome] ∨
    p.Ended ∧ p.answers = answers

namespace Settled

variable {answers : List ChannelCommandOutcome} {outcome : ChannelCommandOutcome}
  {subscriptions : Finset Blob}

theorem send (hsubscriptions : p.subscriptions = subscriptions) (hanswers : p.answers = answers) :
    Settled answers outcome subscriptions (p.send (.replies outcome)) := by
  rcases p.send_cases (.replies outcome) with ⟨hrec, hsend⟩ | ⟨-, hsend⟩
  · refine .inl ⟨resting_of_eq (activity_send hrec _) trivial, ?_, ?_⟩
    · rw [subscriptions_send, hsubscriptions]
    · rw [answers_send_replies hrec, hanswers]
  · rw [hsend]
    exact .inr ⟨trivial, hanswers⟩

theorem receive (h : Settled answers outcome subscriptions p) (messages : List (Blob × Blob)) :
    Settled answers outcome subscriptions (p.receive messages) := by
  rw [Settled, p.answers_receive messages]
  exact h

theorem own (h : Settled answers outcome subscriptions p)
    (hl : ∀ command order, l ≠ .begin s command order) (hown : Hub.Own s l p p') :
    Settled answers outcome subscriptions p' := by
  rcases h with ⟨hp, hsubscriptions, hanswers⟩ | ⟨hp, hanswers⟩
  · obtain ⟨hp', -, hsubscriptions', hanswers'⟩ := hp.own hl hown
    exact .inl ⟨hp', hsubscriptions'.trans hsubscriptions, hanswers'.trans hanswers⟩
  · obtain ⟨-, hended, -, hanswers'⟩ := hp.resting.own hl hown
    exact .inr ⟨hended hp, hanswers'.trans hanswers⟩

theorem resting (h : Settled answers outcome subscriptions p) : p.Resting := by
  rcases h with ⟨hp, -⟩ | ⟨hp, -⟩
  · exact hp
  · exact hp.resting

theorem of_idle (h : Settled answers outcome subscriptions p) (hidle : p.activity = .idle) :
    p.subscriptions = subscriptions ∧ p.answers = answers ++ [outcome] := by
  rcases h with ⟨-, h⟩ | ⟨hp, -⟩
  · exact h
  · rw [Ended, hidle] at hp
    exact hp.elim

end Settled

/-! ## Commands that change the set -/

/-- How far a session that had joined `channels` and been answered `answers` is with a command
for `cs`, whose entries come after those in `before`. -/
inductive Progress (change : Change) (before : List SubUnsubInnerEntry) (channels : Finset Blob)
    (cs : List Blob) (answers : List ChannelCommandOutcome) (p : Session) : Prop
  | running {done todo : List Blob} (hcs : cs = done ++ todo)
      (hp : p.activity = change.doing todo (before ++ change.entries channels done))
      (hsubscriptions : p.subscriptions = done.foldl change.apply channels)
      (hanswers : p.answers = answers)
  | settled (h : p.Settled answers (change.outcome (before ++ change.entries channels cs))
      (cs.foldl change.apply channels))

theorem not_resting_of_doing {change : Change} {todo : List Blob}
    {inner : List SubUnsubInnerEntry} (hp : p.activity = change.doing todo inner) :
    ¬p.Resting := by
  rw [Resting, hp]
  cases change <;> exact not_false

namespace Progress

variable {change : Change} {before : List SubUnsubInnerEntry} {channels : Finset Blob}
  {cs : List Blob} {answers : List ChannelCommandOutcome}

theorem receive (h : Progress change before channels cs answers p)
    (messages : List (Blob × Blob)) :
    Progress change before channels cs answers (p.receive messages) := by
  cases h with
  | running hcs hp hsubscriptions hanswers =>
      exact .running hcs hp hsubscriptions ((p.answers_receive messages).trans hanswers)
  | settled h => exact .settled (h.receive messages)

/-- The next channel of the command. -/
theorem next {done todo : List Blob} {c : Blob} (hcs : cs = done ++ c :: todo)
    (hp : p.activity = change.doing todo (before ++ change.entries channels done ++
      [.new c p.subscriptions.card]))
    (hsubscriptions : p.subscriptions = change.apply (done.foldl change.apply channels) c)
    (hanswers : p.answers = answers) : Progress change before channels cs answers p := by
  refine .running (hcs.trans (List.append_cons done c todo)) ?_ ?_ hanswers
  · rw [hp, change.entries_concat, List.append_assoc, hsubscriptions]
  · rw [hsubscriptions, List.foldl_append]
    rfl

/-- A command goes on as it should whatever the session's other half does. -/
theorem own (h : Progress change before channels cs answers p)
    (hl : ∀ command order, l ≠ .begin s command order) (hown : Hub.Own s l p p') :
    Progress change before channels cs answers p' := by
  cases h with
  | settled h => exact .settled (h.own hl hown)
  | running hcs hrunning hsubscriptions hanswers =>
      cases proceeds_of_own hown (not_resting_of_doing hrunning) with
      | stay => exact .running hcs hrunning hsubscriptions hanswers
      | hangUp => exact .running hcs hrunning hsubscriptions hanswers
      | subscribe hp =>
          rw [hrunning] at hp
          cases change with
          | subscribe =>
              obtain ⟨rfl, rfl⟩ := Activity.subscribing.inj hp
              exact .next hcs rfl (congrArg (Change.subscribe.apply · _) hsubscriptions) hanswers
          | unsubscribe => cases hp
      | unsubscribe hp =>
          rw [hrunning] at hp
          cases change with
          | subscribe => cases hp
          | unsubscribe =>
              obtain ⟨rfl, rfl⟩ := Activity.unsubscribing.inj hp
              exact .next hcs rfl (congrArg (Change.unsubscribe.apply · _) hsubscriptions) hanswers
      | publish hp =>
          rw [hrunning] at hp
          cases change <;> cases hp
      | reply hp =>
          obtain ⟨rfl, rfl⟩ := Change.outcome?_doing (hrunning ▸ hp)
          rw [List.append_nil] at hcs
          subst hcs
          exact .settled (.send hsubscriptions hanswers)

end Progress

/-- The session is one that `p` can have become by a command for `cs`: in the middle of it with the
entries so far and its set as they say, or with all acks in its queue. -/
def Acks (p : Session) (change : Change) (before : List SubUnsubInnerEntry) (cs : List Blob)
    (q : Session) : Prop :=
  (∀ todo inner, q.activity = change.doing todo inner → ∃ done, cs = done ++ todo ∧
    inner = before ++ change.entries p.subscriptions done ∧
    q.subscriptions = done.foldl change.apply p.subscriptions) ∧
  (q.activity = .idle → q.subscriptions = cs.foldl change.apply p.subscriptions ∧
    q.answers = p.answers ++ [change.outcome (before ++ change.entries p.subscriptions cs)])

theorem Progress.acks {change : Change} {before : List SubUnsubInnerEntry} {cs : List Blob}
    {q : Session} (h : Progress change before p.subscriptions cs p.answers q) :
    p.Acks change before cs q := by
  cases h with
  | @running done todo hcs hrunning hsubscriptions hanswers =>
      constructor
      · intro todo' inner hq
        obtain ⟨rfl, rfl⟩ := Change.doing_inj (hrunning.symm.trans hq)
        exact ⟨done, hcs, rfl, hsubscriptions⟩
      · intro hidle
        exact absurd (resting_of_eq hidle trivial) (not_resting_of_doing hrunning)
  | settled h =>
      constructor
      · intro todo inner hq
        exact absurd h.resting (not_resting_of_doing hq)
      · exact h.of_idle

end Session

namespace Hub

variable {σ σ' : Hub} {s : Nat} {p q : Session} {ls : List Label}

/-- An `UNSUBSCRIBE` without arguments collects the session's set. -/
theorem enumerates_of_begin {order : List Blob}
    (hrun : exec step σ (.begin s (.unsubscribe []) order :: ls) = some σ')
    (hs : σ.session s = some p) : Session.Enumerates order p.subscriptions := by
  obtain ⟨σ₁, hbegin, -⟩ := exec_cons_eq_some.1 hrun
  cases steps_of_step hbegin with
  | begin hs₀ hidle horder =>
      obtain rfl := Option.some.inj (hs.symm.trans hs₀)
      exact horder rfl

/-- What a command comes to depends on nothing but the session it is of. -/
theorem acks_of_begin {command : ChannelCommand} {order : List Blob}
    (hrun : exec step σ (.begin s command order :: ls) = some σ')
    (hls : ∀ l ∈ ls, ∀ command order, l ≠ .begin s command order) (hs : σ.session s = some p)
    (hs' : σ'.session s = some q) {change : Change} {before : List SubUnsubInnerEntry}
    {cs : List Blob} (hbegun : p.begun order command = change.doing cs before) :
    p.Acks change before cs q := by
  obtain ⟨σ₁, hbegin, hrest⟩ := exec_cons_eq_some.1 hrun
  cases steps_of_step hbegin with
  | @begin _ p₀ _ _ hs₀ hidle horder =>
      obtain rfl := Option.some.inj (hs.symm.trans hs₀)
      have hstart : Session.Progress change before p.subscriptions cs p.answers
          { p with activity := p.begun order command } :=
        .running (List.nil_append cs).symm
          (hbegun.trans (congrArg _ (List.append_nil before).symm)) rfl rfl
      obtain ⟨q', hq', hend⟩ := own_invariant (fun hl hown h ↦ h.own hl hown)
        (fun h ↦ h.receive _) hrest hls (put_self hs _) hstart
      obtain rfl := Option.some.inj (hs'.symm.trans hq')
      exact hend.acks

/-- Between the commands of a session, registry and set agree as far as its receiver allows;
each ack has the size of the set after its channel, whatever the channels and whatever others do in
between; and when the session has gone, the registry has forgotten it. -/
theorem registry_agrees (hrun : exec step init ls = some σ) (hids : Along step FreshId init ls)
    (hs : σ.session s = some p) :
    (p.activity = .idle ∨ p.activity = .stopped → ∀ c,
      (∀ id, σ.channels.sender c id = some s → c ∈ p.subscriptions) ∧
      (c ∈ p.subscriptions → p.receiver = true → σ.channels.sender c p.id = some s)) ∧
    (∀ command order ls' σ' q, exec step σ (.begin s command order :: ls') = some σ' →
      (∀ l ∈ ls', ∀ command order, l ≠ .begin s command order) → σ'.session s = some q →
      (∀ cs, command = .subscribe cs → p.Acks .subscribe [] cs q) ∧
      (∀ cs, command = .unsubscribe cs → cs ≠ [] → p.Acks .unsubscribe [] cs q) ∧
      (command = .unsubscribe [] → p.subscriptions ≠ ∅ →
        Session.Enumerates order p.subscriptions ∧ p.Acks .unsubscribe [] order q ∧
        Change.unsubscribe.entries p.subscriptions order =
          List.zipWith .new order (List.range p.subscriptions.card).reverse) ∧
      (command = .unsubscribe [] → p.subscriptions = ∅ →
        p.Acks .unsubscribe [.newNull 0] [] q)) ∧
    (p.activity = .gone → ∀ c id, σ.channels.sender c id ≠ some s) := by
  have hreg := Registered.exec hrun hids
  refine ⟨fun hp c ↦ ?_, fun command order ls' σ' q hrun' hls hq ↦ ?_, fun hp c id hc ↦ ?_⟩
  · have hconnected : p.Connected := by
      rcases hp with hp | hp <;> exact Session.connected_of_eq hp trivial
    refine ⟨fun id hc ↦ ?_, fun hc hrec ↦ hreg.kept hs hconnected hrec hc⟩
    obtain ⟨-, hc⟩ := hreg.of_sender hs hc
    exact Session.joined_of_connected hconnected ▸ hc
  · refine ⟨?_, ?_, ?_, ?_⟩
    · rintro cs rfl
      exact acks_of_begin hrun' hls hs hq rfl
    · rintro cs rfl hcs
      refine acks_of_begin hrun' hls hs hq ?_
      simp only [Session.begun, if_neg hcs, Change.doing]
    · rintro rfl hne
      have horder := enumerates_of_begin hrun' hs
      have hne : order ≠ [] := fun hnil ↦ hne (by rw [← horder.2, hnil, List.toFinset_nil])
      refine ⟨horder, acks_of_begin hrun' hls hs hq ?_, Change.entries_of_enumerates horder⟩
      simp only [Session.begun, if_true, if_neg hne, Change.doing]
    · rintro rfl hempty
      have horder := enumerates_of_begin hrun' hs
      have hnil : order = [] := by rw [← List.toFinset_eq_empty_iff, horder.2, hempty]
      refine acks_of_begin hrun' hls hs hq ?_
      simp only [Session.begun, if_true, hnil, hempty, Finset.card_empty, Change.doing]
  · obtain ⟨-, hc⟩ := hreg.of_sender hs hc
    rw [Session.joined, hp] at hc
    exact absurd hc (Finset.notMem_empty c)

theorem registry_agrees_subscribed :
    ∃ σ p, exec step init [.connect 1, .begin 0 (.subscribe [news]) [], .advance 0, .advance 0] =
        some σ ∧ σ.session 0 = some p ∧ σ.channels.sender news p.id = some 0 := by
  have hids : Along step FreshId init
      [.connect 1, .begin 0 (.subscribe [news]) [], .advance 0, .advance 0] :=
    along_freshId (by decide) fun _ _ hs ↦ (nomatch hs)
  have hagrees {σ : Hub} {p} (hrun) (hs : σ.session 0 = some p) := (registry_agrees hrun hids hs).1
  exact ⟨_, _, rfl, rfl, (hagrees rfl rfl (.inl rfl) _).2 (Finset.mem_insert_self _ _) rfl⟩

end Hub

/-! ## The source's functions -/

namespace Session

/-- One turn of the loops in `execute_channel_command`: call the registry, change the set, and
note its size. -/
def turn (id : UInt32) (sender : Sender) (change : Change) :
    Channels × Finset Blob × List SubUnsubInnerEntry → Blob →
      Channels × Finset Blob × List SubUnsubInnerEntry
  | (channels, subscriptions, inner), c =>
      (change.call id sender channels c, change.apply subscriptions c,
        inner ++ [.new c (change.apply subscriptions c).card])

/-- Handle a pub/sub command against the registry and the session's set: the outcome, and the two
afterwards. -/
def executeChannelCommand (self : Session) (sender : Sender) (order : List Blob)
    (alive : Sender → Bool) (channels : Channels) :
    ChannelCommand → ChannelCommandOutcome × Finset Blob × Channels
  | .subscribe channelIds =>
      let (channels, subscriptions, inner) :=
        channelIds.foldl (turn self.id sender .subscribe) (channels, self.subscriptions, [])
      (.subscribe inner, subscriptions, channels)
  | .unsubscribe channelIds =>
      let targets := if channelIds = [] then order else channelIds
      if targets = [] then
        (.unsubscribe [.newNull self.subscriptions.card], self.subscriptions, channels)
      else
        let (channels, subscriptions, inner) :=
          targets.foldl (turn self.id sender .unsubscribe) (channels, self.subscriptions, [])
        (.unsubscribe inner, subscriptions, channels)
  | .publish channelId _ =>
      let (sentCount, channels) := channels.publish alive channelId
      (.publish sentCount, self.subscriptions, channels)

/-- Remove the session from every channel it joined. -/
def unsubscribeFromAll (self : Session) (order : List Blob) (channels : Channels) : Channels :=
  order.foldl (fun channels c ↦ channels.unsubscribe c self.id) channels

end Session

namespace Hub

variable {σ : Hub} {s : Nat} {p : Session}

/-- One registry call is one turn. -/
theorem step_turn {change : Change} {c : Blob} {todo : List Blob}
    {inner : List SubUnsubInnerEntry} (hs : σ.session s = some p)
    (hp : p.activity = change.doing (c :: todo) inner) :
    step σ (.advance s) = some ({ σ with channels := change.call p.id s σ.channels c }.put s
      { p with
        subscriptions := change.apply p.subscriptions c
        activity := change.doing todo
          (inner ++ [SubUnsubInnerEntry.new c (change.apply p.subscriptions c).card]) }) := by
  cases change with
  | subscribe => exact step_of_steps (.subscribe hs hp)
  | unsubscribe => exact step_of_steps (.unsubscribe hs hp)

/-- All registry calls of a command, if nobody comes in between, are the loop. -/
theorem exec_turns {change : Change} {cs : List Blob} {inner : List SubUnsubInnerEntry}
    (hs : σ.session s = some p) (hp : p.activity = change.doing cs inner) :
    ∃ σ' p', exec step σ (List.replicate cs.length (.advance s)) = some σ' ∧
      σ'.session s = some p' ∧ p'.receiver = p.receiver ∧ p'.queue = p.queue ∧
      ∃ inner', p'.activity = change.doing [] inner' ∧
        cs.foldl (Session.turn p.id s change) (σ.channels, p.subscriptions, inner) =
          (σ'.channels, p'.subscriptions, inner') := by
  induction cs generalizing σ p inner with
  | nil => exact ⟨σ, p, rfl, hs, rfl, rfl, inner, hp, rfl⟩
  | cons c cs ih =>
      have hstep := step_turn hs hp
      have hs₁ : { σ with channels := change.call p.id s σ.channels c }.session s = some p := hs
      have hs₂ := put_self hs₁
        { p with
          subscriptions := change.apply p.subscriptions c
          activity := change.doing cs
            (inner ++ [SubUnsubInnerEntry.new c (change.apply p.subscriptions c).card]) }
      obtain ⟨σ', p', hrun, hp', hreceiver, hqueue, inner', hactivity, hfold⟩ := ih hs₂ rfl
      exact ⟨σ', p', exec_cons_eq_some.2 ⟨_, hstep, hrun⟩, hp', hreceiver, hqueue, inner',
        hactivity, hfold⟩

/-- The acks follow. -/
theorem exec_change {change : Change} {cs : List Blob} {inner : List SubUnsubInnerEntry}
    (hs : σ.session s = some p) (hp : p.activity = change.doing cs inner)
    (hrec : p.receiver = true) :
    ∃ σ' p', exec step σ (List.replicate (cs.length + 1) (.advance s)) = some σ' ∧
      σ'.session s = some p' ∧ p'.activity = .idle ∧
      ∃ inner', p'.answers = p.answers ++ [change.outcome inner'] ∧
        cs.foldl (Session.turn p.id s change) (σ.channels, p.subscriptions, inner) =
          (σ'.channels, p'.subscriptions, inner') := by
  obtain ⟨σ₁, p₁, hrun, hs₁, hreceiver, hqueue, inner', hp₁, hfold⟩ := exec_turns hs hp
  have houtcome : p₁.activity.outcome? = some (change.outcome inner') := by
    rw [hp₁]
    cases change <;> rfl
  have hreply := step_of_steps (.reply hs₁ houtcome)
  have hrec₁ := hreceiver.trans hrec
  refine ⟨_, p₁.send (.replies (change.outcome inner')), ?_, put_self hs₁ _,
    Session.activity_send hrec₁ _, inner', ?_, ?_⟩
  · rw [List.replicate_succ']
    exact exec_concat_eq_some.2 ⟨σ₁, hrun, hreply⟩
  · rw [p₁.answers_send_replies hrec₁, Session.answers, hqueue, Session.answers]
  · rw [hfold, Session.subscriptions_send]
    rfl

theorem alive_put (hs : σ.session s = some p) (p' : Session) (hrec : p'.receiver = p.receiver) :
    (σ.put s p').alive = σ.alive := by
  funext t
  unfold alive
  by_cases hts : t = s
  · rw [hts, put_self hs, hs, Option.any_some, Option.any_some, hrec]
  · rw [put_of_ne hts]

/-- The call of a `PUBLISH`, and its answer. -/
theorem exec_publish {c m : Blob} (hs : σ.session s = some p) (hp : p.activity = .publishing c m)
    (hrec : p.receiver = true) :
    ∃ σ' p', exec step σ [.advance s, .advance s] = some σ' ∧ σ'.session s = some p' ∧
      p'.activity = .idle ∧
      p'.answers = p.answers ++ [.publish (σ.channels.publish σ.alive c).1] ∧
      p'.subscriptions = p.subscriptions ∧ σ'.channels = (σ.channels.publish σ.alive c).2 := by
  have hs₁ : { σ with channels := (σ.channels.publish σ.alive c).2 }.session s = some p := hs
  have hs₂ := session_deliver ({ σ with channels := (σ.channels.publish σ.alive c).2 }.put s
    { p with activity := .published (σ.channels.publish σ.alive c).1 })
    (σ.channels.reached σ.alive c) c m s
  rw [put_self hs₁, Option.map_some] at hs₂
  have hrec₂ : ({ p with activity := .published (σ.channels.publish σ.alive c).1 }.receive
    (List.replicate ((σ.channels.reached σ.alive c).count s) (c, m))).receiver = true := hrec
  have hreply := step_of_steps (.reply hs₂ rfl)
  refine ⟨_, _, exec_cons_eq_some.2 ⟨_, step_of_steps (.publish hs hp), exec_cons_eq_some.2
    ⟨_, hreply, rfl⟩⟩, put_self hs₂ _, ?_, ?_, ?_, rfl⟩
  · exact Session.activity_send hrec₂ _
  · rw [Session.answers_send_replies hrec₂, Session.answers_receive]
    rfl
  · exact Session.subscriptions_send _ _

/-- A session that nobody interrupts executes a command as the source does. -/
theorem exec_executeChannelCommand {command : ChannelCommand} {order : List Blob}
    (hs : σ.session s = some p) (hp : p.activity = .idle) (hrec : p.receiver = true)
    (horder : command = .unsubscribe [] → Session.Enumerates order p.subscriptions) :
    ∃ n σ' p' outcome,
      exec step σ (.begin s command order :: List.replicate n (.advance s)) = some σ' ∧
      σ'.session s = some p' ∧ p'.activity = .idle ∧ p'.answers = p.answers ++ [outcome] ∧
      p.executeChannelCommand s order σ.alive σ.channels command =
        (outcome, p'.subscriptions, σ'.channels) := by
  have hbegin := step_of_steps (.begin hs hp horder)
  have hs₁ := put_self hs { p with activity := p.begun order command }
  cases command with
  | subscribe channelIds =>
      have hp₁ : p.begun order (.subscribe channelIds) = Change.subscribe.doing channelIds [] := rfl
      obtain ⟨σ', p', hrun, hs', hidle, inner, hanswers, hfold⟩ := exec_change hs₁ hp₁ hrec
      refine ⟨_, σ', p', _, exec_cons_eq_some.2 ⟨_, hbegin, hrun⟩, hs', hidle, hanswers, ?_⟩
      rw [Session.executeChannelCommand]
      exact congrArg (fun r ↦ (ChannelCommandOutcome.subscribe r.2.2, r.2.1, r.1)) hfold
  | unsubscribe channelIds =>
      obtain ⟨targets, htargets⟩ :
          ∃ targets, targets = if channelIds = [] then order else channelIds := ⟨_, rfl⟩
      have hp₁ : p.begun order (.unsubscribe channelIds) = Change.unsubscribe.doing targets
          (if targets = [] then [.newNull p.subscriptions.card] else []) := by
        rw [htargets]
        rfl
      obtain ⟨σ', p', hrun, hs', hidle, inner, hanswers, hfold⟩ := exec_change hs₁ hp₁ hrec
      refine ⟨_, σ', p', _, exec_cons_eq_some.2 ⟨_, hbegin, hrun⟩, hs', hidle, hanswers, ?_⟩
      simp only [Session.executeChannelCommand, ← htargets]
      split
      · next hnil =>
          rw [if_pos hnil, hnil] at hfold
          exact congrArg (fun r ↦ (ChannelCommandOutcome.unsubscribe r.2.2, r.2.1, r.1)) hfold
      · next hne =>
          rw [if_neg hne] at hfold
          exact congrArg (fun r ↦ (ChannelCommandOutcome.unsubscribe r.2.2, r.2.1, r.1)) hfold
  | publish c m =>
      obtain ⟨σ', p', hrun, hs', hidle, hanswers, hsubscriptions, hchannels⟩ :=
        exec_publish hs₁ rfl hrec
      refine ⟨2, σ', p', _, exec_cons_eq_some.2 ⟨_, hbegin, hrun⟩, hs', hidle, hanswers, ?_⟩
      have halive := alive_put hs { p with activity := .publishing c m } rfl
      rw [hsubscriptions, hchannels, Session.begun, halive]
      rfl

theorem exec_executeChannelCommand_subscribe :
    let σ : Hub := ⟨∅, [.new 1]⟩
    ∃ n σ' p' outcome,
      exec step σ (.begin 0 (.subscribe [news]) [] :: List.replicate n (.advance 0)) = some σ' ∧
      σ'.session 0 = some p' ∧ p'.activity = .idle ∧
      p'.answers = (Session.new 1).answers ++ [outcome] ∧
      (Session.new 1).executeChannelCommand 0 [] σ.alive σ.channels (.subscribe [news]) =
        (outcome, p'.subscriptions, σ'.channels) :=
  exec_executeChannelCommand (σ := ⟨∅, [.new 1]⟩) rfl rfl rfl nofun

/-- A session that nobody interrupts cleans up as the source does. -/
theorem exec_unsubscribeFromAll {order : List Blob} (hs : σ.session s = some p)
    (hp : p.activity = .leaving order) :
    ∃ σ', exec step σ (List.replicate (order.length + 1) (.advance s)) = some σ' ∧
      σ'.session s = some { p with activity := .gone } ∧
      σ'.channels = p.unsubscribeFromAll order σ.channels := by
  induction order generalizing σ p with
  | nil =>
      have hleft := step_of_steps (.left hs hp)
      exact ⟨_, exec_cons_eq_some.2 ⟨_, hleft, rfl⟩, put_self hs _, rfl⟩
  | cons c order ih =>
      have hleave := step_of_steps (.leaveOne hs hp)
      have hs₁ : { σ with channels := σ.channels.unsubscribe c p.id }.session s = some p := hs
      have hs₂ := put_self hs₁ { p with activity := .leaving order }
      obtain ⟨σ', hrun, hs', hchannels⟩ := ih hs₂ rfl
      exact ⟨σ', exec_cons_eq_some.2 ⟨_, hleave, hrun⟩, hs', hchannels⟩

end Hub

end Steller
