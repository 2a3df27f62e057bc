import Mathlib.Data.List.Sublists
import Steller.Inbound.Transcript

/-!
# Who gets which messages, and when

A `PUBLISH` sends its message to the queues of everyone it finds in the registry
while it holds the registry's lock.  So there is one sequence of publications for
all sessions, and what arrives in a queue is what this sequence has for it:
`delivery` says so, with the count that the publisher gets, and that nothing
arrives on a channel after the ack of its `UNSUBSCRIBE`.

The acks of a `SUBSCRIBE` are queued after the registry has been told of all its
channels, and in between messages on them can arrive.  `early_eq` says which
messages are before their ack, and that there are no others.
-/

namespace Steller

open Transition

namespace Hub

variable {σ σ' : Hub} {l : Label} {s t : Nat} {p p' q : Session} {ls : List Label}

/-! ## One step -/

/-- The queues that are registered under a channel. -/
def audience (σ : Hub) (c : Blob) : Multiset Sender := σ.channels.reached (fun _ ↦ true) c

theorem mem_audience {c : Blob} : s ∈ σ.audience c ↔ ∃ id, σ.channels.sender c id = some s :=
  Channels.mem_reached.trans (and_iff_right rfl)

theorem Registered.nodup_reached (h : Registered σ) (alive : Sender → Bool) (c : Blob) :
    (σ.channels.reached alive c).Nodup := by
  refine Channels.nodup_reached (fun i j r hi hj ↦ ?_) alive
  obtain ⟨q, hq, hqi, -⟩ := h.listed hi
  exact hqi.symm.trans (h.of_sender hq hj).1.symm

/-- A message goes once to each queue that it reaches. -/
theorem Registered.replicate_reached {α : Type} (h : Registered σ) (c : Blob) (s : Nat) (x : α) :
    List.replicate ((σ.channels.reached σ.alive c).count s) x =
      if s ∈ σ.channels.reached σ.alive c then [x] else [] := by
  rw [Multiset.count_eq_of_nodup (h.nodup_reached _ _)]
  split <;> rfl

/-- A session with a receiver gets one copy if it is registered, and none if it is not. -/
theorem Registered.arrivals_eq (h : Registered σ) (hs : σ.session s = some p)
    (hrec : p.receiver = true) {c m : Blob} (hl : σ.publication? l = some (c, m)) :
    σ.arrivals l s = if s ∈ σ.audience c then [(c, m)] else [] := by
  have halive := alive_of_receiver hs hrec
  rw [arrivals_of_some hl, h.replicate_reached]
  refine if_congr ?_ rfl rfl
  rw [mem_audience, Channels.mem_reached, and_iff_right halive]

/-- Nothing arrives once the receiver is gone. -/
theorem arrivals_eq_nil (hs : σ.session s = some p) (hrec : p.receiver = false) :
    σ.arrivals l s = [] := by
  cases hl : σ.publication? l with
  | none => exact arrivals_of_none hl s
  | some publication =>
      have hdead : s ∉ σ.channels.reached σ.alive publication.1 := by
        intro hmem
        have halive := (Channels.mem_reached.1 hmem).1
        rw [alive, hs] at halive
        exact absurd halive (Bool.eq_false_iff.1 hrec)
      rw [arrivals_of_some hl, Multiset.count_eq_zero_of_notMem hdead]
      rfl

/-! ## The sequence of publications -/

/-- One `PUBLISH`: its channel and message, and the queues that were registered. -/
structure Publication where
  channelId : Blob
  message : Blob
  audience : Multiset Sender

/-- Note a publication. -/
def publish (σ : Hub) (l : Label) (publications : List Publication) : List Publication :=
  match σ.publication? l with
  | some (c, m) => publications ++ [⟨c, m, σ.audience c⟩]
  | none => publications

theorem publish_of_some {c m : Blob} (h : σ.publication? l = some (c, m))
    (publications : List Publication) :
    publish σ l publications = publications ++ [⟨c, m, σ.audience c⟩] := by
  rw [publish, h]

theorem publish_of_none (h : σ.publication? l = none) (publications : List Publication) :
    publish σ l publications = publications := by
  rw [publish, h]

/-- All publications of a run, in the order of their registry calls. -/
def publications (ls : List Label) : List Publication := history step publish init [] ls

/-- What there is for session `s` in a sequence of publications. -/
def addressed (s : Nat) (publications : List Publication) : List (Blob × Blob) :=
  (publications.filter fun x ↦ s ∈ x.audience).map fun x ↦ (x.channelId, x.message)

/-- What there is for both of two sessions. -/
def common (s t : Nat) (publications : List Publication) : List (Blob × Blob) :=
  (publications.filter fun x ↦ s ∈ x.audience ∧ t ∈ x.audience).map
    fun x ↦ (x.channelId, x.message)

theorem common_sublist_left (s t : Nat) (publications : List Publication) :
    (common s t publications).Sublist (addressed s publications) := by
  refine List.Sublist.map _ (List.monotone_filter_right _ fun x hx ↦ ?_)
  exact decide_eq_true (of_decide_eq_true hx).1

theorem common_sublist_right (s t : Nat) (publications : List Publication) :
    (common s t publications).Sublist (addressed t publications) := by
  refine List.Sublist.map _ (List.monotone_filter_right _ fun x hx ↦ ?_)
  exact decide_eq_true (of_decide_eq_true hx).2

theorem addressed_concat (s : Nat) (publications : List Publication) (x : Publication) :
    addressed s (publications ++ [x]) =
      addressed s publications ++ if s ∈ x.audience then [(x.channelId, x.message)] else [] := by
  rw [addressed, List.filter_append, List.map_append]
  by_cases hmem : s ∈ x.audience <;> simp [addressed, hmem]

/-- There is nothing for a session in publications that it was not registered for. -/
theorem addressed_eq_nil {publications : List Publication}
    (h : ∀ x ∈ publications, s ∉ x.audience) : addressed s publications = [] := by
  rw [addressed, List.map_eq_nil_iff, List.filter_eq_nil_iff]
  exact fun x hx hmem ↦ h x hx (of_decide_eq_true hmem)

/-- What has arrived, and what was sent. -/
structure Delivered (σ : Hub) (publications : List Publication) : Prop extends Registered σ where
  connected : ∀ x ∈ publications, ∀ s ∈ x.audience, s < σ.sessions.length
  pushes_eq : ∀ {s p}, σ.session s = some p → p.receiver = true →
    p.pushes = addressed s publications

namespace Delivered

variable {publications : List Publication}

theorem connected_step (h : Delivered σ publications) (hstep : Hub.step σ l = some σ') :
    ∀ x ∈ publish σ l publications, ∀ s ∈ x.audience, s < σ'.sessions.length := by
  have hmono {s : Nat} (hlt : s < σ.sessions.length) : s < σ'.sessions.length := by
    obtain ⟨p', -, hs'⟩ := (steps_of_step hstep).session (List.getElem?_eq_getElem hlt)
    exact lt_of_session hs'
  intro x hx s hs
  cases hl : σ.publication? l with
  | none =>
      rw [publish_of_none hl] at hx
      exact hmono (h.connected x hx s hs)
  | some publication =>
      obtain ⟨c, m⟩ := publication
      rw [publish_of_some hl] at hx
      rcases List.mem_append.1 hx with hx | hx
      · exact hmono (h.connected x hx s hs)
      · obtain rfl := List.mem_singleton.1 hx
        obtain ⟨id, hid⟩ := mem_audience.1 hs
        obtain ⟨p, hp, -⟩ := h.listed hid
        exact hmono (lt_of_session hp)

theorem step (h : Delivered σ publications) (hid : FreshId σ l)
    (hstep : Hub.step σ l = some σ') : Delivered σ' (publish σ l publications) := by
  refine ⟨h.toRegistered.step hid hstep, h.connected_step hstep, fun {s p'} hs' hrec ↦ ?_⟩
  have hsteps := steps_of_step hstep
  rcases hsteps.session_or_new hs' with ⟨p, hs⟩ | ⟨rfl, id, rfl, rfl⟩
  · obtain ⟨q, hown, hq⟩ := hsteps.session hs
    obtain rfl := Option.some.inj (hs'.symm.trans hq)
    have hbefore := h.pushes_eq hs (hown.receiver hrec)
    rw [Session.pushes_receive, hown.pushes, hbefore]
    cases hl : σ.publication? l with
    | none => rw [arrivals_of_none hl, List.append_nil, publish_of_none hl]
    | some publication =>
        obtain ⟨c, m⟩ := publication
        rw [h.arrivals_eq hs (hown.receiver hrec) hl, publish_of_some hl, addressed_concat]
  · -- nothing was sent to a session before it connected
    rw [publish_of_none rfl, addressed_eq_nil]
    · rfl
    · exact fun x hx hmem ↦ absurd (h.connected x hx _ hmem) (Nat.lt_irrefl _)

/-- Every run keeps it. -/
theorem exec (hrun : exec Hub.step init ls = some σ) (hids : Along Hub.step FreshId init ls) :
    Delivered σ (Hub.publications ls) := by
  have hinit : Delivered init [] := ⟨.init, fun x hx ↦ (nomatch hx), fun hs ↦ (nomatch hs)⟩
  exact hids.history_invariant step hinit hrun

end Delivered

/-! ## What a publisher is told -/

/-- A `PUBLISH` is told how many queues its message has been added to, up to the largest number
there is. -/
theorem publish_count (h : Registered σ) (hs : σ.session s = some p) {c m : Blob}
    (hp : p.activity = .publishing c m) (hstep : step σ (.advance s) = some σ') :
    ∃ (n : UInt32) (reached : Finset Nat), n.toNat = min reached.card (2 ^ 32 - 1) ∧
      (∃ p', σ'.session s = some p' ∧ p'.activity = .published n ∧ p'.answers = p.answers) ∧
      (∀ t q, σ.session t = some q → ∃ q', σ'.session t = some q' ∧
        q'.queue = q.queue ++ if t ∈ reached then [.push c m] else []) ∧
      ∀ t ∈ reached, ∃ q, σ.session t = some q := by
  obtain rfl := Option.some.inj ((step_of_steps (.publish hs hp)).symm.trans hstep)
  have hs₁ : { σ with channels := (σ.channels.publish σ.alive c).2 }.session s = some p := hs
  refine ⟨(σ.channels.publish σ.alive c).1, ⟨_, h.nodup_reached σ.alive c⟩, ?_, ?_, ?_, ?_⟩
  · rw [Channels.publish_fst, UInt32.toNat_ofNat']
    exact Nat.mod_eq_of_lt (Nat.lt_of_le_of_lt (Nat.min_le_right _ _) (by decide))
  · rw [session_deliver, put_self hs₁]
    exact ⟨_, rfl, rfl, Session.answers_receive _ _⟩
  · intro t q ht
    have hqueue : ∃ r, ({ σ with channels := (σ.channels.publish σ.alive c).2 }.put s
        { p with activity := .published (σ.channels.publish σ.alive c).1 }).session t = some r ∧
          r.queue = q.queue := by
      by_cases hts : t = s
      · subst hts
        obtain rfl := Option.some.inj (hs.symm.trans ht)
        exact ⟨_, put_self hs₁ _, rfl⟩
      · exact ⟨q, (put_of_ne hts _).trans ht, rfl⟩
    obtain ⟨r, hr, hqueue⟩ := hqueue
    rw [session_deliver, hr]
    refine ⟨r.receive _, rfl, ?_⟩
    rw [Session.receive, hqueue, List.map_replicate, h.replicate_reached]
    rfl
  · intro t ht
    obtain ⟨id, hid⟩ := (Channels.mem_reached.1 ht).2
    obtain ⟨q, hq, -⟩ := h.listed hid
    exact ⟨q, hq⟩

/-- How far a session that had joined `channels` and been answered `answers` is with a `PUBLISH`
that has sent its message to `n` queues. -/
def Returning (n : UInt32) (channels : Finset Blob) (answers : List ChannelCommandOutcome)
    (p : Session) : Prop :=
  p.activity = .published n ∧ p.subscriptions = channels ∧ p.answers = answers ∨
    p.Settled answers (.publish n) channels

theorem Returning.receive {n : UInt32} {channels : Finset Blob}
    {answers : List ChannelCommandOutcome} (h : Returning n channels answers p)
    (messages : List (Blob × Blob)) : Returning n channels answers (p.receive messages) := by
  rcases h with ⟨hp, hsubscriptions, hanswers⟩ | hsettled
  · exact .inl ⟨hp, hsubscriptions, (p.answers_receive messages).trans hanswers⟩
  · exact .inr (hsettled.receive messages)

theorem Returning.own {n : UInt32} {channels : Finset Blob} {answers : List ChannelCommandOutcome}
    (h : Returning n channels answers p) (hl : ∀ command order, l ≠ .begin s command order)
    (hown : Own s l p p') : Returning n channels answers p' := by
  rcases h with ⟨hpublished, hsubscriptions, hanswers⟩ | hsettled
  · have hbusy : ¬p.Resting := by
      rw [Session.Resting, hpublished]
      exact not_false
    cases Session.proceeds_of_own hown hbusy with
    | stay => exact .inl ⟨hpublished, hsubscriptions, hanswers⟩
    | hangUp => exact .inl ⟨hpublished, hsubscriptions, hanswers⟩
    | subscribe hp => cases hpublished.symm.trans hp
    | unsubscribe hp => cases hpublished.symm.trans hp
    | publish hp => cases hpublished.symm.trans hp
    | reply hp =>
        rw [hpublished] at hp
        obtain rfl := Option.some.inj hp
        exact .inr (.send hsubscriptions hanswers)
  · exact .inr (hsettled.own hl hown)

/-- The count is what the `PUBLISH` is answered. -/
theorem answers_of_published {n : UInt32} (hs : σ.session s = some p)
    (hp : p.activity = .published n) (hrun : exec step σ ls = some σ')
    (hls : ∀ l ∈ ls, ∀ command order, l ≠ .begin s command order) (hs' : σ'.session s = some q)
    (hidle : q.activity = .idle) : q.answers = p.answers ++ [.publish n] := by
  obtain ⟨q', hq', hend⟩ := own_invariant (fun hl hown h ↦ Returning.own h hl hown)
    (fun h ↦ Returning.receive h _) hrun hls hs (.inl ⟨hp, rfl, rfl⟩)
  obtain rfl := Option.some.inj (hs'.symm.trans hq')
  rcases hend with ⟨hq, -⟩ | hsettled
  · cases hidle.symm.trans hq
  · exact (hsettled.of_idle hidle).2

/-! ## After an `UNSUBSCRIBE` -/

/-- The step registers session `s` under the channel. -/
def Rejoins (s : Nat) (c : Blob) (σ : Hub) (l : Label) : Prop :=
  l = .advance s ∧ ∃ p todo inner, σ.session s = some p ∧
    p.activity = .subscribing (c :: todo) inner

/-- A session comes to a channel in one way only. -/
theorem Own.joined (hown : Own s l p p') {c : Blob} (hc : c ∈ p'.joined) :
    c ∈ p.joined ∨ l = .advance s ∧ ∃ todo inner, p.activity = .subscribing (c :: todo) inner := by
  have hsame {q : Session} (hc : c ∈ q.joined) (hp : p.Connected) (hq : q.Connected)
      (hsubscriptions : q.subscriptions = p.subscriptions) : c ∈ p.joined := by
    rwa [Session.joined_of_connected hp, ← hsubscriptions, ← Session.joined_of_connected hq]
  have hsend {parcel : Parcel} (hp : p.Connected) (hc : c ∈ (p.send parcel).joined) :
      c ∈ p.joined := by
    rcases p.send_cases parcel with ⟨-, hsend⟩ | ⟨-, hsend⟩ <;> rw [hsend] at hc
    · exact hsame hc hp trivial rfl
    · exact hsame hc hp trivial rfl
  cases hown with
  | stay => exact .inl hc
  | begin hp horder =>
      have hconnected := Session.connected_of_eq hp trivial
      exact .inl (hsame hc hconnected (Session.connected_begun _ _ _) rfl)
  | subscribe hp =>
      rcases Finset.mem_insert.1 hc with rfl | hc
      · exact .inr ⟨rfl, _, _, hp⟩
      · exact .inl (Session.joined_of_connected (Session.connected_of_eq hp trivial) ▸ hc)
  | unsubscribe hp =>
      have hc := Finset.mem_of_mem_erase hc
      exact .inl (Session.joined_of_connected (Session.connected_of_eq hp trivial) ▸ hc)
  | publish hp => exact .inl (hsame hc (Session.connected_of_eq hp trivial) trivial rfl)
  | reply hp => exact .inl (hsend (Session.connected_of_outcome hp) hc)
  | leaveOne hp =>
      rw [Session.joined_of_leaving hp, List.toFinset_cons]
      exact .inl (Finset.mem_insert_of_mem hc)
  | left hp => exact absurd hc (Finset.notMem_empty c)
  | other hp => exact .inl (hsend (Session.connected_of_eq hp trivial) hc)
  | stop hp => exact .inl (hsame hc (Session.connected_of_eq hp trivial) trivial rfl)
  | hangUp => exact .inl hc
  | leave hp horder =>
      rw [Session.joined_of_connected (Session.connected_of_eq hp trivial), ← horder.2]
      exact .inl hc

/-- Nothing arrives on a channel that the session has not joined. -/
theorem Registered.filter_arrivals (h : Registered σ) (hs : σ.session s = some p) {c : Blob}
    (hc : c ∉ p.joined) (l : Label) : (σ.arrivals l s).filter (fun m ↦ m.1 = c) = [] := by
  cases hl : σ.publication? l with
  | none => rw [arrivals_of_none hl, List.filter_nil]
  | some publication =>
      obtain ⟨d, m⟩ := publication
      rw [arrivals_of_some hl, List.filter_eq_nil_iff]
      intro x hx hxc
      obtain ⟨hcount, rfl⟩ := List.mem_replicate.1 hx
      obtain rfl := of_decide_eq_true hxc
      obtain ⟨-, id, hid⟩ := Channels.mem_reached.1 (Multiset.count_ne_zero.1 hcount)
      exact hc (h.of_sender hs hid).2

/-- Nothing more arrives on the channel as long as the session does not join it. -/
theorem silence (h : Registered σ) (hs : σ.session s = some p) {c : Blob} (hc : c ∉ p.joined)
    (hids : Along step FreshId σ ls) (hls : Along step (fun τ l ↦ ¬Rejoins s c τ l) σ ls)
    (hrun : exec step σ ls = some σ') (hs' : σ'.session s = some q) :
    q.pushes.filter (fun m ↦ m.1 = c) = p.pushes.filter (fun m ↦ m.1 = c) := by
  have hstep {τ τ' : Hub} {l : Label}
      (h : Registered τ ∧ ∃ r, τ.session s = some r ∧ c ∉ r.joined ∧
        r.pushes.filter (fun m ↦ m.1 = c) = p.pushes.filter (fun m ↦ m.1 = c))
      (hl : FreshId τ l ∧ ¬Rejoins s c τ l) (hstep : step τ l = some τ') :
      Registered τ' ∧ ∃ r, τ'.session s = some r ∧ c ∉ r.joined ∧
        r.pushes.filter (fun m ↦ m.1 = c) = p.pushes.filter (fun m ↦ m.1 = c) := by
    obtain ⟨hreg, r, hr, hc, hpushes⟩ := h
    obtain ⟨r', hown, hr'⟩ := (steps_of_step hstep).session hr
    refine ⟨hreg.step hl.1 hstep, _, hr', fun hc' ↦ ?_, ?_⟩
    · rcases hown.joined hc' with hjoined | ⟨rfl, todo, inner, hactivity⟩
      · exact hc hjoined
      · exact hl.2 ⟨rfl, r, todo, inner, hr, hactivity⟩
    · rw [Session.pushes_receive, List.filter_append, hreg.filter_arrivals hr hc, List.append_nil,
        hown.pushes, hpushes]
  obtain ⟨-, r, hr, -, hpushes⟩ :=
    (along_and.2 ⟨hids, hls⟩).invariant hstep ⟨h, p, hs, hc, rfl⟩ hrun
  obtain rfl := Option.some.inj (hs'.symm.trans hr)
  exact hpushes

/-- A session is answered when it has called the registry for everything, and while it has a
receiver. -/
theorem Own.answers (h : Own s l p p') :
    p'.answers = p.answers ∨ p.receiver = true ∧ l = .advance s ∧
      ∃ outcome, p.activity.outcome? = some outcome ∧ p'.answers = p.answers ++ [outcome] := by
  cases h with
  | @reply p outcome hp =>
      rcases p.send_cases (.replies outcome) with ⟨hrec, -⟩ | ⟨-, hsend⟩
      · exact .inr ⟨hrec, rfl, outcome, hp, p.answers_send_replies hrec outcome⟩
      · rw [hsend]
        exact .inl rfl
  | @other p bytes hp =>
      rcases p.send_cases (.other bytes) with ⟨-, hsend⟩ | ⟨-, hsend⟩ <;> rw [hsend]
      · refine .inl ?_
        rw [Session.answers, List.filterMap_append]
        exact List.append_nil _
      · exact .inl rfl
  | _ => exact .inl rfl

theorem activity_of_unsubscribe {activity : Activity} {inner : List SubUnsubInnerEntry}
    (h : activity.outcome? = some (.unsubscribe inner)) : activity = .unsubscribing [] inner := by
  unfold Activity.outcome? at h
  split at h <;> cases h
  rfl

/-- When the acks of an `UNSUBSCRIBE` are queued, the session is off its channels. -/
theorem Own.unsubscribed (h : Own s l p p') (htracked : p.receiver = true → p.Tracked)
    {inner : List SubUnsubInnerEntry} (hanswers : p'.answers = p.answers ++ [.unsubscribe inner]) :
    l = .advance s ∧ ∀ c ∈ channelsOf inner, c ∉ p'.joined := by
  rcases h.answers with hsame | ⟨hrec, rfl, outcome, hp, hanswers'⟩
  · rw [hsame, List.self_eq_append_right] at hanswers
    cases hanswers
  · obtain ⟨-, rfl⟩ := List.append_singleton_inj.1 (hanswers'.symm.trans hanswers)
    have hp := activity_of_unsubscribe hp
    have htracked := htracked hrec
    rw [Session.Tracked, hp] at htracked
    refine ⟨rfl, fun c hc hjoined ↦ ?_⟩
    rcases h.joined hjoined with hjoined | ⟨-, todo, inner, hsubscribing⟩
    · rw [Session.joined_of_connected (Session.connected_of_eq hp trivial), htracked] at hjoined
      exact (Finset.mem_sdiff.1 hjoined).2 hc
    · cases hp.symm.trans hsubscribing

/-! ## Delivery -/

/-- There is one sequence of publications.  What has reached a session's queue is what the
sequence has for it, in its order; so two sessions get what they both get in the same order.  A
`PUBLISH` is answered the number of queues it added its message to.  After the acks of an
`UNSUBSCRIBE` nothing arrives on its channels until the session joins them again. -/
theorem delivery (hrun : exec step init ls = some σ) (hids : Along step FreshId init ls) :
    (∀ s p, σ.session s = some p → p.receiver = true →
      p.pushes = addressed s (publications ls)) ∧
    (∀ s t p q, σ.session s = some p → p.receiver = true → σ.session t = some q →
      q.receiver = true → (common s t (publications ls)).Sublist p.pushes ∧
        (common s t (publications ls)).Sublist q.pushes) ∧
    (∀ s p c m σ', σ.session s = some p → p.activity = .publishing c m →
      step σ (.advance s) = some σ' → ∃ (n : UInt32) (reached : Finset Nat),
        n.toNat = min reached.card (2 ^ 32 - 1) ∧ (∀ t ∈ reached, ∃ q, σ.session t = some q) ∧
        (∀ t q, σ.session t = some q → ∃ q', σ'.session t = some q' ∧
          q'.queue = q.queue ++ if t ∈ reached then [.push c m] else []) ∧
        ∀ ls' σ'' q, exec step σ' ls' = some σ'' →
          (∀ l ∈ ls', ∀ command order, l ≠ .begin s command order) → σ''.session s = some q →
          q.activity = .idle → q.answers = p.answers ++ [.publish n]) ∧
    (∀ s p p' l σ' inner, σ.session s = some p → step σ l = some σ' → σ'.session s = some p' →
      p'.answers = p.answers ++ [.unsubscribe inner] → ∀ c ∈ channelsOf inner, ∀ ls' σ'' q,
        exec step σ' ls' = some σ'' → Along step FreshId σ' ls' →
        Along step (fun τ l ↦ ¬Rejoins s c τ l) σ' ls' → σ''.session s = some q →
        q.pushes.filter (fun m ↦ m.1 = c) = p'.pushes.filter (fun m ↦ m.1 = c)) := by
  have hdelivered := Delivered.exec hrun hids
  refine ⟨fun s p hs hrec ↦ hdelivered.pushes_eq hs hrec, ?_, ?_, ?_⟩
  · intro s t p q hs hrec ht hrec'
    rw [hdelivered.pushes_eq hs hrec, hdelivered.pushes_eq ht hrec']
    exact ⟨common_sublist_left _ _ _, common_sublist_right _ _ _⟩
  · intro s p c m σ' hs hp hstep
    obtain ⟨n, reached, hn, ⟨p', hs', hp', hanswers⟩, hqueues, hreached⟩ :=
      publish_count hdelivered.toRegistered hs hp hstep
    refine ⟨n, reached, hn, hreached, hqueues, fun ls' σ'' q hrun' hls hq hidle ↦ ?_⟩
    rw [answers_of_published hs' hp' hrun' hls hq hidle, hanswers]
  · intro s p p' l σ' inner hs hstep hs' hanswers c hc ls' σ'' q hrun' hids' hls hq
    have hsteps := steps_of_step hstep
    obtain ⟨r, hown, hr⟩ := hsteps.session hs
    obtain rfl := Option.some.inj (hs'.symm.trans hr)
    rw [Session.answers_receive] at hanswers
    obtain ⟨rfl, hleft⟩ := hown.unsubscribed (tracked_of_exec hrun hs) hanswers
    have hfresh : FreshId σ (.advance s) := fun _ hlabel ↦ (nomatch hlabel)
    have hreg := hdelivered.toRegistered.step hfresh hstep
    exact silence hreg hs' (hleft c hc) hids' hls hrun' hq

/-- A session joins a channel, and another one publishes on it. -/
def heard : List Label :=
  [.connect 1, .begin 0 (.subscribe [news]) [], .advance 0, .advance 0, .connect 2,
    .begin 1 (.publish news hello) [], .advance 1]

theorem delivery_published :
    ∃ σ p, exec step init heard = some σ ∧ σ.session 0 = some p ∧ p.pushes = [(news, hello)] := by
  have hids : Along step FreshId init heard :=
    along_freshId (by decide) fun _ _ hs ↦ (nomatch hs)
  have hdelivery {σ : Hub} (hrun : exec step init heard = some σ) := (delivery hrun hids).1
  exact ⟨_, _, rfl, rfl, (hdelivery rfl 0 _ rfl rfl).trans rfl⟩

/-! ## Messages before their ack -/

/-- Note a publication that comes between the registry's call for session `s` and its ack. -/
def overtake (s : Nat) (σ : Hub) (l : Label) (messages : List (Blob × Blob)) :
    List (Blob × Blob) :=
  match σ.publication? l with
  | some (c, m) =>
      if (σ.session s).any fun p ↦ p.awaiting c then messages ++ [(c, m)] else messages
  | none => messages

/-- All of them in a run. -/
def overtaking (s : Nat) (ls : List Label) : List (Blob × Blob) :=
  history step (overtake s) init [] ls

/-- A session that is registered under a channel without an ack for it is in the middle of a
`SUBSCRIBE`. -/
theorem Registered.awaiting_iff (h : Registered σ) (hs : σ.session s = some p)
    (hrec : p.receiver = true) (htracked : p.Tracked) {c : Blob} :
    p.awaiting c = true ↔ s ∈ σ.audience c ∧ c ∉ p.transcript.acked := by
  constructor
  · intro hawaiting
    have hconnected := Session.connected_of_awaiting hawaiting
    obtain ⟨hc, hacked⟩ := (Session.awaiting_iff hrec htracked).1 hawaiting
    rw [Session.joined_of_connected hconnected] at hc
    exact ⟨mem_audience.2 ⟨p.id, h.kept hs hconnected hrec hc⟩, hacked⟩
  · rintro ⟨hmem, hacked⟩
    obtain ⟨id, hid⟩ := mem_audience.1 hmem
    exact (Session.awaiting_iff hrec htracked).2 ⟨(h.of_sender hs hid).2, hacked⟩

/-- A publication leaves the publisher's own queue alone. -/
theorem Own.queue_eq (h : Own s l p p') (hs : σ.session s = some p) {publication : Blob × Blob}
    (hl : σ.publication? l = some publication) : p'.queue = p.queue := by
  cases h with
  | reply hp =>
      rw [publication?_advance hs] at hl
      split at hl
      · next hpublishing => rw [hpublishing] at hp; cases hp
      · cases hl
  | other hp => cases hl
  | _ => rfl

/-- A message that arrives without an ack for its channel is one that is noted. -/
theorem Registered.overtake_eq (h : Registered σ) (hs : σ.session s = some p)
    (htracked : p.receiver = true → p.Tracked) (hown : Own s l p p') (messages) :
    overtake s σ l messages =
      messages ++ (σ.arrivals l s).filter fun m ↦ m.1 ∉ p'.transcript.acked := by
  cases hl : σ.publication? l with
  | none => rw [overtake, hl, arrivals_of_none hl, List.filter_nil, List.append_nil]
  | some publication =>
      obtain ⟨c, m⟩ := publication
      have hacked : p'.transcript = p.transcript :=
        congrArg (List.foldl _ _) (hown.queue_eq hs hl)
      simp only [overtake, hl, hs, Option.any_some, hacked]
      cases hrec : p.receiver with
      | false =>
          have hawaiting : p.awaiting c = false := by rw [Session.awaiting, hrec, Bool.false_and]
          rw [arrivals_eq_nil hs hrec, hawaiting, List.filter_nil, List.append_nil]
          rfl
      | true =>
          rw [h.arrivals_eq hs hrec hl]
          have hiff := h.awaiting_iff hs hrec (htracked hrec) (c := c)
          by_cases hmem : s ∈ σ.audience c <;> by_cases hc : c ∈ p.transcript.acked <;>
            simp [hmem, hc, hiff]

/-- What is noted is what stands before its ack. -/
def Overtaken (s : Nat) (ls : List Label) (σ : Hub) (messages : List (Blob × Blob)) : Prop :=
  Along step FreshId init ls →
    messages = ((σ.session s).map fun p ↦ p.transcript.early).getD []

theorem Overtaken.step {messages : List (Blob × Blob)} (hrun : exec step init ls = some σ)
    (h : Overtaken s ls σ messages) (hstep : step σ l = some σ') :
    Overtaken s (ls ++ [l]) σ' (overtake s σ l messages) := by
  intro hids
  obtain ⟨hids, -⟩ := along_concat.1 hids
  have hsteps := steps_of_step hstep
  replace h := h hids
  cases hs : σ.session s with
  | some p =>
      obtain ⟨p', hown, hs'⟩ := hsteps.session hs
      have hovertake := (Registered.exec hrun hids).overtake_eq hs (tracked_of_exec hrun hs) hown
      rw [hs] at h
      rw [hovertake, h, hs']
      simp only [Option.map_some, Option.getD_some, Session.transcript_receive,
        Session.early_own hown]
  | none =>
      have hsame : overtake s σ l messages = messages := by
        unfold overtake
        rw [hs]
        split <;> rfl
      rw [hs] at h
      rw [hsame, h]
      cases hs' : σ'.session s with
      | none => rfl
      | some p' =>
          rcases hsteps.session_or_new hs' with ⟨p, hp⟩ | ⟨-, id, -, rfl⟩
          · exact nomatch hs.symm.trans hp
          · rfl

/-- In a session's queue a message on a channel comes after the ack of the `SUBSCRIBE` it is due
to, except for the messages of those `PUBLISH`es that were executed after the registry was called
for the channel and before the acks were queued; these are before it. -/
theorem early_eq (hrun : exec step init ls = some σ) (hids : Along step FreshId init ls)
    (hs : σ.session s = some p) :
    p.transcript.early = overtaking s ls ∧
      ∀ before after c m, p.queue = before ++ .push c m :: after →
        (∃ inner, .replies (.subscribe inner) ∈ before ∧ c ∈ channelsOf inner) ∨
          (c, m) ∈ overtaking s ls := by
  have hovertaken : Overtaken s ls σ (overtaking s ls) :=
    history_invariant (fun _ ↦ rfl) Overtaken.step hrun
  have hearly := hovertaken hids
  rw [hs] at hearly
  refine ⟨hearly.symm, fun before after c m hqueue ↦ ?_⟩
  rw [hearly]
  exact Session.acked_or_early hqueue

/-- A session joins a channel, and another one publishes on it before the ack is queued. -/
def overtaken : List Label :=
  [.connect 1, .connect 2, .begin 0 (.subscribe [news]) [], .advance 0,
    .begin 1 (.publish news hello) [], .advance 1, .advance 0]

theorem early_eq_hello :
    ∃ σ p, exec step init overtaken = some σ ∧ σ.session 0 = some p ∧
      p.transcript.early = [(news, hello)] := by
  have hids : Along step FreshId init overtaken :=
    along_freshId (by decide) fun _ _ hs ↦ (nomatch hs)
  have hearly {σ : Hub} {p : Session} (hrun) (hs : σ.session 0 = some p) :=
    (early_eq hrun hids hs).1
  exact ⟨_, _, rfl, rfl, (hearly rfl rfl).trans rfl⟩

/-- So the ack need not come first. -/
theorem push_before_ack :
    ¬∀ ls σ s p, exec step init ls = some σ → Along step FreshId init ls →
      σ.session s = some p → ∀ before after c m, p.queue = before ++ .push c m :: after →
        ∃ inner, .replies (.subscribe inner) ∈ before ∧ c ∈ channelsOf inner := by
  intro hclaim
  obtain ⟨inner, hinner, -⟩ := hclaim overtaken _ 0 _ rfl
    (along_freshId (by decide) fun _ _ hs ↦ (nomatch hs)) rfl [] _ _ _ rfl
  exact absurd hinner List.not_mem_nil

end Hub

end Steller
