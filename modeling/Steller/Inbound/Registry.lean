import Steller.Inbound.PubSub

/-!
# The registry and the sessions' own sets agree

Which channels a session has joined is kept twice: in the session's own set, which
only it touches, and in the registry, which every session touches and which
`PUBLISH` prunes.  `Registered` says how the two are related in every state that
sessions with distinct ids can reach, in the middle of commands included.
-/

namespace Steller

open Transition

/-! ## The invariant -/

namespace Session

/-- The channels the registry may have the session under: while it cleans up, those it has not
come to yet. -/
def joined (self : Session) : Finset Blob :=
  match self.activity with
  | .leaving todo => todo.toFinset
  | .gone => ∅
  | _ => self.subscriptions

theorem joined_of_leaving {p : Session} {todo : List Blob} (hp : p.activity = .leaving todo) :
    p.joined = todo.toFinset := by rw [joined, hp]

/-- The session has not begun to clean up. -/
def Connected (self : Session) : Prop :=
  match self.activity with
  | .leaving _ | .gone => False
  | _ => True

theorem joined_of_connected {p : Session} (h : p.Connected) : p.joined = p.subscriptions := by
  unfold Connected at h
  unfold joined
  split
  · next hp => rw [hp] at h; exact h.elim
  · next hp => rw [hp] at h; exact h.elim
  · rfl

theorem connected_of_eq {p : Session} {activity : Activity} (hp : p.activity = activity)
    (h : { p with activity }.Connected) : p.Connected := by
  subst hp
  exact h

theorem connected_of_outcome {p : Session} {outcome : ChannelCommandOutcome}
    (h : p.activity.outcome? = some outcome) : p.Connected := by
  cases hp : p.activity with
  | leaving todo => rw [hp] at h; cases h
  | gone => rw [hp] at h; cases h
  | _ => exact connected_of_eq hp trivial

theorem connected_begun (p : Session) (order : List Blob) (command : ChannelCommand) :
    { p with activity := p.begun order command }.Connected := by
  cases command <;> exact trivial

theorem not_gone_of_connected {p : Session} (h : p.Connected) : p.activity ≠ .gone := by
  intro hp
  rw [Connected, hp] at h
  exact h

end Session

namespace Hub

/-- The step does not give a session the id of one that is still there. -/
def FreshId (σ : Hub) (l : Label) : Prop :=
  ∀ id, l = .connect id → ∀ s p, σ.session s = some p → p.activity ≠ .gone → p.id ≠ id

/-- The id that the step gives away. -/
def Label.id? : Label → Option UInt32
  | .connect id => some id
  | _ => none

/-- So it is in a run that never gives the same id twice. -/
theorem along_freshId {σ : Hub} {ls : List Label} (hnodup : (ls.filterMap Label.id?).Nodup)
    (hσ : ∀ s p, σ.session s = some p → p.id ∉ ls.filterMap Label.id?) :
    Along step FreshId σ ls := by
  induction ls generalizing σ with
  | nil => trivial
  | cons l ls ih =>
      constructor
      · rintro id rfl s p hs - rfl
        exact hσ s p hs List.mem_cons_self
      · intro σ' hstep
        have hsteps := steps_of_step hstep
        have hsublist : (ls.filterMap Label.id?).Sublist ((l :: ls).filterMap Label.id?) :=
          (List.sublist_cons_self l ls).filterMap _
        refine ih (hsublist.nodup hnodup) fun s p' hs' hmem ↦ ?_
        rcases hsteps.session_or_new hs' with ⟨p, hs⟩ | ⟨-, id, rfl, rfl⟩
        · obtain ⟨q, hown, hq⟩ := hsteps.session hs
          obtain rfl := Option.some.inj (hs'.symm.trans hq)
          exact hσ s p hs (hsublist.subset (hown.id_eq ▸ hmem))
        · exact (List.nodup_cons.1 hnodup).1 hmem

/-- How registry and sessions are related. -/
structure Registered (σ : Hub) : Prop where
  distinct : ∀ {s t p q}, σ.session s = some p → σ.session t = some q → p.activity ≠ .gone →
    q.activity ≠ .gone → p.id = q.id → s = t
  listed : ∀ {c i s}, σ.channels.sender c i = some s →
    ∃ p, σ.session s = some p ∧ p.id = i ∧ c ∈ p.joined
  kept : ∀ {s p c}, σ.session s = some p → p.Connected → p.receiver = true →
    c ∈ p.subscriptions → σ.channels.sender c p.id = some s

variable {σ σ' : Hub} {s t : Nat} {p p' q : Session}

theorem alive_of_receiver (hs : σ.session s = some p) (h : p.receiver = true) :
    σ.alive s = true := by
  rw [alive, hs]
  exact h

namespace Registered

theorem init : Registered Hub.init where
  distinct h := nomatch h
  listed h := nomatch h
  kept h := nomatch h

/-- A session is registered under its own id and no other. -/
theorem of_sender (h : Registered σ) (hs : σ.session s = some p) {c : Blob} {i : UInt32}
    (hr : σ.channels.sender c i = some s) : i = p.id ∧ c ∈ p.joined := by
  obtain ⟨q, hq, hi, hc⟩ := h.listed hr
  obtain rfl := Option.some.inj (hs.symm.trans hq)
  exact ⟨hi.symm, hc⟩

/-- One session and the registry change, and the registry changes only in what it says about
that session and those whose receiver is gone. -/
theorem change (h : Registered σ) (hs : σ.session s = some p) (hid : p'.id = p.id)
    (hgone : p'.activity ≠ .gone → p.activity ≠ .gone) {channels : Channels}
    (hlisted : ∀ {c i r}, channels.sender c i = some r →
      r = s ∧ i = p.id ∧ c ∈ p'.joined ∨ r ≠ s ∧ σ.channels.sender c i = some r)
    (hkept : ∀ {c}, p'.Connected → p'.receiver = true → c ∈ p'.subscriptions →
      channels.sender c p.id = some s)
    (hothers : ∀ {c i r}, (p.activity ≠ .gone → i ≠ p.id) → σ.alive r = true →
      σ.channels.sender c i = some r → channels.sender c i = some r) :
    Registered ({ σ with channels }.put s p') where
  distinct {t u q r} ht hu hq hr hqr := by
    rcases put_cases hs ht with ⟨rfl, rfl⟩ | ⟨-, ht'⟩ <;>
      rcases put_cases hs hu with ⟨rfl, rfl⟩ | ⟨-, hu'⟩
    · rfl
    · exact h.distinct hs hu' (hgone hq) hr (hid.symm.trans hqr)
    · exact h.distinct ht' hs hq (hgone hr) (hqr.trans hid)
    · exact h.distinct ht' hu' hq hr hqr
  listed {c i t} ht := by
    rcases hlisted ht with ⟨rfl, rfl, hc⟩ | ⟨hts, ht⟩
    · exact ⟨p', put_self hs _, hid, hc⟩
    · obtain ⟨q, hq, hqi, hc⟩ := h.listed ht
      exact ⟨q, (put_of_ne hts _).trans hq, hqi, hc⟩
  kept {t q c} ht hq hrec hc := by
    rcases put_cases hs ht with ⟨rfl, rfl⟩ | ⟨hts, ht⟩
    · rw [hid]
      exact hkept hq hrec hc
    · refine hothers (fun hp hi ↦ ?_) (alive_of_receiver ht hrec) (h.kept ht hq hrec hc)
      exact hts (h.distinct ht hs (Session.not_gone_of_connected hq) hp hi)

/-- One session changes, the registry does not. -/
theorem changeSession (h : Registered σ) (hs : σ.session s = some p) (hid : p'.id = p.id)
    (hgone : p'.activity ≠ .gone → p.activity ≠ .gone) (hjoined : p.joined ⊆ p'.joined)
    (hconnected : p'.Connected → p.Connected) (hreceiver : p'.receiver = true → p.receiver = true)
    (hsubscriptions : p'.subscriptions = p.subscriptions) : Registered (σ.put s p') := by
  refine h.change hs hid hgone (fun {c i r} hr ↦ ?_) (fun {c} hp hrec hc ↦ ?_) fun _ _ hr ↦ hr
  · by_cases hrs : r = s
    · subst hrs
      obtain ⟨hi, hc⟩ := h.of_sender hs hr
      exact .inl ⟨rfl, hi, hjoined hc⟩
    · exact .inr ⟨hrs, hr⟩
  · exact h.kept hs (hconnected hp) (hreceiver hrec) (hsubscriptions ▸ hc)

/-- A session registers. -/
theorem register (h : Registered σ) (hs : σ.session s = some p) (hp : p.Connected) {c : Blob}
    {todo : List Blob} {inner : List SubUnsubInnerEntry} :
    Registered ({ σ with channels := σ.channels.subscribe c p.id s }.put s
      (p.join c todo inner)) := by
  have hid : (p.join c todo inner).id = p.id := rfl
  have hgone := Session.not_gone_of_connected hp
  refine h.change hs hid (fun _ ↦ hgone) (fun {d i r} hr ↦ ?_) (fun {d} _ hrec hd ↦ ?_)
    fun {d i r} hi _ hr ↦ ?_
  · rw [Channels.sender_subscribe] at hr
    split at hr
    · next heq =>
        exact .inl ⟨(Option.some.inj hr).symm, heq.2, heq.1 ▸ Finset.mem_insert_self _ _⟩
    · by_cases hrs : r = s
      · subst hrs
        obtain ⟨hi, hd⟩ := h.of_sender hs hr
        exact .inl ⟨rfl, hi, Finset.mem_insert_of_mem (Session.joined_of_connected hp ▸ hd)⟩
      · exact .inr ⟨hrs, hr⟩
  · rw [Channels.sender_subscribe]
    rcases Finset.mem_insert.1 hd with rfl | hd
    · exact if_pos ⟨rfl, rfl⟩
    · rw [h.kept hs hp hrec hd, ite_self]
  · rw [Channels.sender_subscribe, if_neg fun heq ↦ hi hgone heq.2]
    exact hr

/-- A session takes itself off one channel. -/
theorem unregister (h : Registered σ) (hs : σ.session s = some p) (hid : p'.id = p.id)
    (hgone : p.activity ≠ .gone) {c : Blob} (hjoined : p.joined.erase c ⊆ p'.joined)
    (hconnected : p'.Connected → p.Connected ∧ p'.subscriptions = p.subscriptions.erase c)
    (hreceiver : p'.receiver = true → p.receiver = true) :
    Registered ({ σ with channels := σ.channels.unsubscribe c p.id }.put s p') := by
  refine h.change hs hid (fun _ ↦ hgone) (fun {d i r} hr ↦ ?_) (fun {d} hp hrec hd ↦ ?_)
    fun {d i r} hi _ hr ↦ ?_
  · rw [Channels.sender_unsubscribe] at hr
    split at hr
    · cases hr
    · next hne =>
        by_cases hrs : r = s
        · subst hrs
          obtain ⟨rfl, hd⟩ := h.of_sender hs hr
          refine .inl ⟨rfl, rfl, hjoined (Finset.mem_erase.2 ⟨fun hdc ↦ hne ⟨hdc, rfl⟩, hd⟩)⟩
        · exact .inr ⟨hrs, hr⟩
  · obtain ⟨hp, hsubscriptions⟩ := hconnected hp
    rw [hsubscriptions] at hd
    obtain ⟨hdc, hd⟩ := Finset.mem_erase.1 hd
    rw [Channels.sender_unsubscribe, if_neg fun heq ↦ hdc heq.1]
    exact h.kept hs hp (hreceiver hrec) hd
  · rw [Channels.sender_unsubscribe, if_neg fun heq ↦ hi hgone heq.2]
    exact hr

/-- A session publishes, which prunes senders whose receiver is gone. -/
theorem prune (h : Registered σ) (hs : σ.session s = some p) (hp : p.Connected) {c : Blob}
    {sentCount : UInt32} :
    Registered ({ σ with channels := (σ.channels.publish σ.alive c).2 }.put s
      { p with activity := .published sentCount }) := by
  have hpruned {d : Blob} {i : UInt32} {r : Sender} (hr : σ.channels.sender d i = some r)
      (halive : σ.alive r = true) :
      (σ.channels.publish σ.alive c).2.sender d i = some r := by
    rw [Channels.sender_publish, hr]
    split
    · exact Option.filter_eq_some_iff.2 ⟨rfl, halive⟩
    · rfl
  have hid : { p with activity := .published sentCount }.id = p.id := rfl
  have hgone := Session.not_gone_of_connected hp
  refine h.change hs hid (fun _ ↦ hgone) (fun {d i r} hr ↦ ?_) (fun {d} _ hrec hd ↦ ?_)
    fun {d i r} _ halive hr ↦ hpruned hr halive
  · rw [Channels.sender_publish] at hr
    have hr : σ.channels.sender d i = some r := by
      split at hr
      · exact (Option.filter_eq_some_iff.1 hr).1
      · exact hr
    by_cases hrs : r = s
    · subst hrs
      obtain ⟨hi, hd⟩ := h.of_sender hs hr
      exact .inl ⟨rfl, hi, Session.joined_of_connected hp ▸ hd⟩
    · exact .inr ⟨hrs, hr⟩
  · exact hpruned (h.kept hs hp hrec hd) (alive_of_receiver hs hrec)

/-- Messages arrive. -/
theorem deliver (h : Registered σ) (reached : Multiset Sender) (c m : Blob) :
    Registered (σ.deliver reached c m) where
  distinct ht hu hq hr hqr := by
    obtain ⟨p, hp, rfl⟩ := deliver_cases ht
    obtain ⟨p', hp', rfl⟩ := deliver_cases hu
    exact h.distinct hp hp' hq hr hqr
  listed ht := by
    obtain ⟨p, hp, hid, hc⟩ := h.listed ht
    exact ⟨p.receive _, by rw [session_deliver, hp]; rfl, hid, hc⟩
  kept ht hq hrec hc := by
    obtain ⟨p, hp, rfl⟩ := deliver_cases ht
    have hkept := h.kept hp hq hrec hc
    exact hkept

/-- A session connects. -/
theorem connect (h : Registered σ) {id : UInt32} (hid : FreshId σ (.connect id)) :
    Registered (σ.add (.new id)) where
  distinct ht hu hq hr hqr := by
    rcases add_cases ht with ⟨rfl, rfl⟩ | ht <;> rcases add_cases hu with ⟨rfl, rfl⟩ | hu
    · rfl
    · exact absurd hqr.symm (hid id rfl _ _ hu hr)
    · exact absurd hqr (hid id rfl _ _ ht hq)
    · exact h.distinct ht hu hq hr hqr
  listed ht := by
    obtain ⟨q, hq, hi, hc⟩ := h.listed ht
    exact ⟨q, add_of_some hq _, hi, hc⟩
  kept ht hq hrec hc := by
    rcases add_cases ht with ⟨-, rfl⟩ | ht
    · exact absurd hc (Finset.notMem_empty _)
    · exact h.kept ht hq hrec hc

/-- A session goes on to something else, short of cleaning up. -/
theorem proceed (h : Registered σ) (hs : σ.session s = some p) (hp : p.Connected)
    (hp' : p'.Connected) (hid : p'.id = p.id) (hreceiver : p'.receiver = p.receiver)
    (hsubscriptions : p'.subscriptions = p.subscriptions) : Registered (σ.put s p') := by
  refine h.changeSession hs hid (fun _ ↦ Session.not_gone_of_connected hp) ?_ (fun _ ↦ hp)
    (fun hrec ↦ hreceiver ▸ hrec) hsubscriptions
  rw [Session.joined_of_connected hp, Session.joined_of_connected hp', hsubscriptions]

/-- A session queues something of its own. -/
theorem send (h : Registered σ) (hs : σ.session s = some p) (hp : p.Connected)
    (parcel : Parcel) : Registered (σ.put s (p.send parcel)) := by
  rcases p.send_cases parcel with ⟨-, hsend⟩ | ⟨-, hsend⟩ <;> rw [hsend]
  · exact h.proceed hs hp trivial rfl rfl rfl
  · exact h.proceed hs hp trivial rfl rfl rfl

/-- Every step keeps it. -/
theorem step {l : Label} (h : Registered σ) (hid : FreshId σ l) (hstep : step σ l = some σ') :
    Registered σ' := by
  cases steps_of_step hstep with
  | connect => exact h.connect hid
  | begin hs hp =>
      have hconnected := Session.connected_of_eq hp trivial
      exact h.proceed hs hconnected (Session.connected_begun _ _ _) rfl rfl rfl
  | subscribe hs hp => exact h.register hs (Session.connected_of_eq hp trivial)
  | unsubscribe hs hp =>
      have hconnected := Session.connected_of_eq hp trivial
      refine h.unregister hs (by rfl) (Session.not_gone_of_connected hconnected) ?_
        (fun _ ↦ ⟨hconnected, rfl⟩) id
      rw [Session.joined_of_connected hconnected]
      exact subset_rfl
  | publish hs hp => exact (h.prune hs (Session.connected_of_eq hp trivial)).deliver _ _ _
  | reply hs hp => exact h.send hs (Session.connected_of_outcome hp) _
  | leaveOne hs hp =>
      refine h.unregister hs (by rfl) (by rw [hp]; exact nofun) ?_ (fun hp' ↦ hp'.elim) id
      intro d hd
      obtain ⟨hdc, hd⟩ := Finset.mem_erase.1 hd
      rw [Session.joined_of_leaving hp, List.toFinset_cons] at hd
      exact Finset.mem_of_mem_insert_of_ne hd hdc
  | left hs hp =>
      refine h.changeSession hs rfl (fun hgone ↦ absurd rfl hgone) ?_ (fun hp' ↦ hp'.elim) id rfl
      rw [Session.joined_of_leaving hp]
      exact subset_rfl
  | other hs hp => exact h.send hs (Session.connected_of_eq hp trivial) _
  | stop hs hp => exact h.proceed hs (Session.connected_of_eq hp trivial) trivial rfl rfl rfl
  | hangUp hs => exact h.changeSession hs rfl id subset_rfl id nofun rfl
  | leave hs hp horder =>
      have hconnected := Session.connected_of_eq hp trivial
      refine h.changeSession hs rfl (fun _ ↦ Session.not_gone_of_connected hconnected) ?_
        (fun hp' ↦ hp'.elim) id rfl
      rw [Session.joined_of_connected hconnected, ← horder.2]
      exact subset_rfl

/-- Every run keeps it. -/
theorem exec {ls : List Label} (hrun : exec Hub.step Hub.init ls = some σ)
    (hids : Along Hub.step FreshId Hub.init ls) : Registered σ :=
  hids.invariant (fun h hid hstep ↦ h.step hid hstep) init hrun

end Registered

end Hub

end Steller
