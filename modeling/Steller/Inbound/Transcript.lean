import Steller.Inbound.Acks

/-!
# Reading a session's queue

A client knows which channels it has joined from the acks it reads.  `transcript`
is what can be read off a queue, `Session.Tracked` how it is related to the
session's own set in the middle of commands too: the set is ahead of the acks by
the entries that are not yet queued.

Nothing here depends on the registry or on ids.
-/

namespace Steller

open Transition

/-! ## The transcript -/

/-- The channels that some entries are about. -/
def channelsOf (inner : List SubUnsubInnerEntry) : Finset Blob :=
  (inner.filterMap SubUnsubInnerEntry.channelId).toFinset

theorem channelsOf_concat (inner : List SubUnsubInnerEntry) (c : Blob) (n : Nat) :
    channelsOf (inner ++ [.new c n]) = insert c (channelsOf inner) := by
  rw [channelsOf, List.filterMap_append, List.toFinset_append, channelsOf, Finset.union_comm]
  rfl

/-- What someone who reads a session's queue from the front knows: the channels whose last ack
was of a `SUBSCRIBE`, and the messages that came on other channels than those. -/
structure Transcript where
  acked : Finset Blob
  early : List (Blob × Blob)

/-- Read one item. -/
def Transcript.next (self : Transcript) : Parcel → Transcript
  | .replies (.subscribe inner) => { self with acked := self.acked ∪ channelsOf inner }
  | .replies (.unsubscribe inner) => { self with acked := self.acked \ channelsOf inner }
  | .replies (.publish _) => self
  | .push c m => if c ∈ self.acked then self else { self with early := self.early ++ [(c, m)] }
  | .other _ => self

namespace Transcript

/-- A channel is acked only by an ack. -/
theorem mem_acked_foldl {r : Transcript} {queue : List Parcel} {c : Blob}
    (h : c ∈ (queue.foldl next r).acked) :
    c ∈ r.acked ∨ ∃ inner, .replies (.subscribe inner) ∈ queue ∧ c ∈ channelsOf inner := by
  induction queue generalizing r with
  | nil => exact .inl h
  | cons parcel queue ih =>
      rcases ih h with hnext | ⟨inner, hinner, hc⟩
      · cases parcel with
        | replies outcome =>
            cases outcome with
            | subscribe inner =>
                rcases Finset.mem_union.1 hnext with hc | hc
                · exact .inl hc
                · exact .inr ⟨inner, List.mem_cons_self, hc⟩
            | unsubscribe inner => exact .inl (Finset.mem_sdiff.1 hnext).1
            | publish sentCount => exact .inl hnext
        | push d m =>
            rw [next] at hnext
            split at hnext <;> exact .inl hnext
        | other bytes => exact .inl hnext
      · exact .inr ⟨inner, List.mem_cons_of_mem _ hinner, hc⟩

/-- A message that was early stays early. -/
theorem mem_early_foldl {r : Transcript} {x : Blob × Blob} (h : x ∈ r.early)
    (queue : List Parcel) : x ∈ (queue.foldl next r).early := by
  induction queue generalizing r with
  | nil => exact h
  | cons parcel queue ih =>
      refine ih ?_
      cases parcel with
      | replies outcome => cases outcome <;> exact h
      | push d m =>
          rw [next]
          split
          · exact h
          · exact List.mem_append_left _ h
      | other bytes => exact h

end Transcript

namespace Session

/-- Read all of the queue. -/
def transcript (self : Session) : Transcript := self.queue.foldl Transcript.next ⟨∅, []⟩

variable {s : Nat} {l : Hub.Label} {p p' : Session}

theorem transcript_send (h : p.receiver = true) (parcel : Parcel) :
    (p.send parcel).transcript = p.transcript.next parcel := by
  rw [send, if_pos h, transcript, List.foldl_append]
  rfl

theorem transcript_receive (p : Session) (messages : List (Blob × Blob)) :
    (p.receive messages).transcript = { p.transcript with
      early := p.transcript.early ++ messages.filter fun m ↦ m.1 ∉ p.transcript.acked } := by
  rw [transcript, receive, List.foldl_append]
  change List.foldl _ p.transcript _ = _
  generalize p.transcript = r
  induction messages generalizing r with
  | nil => simp
  | cons x messages ih =>
      rw [List.map_cons, List.foldl_cons, ih, Transcript.next]
      split
      · next hmem => simp [hmem]
      · next hmem => simp [hmem]

/-- A message that is not early has an ack before it. -/
theorem acked_or_early {before after : List Parcel} {c m : Blob}
    (h : p.queue = before ++ .push c m :: after) :
    (∃ inner, .replies (.subscribe inner) ∈ before ∧ c ∈ channelsOf inner) ∨
      (c, m) ∈ p.transcript.early := by
  rw [transcript, h, List.foldl_append, List.foldl_cons]
  by_cases hc : c ∈ (before.foldl Transcript.next ⟨∅, []⟩).acked
  · rcases Transcript.mem_acked_foldl hc with hempty | hack
    · exact absurd hempty (Finset.notMem_empty c)
    · exact .inl hack
  · refine .inr (Transcript.mem_early_foldl ?_ after)
    rw [Transcript.next, if_neg hc]
    exact List.mem_append_right _ List.mem_cons_self

/-- A session's own items are not messages. -/
theorem early_own (hown : Hub.Own s l p p') : p'.transcript.early = p.transcript.early := by
  have hsend (parcel : Parcel) (hparcel : ∀ r : Transcript, (r.next parcel).early = r.early) :
      (p.send parcel).transcript.early = p.transcript.early := by
    rcases p.send_cases parcel with ⟨hrec, -⟩ | ⟨-, hsend⟩
    · rw [transcript_send hrec, hparcel]
    · rw [hsend]
      rfl
  cases hown with
  | @reply p outcome hp => exact hsend _ (by cases outcome <;> exact fun _ ↦ rfl)
  | other hp => exact hsend _ fun _ ↦ rfl
  | _ => rfl

/-- How the session's set and the acks in its queue are related. -/
def Tracked (p : Session) : Prop :=
  match p.activity with
  | .subscribing _ inner => p.subscriptions = p.transcript.acked ∪ channelsOf inner
  | .unsubscribing _ inner => p.subscriptions = p.transcript.acked \ channelsOf inner
  | .leaving todo => todo.toFinset ⊆ p.transcript.acked
  | .gone => True
  | _ => p.subscriptions = p.transcript.acked

theorem Tracked.receive (h : p.Tracked) (messages : List (Blob × Blob)) :
    (p.receive messages).Tracked := by
  unfold Tracked
  rw [transcript_receive]
  exact h

theorem tracked_begun (h : p.subscriptions = p.transcript.acked) (order : List Blob)
    (command : ChannelCommand) : { p with activity := p.begun order command }.Tracked := by
  cases command with
  | subscribe channelIds => exact h.trans (Finset.union_empty _).symm
  | unsubscribe channelIds =>
      -- the ack of an `UNSUBSCRIBE` that has nothing to do is about no channel
      have hnone (targets : List Blob) : channelsOf
          (if targets = [] then [.newNull p.subscriptions.card] else []) = ∅ := by split <;> rfl
      refine h.trans ?_
      rw [hnone, Finset.sdiff_empty]
      rfl
  | publish channelId message => exact h

/-- The acks catch up with the set. -/
theorem tracked_reply (h : p.Tracked) (hrec : p.receiver = true) {outcome : ChannelCommandOutcome}
    (hp : p.activity.outcome? = some outcome) : (p.send (.replies outcome)).Tracked := by
  have hsent : (p.send (.replies outcome)).Tracked ↔
      p.subscriptions = (p.transcript.next (.replies outcome)).acked := by
    rw [← transcript_send hrec, Tracked, send, if_pos hrec]
  rw [hsent]
  unfold Tracked at h
  unfold Activity.outcome? at hp
  split at hp
  · next inner hp' => cases hp; rw [hp'] at h; exact h
  · next inner hp' => cases hp; rw [hp'] at h; exact h
  · next n hp' => cases hp; rw [hp'] at h; exact h
  · cases hp

theorem Tracked.own (h : p.receiver = true → p.Tracked) (hown : Hub.Own s l p p')
    (hrec' : p'.receiver = true) : p'.Tracked := by
  have hrec := hown.receiver hrec'
  replace h := h hrec
  cases hown with
  | stay => exact h
  | begin hp horder =>
      rw [Tracked, hp] at h
      exact tracked_begun h _ _
  | subscribe hp =>
      rw [Tracked, hp] at h
      refine (congrArg (insert _) h).trans ?_
      rw [← Finset.union_insert, ← channelsOf_concat]
      rfl
  | unsubscribe hp =>
      rw [Tracked, hp] at h
      refine (congrArg (Finset.erase · _) h).trans ?_
      rw [← Finset.sdiff_insert, ← channelsOf_concat]
      rfl
  | publish hp =>
      rw [Tracked, hp] at h
      exact h
  | reply hp => exact tracked_reply h hrec hp
  | leaveOne hp =>
      rw [Tracked, hp] at h
      have hsub : List.toFinset (_ :: _) ⊆ p.transcript.acked := h
      rw [List.toFinset_cons] at hsub
      exact (Finset.subset_insert _ _).trans hsub
  | left hp => trivial
  | other hp =>
      rw [Tracked, hp] at h
      rw [Tracked, transcript_send hrec, send, if_pos hrec]
      exact h
  | stop hp =>
      rw [Tracked, hp] at h
      exact h
  | hangUp => cases hrec'
  | leave hp horder =>
      rw [Tracked, hp] at h
      exact (horder.2.trans h).le

end Session

namespace Session

variable {p : Session}

/-- The registry has the session under the channel, from a `SUBSCRIBE` whose acks are not yet
queued. -/
def awaiting (p : Session) (c : Blob) : Bool :=
  p.receiver && match p.activity with
    | .subscribing _ inner => decide (c ∈ channelsOf inner ∧ c ∉ p.transcript.acked)
    | _ => false

theorem connected_of_awaiting {c : Blob} (h : p.awaiting c = true) : p.Connected := by
  obtain ⟨-, h⟩ := Bool.and_eq_true_iff.1 h
  split at h
  · next hp => exact connected_of_eq hp trivial
  · cases h

/-- Only a `SUBSCRIBE` can be ahead of its acks. -/
theorem awaiting_iff (hrec : p.receiver = true) (h : p.Tracked) {c : Blob} :
    p.awaiting c = true ↔ c ∈ p.joined ∧ c ∉ p.transcript.acked := by
  unfold Tracked at h
  unfold awaiting joined
  rw [hrec, Bool.true_and]
  cases hp : p.activity with
  | subscribing todo inner =>
      rw [hp] at h
      rw [decide_eq_true_iff, h, Finset.mem_union, or_and_right, and_not_self_iff, false_or]
  | unsubscribing todo inner =>
      rw [hp] at h
      rw [h]
      exact ⟨nofun, fun hc ↦ absurd (Finset.mem_sdiff.1 hc.1).1 hc.2⟩
  | leaving todo =>
      rw [hp] at h
      exact ⟨nofun, fun hc ↦ absurd (h hc.1) hc.2⟩
  | gone => exact ⟨nofun, fun hc ↦ absurd hc.1 (Finset.notMem_empty c)⟩
  | _ =>
      rw [hp] at h
      rw [h]
      exact ⟨nofun, fun hc ↦ absurd hc.1 hc.2⟩

end Session

namespace Hub

/-- Every session with a receiver is tracked, in every state of every run. -/
theorem tracked_of_exec {ls : List Label} {σ : Hub} (hrun : exec step init ls = some σ) {s : Nat}
    {p : Session} (hs : σ.session s = some p) (hrec : p.receiver = true) : p.Tracked := by
  have hstep {σ σ' : Hub} {l : Label}
      (h : ∀ s p, σ.session s = some p → p.receiver = true → p.Tracked)
      (hstep : step σ l = some σ') :
      ∀ s p, σ'.session s = some p → p.receiver = true → p.Tracked := by
    intro s p' hs' hrec'
    have hsteps := steps_of_step hstep
    rcases hsteps.session_or_new hs' with ⟨p, hs⟩ | ⟨-, id, -, rfl⟩
    · obtain ⟨q, hown, hq⟩ := hsteps.session hs
      obtain rfl := Option.some.inj (hs'.symm.trans hq)
      exact (Session.Tracked.own (h s p hs) hown hrec').receive _
    · exact rfl
  have hinit : ∀ s p, init.session s = some p → p.receiver = true → p.Tracked :=
    fun _ _ hs ↦ (nomatch hs)
  exact exec_invariant hstep hinit hrun s p hs hrec

end Hub

end Steller
