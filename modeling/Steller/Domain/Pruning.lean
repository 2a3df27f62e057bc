import Mathlib.Data.Finset.Insert
import Steller.Domain.Channels
import Steller.Lib.Transition

/-!
# Channels without subscribers

The registry is meant to hold live channels only: `unsubscribe` drops a channel
with its last subscriber.  `publish` takes subscribers out as well, those it can
no longer reach, but it leaves the channel behind even if it was the last of
them that went.

`live_iff` says that this is the only way an empty channel comes about.
-/

namespace Steller

open Transition

namespace Channels

/-- Every channel of the registry has a subscriber. -/
def Live (self : Channels) : Prop :=
  ∀ channelId subs, self.lookup channelId = some subs → subs ≠ ∅

theorem live_empty : Live ∅ := fun channelId subs h ↦ by cases h

theorem Live.erase {self : Channels} (h : self.Live) (channelId : Blob) :
    Live (Finmap.erase channelId self) := by
  intro c subs hc
  by_cases heq : c = channelId
  · subst heq
    rw [Finmap.lookup_erase] at hc
    cases hc
  · rw [Finmap.lookup_erase_ne heq] at hc
    exact h c subs hc

theorem Live.insert {self : Channels} (h : self.Live) (channelId : Blob) {subs : Subscribers}
    (hsubs : subs ≠ ∅) : Live (Finmap.insert channelId subs self) := by
  intro c subs' hc
  by_cases heq : c = channelId
  · subst heq
    rw [Finmap.lookup_insert] at hc
    cases hc
    exact hsubs
  · rw [Finmap.lookup_insert_of_ne _ heq] at hc
    exact h c subs' hc

theorem insert_ne_empty (subs : Subscribers) (id : UInt32) (sender : Sender) :
    subs.insert id sender ≠ ∅ := by
  intro h
  have hlookup := congrArg (Finmap.lookup id) h
  rw [Finmap.lookup_insert, Finmap.lookup_empty] at hlookup
  cases hlookup

theorem Live.subscribe {self : Channels} (h : self.Live) (channelId : Blob) (id : UInt32)
    (sender : Sender) : (self.subscribe channelId id sender).Live :=
  h.insert channelId (insert_ne_empty _ id sender)

theorem Live.unsubscribe {self : Channels} (h : self.Live) (channelId : Blob) (id : UInt32) :
    (self.unsubscribe channelId id).Live := by
  unfold Channels.unsubscribe
  cases self.lookup channelId with
  | none => exact h
  | some subs =>
      dsimp only
      split
      · exact h.erase channelId
      · next hne => exact h.insert channelId hne

/-- A message would reach someone on `channelId`, or there is no such channel. -/
def Reaches (self : Channels) (alive : Sender → Bool) (channelId : Blob) : Prop :=
  channelId ∈ self → ∃ id s, self.sender channelId id = some s ∧ alive s = true

theorem retain_ne_empty_iff {subs : Subscribers} {alive : Sender → Bool} :
    retain (fun _ s ↦ alive s) subs ≠ ∅ ↔ ∃ id s, subs.lookup id = some s ∧ alive s = true := by
  constructor
  · intro hne
    by_contra hnone
    push Not at hnone
    refine hne (Finmap.ext_lookup fun id ↦ ?_)
    rw [lookup_retain, Finmap.lookup_empty, Option.filter_eq_none_iff]
    exact fun s hs ↦ hnone id s hs
  · rintro ⟨id, s, hs, halive⟩ hempty
    have hlookup := congrArg (Finmap.lookup id) hempty
    rw [lookup_retain, hs, Option.filter_some, if_pos halive, Finmap.lookup_empty] at hlookup
    cases hlookup

/-- A message that reaches someone, or goes to no channel, leaves the registry live. -/
theorem Live.publish {self : Channels} (h : self.Live) {alive : Sender → Bool} {channelId : Blob}
    (hreach : self.Reaches alive channelId) : (self.publish alive channelId).2.Live := by
  unfold Channels.publish
  cases hc : self.lookup channelId with
  | none => exact h
  | some subs =>
      obtain ⟨id, s, hs, halive⟩ := hreach (Finmap.mem_of_lookup_eq_some hc)
      rw [sender, hc, Option.bind_some] at hs
      exact h.insert channelId (retain_ne_empty_iff.2 ⟨id, s, hs, halive⟩)

/-- And only such a message does. -/
theorem reaches_of_live_publish {self : Channels} {alive : Sender → Bool} {channelId : Blob}
    (h : (self.publish alive channelId).2.Live) : self.Reaches alive channelId := by
  intro hmem
  obtain ⟨subs, hc⟩ := Finmap.mem_iff.1 hmem
  rw [Channels.publish, hc] at h
  obtain ⟨id, s, hs, halive⟩ := retain_ne_empty_iff.1 (h channelId _ (Finmap.lookup_insert _))
  exact ⟨id, s, by rw [sender, hc, Option.bind_some, hs], halive⟩

end Channels

/-! ## Sequences of calls -/

/-- The registry, and the queues whose receiving half is gone. -/
structure Registry where
  channels : Channels
  dropped : Finset Sender

/-- A call on the registry, or a receiver that goes away between two calls. -/
inductive Registry.Call where
  | subscribe (channelId : Blob) (id : UInt32) (sender : Sender)
  | unsubscribe (channelId : Blob) (subscriberId : UInt32)
  | publish (channelId : Blob)
  | drop (sender : Sender)

namespace Registry

/-- `Channels::new`. -/
def new : Registry := ⟨∅, ∅⟩

/-- The receiving half of the queue is there. -/
def alive (self : Registry) (sender : Sender) : Bool := sender ∉ self.dropped

/-- What a call leaves of the registry. -/
def call (self : Registry) : Call → Registry
  | .subscribe channelId id sender =>
      { self with channels := self.channels.subscribe channelId id sender }
  | .unsubscribe channelId id => { self with channels := self.channels.unsubscribe channelId id }
  | .publish channelId =>
      { self with channels := (self.channels.publish self.alive channelId).2 }
  | .drop sender => { self with dropped := insert sender self.dropped }

/-- Every call can be made at any time. -/
def step (self : Registry) (c : Call) : Option Registry := some (self.call c)

theorem exec_eq (self : Registry) (calls : List Call) :
    exec step self calls = some (calls.foldl call self) := by
  induction calls generalizing self with
  | nil => rfl
  | cons c calls ih => exact ih (self.call c)

/-- The call is not a `publish` on a channel of the registry all of whose subscribers are out of
reach. -/
def Reaches (self : Registry) (c : Call) : Prop :=
  ∀ channelId, c = .publish channelId → self.channels.Reaches self.alive channelId

theorem live_call {self : Registry} {c : Call} (h : self.channels.Live) (hreach : self.Reaches c) :
    (self.call c).channels.Live := by
  cases c with
  | subscribe channelId id sender => exact h.subscribe channelId id sender
  | unsubscribe channelId id => exact h.unsubscribe channelId id
  | publish channelId => exact h.publish (hreach channelId rfl)
  | drop sender => exact h

theorem reaches_of_live_call {self : Registry} {c : Call} (h : (self.call c).channels.Live) :
    self.Reaches c := by
  rintro channelId rfl
  exact Channels.reaches_of_live_publish h

/-- In a run of calls from the empty registry, every registry the run passes through has live
channels only if and only if no `publish` of the run comes to a channel all of whose subscribers
are out of reach. -/
theorem live_iff (calls : List Call) :
    Along step Reaches new calls ↔ ∀ σ, Visited step new calls σ → σ.channels.Live := by
  have hlive : new.channels.Live := Channels.live_empty
  have hstep {σ σ' : Registry} {c : Call} (hσ : σ.channels.Live) (hreach : σ.Reaches c)
      (h : step σ c = some σ') : σ'.channels.Live := by
    cases h
    exact live_call hσ hreach
  have hback {xs : List Call} {σ σ' : Registry} {c : Call} (_ : exec step new xs = some σ)
      (h : step σ c = some σ') (hσ' : σ'.channels.Live) : σ.Reaches c := by
    cases h
    exact reaches_of_live_call hσ'
  exact along_iff_visited hstep id hlive hback (exec_eq new calls)

/-- One subscriber, whose receiver is dropped, and one message: the channel stays. -/
theorem not_live_publish :
    let news := Blob.singleton 110
    let calls : List Call := [.subscribe news 1 0, .drop 0, .publish news]
    ∃ σ, exec step new calls = some σ ∧ σ.channels.lookup news = some ∅ ∧ ¬ σ.channels.Live := by
  intro news calls
  have hlookup : (calls.foldl call new).channels.lookup news = some ∅ := by
    rfl
  exact ⟨_, exec_eq new calls, hlookup, fun h ↦ h news ∅ hlookup rfl⟩

end Registry

end Steller
