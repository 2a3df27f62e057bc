import Mathlib.Data.Finmap
import Steller.Std.Bytes

/-!
# The subscription registry

`Channels` maps a channel name to its subscribers, and these map a session id to
the sending half of that session's queue.  The registry trusts its callers with
the ids: it keeps one sender under each, whoever registered it.

A sender is the number of the queue it feeds.  Whether the receiving half is
still there is not the registry's to know, it learns it when a send fails; so
`publish` takes that as an argument, and returns what it sent as well as what it
counted.

Everything the rest of the project needs to know of the registry is what its
three operations do to `sender`, the sender under one channel and one id.
-/

namespace Steller

/-! ## Retaining part of a map -/

section Retain

variable {α : Type} {β : α → Type}

/-- `HashMap::retain`. -/
def retain (p : ∀ a, β a → Bool) (m : Finmap β) : Finmap β where
  entries := m.entries.filter fun e ↦ p e.1 e.2
  nodupKeys := Multiset.nodup_keys.1 (Multiset.nodup_of_le
    (Multiset.map_le_map (Multiset.filter_le _ _)) m.nodupKeys.nodup_keys)

theorem lookup_retain [DecidableEq α] (p : ∀ a, β a → Bool) (m : Finmap β) (a : α) :
    (retain p m).lookup a = (m.lookup a).filter (p a) := by
  ext b
  rw [← Option.mem_def, Finmap.mem_lookup_iff, retain, Multiset.mem_filter, ← Finmap.mem_lookup_iff,
    Option.mem_def, Option.filter_eq_some_iff]

end Retain

/-! ## The registry -/

/-- The sending half of a session's queue, named by the queue it feeds. -/
abbrev Sender := Nat

/-- The subscribers of one channel, keyed by session id. -/
abbrev Subscribers := Finmap fun _ : UInt32 ↦ Sender

/-- The subscription registry. -/
abbrev Channels := Finmap fun _ : Blob ↦ Subscribers

namespace Channels

/-- Register a subscriber under `channelId`, creating the channel on first subscribe. -/
def subscribe (self : Channels) (channelId : Blob) (id : UInt32) (sender : Sender) : Channels :=
  self.insert channelId (((self.lookup channelId).getD ∅).insert id sender)

/-- Remove a subscriber from `channelId`; the channel goes with its last subscriber. -/
def unsubscribe (self : Channels) (channelId : Blob) (subscriberId : UInt32) : Channels :=
  match self.lookup channelId with
  | none => self
  | some subs =>
      let subs := subs.erase subscriberId
      if subs = ∅ then self.erase channelId else self.insert channelId subs

/-- The senders under `channelId` whose receiver is there, which are those a message reaches. -/
def reached (self : Channels) (alive : Sender → Bool) (channelId : Blob) : Multiset Sender :=
  match self.lookup channelId with
  | none => 0
  | some subs => (retain (fun _ sender ↦ alive sender) subs).entries.map Sigma.snd

/-- Send a message to every subscriber of `channelId`, prune those whose receiver is gone, and
count the others; the count saturates. -/
def publish (self : Channels) (alive : Sender → Bool) (channelId : Blob) : UInt32 × Channels :=
  match self.lookup channelId with
  | none => (0, self)
  | some subs =>
      (UInt32.ofNat (min (self.reached alive channelId).card (2 ^ 32 - 1)),
        self.insert channelId (retain (fun _ sender ↦ alive sender) subs))

/-! ## One channel, one id -/

/-- The sender registered under a channel and an id. -/
def sender (self : Channels) (channelId : Blob) (id : UInt32) : Option Sender :=
  (self.lookup channelId).bind fun subs ↦ subs.lookup id

theorem sender_subscribe (self : Channels) (channelId : Blob) (id : UInt32) (s : Sender)
    (c : Blob) (i : UInt32) :
    (self.subscribe channelId id s).sender c i =
      if c = channelId ∧ i = id then some s else self.sender c i := by
  unfold subscribe sender
  by_cases hc : c = channelId
  · subst hc
    rw [Finmap.lookup_insert, Option.bind_some]
    by_cases hi : i = id
    · subst hi
      rw [Finmap.lookup_insert, if_pos ⟨rfl, rfl⟩]
    · rw [Finmap.lookup_insert_of_ne _ hi, if_neg fun h ↦ hi h.2]
      cases self.lookup c with
      | none => rfl
      | some subs => rfl
  · rw [Finmap.lookup_insert_of_ne _ hc, if_neg fun h ↦ hc h.1]

theorem sender_unsubscribe (self : Channels) (channelId : Blob) (id : UInt32) (c : Blob)
    (i : UInt32) :
    (self.unsubscribe channelId id).sender c i =
      if c = channelId ∧ i = id then none else self.sender c i := by
  have herase (subs : Subscribers) :
      (subs.erase id).lookup i = if i = id then none else subs.lookup i := by
    split
    · next hi => rw [hi, Finmap.lookup_erase]
    · next hi => rw [Finmap.lookup_erase_ne hi]
  unfold unsubscribe sender
  by_cases hc : c = channelId
  · subst hc
    cases hl : self.lookup c with
    | none => rw [hl]; simp
    | some subs =>
        have hlookup := herase subs
        dsimp only
        split
        · next hempty =>
            -- the last subscriber leaves, so nothing was registered under the other ids
            rw [hempty, Finmap.lookup_empty] at hlookup
            rw [Finmap.lookup_erase, Option.bind_none, Option.bind_some]
            split
            · rfl
            · next h => rwa [if_neg fun hi ↦ h ⟨rfl, hi⟩] at hlookup
        · rw [Finmap.lookup_insert, Option.bind_some, hlookup, Option.bind_some]
          simp
  · rw [if_neg fun h ↦ hc h.1]
    cases hl : self.lookup channelId with
    | none => rfl
    | some subs =>
        dsimp only
        split
        · rw [Finmap.lookup_erase_ne hc]
        · rw [Finmap.lookup_insert_of_ne _ hc]

/-- Publishing takes senders out of the registry only when their receiver is gone. -/
theorem sender_publish (self : Channels) (alive : Sender → Bool) (channelId : Blob) (c : Blob)
    (i : UInt32) :
    (self.publish alive channelId).2.sender c i =
      if c = channelId then (self.sender c i).filter alive else self.sender c i := by
  unfold publish sender
  by_cases hc : c = channelId
  · rw [if_pos hc, hc]
    cases hl : self.lookup channelId with
    | none => dsimp only; rw [hl]; rfl
    | some subs =>
        dsimp only
        rw [Finmap.lookup_insert, Option.bind_some, Option.bind_some, lookup_retain]
  · rw [if_neg hc]
    cases self.lookup channelId with
    | none => rfl
    | some subs => dsimp only; rw [Finmap.lookup_insert_of_ne _ hc]

/-- The count is of the queues the message was sent to. -/
theorem publish_fst (self : Channels) (alive : Sender → Bool) (channelId : Blob) :
    (self.publish alive channelId).1 =
      UInt32.ofNat (min (self.reached alive channelId).card (2 ^ 32 - 1)) := by
  unfold publish
  cases hl : self.lookup channelId with
  | none => rw [reached, hl]; rfl
  | some subs => rfl

theorem mem_reached {self : Channels} {alive : Sender → Bool} {channelId : Blob} {s : Sender} :
    s ∈ self.reached alive channelId ↔
      alive s = true ∧ ∃ id, self.sender channelId id = some s := by
  unfold reached sender
  cases self.lookup channelId with
  | none => simp
  | some subs =>
      simp only [Option.bind_some, retain, Multiset.mem_map, Multiset.mem_filter]
      constructor
      · rintro ⟨⟨id, s⟩, ⟨hmem, halive⟩, rfl⟩
        exact ⟨halive, id, Finmap.mem_lookup_iff.2 hmem⟩
      · rintro ⟨halive, id, hid⟩
        exact ⟨⟨id, s⟩, ⟨Finmap.mem_lookup_iff.1 hid, halive⟩, rfl⟩

/-- A message goes once to each queue that is registered under one id at most. -/
theorem nodup_reached {self : Channels} {channelId : Blob}
    (h : ∀ i j s, self.sender channelId i = some s → self.sender channelId j = some s → i = j)
    (alive : Sender → Bool) : (self.reached alive channelId).Nodup := by
  unfold sender at h
  unfold reached
  cases hl : self.lookup channelId with
  | none => exact Multiset.nodup_zero
  | some subs =>
      simp only [hl, Option.bind_some] at h
      refine Multiset.Nodup.map_on ?_ (Finmap.nodup_entries _)
      rintro ⟨i, s⟩ hi ⟨j, t⟩ hj heq
      have hi' := Finmap.mem_lookup_iff.2 (Multiset.mem_of_mem_filter hi)
      have hj' := Finmap.mem_lookup_iff.2 (Multiset.mem_of_mem_filter hj)
      cases heq
      cases h i j s hi' hj'
      rfl

end Channels

end Steller
