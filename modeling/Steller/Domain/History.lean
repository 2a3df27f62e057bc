import Steller.Domain.Cache

/-!
# Sequential histories

The cache under one command after another: client commands, and the sweeps the
server's sweeper thread makes between them.  A `Step` carries the readings it
takes of the clock, so a history fixes everything the cache can see.

Seen from one key a history is a history of a register (`lookup_run`), and the
question whether an expired key can come back is answered there: only a `SET`
or `set_expires_at` on an entry whose deadline has passed does it.
`staysDead_iff` is the exact statement for every history.
-/

namespace Steller

open Expiry

/-- One step of a sequential history, with what the clock answered. -/
inductive Step where
  /-- A command; `later` is the second reading of `time_to_live`. -/
  | command (cc : CacheCommand) (now later : Milliseconds)
  /-- A pass of the sweeper. -/
  | sweep (now : Milliseconds)
deriving DecidableEq

namespace Step

/-- The readings of a step, in order.  A `SET` or a `DEL` consults no clock; its reading is
the instant at which it runs. -/
def readings : Step → List Milliseconds
  | .command (.read (.ttl _)) now later => [now, later]
  | .command _ now _ => [now]
  | .sweep now => [now]

/-- The reading at which a step acts on the map. -/
def now : Step → Milliseconds
  | .command _ now _ | .sweep now => now

theorem now_mem_readings (s : Step) : s.now ∈ s.readings := by
  rcases s with ⟨(key | key | key) | wc, now, later⟩ | now
  · exact List.mem_singleton_self now
  · exact List.mem_singleton_self now
  · exact List.mem_cons_self
  · exact List.mem_singleton_self now
  · exact List.mem_singleton_self now

/-- Run one step on the map. -/
def run (c : Cache) : Step → Cache
  | .command cc now later => (c.execute (.ok now) (.ok later) cc).2
  | .sweep now => (c.removeExpired (.ok now)).2

/-- What a step does to the slot of `k`, if anything. -/
def event (k : Blob) : Step → Option (Event Blob Milliseconds)
  | .command cc now _ => if k = cc.key then some (cc.event now) else none
  | .sweep now => some (.touch now)

/-- The step is a `SET` on `k`. -/
def IsSetOn (k : Blob) (s : Step) : Prop :=
  ∃ value d now later, s = .command (.write (.set k value d)) now later

theorem event_now {k : Blob} {s : Step} {ev : Event Blob Milliseconds}
    (h : s.event k = some ev) : ev.now = s.now := by
  rcases s with ⟨rc | wc, now, later⟩ | now
  · rw [event] at h; split at h <;> cases h; rfl
  · rw [event] at h; split at h <;> cases h; rfl
  · cases h; rfl

theorem isSetOn_of_event {k : Blob} {s : Step} {ev : Event Blob Milliseconds}
    (h : s.event k = some ev) (hset : ev.IsSet) : s.IsSetOn k := by
  rcases s with ⟨rc | (⟨key, v, d⟩ | key | ⟨key, t⟩ | key), now, later⟩ | now
  · rw [event] at h; split at h <;> cases h; exact hset.elim
  · rw [event] at h
    split at h
    · next hk => cases hk; exact ⟨v, d, now, later, rfl⟩
    · cases h
  · rw [event] at h; split at h <;> cases h; exact hset.elim
  · rw [event] at h; split at h <;> cases h; exact hset.elim
  · rw [event] at h; split at h <;> cases h; exact hset.elim
  · cases h; exact hset.elim

/-- Seen from one key, a step is its register event. -/
theorem lookup_run (c : Cache) (s : Step) (k : Blob) :
    (s.run c).lookup k = ((s.event k).elim id Event.apply) (c.lookup k) := by
  cases s with
  | command cc now later =>
      rw [run, event, Cache.lookup_execute]
      split <;> rfl
  | sweep now => exact Cache.lookup_removeExpired c now k

end Step

/-- Run a history. -/
def runSteps (c : Cache) (steps : List Step) : Cache := steps.foldl Step.run c

/-- The readings of a history never go back. -/
def Nondecreasing (steps : List Step) : Prop := (steps.flatMap Step.readings).Pairwise (· ≤ ·)

instance (steps : List Step) : Decidable (Nondecreasing steps) :=
  inferInstanceAs (Decidable (List.Pairwise _ _))

/-- What a history does to the slot of `k`. -/
def events (k : Blob) (steps : List Step) : List (Event Blob Milliseconds) :=
  steps.filterMap (Step.event k)

theorem runSteps_append (c : Cache) (xs ys : List Step) :
    runSteps c (xs ++ ys) = runSteps (runSteps c xs) ys := List.foldl_append

theorem lookup_runSteps (c : Cache) (steps : List Step) (k : Blob) :
    (runSteps c steps).lookup k = Expiry.run (events k steps) (c.lookup k) := by
  induction steps generalizing c with
  | nil => rfl
  | cons s steps ih =>
      rw [show runSteps c (s :: steps) = runSteps (s.run c) steps from rfl, ih, Step.lookup_run,
        events, events, List.filterMap_cons]
      cases s.event k <;> rfl

/-- An event of a key happens at a reading of its history. -/
theorem now_le_of_mem_events {steps : List Step} {T : Milliseconds} {k : Blob}
    (h : ∀ r ∈ steps.flatMap Step.readings, r ≤ T) : ∀ ev ∈ events k steps, ev.now ≤ T := by
  intro ev hev
  obtain ⟨s, hs, hse⟩ := List.mem_filterMap.1 hev
  rw [Step.event_now hse]
  exact h _ (List.mem_flatMap.2 ⟨s, hs, s.now_mem_readings⟩)

/-! ## Expired keys -/

/-- `t` is an instant between `pre` and `post`: after every reading of the one and before
every reading of the other. -/
def Between (pre : List Step) (t : Milliseconds) (post : List Step) : Prop :=
  (∀ r ∈ pre.flatMap Step.readings, r ≤ t) ∧ ∀ r ∈ post.flatMap Step.readings, t ≤ r

/-- Once `k` is not visible at some instant of the history, it is not visible at any later
instant before the next `SET` on it. -/
def StaysDead (c : Cache) (steps : List Step) (k : Blob) : Prop :=
  ∀ pre mid post t t', steps = pre ++ mid ++ post → Between pre t (mid ++ post) →
    Between (pre ++ mid) t' post → t ≤ t' → (∀ s ∈ mid, ¬ s.IsSetOn k) →
    ¬ Visible t ((runSteps c pre).lookup k) → ¬ Visible t' ((runSteps c (pre ++ mid)).lookup k)

/-- The step puts a deadline later than its clock on `k`, whose entry is in the map with a
deadline that has passed. -/
def Step.RevivesOn (c : Cache) (k : Blob) (s : Step) : Prop :=
  ∃ t now later e, s = .command (.write (.expireAt k t)) now later ∧ now < t ∧
    c.lookup k = some e ∧ e.ExpiredAt now

/-- A step that is neither a `SET` on `k` nor revives it keeps it dead. -/
theorem Step.not_visible_run {c : Cache} {k : Blob} {s : Step} (hset : ¬ s.IsSetOn k)
    (hrev : ¬ s.RevivesOn c k) (h : ¬ Visible s.now (c.lookup k)) :
    ¬ Visible s.now ((s.run c).lookup k) := by
  rw [Step.lookup_run]
  cases hev : s.event k with
  | none => exact h
  | some ev =>
      rw [← Step.event_now hev] at h ⊢
      cases ev with
      | touch now => exact not_visible_purge h
      | write op now =>
          refine not_visible_apply h (fun hs ↦ hset (Step.isSetOn_of_event hev hs)) ?_
          rintro ⟨t, e, rfl, hlt, he, hexp⟩
          refine hrev ?_
          -- the event came from a command on `k`, and only `ExpireAt` makes this write
          rcases s with ⟨rc | (⟨key, v, d⟩ | key | ⟨key, t'⟩ | key), n, later⟩ | n
          · rw [Step.event] at hev; split at hev <;> cases hev
          · rw [Step.event] at hev; split at hev <;> cases hev
          · rw [Step.event] at hev; split at hev <;> cases hev
          · rw [Step.event] at hev
            split at hev
            · next hk => cases hk; cases hev; exact ⟨t, _, later, e, rfl, hlt, he, hexp⟩
            · cases hev
          · rw [Step.event] at hev; split at hev <;> cases hev
          · cases hev

/-- A reviving step makes a dead key visible, at the reading it takes. -/
theorem Step.RevivesOn.visible_run {c : Cache} {k : Blob} {s : Step} (h : s.RevivesOn c k) :
    ¬ Visible s.now (c.lookup k) ∧ Visible s.now ((s.run c).lookup k) := by
  obtain ⟨t, now, later, e, rfl, hlt, he, hexp⟩ := h
  have hrev : Revives now (.expireAt t) (c.lookup k) := ⟨t, e, rfl, hlt, he, hexp⟩
  rw [Step.lookup_run, Step.event, if_pos (show k = CacheCommand.key _ from rfl)]
  exact hrev.visible_apply

theorem Step.RevivesOn.readings {c : Cache} {k : Blob} {s : Step} (h : s.RevivesOn c k) :
    s.readings = [s.now] ∧ ¬ s.IsSetOn k := by
  obtain ⟨t, now, later, e, rfl, -⟩ := h
  refine ⟨rfl, ?_⟩
  rintro ⟨v, d, n, l, heq⟩
  cases heq

/-- The run lemma: through a stretch with no `SET` on `k` and no revival, a dead key stays
dead. -/
theorem not_visible_runSteps {c : Cache} {k : Blob} {mid : List Step} {t t' : Milliseconds}
    (hmono : (mid.flatMap Step.readings).Pairwise (· ≤ ·))
    (hlo : ∀ r ∈ mid.flatMap Step.readings, t ≤ r) (hhi : ∀ r ∈ mid.flatMap Step.readings, r ≤ t')
    (hle : t ≤ t') (hset : ∀ s ∈ mid, ¬ s.IsSetOn k)
    (hrev : ∀ pre s post, mid = pre ++ s :: post → ¬ s.RevivesOn (runSteps c pre) k)
    (h : ¬ Visible t (c.lookup k)) : ¬ Visible t' ((runSteps c mid).lookup k) := by
  induction mid generalizing c t with
  | nil => exact not_visible_mono h hle
  | cons s mid ih =>
      have hs : s.now ∈ (s :: mid).flatMap Step.readings :=
        List.mem_flatMap.2 ⟨s, List.mem_cons_self, s.now_mem_readings⟩
      rw [List.flatMap_cons] at hmono hhi
      obtain ⟨-, hmono', hcross⟩ := List.pairwise_append.1 hmono
      have hdead : ¬ Visible s.now ((s.run c).lookup k) :=
        Step.not_visible_run (hset s List.mem_cons_self) (hrev [] s mid rfl)
          (not_visible_mono h (hlo _ hs))
      refine ih hmono' (fun r hr ↦ hcross _ s.now_mem_readings r hr)
        (fun r hr ↦ hhi r (List.mem_append_right _ hr))
        (hhi _ (List.mem_append_left _ s.now_mem_readings))
        (fun x hx ↦ hset x (List.mem_cons_of_mem _ hx)) ?_ hdead
      rintro pre x post rfl
      exact hrev (s :: pre) x post rfl

/-- A reviving step is itself the stretch in which the key does not stay dead. -/
theorem not_staysDead_of_revivesOn {c : Cache} {pre post : List Step} {s : Step} {k : Blob}
    (hmono : Nondecreasing (pre ++ s :: post)) (hrev : s.RevivesOn (runSteps c pre) k) :
    ¬ StaysDead c (pre ++ s :: post) k := by
  intro hdead
  obtain ⟨hread, hset⟩ := hrev.readings
  obtain ⟨hbefore, hafter⟩ := hrev.visible_run
  rw [Nondecreasing, List.flatMap_append, List.flatMap_cons, hread] at hmono
  obtain ⟨-, hmono', hcross⟩ := List.pairwise_append.1 hmono
  have hpre : ∀ r ∈ pre.flatMap Step.readings, r ≤ s.now := fun r hr ↦
    hcross r hr s.now (List.mem_append_left _ (List.mem_singleton_self _))
  have hpost : ∀ r ∈ post.flatMap Step.readings, s.now ≤ r := fun r hr ↦
    (List.pairwise_append.1 hmono').2.2 s.now (List.mem_singleton_self _) r hr
  refine hdead pre [s] post s.now s.now (by simp) ⟨hpre, ?_⟩ ⟨?_, hpost⟩ le_rfl ?_ hbefore ?_
  · intro r hr
    rw [List.flatMap_append, List.flatMap_singleton, hread] at hr
    rcases List.mem_append.1 hr with hr | hr
    · exact (List.mem_singleton.1 hr).ge
    · exact hpost r hr
  · intro r hr
    rw [List.flatMap_append, List.flatMap_singleton, hread] at hr
    rcases List.mem_append.1 hr with hr | hr
    · exact hpre r hr
    · exact (List.mem_singleton.1 hr).le
  · intro x hx
    rw [List.mem_singleton.1 hx]
    exact hset
  · rw [runSteps_append]
    exact hafter

/-- Along a history whose clock never goes back, a key stays dead until the next `SET` on it
exactly when no step of the history revives it. -/
theorem staysDead_iff (c : Cache) (steps : List Step) (hmono : Nondecreasing steps) (k : Blob) :
    StaysDead c steps k ↔
      ∀ pre s post, steps = pre ++ s :: post → ¬ s.RevivesOn (runSteps c pre) k := by
  constructor
  · rintro hdead pre s post rfl hrev
    exact not_staysDead_of_revivesOn hmono hrev hdead
  · rintro hrev pre mid post t t' rfl ⟨-, hlo⟩ ⟨hhi, -⟩ hle hset h
    rw [runSteps_append]
    rw [Nondecreasing, List.flatMap_append, List.flatMap_append] at hmono
    have hmid := (List.pairwise_append.1 (List.pairwise_append.1 hmono).1).2.1
    refine not_visible_runSteps hmid (fun r hr ↦ hlo r ?_) (fun r hr ↦ hhi r ?_) hle hset ?_ h
    · rw [List.flatMap_append]; exact List.mem_append_left _ hr
    · rw [List.flatMap_append]; exact List.mem_append_right _ hr
    · rintro l s r rfl
      rw [← runSteps_append]
      exact hrev (pre ++ l) s (r ++ post) (by simp)

/-- `PERSIST` on an expired key drops it, after which a new deadline has nothing to revive. -/
theorem staysDead_persist_expireAt :
    let k := Blob.singleton 107
    let c : Cache := Finmap.singleton k ⟨.empty, some ⟨10⟩⟩
    let steps : List Step := [.command (.write (.persist k)) ⟨20⟩ ⟨20⟩,
      .command (.write (.expireAt k ⟨100⟩)) ⟨30⟩ ⟨30⟩]
    Nondecreasing steps ∧ StaysDead c steps k := by
  intro k c steps
  have hmono : Nondecreasing steps := by decide
  refine ⟨hmono, (staysDead_iff c steps hmono k).2 ?_⟩
  rintro pre s post hsplit ⟨t, now, later, e, rfl, -, he, -⟩
  rcases List.cons_eq_append_iff.1 hsplit with ⟨-, h⟩ | ⟨pre, rfl, htail⟩
  · cases h
  · rcases List.cons_eq_append_iff.1 htail with ⟨rfl, -⟩ | ⟨pre, -, hnil⟩
    · rw [lookup_runSteps] at he
      cases he
    · cases (List.nil_eq_append_iff.1 hnil).2

/-- A deadline of 100 put at time 20 on an entry that expired at time 10 brings it back. -/
theorem not_staysDead_expireAt :
    let k := Blob.singleton 107
    let c : Cache := Finmap.singleton k ⟨.empty, some ⟨10⟩⟩
    let steps : List Step := [.command (.write (.expireAt k ⟨100⟩)) ⟨20⟩ ⟨20⟩]
    Nondecreasing steps ∧ ¬ StaysDead c steps k := by
  intro k c steps
  have hmono : Nondecreasing steps := by decide
  refine ⟨hmono, not_staysDead_of_revivesOn (show Nondecreasing ([] ++ _ :: []) from hmono) ?_⟩
  exact ⟨⟨100⟩, ⟨20⟩, ⟨20⟩, ⟨.empty, some ⟨10⟩⟩, rfl, by decide, Finmap.lookup_singleton_eq,
    by decide⟩

end Steller
