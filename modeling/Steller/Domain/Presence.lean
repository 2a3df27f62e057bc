import Steller.Domain.History

/-!
# What a client can see of a key

An entry whose deadline has passed may still be in the map: nothing removes it
until a read comes by or the sweeper does.  `visibleAt` is the map without such
entries, and this file compares what the commands say of a key with what can be
seen there.

`GET`, `EXISTS`, `TTL` and `PERSIST` see the visible map only.  `DEL` is the
exception the source documents, `remove` does not consult the deadline; and
`set_expires_at` looks at the new deadline, not at the old one.
`execute_agrees` says what that leaves of the agreement.

Reads and sweeps remove entries, but only such as cannot be seen any more
(`passive_invisible`).
-/

namespace Steller

open Expiry

/-- The map as far as it can be seen at `now`: entries with no deadline or a later one. -/
def visibleAt (now : Milliseconds) (c : Cache) (key : Blob) : Option Entry :=
  purge now (c.lookup key)

theorem visibleAt_eq_some_iff {now : Milliseconds} {c : Cache} {key : Blob} {e : Entry} :
    visibleAt now c key = some e ↔ c.lookup key = some e ∧ ¬ e.ExpiredAt now :=
  purge_eq_some_iff

/-- An entry under `key` is in the map and its deadline has passed. -/
def Lingers (now : Milliseconds) (c : Cache) (key : Blob) : Prop :=
  ∃ e ∈ c.lookup key, e.ExpiredAt now

/-- The key is in the map only if it can be seen. -/
theorem visibleAt_of_not_lingers {now : Milliseconds} {c : Cache} {key : Blob}
    (h : ¬ Lingers now c key) : visibleAt now c key = c.lookup key := by
  rw [visibleAt]
  cases he : c.lookup key with
  | none => rfl
  | some e => exact purge_of_not_expired fun hx ↦ h ⟨e, he, hx⟩

/-! ## Answers -/

/-- A write that was refused took nothing out of its slot but what could not be seen. -/
theorem WriteCommand.purge_apply_of_refused {now later t : Milliseconds} (hle : now ≤ t)
    {wc : WriteCommand} {o : Option Entry}
    (h : (CacheCommand.write wc).outcome now later o = .bool false) :
    purge t (wc.op.apply now o) = purge t o := by
  cases wc with
  | set key v d => cases h
  | delete key =>
      cases o with
      | none => rfl
      | some e => cases h
  | expireAt key d =>
      cases o with
      | none => exact congrArg _ (apply_none_of_not_isSet id now)
      | some e => cases h
  | persist key =>
      rcases o with _ | ⟨v, _ | d⟩
      · rfl
      · rfl
      · by_cases hd : d ≤ now
        · rw [purge_of_expired (expiredAt_some.2 (hd.trans hle)), WriteCommand.op, Op.apply,
            if_pos hd, purge_none]
        · rw [CacheCommand.outcome, purge_of_not_expired (mt expiredAt_some.1 hd)] at h
          cases h

namespace Cache

/-- What a client is told when a command is executed with a working clock. -/
def answer (c : Cache) (now later : Milliseconds) (cc : CacheCommand) :
    Except CacheError CommandOutcome := (c.execute (.ok now) (.ok later) cc).1

theorem answer_eq (c : Cache) (now later : Milliseconds) (cc : CacheCommand) :
    c.answer now later cc = .ok (cc.outcome now later (c.lookup cc.key)) := by
  rw [answer, execute_ok]

/-- A read reports what it finds in the visible map. -/
theorem answer_read (c : Cache) (now later : Milliseconds) (rc : ReadCommand) :
    c.answer now later (.read rc) = .ok (rc.answer later (visibleAt now c rc.key)) :=
  answer_eq c now later (.read rc)

/-- A write that was refused leaves the visible map as it was, then and later. -/
theorem visibleAt_of_refused {c : Cache} {now later : Milliseconds} {wc : WriteCommand}
    (h : c.answer now later (.write wc) = .ok (.bool false)) {t : Milliseconds} (hle : now ≤ t) :
    visibleAt t (c.execute (.ok now) (.ok later) (.write wc)).2 = visibleAt t c := by
  funext k
  rw [answer_eq] at h
  rw [visibleAt, visibleAt, lookup_execute, CacheCommand.key_write]
  split
  · next hk =>
      rw [hk]
      exact wc.purge_apply_of_refused hle (Except.ok.inj h)
  · rfl

end Cache

/-- The commands to whose answer it makes no difference whether an expired entry has been
removed: all but `DEL` and `ExpireAt`. -/
def CacheCommand.Oblivious : CacheCommand → Prop
  | .write (.delete _) => False
  | .write (.expireAt _ _) => False
  | _ => True

theorem CacheCommand.Oblivious.outcome_purge {cc : CacheCommand} (h : cc.Oblivious)
    {swept now : Milliseconds} (hle : swept ≤ now) (later : Milliseconds) (o : Option Entry) :
    cc.outcome now later (purge swept o) = cc.outcome now later o := by
  rcases cc with rc | (⟨key, v, d⟩ | key | ⟨key, t⟩ | key)
  · rw [CacheCommand.outcome, CacheCommand.outcome, purge_purge hle]
  · rfl
  · exact h.elim
  · exact h.elim
  · rw [CacheCommand.outcome, CacheCommand.outcome, purge_purge hle]

namespace Cache

/-- An answer does not tell whether the sweeper has run, unless it is that of a `DEL` or an
`ExpireAt` on a key the sweeper has removed. -/
theorem answer_removeExpired {c : Cache} {swept now : Milliseconds} (hle : swept ≤ now)
    (later : Milliseconds) {cc : CacheCommand} (h : cc.Oblivious ∨ ¬ Lingers swept c cc.key) :
    (removeExpired c (.ok swept)).2.answer now later cc = c.answer now later cc := by
  rw [answer_eq, answer_eq, lookup_removeExpired]
  rcases h with h | h
  · rw [h.outcome_purge hle]
  · rw [show purge swept (c.lookup cc.key) = _ from visibleAt_of_not_lingers h]

/-! ## Whether a key is there -/

section Present

variable {c : Cache} {now later : Milliseconds} {key : Blob}

theorem visible_iff : Visible now (c.lookup key) ↔ ∃ e, visibleAt now c key = some e := by
  rw [← isSome_purge_iff, Option.isSome_iff_exists]
  rfl

theorem answer_get_iff :
    (∃ v, c.answer now later (.read (.get key)) = .ok (.value (some v))) ↔
      Visible now (c.lookup key) := by
  rw [visible_iff, answer_read, ReadCommand.key]
  cases visibleAt now c key with
  | none => simp [ReadCommand.answer]
  | some e => simp [ReadCommand.answer]

theorem answer_exists_iff :
    c.answer now later (.read (.exists key)) = .ok (.integer 1) ↔
      Visible now (c.lookup key) := by
  rw [visible_iff, answer_read, ReadCommand.key]
  cases visibleAt now c key with
  | none => simp [ReadCommand.answer]
  | some e => simp [ReadCommand.answer]

theorem answer_ttl_iff :
    (∃ ttl, c.answer now later (.read (.ttl key)) = .ok (.ttl ttl) ∧ ttl ≠ .keyNotFound) ↔
      Visible now (c.lookup key) := by
  rw [visible_iff, answer_read, ReadCommand.key]
  rcases visibleAt now c key with _ | ⟨v, _ | d⟩
  · simp [ReadCommand.answer]
  · simp [ReadCommand.answer]
  · simp [ReadCommand.answer]

theorem answer_persist_iff :
    c.answer now later (.write (.persist key)) = .ok (.bool true) ↔
      Visible now (c.lookup key) ∧ ∃ e ∈ c.lookup key, e.expiresAt.isSome := by
  rw [visible_iff, answer_eq, CacheCommand.outcome, CacheCommand.key_write, WriteCommand.key,
    Except.ok.injEq, CommandOutcome.bool.injEq, Option.any_eq_true]
  constructor
  · rintro ⟨e, he, hd⟩
    exact ⟨⟨e, he⟩, e, (purge_eq_some_iff.1 he).1, hd⟩
  · rintro ⟨⟨e, he⟩, e', he', hd⟩
    cases (visibleAt_eq_some_iff.1 he).1.symm.trans he'
    exact ⟨e, he, hd⟩

theorem answer_delete_iff :
    c.answer now later (.write (.delete key)) = .ok (.bool true) ↔ key ∈ c := by
  rw [answer_eq, CacheCommand.outcome, CacheCommand.key_write, WriteCommand.key, Finmap.mem_iff]
  simp [Option.isSome_iff_exists]

theorem answer_expireAt_iff (hlinger : ¬ Lingers now c key) (t : Milliseconds) :
    c.answer now later (.write (.expireAt key t)) = .ok (.bool true) ↔
      Visible now (c.lookup key) := by
  rw [visible_iff, visibleAt_of_not_lingers hlinger, answer_eq, CacheCommand.outcome,
    CacheCommand.key_write, WriteCommand.key]
  simp [Option.isSome_iff_exists]

end Present

/-- What the commands say of a key, at one reading of the clock.  `GET`, `EXISTS`, `TTL` and
`PERSIST` agree on whether it is there: they see it exactly when it is visible.  `DEL` sees the
entry that is in the map, visible or not.  `ExpireAt` agrees with the rest where no expired
entry is left in the map.  A refused write leaves the visible map as it was; and only `DEL` and
`ExpireAt` can tell that the sweeper has run, on a key it has removed. -/
theorem execute_agrees (c : Cache) (now later : Milliseconds) (key : Blob) :
    ((∃ v, c.answer now later (.read (.get key)) = .ok (.value (some v))) ↔
      Visible now (c.lookup key)) ∧
    (c.answer now later (.read (.exists key)) = .ok (.integer 1) ↔
      Visible now (c.lookup key)) ∧
    ((∃ ttl, c.answer now later (.read (.ttl key)) = .ok (.ttl ttl) ∧ ttl ≠ .keyNotFound) ↔
      Visible now (c.lookup key)) ∧
    (c.answer now later (.write (.persist key)) = .ok (.bool true) ↔
      Visible now (c.lookup key) ∧ ∃ e ∈ c.lookup key, e.expiresAt.isSome) ∧
    (c.answer now later (.write (.delete key)) = .ok (.bool true) ↔ key ∈ c) ∧
    (¬ Lingers now c key → ∀ t,
      (c.answer now later (.write (.expireAt key t)) = .ok (.bool true) ↔
        Visible now (c.lookup key))) ∧
    (∀ wc, c.answer now later (.write wc) = .ok (.bool false) →
      visibleAt now (c.execute (.ok now) (.ok later) (.write wc)).2 = visibleAt now c) ∧
    (∀ swept ≤ now, ∀ cc : CacheCommand, cc.Oblivious ∨ ¬ Lingers swept c cc.key →
      (removeExpired c (.ok swept)).2.answer now later cc = c.answer now later cc) := by
  exact ⟨answer_get_iff, answer_exists_iff, answer_ttl_iff, answer_persist_iff,
    answer_delete_iff, answer_expireAt_iff, fun wc h ↦ visibleAt_of_refused h le_rfl,
    fun swept hle cc h ↦ answer_removeExpired hle later h⟩

/-- Before the deadline of a key, all commands that ask find it. -/
theorem execute_agrees_before_deadline :
    let k := Blob.singleton 107
    let c : Cache := Finmap.singleton k ⟨.empty, some ⟨100⟩⟩
    ¬ Lingers ⟨20⟩ c k ∧ c.answer ⟨20⟩ ⟨20⟩ (.write (.expireAt k ⟨50⟩)) = .ok (.bool true) ∧
      c.answer ⟨20⟩ ⟨20⟩ (.read (.exists k)) = .ok (.integer 1) := by
  intro k c
  have hlookup : c.lookup k = some ⟨.empty, some ⟨100⟩⟩ := Finmap.lookup_singleton_eq
  have hvis : Visible ⟨20⟩ (c.lookup k) := by rw [hlookup]; decide
  have hlinger : ¬ Lingers ⟨20⟩ c k := by
    rintro ⟨e, he, hx⟩
    cases hlookup.symm.trans he
    exact absurd hx (by decide)
  obtain ⟨-, hexists, -, -, -, hexpire, -⟩ := execute_agrees c ⟨20⟩ ⟨20⟩ k
  exact ⟨hlinger, (hexpire hlinger ⟨50⟩).2 hvis, hexists.2 hvis⟩

/-- A key that expired at 10 cannot be seen at 20; `DEL` finds it, unless the sweeper has been
there first. -/
theorem delete_finds_expired :
    let k := Blob.singleton 107
    let c : Cache := Finmap.singleton k ⟨.empty, some ⟨10⟩⟩
    ¬ Visible ⟨20⟩ (c.lookup k) ∧ c.answer ⟨20⟩ ⟨20⟩ (.write (.delete k)) = .ok (.bool true) ∧
      (removeExpired c (.ok ⟨20⟩)).2.answer ⟨20⟩ ⟨20⟩ (.write (.delete k)) =
        .ok (.bool false) := by
  intro k c
  have hlookup : c.lookup k = some ⟨.empty, some ⟨10⟩⟩ := Finmap.lookup_singleton_eq
  refine ⟨by rw [hlookup]; decide, ?_, ?_⟩
  · rw [answer_eq, CacheCommand.key_write, WriteCommand.key, hlookup]
    rfl
  · rw [answer_eq, lookup_removeExpired, CacheCommand.key_write, WriteCommand.key, hlookup]
    rfl

end Cache

/-! ## Reads and sweeps -/

/-- The step is a read or a sweep. -/
def Step.IsPassive : Step → Prop
  | .command (.read _) _ _ => True
  | .command (.write _) _ _ => False
  | .sweep _ => True

/-- Seen from one key, a read or a sweep is a touch, if anything. -/
theorem Step.IsPassive.event {s : Step} (h : s.IsPassive) {k : Blob} {ev : Event Blob Milliseconds}
    (hev : s.event k = some ev) : ∃ now, ev = .touch now := by
  rcases s with ⟨rc | wc, now, later⟩ | now
  · rw [Step.event] at hev
    split at hev
    · exact ⟨now, (Option.some.inj hev).symm⟩
    · cases hev
  · exact h.elim
  · exact ⟨now, (Option.some.inj hev).symm⟩

section Passive

variable {steps : List Step} (hpassive : ∀ s ∈ steps, s.IsPassive)

include hpassive

theorem touches_of_passive (k : Blob) : ∀ ev ∈ events k steps, ∃ now, ev = .touch now := by
  intro ev hev
  obtain ⟨s, hs, hse⟩ := List.mem_filterMap.1 hev
  exact (hpassive s hs).event hse

/-- Run lemma: by the time of the last reading, reads and sweeps have made no difference to
what can be seen. -/
theorem visibleAt_runSteps {t : Milliseconds} (hle : ∀ r ∈ steps.flatMap Step.readings, r ≤ t)
    (c : Cache) : visibleAt t (runSteps c steps) = visibleAt t c := by
  funext k
  rw [visibleAt, lookup_runSteps]
  exact purge_run_of_touches (touches_of_passive hpassive k) (now_le_of_mem_events hle) _

/-- Run lemma: reads and sweeps keep an entry as it is, or drop it after its deadline. -/
theorem lookup_runSteps_of_passive (c : Cache) (k : Blob) :
    (runSteps c steps).lookup k = c.lookup k ∨ (runSteps c steps).lookup k = none ∧
      ∃ e ∈ c.lookup k, ∃ r ∈ steps.flatMap Step.readings, e.ExpiredAt r := by
  rw [lookup_runSteps]
  rcases run_of_touches (touches_of_passive hpassive k) (c.lookup k) with h | ⟨h, e, he, ev, hev, hx⟩
  · exact .inl h
  · obtain ⟨s, hs, hse⟩ := List.mem_filterMap.1 hev
    rw [Step.event_now hse] at hx
    exact .inr ⟨h, e, he, s.now, List.mem_flatMap.2 ⟨s, hs, s.now_mem_readings⟩, hx⟩

end Passive

/-- Reads and sweeps are invisible.  Made one after another at readings that never go back,
every read reports the map as it was at the beginning, as far as it can be seen by then; every
sweep counts the entries it removes and leaves none behind; an entry is kept as it is, or its
deadline is at or before the last reading; and from then on the map looks as if nothing had been
done to it. -/
theorem passive_invisible (c : Cache) (steps : List Step) (hpassive : ∀ s ∈ steps, s.IsPassive)
    (hmono : Nondecreasing steps) :
    (∀ pre rc now later post, steps = pre ++ .command (.read rc) now later :: post →
      (runSteps c pre).answer now later (.read rc) =
        .ok (rc.answer later (visibleAt now c rc.key))) ∧
    (∀ pre now post, steps = pre ++ .sweep now :: post →
      let before := runSteps c pre
      let swept := before.removeExpired (.ok now)
      swept.1 = .ok (before.keys \ swept.2.keys).card ∧ ∀ k, ¬ Lingers now swept.2 k) ∧
    (∀ k, (runSteps c steps).lookup k = c.lookup k ∨ (runSteps c steps).lookup k = none ∧
      ∃ e ∈ c.lookup k, ∃ last ∈ (steps.flatMap Step.readings).getLast?, e.ExpiredAt last) ∧
    ∀ t, (∀ r ∈ steps.flatMap Step.readings, r ≤ t) →
      visibleAt t (runSteps c steps) = visibleAt t c := by
  refine ⟨?_, fun pre now post _ ↦ ⟨Cache.removeExpired_fst _ _, ?_⟩, fun k ↦ ?_,
    fun t hle ↦ visibleAt_runSteps hpassive hle c⟩
  · rintro pre rc now later post rfl
    have hpre : ∀ s ∈ pre, s.IsPassive := fun s hs ↦ hpassive s (List.mem_append_left _ hs)
    have hle : ∀ r ∈ pre.flatMap Step.readings, r ≤ now := by
      intro r hr
      rw [Nondecreasing, List.flatMap_append, List.flatMap_cons] at hmono
      exact (List.pairwise_append.1 hmono).2.2 r hr now
        (List.mem_append_left _ (Step.command (.read rc) now later).now_mem_readings)
    rw [Cache.answer_read, visibleAt_runSteps hpre hle]
  · rintro k ⟨e, he, hx⟩
    rw [Cache.lookup_removeExpired] at he
    exact (purge_eq_some_iff.1 he).2 hx
  · rcases lookup_runSteps_of_passive hpassive c k with h | ⟨h, e, he, r, hr, hx⟩
    · exact .inl h
    · have hlast : r ≤ (steps.flatMap Step.readings).getLast (List.ne_nil_of_mem hr) :=
        hmono.rel_getLast hr
      exact .inr ⟨h, e, he, _, List.getLast_mem_getLast? _, hx.mono hlast⟩

/-- A `GET`, a sweep and a `TTL` whose second reading is the deadline itself. -/
theorem passive_invisible_until_deadline :
    let k := Blob.singleton 107
    let c : Cache := Finmap.singleton k ⟨.empty, some ⟨100⟩⟩
    let steps : List Step := [.command (.read (.get k)) ⟨5⟩ ⟨5⟩, .sweep ⟨50⟩,
      .command (.read (.ttl k)) ⟨99⟩ ⟨100⟩]
    (∀ s ∈ steps, s.IsPassive) ∧ Nondecreasing steps ∧
      visibleAt ⟨100⟩ (runSteps c steps) = visibleAt ⟨100⟩ c := by
  intro k c steps
  have hpassive : ∀ s ∈ steps, s.IsPassive := by simp [steps, Step.IsPassive]
  have hmono : Nondecreasing steps := by decide
  obtain ⟨-, -, -, hview⟩ := passive_invisible c steps hpassive hmono
  exact ⟨hpassive, hmono, hview ⟨100⟩ (by decide)⟩

end Steller
