import Steller.Domain.Cache
import Steller.Lib.Transition

/-!
# The cache under many sessions

Every cache method is a sequence of critical sections on the map's mutex, with
clock readings before, inside and between them.  Here each section is one step,
each reading outside a section is one step, and sessions take turns in any
order; time moves on its own.  A `Task` is where a session is inside its
command.

Most methods have one section.  `set_expires_at` and `get` read the clock before
it, `contains` and `remove_ttl` inside it.  `expires_at`, which `TTL` rests on,
has two: it copies the deadline out, releases the lock, reads the clock, and
takes the lock again to remove the key — whatever is under the key by then.

`readsSafely_iff` locates the defect in that second section and nowhere else,
and `readsSafely_along_iff` shows that it takes a `SET`, an `ExpireAt` or a
`PERSIST` on the same key between the two.
-/

namespace Steller

open Expiry Transition

/-- Where a session is inside a cache command. -/
inductive Task where
  /-- Between commands. -/
  | idle
  /-- `get`, before the clock is read. -/
  | get (key : Blob)
  /-- `get`, with the reading it took. -/
  | getAt (key : Blob) (now : Milliseconds)
  /-- `contains`. -/
  | exists (key : Blob)
  /-- `time_to_live`, before the first section of `expires_at`. -/
  | ttl (key : Blob)
  /-- `expires_at`, with the deadline it copied out, before the clock is read. -/
  | ttlPeeked (key : Blob) (deadline : Option Milliseconds)
  /-- `expires_at`, with a reading at which that deadline has passed, before `remove`. -/
  | ttlExpired (key : Blob) (now : Milliseconds)
  /-- `time_to_live`, with a live deadline, before the second reading. -/
  | ttlLive (deadline : Milliseconds)
  /-- `insert`. -/
  | set (key value : Blob) (expiresAt : Option Milliseconds)
  /-- `remove`. -/
  | delete (key : Blob)
  /-- `set_expires_at`, before the clock is read. -/
  | expireAt (key : Blob) (expiresAt : Milliseconds)
  /-- `set_expires_at`, with the reading it took. -/
  | expireAtAt (key : Blob) (expiresAt now : Milliseconds)
  /-- `remove_ttl`. -/
  | persist (key : Blob)
deriving DecidableEq

namespace Task

/-- A command, before anything of it has happened. -/
def ofCommand : CacheCommand → Task
  | .read (.get key) => .get key
  | .read (.exists key) => .exists key
  | .read (.ttl key) => .ttl key
  | .write (.set key value expiresAt) => .set key value expiresAt
  | .write (.delete key) => .delete key
  | .write (.expireAt key expiresAt) => .expireAt key expiresAt
  | .write (.persist key) => .persist key

/-- A reading of the clock outside the lock. -/
def readClock (now : Milliseconds) : Task → Option Task
  | .get key => some (.getAt key now)
  | .ttlPeeked key deadline =>
      if ∃ t ∈ deadline, t ≤ now then some (.ttlExpired key now)
      else match deadline with
        | none => some .idle
        | some t => some (.ttlLive t)
  | .ttlLive _ => some .idle
  | .expireAt key expiresAt => some (.expireAtAt key expiresAt now)
  | _ => none

/-- One critical section, on the map it finds; a reading inside it is `now`. -/
def «section» (now : Milliseconds) (c : Cache) : Task → Option (Task × Cache)
  | .getAt key r => some (.idle, (c.get (.ok r) key).2)
  | .exists key => some (.idle, (c.contains (.ok now) key).2)
  | .ttl key => match c.peekExpiresAt key with
    | none => some (.idle, c)
    | some deadline => some (.ttlPeeked key deadline, c)
  | .ttlExpired key _ => some (.idle, (c.remove key).2)
  | .set key value expiresAt => some (.idle, (c.insert key ⟨value, expiresAt⟩).2)
  | .delete key => some (.idle, (c.remove key).2)
  | .expireAtAt key expiresAt r => some (.idle, (c.setExpiresAt (.ok r) key expiresAt).2)
  | .persist key => some (.idle, (c.removeTtl (.ok now) key).2)
  | _ => none

/-- The task belongs to `GET`, `EXISTS` or `TTL`. -/
def IsRead : Task → Prop
  | .get _ | .getAt _ _ | .exists _ => True
  | .ttl _ | .ttlPeeked _ _ | .ttlExpired _ _ | .ttlLive _ => True
  | _ => False

/-- The clock reading that decides a read's removal. -/
def reading (now : Milliseconds) : Task → Option Milliseconds
  | .getAt _ r => some r
  | .exists _ => some now
  | .ttlExpired _ r => some r
  | _ => none

/-- The next section can put an entry in place under `k`, or change the deadline of one. -/
def Stores (k : Blob) : Task → Prop
  | .set key _ _ | .expireAtAt key _ _ | .persist key => key = k
  | _ => False

/-- `TTL` has looked at `k` and not yet removed it. -/
def InGap (k : Blob) : Task → Prop
  | .ttlPeeked key _ | .ttlExpired key _ => key = k
  | _ => False

end Task

/-! ## What a section does -/

/-- A removal that goes by a purge takes only what has expired. -/
theorem expiredAt_of_update_purge {c : Cache} {key k : Blob} {r : Milliseconds} {e : Entry}
    (he : c.lookup k = some e)
    (h : (c.update key (purge r (c.lookup key))).lookup k = none) : e.ExpiredAt r := by
  rw [Cache.lookup_update] at h
  split at h
  · next hk =>
      subst hk
      by_contra hx
      rw [he, purge_of_not_expired hx] at h
      cases h
  · rw [he] at h; cases h

/-- A section that only purges leaves every slot as it is or empty. -/
theorem lookup_update_purge (c : Cache) (key k : Blob) (r : Milliseconds) :
    (c.update key (purge r (c.lookup key))).lookup k = c.lookup k ∨
      (c.update key (purge r (c.lookup key))).lookup k = none := by
  rw [Cache.lookup_update]
  split
  · next hk =>
      subst hk
      cases c.lookup k with
      | none => exact .inl rfl
      | some e =>
          by_cases hx : e.ExpiredAt r
          · exact .inr (purge_of_expired hx)
          · exact .inl (purge_of_not_expired hx)
  · exact .inl rfl

/-- A removal leaves every slot as it is or empty. -/
theorem lookup_remove (c : Cache) (key k : Blob) :
    (c.remove key).2.lookup k = c.lookup k ∨ (c.remove key).2.lookup k = none := by
  by_cases hk : k = key
  · subst hk; exact .inr (Finmap.lookup_erase k c)
  · exact .inl (Finmap.lookup_erase_ne hk)

namespace Task

/-- A section leaves the slot of `k` as it is or empty, unless it is one that stores there. -/
theorem lookup_section {now : Milliseconds} {c c' : Cache} {task task' : Task}
    (h : task.section now c = some (task', c')) {k : Blob} (hk : ¬ task.Stores k) :
    c'.lookup k = c.lookup k ∨ c'.lookup k = none := by
  have hother : ∀ {key : Blob} {o : Option Entry}, ¬ key = k →
      (c.update key o).lookup k = c.lookup k := by
    intro key o hne
    rw [Cache.lookup_update, if_neg fun heq ↦ hne heq.symm]
  cases task with
  | getAt key r => cases h; rw [Cache.get_eq]; exact lookup_update_purge c key k r
  | «exists» key => cases h; rw [Cache.contains_eq]; exact lookup_update_purge c key k now
  | ttl key =>
      rw [Task.section] at h
      split at h
      · cases h; exact .inl rfl
      · cases h; exact .inl rfl
  | ttlExpired key r => cases h; exact lookup_remove c key k
  | set key value d => cases h; exact .inl (hother (o := some ⟨value, d⟩) hk)
  | delete key => cases h; exact lookup_remove c key k
  | expireAtAt key t r => cases h; rw [Cache.setExpiresAt_eq]; exact .inl (hother hk)
  | persist key => cases h; rw [Cache.removeTtl_eq]; exact .inl (hother hk)
  | idle => cases h
  | get key => cases h
  | ttlPeeked key d => cases h
  | ttlLive d => cases h
  | expireAt key t => cases h

/-- What a read's section removes had expired at its reading, the second section of `TTL`
apart. -/
theorem expiredAt_of_section {now : Milliseconds} {c c' : Cache} {task task' : Task}
    (h : task.section now c = some (task', c')) (hread : task.IsRead) {k : Blob} {e : Entry}
    (he : c.lookup k = some e) (hnone : c'.lookup k = none) :
    (∃ r, task.reading now = some r ∧ e.ExpiredAt r) ∨ ∃ r, task = .ttlExpired k r := by
  cases task with
  | getAt key r =>
      cases h
      rw [Cache.get_eq] at hnone
      exact .inl ⟨r, rfl, expiredAt_of_update_purge he hnone⟩
  | «exists» key =>
      cases h
      rw [Cache.contains_eq] at hnone
      exact .inl ⟨now, rfl, expiredAt_of_update_purge he hnone⟩
  | ttl key =>
      rw [Task.section] at h
      split at h
      · cases h; rw [he] at hnone; cases hnone
      · cases h; rw [he] at hnone; cases hnone
  | ttlExpired key r =>
      cases h
      by_cases hk : k = key
      · subst hk; exact .inr ⟨r, rfl⟩
      · rw [Cache.remove, Finmap.lookup_erase_ne hk, he] at hnone; cases hnone
  | set key value d => exact hread.elim
  | delete key => exact hread.elim
  | expireAtAt key t r => exact hread.elim
  | persist key => exact hread.elim
  | idle => cases h
  | get key => cases h
  | ttlPeeked key d => cases h
  | ttlLive d => cases h
  | expireAt key t => cases h

/-- The only section that does not end its command is the first of `TTL`. -/
theorem section_next {now : Milliseconds} {c c' : Cache} {task task' : Task}
    (h : task.section now c = some (task', c')) :
    task' = .idle ∨
      ∃ key e, c' = c ∧ c.lookup key = some e ∧ task' = .ttlPeeked key e.expiresAt := by
  cases task with
  | ttl key =>
      rw [Task.section, Cache.peekExpiresAt] at h
      cases hc : c.lookup key with
      | none => rw [hc] at h; cases h; exact .inl rfl
      | some e => rw [hc] at h; cases h; exact .inr ⟨key, e, rfl, hc, rfl⟩
  | idle => cases h
  | get key => cases h
  | ttlPeeked key d => cases h
  | ttlLive d => cases h
  | expireAt key t => cases h
  | getAt key r => cases h; exact .inl rfl
  | «exists» key => cases h; exact .inl rfl
  | ttlExpired key r => cases h; exact .inl rfl
  | set key value d => cases h; exact .inl rfl
  | delete key => cases h; exact .inl rfl
  | expireAtAt key t r => cases h; exact .inl rfl
  | persist key => cases h; exact .inl rfl

end Task

/-- The shared map, the time, and every session's place. -/
structure System where
  cache : Cache
  now : Milliseconds
  tasks : Nat → Task

namespace System

/-- What can happen next. -/
inductive Label where
  /-- Time passes. -/
  | tick (now : Milliseconds)
  /-- An idle session begins a command. -/
  | begin (session : Nat) (command : CacheCommand)
  /-- A session reads the clock outside the lock. -/
  | clock (session : Nat)
  /-- A session runs a critical section. -/
  | section (session : Nat)

/-- Put a session at a new place. -/
def goto (σ : System) (session : Nat) (task : Task) : System :=
  { σ with tasks := Function.update σ.tasks session task }

/-- One step. -/
def step (σ : System) : Label → Option System
  | .tick now => if σ.now ≤ now then some { σ with now } else none
  | .begin session command => match σ.tasks session with
    | .idle => some (σ.goto session (.ofCommand command))
    | _ => none
  | .clock session => ((σ.tasks session).readClock σ.now).map (σ.goto session)
  | .section session => ((σ.tasks session).section σ.now σ.cache).map fun (task, cache) ↦
      { σ.goto session task with cache }

/-! ## One session alone -/

theorem step_clock (σ : System) (session : Nat) {task task' : Task}
    (h : task.readClock σ.now = some task') :
    (σ.goto session task).step (.clock session) = some (σ.goto session task') := by
  change ((Function.update σ.tasks session task session).readClock σ.now).map _ = _
  rw [Function.update_self, h]
  exact congrArg some (System.mk.injEq .. ▸ ⟨rfl, rfl, Function.update_idem ..⟩)

theorem step_section (σ : System) (session : Nat) {task task' : Task} {c : Cache}
    (h : task.section σ.now σ.cache = some (task', c)) :
    (σ.goto session task).step (.section session) =
      some ({ σ with cache := c }.goto session task') := by
  change ((Function.update σ.tasks session task session).section σ.now σ.cache).map _ = _
  rw [Function.update_self, h]
  exact congrArg some (System.mk.injEq .. ▸ ⟨rfl, rfl, Function.update_idem ..⟩)

/-- Left to itself, a session at `task` can finish its command and leave the map `c`. -/
def Finishes (σ : System) (session : Nat) (task : Task) (c : Cache) : Prop :=
  ∃ ls, exec step (σ.goto session task) ls = some ({ σ with cache := c }.goto session .idle)

section Finishes

variable {σ : System} {session : Nat} {task task' : Task} {c : Cache}

theorem Finishes.of_section (h : task.section σ.now σ.cache = some (.idle, c)) :
    Finishes σ session task c :=
  ⟨[.section session], exec_cons_eq_some.2 ⟨_, step_section σ session h, rfl⟩⟩

theorem Finishes.section (hf : Finishes σ session task' c)
    (h : task.section σ.now σ.cache = some (task', σ.cache)) : Finishes σ session task c := by
  obtain ⟨ls, hls⟩ := hf
  exact ⟨.section session :: ls, exec_cons_eq_some.2 ⟨_, step_section σ session h, hls⟩⟩

theorem Finishes.clock (hf : Finishes σ session task' c) (h : task.readClock σ.now = some task') :
    Finishes σ session task c := by
  obtain ⟨ls, hls⟩ := hf
  exact ⟨.clock session :: ls, exec_cons_eq_some.2 ⟨_, step_clock σ session h, hls⟩⟩

theorem finishes_idle (σ : System) (session : Nat) : Finishes σ session .idle σ.cache := ⟨[], rfl⟩

end Finishes

/-- A command whose sections run back to back, while the clock stands still, is
`Cache.execute`. -/
theorem exec_alone (σ : System) {session : Nat} (h : σ.tasks session = .idle)
    (cc : CacheCommand) : ∃ ls, exec step σ ls =
      some { σ with cache := (σ.cache.execute (.ok σ.now) (.ok σ.now) cc).2 } := by
  have hfin : Finishes σ session (.ofCommand cc)
      (σ.cache.execute (.ok σ.now) (.ok σ.now) cc).2 := by
    rcases cc with (key | key | key) | (⟨key, v, d⟩ | key | ⟨key, t⟩ | key)
    · refine Finishes.clock (.of_section ?_) rfl
      rw [Cache.execute, Cache.get_eq]
      exact congrArg (fun c ↦ some (Task.idle, c)) (congrArg Prod.snd (Cache.get_eq ..))
    · refine .of_section ?_
      rw [Cache.execute, Cache.contains_eq]
      exact congrArg (fun c ↦ some (Task.idle, c)) (congrArg Prod.snd (Cache.contains_eq ..))
    · rw [Cache.execute, Cache.timeToLive, Cache.expiresAt]
      cases hc : σ.cache.peekExpiresAt key with
      | none => exact .of_section (by simp only [Task.ofCommand, Task.section, hc])
      | some d =>
          have hfirst : (Task.ttl key).section σ.now σ.cache =
              some (.ttlPeeked key d, σ.cache) := by simp only [Task.section, hc]
          refine Finishes.section ?_ hfirst
          by_cases hd : ∃ t ∈ d, t ≤ σ.now
          · simp only [if_pos hd]
            exact Finishes.clock (.of_section rfl) (if_pos hd)
          · simp only [if_neg hd]
            cases d with
            | none =>
                exact Finishes.clock (finishes_idle σ session)
                  (by simp only [Task.readClock, if_neg hd])
            | some t =>
                have hlive : (Task.ttlPeeked key (some t)).readClock σ.now = some (.ttlLive t) := by
                  simp only [Task.readClock, if_neg hd]
                exact Finishes.clock (Finishes.clock (finishes_idle σ session) rfl) hlive
    · exact .of_section rfl
    · exact .of_section rfl
    · refine Finishes.clock (.of_section ?_) rfl
      rw [Cache.execute, Cache.setExpiresAt_eq]
      exact congrArg (fun c ↦ some (Task.idle, c)) (congrArg Prod.snd (Cache.setExpiresAt_eq ..))
    · refine .of_section ?_
      rw [Cache.execute, Cache.removeTtl_eq]
      exact congrArg (fun c ↦ some (Task.idle, c)) (congrArg Prod.snd (Cache.removeTtl_eq ..))
  obtain ⟨ls, hls⟩ := hfin
  refine ⟨.begin session cc :: ls, exec_cons_eq_some.2 ⟨σ.goto session (.ofCommand cc), ?_, ?_⟩⟩
  · rw [step, h]
  · rw [hls, goto, ← h, Function.update_eq_self]

/-! ## The property -/

/-- If the step is a read's, any entry it removes has a deadline at or before the reading that
read took. -/
def ReadsSafely (σ : System) (l : Label) : Prop :=
  ∀ session σ', l = .section session → (σ.tasks session).IsRead → σ.step l = some σ' →
    ∀ k e, σ.cache.lookup k = some e → σ'.cache.lookup k = none →
      ∃ r, (σ.tasks session).reading σ.now = some r ∧ e.ExpiredAt r

/-- If the step is the removal of a `TTL`, what it finds under its key is nothing, or an entry
with a deadline at or before the reading. -/
def FindsExpired (σ : System) (l : Label) : Prop :=
  ∀ session key r, l = .section session → σ.tasks session = .ttlExpired key r →
    ∀ e, σ.cache.lookup key = some e → e.ExpiredAt r

/-- The step is not a `SET`, an `ExpireAt` or a `PERSIST` on a key that some session's `TTL`
has looked at and not yet removed. -/
def Quiet (σ : System) (l : Label) : Prop :=
  ∀ session k, l = .section session → (σ.tasks session).Stores k →
    ∀ other, ¬ (σ.tasks other).InGap k

/-- A read is safe exactly when it is not the removal of a `TTL` that finds a live entry. -/
theorem readsSafely_iff (σ : System) (l : Label) : ReadsSafely σ l ↔ FindsExpired σ l := by
  constructor
  · rintro h session key r rfl htask e he
    have hstep : σ.step (.section session) =
        some { σ.goto session .idle with cache := (σ.cache.remove key).2 } := by
      rw [step, htask]; rfl
    obtain ⟨r', hr', hexp⟩ := h session _ rfl (by rw [htask]; trivial) hstep key e he
      (Finmap.lookup_erase key σ.cache)
    rw [htask] at hr'
    cases hr'
    exact hexp
  · rintro h session σ' rfl hread hstep k e he hnone
    rw [step] at hstep
    obtain ⟨⟨task', c'⟩, hsec, rfl⟩ := Option.map_eq_some_iff.1 hstep
    rcases Task.expiredAt_of_section hsec hread he hnone with hr | ⟨r, htask⟩
    · exact hr
    · exact ⟨r, by rw [htask]; rfl, h session k r rfl htask e he⟩

/-! ## Quiet runs -/

/-- What a session between the two sections of `TTL` still knows about its key. -/
def Remembers (c : Cache) : Task → Prop
  | .ttlPeeked key deadline => ∀ e, c.lookup key = some e → e.expiresAt = deadline
  | .ttlExpired key r => ∀ e, c.lookup key = some e → e.ExpiredAt r
  | _ => True

/-- The invariant of quiet runs. -/
def Inv (σ : System) : Prop := ∀ session, Remembers σ.cache (σ.tasks session)

/-- A map that keeps or empties the slots a session has looked at keeps what it knows. -/
theorem Remembers.mono {c c' : Cache} {task : Task} (h : Remembers c task)
    (hc : ∀ k, task.InGap k → c'.lookup k = c.lookup k ∨ c'.lookup k = none) :
    Remembers c' task := by
  cases task with
  | ttlPeeked key d =>
      intro e he
      rcases hc key rfl with heq | hnone
      · exact h e (heq ▸ he)
      · rw [hnone] at he; cases he
  | ttlExpired key r =>
      intro e he
      rcases hc key rfl with heq | hnone
      · exact h e (heq ▸ he)
      · rw [hnone] at he; cases he
  | _ => trivial

theorem inv_goto {σ : System} (h : Inv σ) {session : Nat} {task : Task}
    (htask : Remembers σ.cache task) : Inv (σ.goto session task) := by
  intro other
  change Remembers σ.cache (Function.update σ.tasks session task other)
  by_cases ho : other = session
  · rw [ho, Function.update_self]; exact htask
  · rw [Function.update_of_ne ho]; exact h other

/-- Reading the clock outside the lock keeps what the session knows. -/
theorem remembers_readClock {c : Cache} {now : Milliseconds} {task task' : Task}
    (h : Remembers c task) (hread : task.readClock now = some task') : Remembers c task' := by
  cases task with
  | ttlPeeked key d =>
      by_cases hd : ∃ t ∈ d, t ≤ now
      · simp only [Task.readClock, if_pos hd] at hread
        cases hread
        intro e he
        rw [← h e he] at hd
        exact hd
      · simp only [Task.readClock, if_neg hd] at hread
        cases d with
        | none => cases hread; trivial
        | some t => cases hread; trivial
  | get key => cases hread; trivial
  | ttlLive d => cases hread; trivial
  | expireAt key t => cases hread; trivial
  | _ => cases hread

/-- Step lemma: a quiet step keeps the invariant. -/
theorem Inv.step {σ σ' : System} {l : Label} (h : Inv σ) (hq : Quiet σ l)
    (hstep : σ.step l = some σ') : Inv σ' := by
  cases l with
  | tick now =>
      rw [System.step] at hstep
      split at hstep
      · cases hstep; exact h
      · cases hstep
  | begin session command =>
      rw [System.step] at hstep
      split at hstep
      · cases hstep
        refine inv_goto h ?_
        rcases command with (key | key | key) | (⟨key, v, d⟩ | key | ⟨key, t⟩ | key) <;> trivial
      · cases hstep
  | clock session =>
      obtain ⟨task', hread, rfl⟩ := Option.map_eq_some_iff.1 hstep
      exact inv_goto h (remembers_readClock (h session) hread)
  | «section» session =>
      obtain ⟨⟨task', c'⟩, hsec, rfl⟩ := Option.map_eq_some_iff.1 hstep
      have hmap : Inv { σ with cache := c' } := by
        intro other
        refine (h other).mono fun k hk ↦ Task.lookup_section hsec fun hst ↦ ?_
        exact hq session k rfl hst other hk
      refine inv_goto hmap ?_
      rcases Task.section_next hsec with rfl | ⟨key, e, rfl, he, rfl⟩
      · trivial
      · intro e' he'
        rw [he] at he'
        cases he'
        rfl

/-- In a quiet step from a state with the invariant, a `TTL` finds what it expects. -/
theorem Inv.findsExpired {σ : System} (h : Inv σ) (l : Label) : FindsExpired σ l := by
  rintro session key r rfl htask e he
  have := h session
  rw [htask] at this
  exact this e he

theorem inv_of_idle {σ : System} (h : ∀ session, σ.tasks session = .idle) : Inv σ := by
  intro session
  rw [h session]
  trivial

/-- For every interleaving of any sessions' commands, from any map: every read removes only
entries that had expired at its reading exactly when no `TTL` comes to its removal with a live
entry under its key; and that is so in every run in which no `SET`, `ExpireAt` or `PERSIST`
falls between the two sections of a `TTL` on the same key. -/
theorem readsSafely_along_iff (σ : System) (h : ∀ session, σ.tasks session = .idle)
    (ls : List Label) :
    (Along step ReadsSafely σ ls ↔ Along step FindsExpired σ ls) ∧
      (Along step Quiet σ ls → Along step ReadsSafely σ ls) := by
  have hiff : Along step ReadsSafely σ ls ↔ Along step FindsExpired σ ls :=
    along_congr readsSafely_iff σ ls
  refine ⟨hiff, fun hquiet ↦ hiff.2 ?_⟩
  exact along_of_invariant (fun hinv hq hstep ↦ Inv.step hinv hq hstep)
    (fun hinv _ ↦ hinv.findsExpired _) (inv_of_idle h) hquiet

/-- A `TTL` whose gap holds a `SET` on another key removes what it saw. -/
theorem readsSafely_set_elsewhere :
    let k := Blob.singleton 107
    let σ : System := ⟨Finmap.singleton k ⟨.empty, some ⟨10⟩⟩, ⟨20⟩, fun _ ↦ .idle⟩
    let ls : List Label := [.begin 0 (.read (.ttl k)), .section 0, .clock 0,
      .begin 1 (.write (.set (.singleton 108) .empty none)), .section 1, .section 0]
    (∀ session, σ.tasks session = .idle) ∧ (exec step σ ls).isSome ∧
      Along step ReadsSafely σ ls := by
  intro k σ ls
  refine ⟨fun _ ↦ rfl, rfl, (readsSafely_along_iff σ (fun _ ↦ rfl) ls).2 ?_⟩
  refine ⟨fun _ _ h ↦ (by cases h), fun _ h ↦ ?_⟩
  cases h
  refine ⟨fun _ _ h hst ↦ (by cases h; exact hst.elim), fun _ h ↦ ?_⟩
  cases h
  refine ⟨fun _ _ h ↦ (by cases h), fun _ h ↦ ?_⟩
  cases h
  refine ⟨fun _ _ h ↦ (by cases h), fun _ h ↦ ?_⟩
  cases h
  refine ⟨fun session k' h hst other hgap ↦ ?_, fun _ h ↦ ?_⟩
  · -- the only session in a gap is the first, and its key is another one
    cases h
    obtain rfl : Blob.singleton 108 = k' := hst
    by_cases h0 : other = 0
    · subst h0
      exact absurd (show k = Blob.singleton 108 from hgap) (by decide)
    · by_cases h1 : other = 1
      · subst h1; exact hgap
      · simp [goto, Function.update_of_ne h0, Function.update_of_ne h1, Task.InGap] at hgap
  cases h
  exact ⟨fun _ _ h hst ↦ (by cases h; exact hst.elim), fun _ _ ↦ trivial⟩

/-- A `SET` that falls between the two sections of a `TTL` on an expired key is erased by it. -/
theorem not_readsSafely_set_in_gap :
    let k := Blob.singleton 107
    let σ : System := ⟨Finmap.singleton k ⟨.empty, some ⟨10⟩⟩, ⟨20⟩, fun _ ↦ .idle⟩
    let ls : List Label := [.begin 0 (.read (.ttl k)), .section 0, .clock 0,
      .begin 1 (.write (.set k .empty none)), .section 1]
    ∃ σ₁ σ₂, exec step σ ls = some σ₁ ∧ σ₁.step (.section 0) = some σ₂ ∧
      σ₁.cache.lookup k = some ⟨.empty, none⟩ ∧ σ₂.cache.lookup k = none ∧
      ¬ Along step ReadsSafely σ (ls ++ [.section 0]) := by
  intro k σ ls
  refine ⟨_, _, rfl, rfl, rfl, rfl, fun h ↦ ?_⟩
  have hlast := (((((h.2 _ rfl).2 _ rfl).2 _ rfl).2 _ rfl).2 _ rfl).1
  rw [readsSafely_iff] at hlast
  exact absurd (hlast 0 k ⟨20⟩ rfl rfl ⟨.empty, none⟩ rfl) (expiredAt_none _ _)

end System

end Steller
