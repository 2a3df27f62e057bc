import Steller.Domain.Concurrent
import Steller.Lib.Atomic

/-!
# The cache is linearizable

The sessions work on the map in several steps a command (`Concurrent`), the
sweeper reads the clock before it takes the lock, and the persister copies the
map.  To each of them a call is one execution of `Cache.execute`, of
`Cache.removeExpired`, or of nothing but the copy, at some moment between call
and answer and with clock readings taken in between: every run looks like a run
of the atomic object `Cache.object`, and leaves the same map.

Most commands take effect in their section.  A `TTL` that answers with a deadline
took effect in its first section, but which answer it gives depends on readings
taken later; it is given its effect in hindsight (`Atomic.Since.effect`).  A `TTL`
on an expired key takes effect in the second section, when it removes what is
there; that it finds nothing there that is alive is the condition of the theorem,
and the one place where the code can break it.
-/

namespace Steller

open Transition

/-! ## The object -/

/-- Who works on the map. -/
inductive Client where
  | session (i : Nat)
  | sweeper
  | persister
deriving DecidableEq

/-- What they call for. -/
inductive Call where
  | command (command : CacheCommand)
  /-- `remove_expired`. -/
  | sweep
  /-- The copy of the map that a snapshot stores. -/
  | copy

/-- What they are answered. -/
inductive Answer where
  | outcome (result : Except CacheError CommandOutcome)
  | swept (result : Except CacheError Nat)
  | copied (map : Cache)
deriving DecidableEq

/-- Two readings of the clock, one after the other, between two moments. -/
def ReadBetween (since : Milliseconds) (readings : Milliseconds × Milliseconds)
    (now : Milliseconds) : Prop :=
  since ≤ readings.1 ∧ readings.1 ≤ readings.2 ∧ readings.2 ≤ now

/-- The cache as an object. -/
def Cache.object :
    Atomic.Object Cache Call (Milliseconds × Milliseconds) Answer Milliseconds where
  apply c call readings := match call with
    | .command command =>
        let (result, c) := c.execute (.ok readings.1) (.ok readings.2) command
        (.outcome result, c)
    | .sweep =>
        let (result, c) := c.removeExpired (.ok readings.1)
        (.swept result, c)
    | .copy => (.copied c, c)
  Within := ReadBetween

instance (since : Milliseconds) (readings : Milliseconds × Milliseconds) (now : Milliseconds) :
    Decidable (Cache.object.Within since readings now) :=
  inferInstanceAs (Decidable (_ ∧ _ ∧ _))

/-! ## One command -/

namespace Task

/-- The answer, if a reading of the clock ends the command. -/
def clockAnswer (now : Milliseconds) : Task → Option (Except CacheError CommandOutcome)
  | .ttlPeeked _ deadline =>
      if ∃ t ∈ deadline, t ≤ now then none
      else match deadline with
        | none => some (.ok (.ttl .ttlNotFound))
        | some _ => none
  | .ttlLive t => some (.ok (.ttl (.some (t.saturatingSub now).toSecondsRoundedUp)))
  | _ => none

/-- The answer, if a section ends the command. -/
def sectionAnswer (now : Milliseconds) (c : Cache) :
    Task → Option (Except CacheError CommandOutcome)
  | .getAt key r => some ((c.get (.ok r) key).1.map fun entry ↦ .value (entry.map (·.value)))
  | .exists key => some ((c.contains (.ok now) key).1.map fun b ↦ .integer (if b then 1 else 0))
  | .ttl key => match c.peekExpiresAt key with
    | none => some (.ok (.ttl .keyNotFound))
    | some _ => none
  | .ttlExpired _ _ => some (.ok (.ttl .keyNotFound))
  | .set _ _ _ => some (.ok .ok)
  | .delete key => some (.ok (.bool (c.remove key).1.isSome))
  | .expireAtAt key expiresAt r =>
      some ((c.setExpiresAt (.ok r) key expiresAt).1.map .bool)
  | .persist key => some ((c.removeTtl (.ok now) key).1.map .bool)
  | _ => none

/-- Where a session can be in a command it began at `since`.  Between the two sections of a `TTL`
it has seen the deadline, and its session has done nothing else since. -/
def Doing (seen : (Cache → Prop) → Prop) (since now : Milliseconds) (command : CacheCommand) :
    Task → Prop
  | .idle => False
  | .get key => command = .read (.get key)
  | .getAt key r => command = .read (.get key) ∧ since ≤ r ∧ r ≤ now
  | .exists key => command = .read (.exists key)
  | .ttl key => command = .read (.ttl key)
  | .ttlPeeked key deadline =>
      command = .read (.ttl key) ∧ seen fun c ↦ c.peekExpiresAt key = some deadline
  | .ttlExpired key r => command = .read (.ttl key) ∧ since ≤ r ∧ r ≤ now
  | .ttlLive t => ∃ key r, command = .read (.ttl key) ∧
      (seen fun c ↦ c.peekExpiresAt key = some (some t)) ∧ since ≤ r ∧ r ≤ now ∧ r < t
  | .set key value expiresAt => command = .write (.set key value expiresAt)
  | .delete key => command = .write (.delete key)
  | .expireAt key expiresAt => command = .write (.expireAt key expiresAt)
  | .expireAtAt key expiresAt r =>
      command = .write (.expireAt key expiresAt) ∧ since ≤ r ∧ r ≤ now
  | .persist key => command = .write (.persist key)

section Doing

variable {seen seen' : (Cache → Prop) → Prop} {since now now' : Milliseconds}
  {command : CacheCommand} {task task' : Task}

/-- Time passes, and what has been seen stays seen. -/
theorem Doing.mono (h : task.Doing seen since now command) (hseen : ∀ Q, seen Q → seen' Q)
    (hnow : now ≤ now') : task.Doing seen' since now' command := by
  cases task with
  | getAt key r | ttlExpired key r | expireAtAt key t r =>
      exact ⟨h.1, h.2.1, h.2.2.trans hnow⟩
  | ttlPeeked key deadline => exact ⟨h.1, hseen _ h.2⟩
  | ttlLive t =>
      obtain ⟨key, r, hcommand, hpeek, hsince, hr, hlive⟩ := h
      exact ⟨key, r, hcommand, hseen _ hpeek, hsince, hr.trans hnow, hlive⟩
  | _ => exact h

theorem doing_ofCommand (command : CacheCommand) :
    (ofCommand command).Doing seen since now command := by
  rcases command with (key | key | key) | (⟨key, value, expiresAt⟩ | key | ⟨key, t⟩ | key) <;> rfl

/-- A `TTL` on a key that is alive leaves the map as it is. -/
theorem execute_ttl_of_peek {c : Cache} {key : Blob} {deadline : Option Milliseconds}
    (hpeek : c.peekExpiresAt key = some deadline) {now : Milliseconds}
    (hlive : ¬∃ t ∈ deadline, t ≤ now) (later : Milliseconds) :
    c.execute (.ok now) (.ok later) (.read (.ttl key)) =
      (.ok (.ttl (deadline.elim .ttlNotFound fun t ↦
        .some (t.saturatingSub later).toSecondsRoundedUp)), c) := by
  rw [Cache.execute, Cache.timeToLive, Cache.expiresAt, hpeek]
  simp only [if_neg hlive]
  cases deadline <;> rfl

/-- A `TTL` on a key that is not removes what is there. -/
theorem execute_ttl_of_expired {c : Cache} {key : Blob} {now : Milliseconds}
    (hexpired : ∀ e, c.lookup key = some e → e.ExpiredAt now) (later : Milliseconds) :
    c.execute (.ok now) (.ok later) (.read (.ttl key)) =
      (.ok (.ttl .keyNotFound), (c.remove key).2) := by
  have hpurge : Expiry.purge now (c.lookup key) = none := by
    cases he : c.lookup key with
    | none => rfl
    | some e => exact Expiry.purge_of_expired (hexpired e he)
  rw [Cache.execute_ok]
  simp only [CacheCommand.outcome, CacheCommand.event, Expiry.Event.apply, CacheCommand.key,
    ReadCommand.key, hpurge]
  rfl

/-- A reading of the clock ends the command, or it goes on. -/
theorem Doing.clock (h : task.Doing seen since now command) (hsince : since ≤ now)
    (hread : task.readClock now = some task') :
    (task.clockAnswer now = none ∧ task'.Doing seen since now command) ∨
      ∃ answer Q readings, task.clockAnswer now = some answer ∧ task' = .idle ∧ seen Q ∧
        (∀ c, Q c → c.execute (.ok readings.1) (.ok readings.2) command = (answer, c)) ∧
        ReadBetween since readings now := by
  cases task with
  | get key =>
      cases hread
      exact .inl ⟨rfl, h, hsince, le_rfl⟩
  | expireAt key t =>
      cases hread
      exact .inl ⟨rfl, h, hsince, le_rfl⟩
  | ttlPeeked key deadline =>
      obtain ⟨rfl, hpeek⟩ := h
      by_cases hd : ∃ t ∈ deadline, t ≤ now
      · simp only [readClock, if_pos hd] at hread
        cases hread
        exact .inl ⟨if_pos hd, rfl, hsince, le_rfl⟩
      · simp only [readClock, clockAnswer, if_neg hd] at hread ⊢
        cases deadline with
        | none =>
            cases hread
            exact .inr ⟨_, _, (now, now), rfl, rfl, hpeek,
              fun c hc ↦ execute_ttl_of_peek hc hd now, hsince, le_rfl, le_rfl⟩
        | some t =>
            cases hread
            refine .inl ⟨rfl, key, now, rfl, hpeek, hsince, le_rfl, ?_⟩
            exact lt_of_not_ge fun ht ↦ hd ⟨t, rfl, ht⟩
  | ttlLive t =>
      cases hread
      obtain ⟨key, r, rfl, hpeek, hr, hnow, hlive⟩ := h
      have hd : ¬∃ t' ∈ some t, t' ≤ r := by
        rintro ⟨_, ⟨⟩, hle⟩
        exact absurd hlive (not_lt.2 hle)
      exact .inr ⟨_, _, (r, now), rfl, rfl, hpeek,
        fun c hc ↦ execute_ttl_of_peek hc hd now, hr, hnow, le_rfl⟩
  | _ => cases hread

/-- A section ends the command, or it is the first of a `TTL`. -/
theorem Doing.section {c c' : Cache} (h : task.Doing seen since now command) (hsince : since ≤ now)
    (hfinds : ∀ key r, task = .ttlExpired key r → ∀ e, c.lookup key = some e → e.ExpiredAt r)
    (hsection : task.section now c = some (task', c')) :
    (task.sectionAnswer now c = none ∧ c' = c ∧
        ((∀ Q : Cache → Prop, Q c → seen Q) → task'.Doing seen since now command)) ∨
      ∃ answer readings, task.sectionAnswer now c = some answer ∧ task' = .idle ∧
        c.execute (.ok readings.1) (.ok readings.2) command = (answer, c') ∧
        ReadBetween since readings now := by
  have hnow : ReadBetween since (now, now) now := ⟨hsince, le_rfl, le_rfl⟩
  cases task with
  | getAt key r =>
      cases hsection
      obtain ⟨rfl, hr, hle⟩ := h
      refine .inr ⟨_, (r, now), rfl, rfl, ?_, hr, hle, le_rfl⟩
      simp only [Cache.execute, Cache.get_eq]
      rfl
  | «exists» key =>
      cases hsection
      obtain rfl := h
      refine .inr ⟨_, (now, now), rfl, rfl, ?_, hnow⟩
      simp only [Cache.execute, Cache.contains_eq]
      rfl
  | ttl key =>
      obtain rfl := h
      rw [Task.section] at hsection
      rw [sectionAnswer]
      cases hpeek : c.peekExpiresAt key with
      | none =>
          rw [hpeek] at hsection
          cases hsection
          refine .inr ⟨_, (now, now), rfl, rfl, ?_, hnow⟩
          simp only [Cache.execute, Cache.timeToLive, Cache.expiresAt, hpeek]
      | some deadline =>
          rw [hpeek] at hsection
          cases hsection
          exact .inl ⟨rfl, rfl, fun hseen ↦ ⟨rfl, hseen _ hpeek⟩⟩
  | ttlExpired key r =>
      cases hsection
      obtain ⟨rfl, hr, hle⟩ := h
      exact .inr ⟨_, (r, now), rfl, rfl, execute_ttl_of_expired (hfinds key r rfl) now, hr, hle,
        le_rfl⟩
  | set key value expiresAt =>
      cases hsection
      obtain rfl := h
      exact .inr ⟨_, (now, now), rfl, rfl, rfl, hnow⟩
  | delete key =>
      cases hsection
      obtain rfl := h
      exact .inr ⟨_, (now, now), rfl, rfl, rfl, hnow⟩
  | expireAtAt key t r =>
      cases hsection
      obtain ⟨rfl, hr, hle⟩ := h
      refine .inr ⟨_, (r, now), rfl, rfl, ?_, hr, hle, le_rfl⟩
      simp only [Cache.execute, Cache.setExpiresAt_eq]
      rfl
  | persist key =>
      cases hsection
      obtain rfl := h
      refine .inr ⟨_, (now, now), rfl, rfl, ?_, hnow⟩
      simp only [Cache.execute, Cache.removeTtl_eq]
      rfl
  | _ => cases hsection

end Doing

end Task

/-! ## Everybody at once -/

/-- The sessions, and the reading that the sweeper goes by when it has taken one. -/
structure Shared where
  system : System
  sweeping : Option Milliseconds

/-- Where somebody is in a call. -/
inductive Place where
  | session (task : Task)
  | sweeper (reading : Option Milliseconds)
  | persister

namespace Shared

/-- What can happen next. -/
inductive Label where
  /-- Time passes, or a session does something. -/
  | act (label : System.Label)
  /-- The sweeper reads the clock. -/
  | wake
  /-- It removes what has expired. -/
  | sweep
  /-- The persister copies the map. -/
  | copy

/-- What has expired is removed. -/
def swept (σ : Shared) (r : Milliseconds) : Shared :=
  ⟨{ σ.system with cache := (σ.system.cache.removeExpired (.ok r)).2 }, none⟩

/-- One step. -/
def step (σ : Shared) : Label → Option Shared
  | .act l => (σ.system.step l).map fun system ↦ { σ with system }
  | .wake => if σ.sweeping = none then some { σ with sweeping := some σ.system.now } else none
  | .sweep => σ.sweeping.map σ.swept
  | .copy => some σ

/-- A run of the object. -/
abbrev Order := List (Atomic.Label Client Call (Milliseconds × Milliseconds) Answer Milliseconds)

/-- A state of the object. -/
abbrev Atom := Atomic.State Client Cache Call (Milliseconds × Milliseconds) Answer Milliseconds

/-- What is seen of a step: calls and answers. -/
def heard (σ : Shared) : Label → Order
  | .act (.tick now) => [.tick now]
  | .act (.begin i command) => [.call (.session i) (.command command)]
  | .act (.clock i) => (((σ.system.tasks i).clockAnswer σ.system.now).map
      fun result ↦ .reply (.session i) (.outcome result)).toList
  | .act (.section i) => (((σ.system.tasks i).sectionAnswer σ.system.now σ.system.cache).map
      fun result ↦ .reply (.session i) (.outcome result)).toList
  | .wake => [.call .sweeper .sweep]
  | .sweep => (σ.sweeping.map
      fun r ↦ .reply .sweeper (.swept (σ.system.cache.removeExpired (.ok r)).1)).toList
  | .copy => [.call .persister .copy, .reply .persister (.copied σ.system.cache)]

/-- Where everybody is. -/
def place (σ : Shared) : Client → Place
  | .session i => .session (σ.system.tasks i)
  | .sweeper => .sweeper σ.sweeping
  | .persister => .persister

/-- Put a session at a new place, and the map with it. -/
def enter (σ : Shared) (i : Nat) (task : Task) (cache : Cache) : Shared :=
  ⟨{ σ.system.goto i task with cache }, σ.sweeping⟩

end Shared

/-- Between calls. -/
def Place.IsIdle : Place → Prop
  | .session task => task = .idle
  | .sweeper reading => reading = none
  | .persister => True

/-- Where somebody can be in a call made at `since`. -/
def Place.Doing (seen : (Cache → Prop) → Prop) (since now : Milliseconds) (call : Call) :
    Place → Prop
  | .session task => ∃ command, call = .command command ∧ task.Doing seen since now command
  | .sweeper reading => ∃ r, reading = some r ∧ call = .sweep ∧ since ≤ r ∧ r ≤ now
  | .persister => False

namespace Shared

/-- Where a client of the object is, when the one it stands for is at some place. -/
def Explained (a₀ : Atom) (order : Order) (a : Atom) (client : Client) (place : Place) : Prop :=
  (place.IsIdle ∧ a.phase client = .idle) ∨
    ∃ call since, a.phase client = .called call since ∧ since ≤ a.now ∧
      place.Doing (Atomic.Since Cache.object a₀ order client) since a.now call

/-- The run of the object explains the state of the system. -/
structure Explains (a₀ : Atom) (order : Order) (a : Atom) (σ : Shared) : Prop where
  run : exec (Atomic.step Cache.object) a₀ order = some a
  object : a.object = σ.system.cache
  now : a.now = σ.system.now
  places : ∀ client, Explained a₀ order a client (σ.place client)

section Places

variable {σ : Shared} {i : Nat} {task : Task} {c : Cache} {client : Client}

theorem place_enter_self : (σ.enter i task c).place (.session i) = .session task :=
  congrArg Place.session (Function.update_self ..)

theorem isIdle_enter : ((σ.enter i .idle c).place (.session i)).IsIdle := by
  rw [place_enter_self]
  rfl

theorem place_enter_of_ne (h : client ≠ .session i) :
    (σ.enter i task c).place client = σ.place client := by
  cases client with
  | session j =>
      have hj : j ≠ i := fun heq ↦ h (congrArg Client.session heq)
      exact congrArg Place.session (Function.update_of_ne hj ..)
  | sweeper | persister => rfl

end Places

section Explains

variable {a₀ a a' : Atom} {order order' : Order} {σ σ' : Shared} {client other : Client} {i : Nat}
  {task : Task} {place : Place} {answer : Answer} {readings : Milliseconds × Milliseconds}
  {since : Milliseconds}

/-- What others do does not disturb a client. -/
theorem Explained.mono (h : Explained a₀ order a client place)
    (hphase : a'.phase client = a.phase client) (hnow : a.now ≤ a'.now)
    (hseen : ∀ Q, Atomic.Since Cache.object a₀ order client Q →
      Atomic.Since Cache.object a₀ order' client Q) : Explained a₀ order' a' client place := by
  rcases h with ⟨hidle, hphase'⟩ | ⟨call, since, hcalled, hsince, hdoing⟩
  · exact .inl ⟨hidle, hphase.trans hphase'⟩
  · refine .inr ⟨call, since, hphase.trans hcalled, hsince.trans hnow, ?_⟩
    cases place with
    | session task =>
        obtain ⟨command, rfl, hdoing⟩ := hdoing
        exact ⟨command, rfl, hdoing.mono hseen hnow⟩
    | sweeper reading =>
        obtain ⟨r, hreading, rfl, hr, hle⟩ := hdoing
        exact ⟨r, hreading, rfl, hr, hle.trans hnow⟩
    | persister => exact hdoing.elim

/-- A step of the object for one client does not disturb the others. -/
theorem Explains.undisturbed (h : Explains a₀ order a σ) (hother : other ≠ client)
    {l : Atomic.Label Client Call (Milliseconds × Milliseconds) Answer Milliseconds}
    (hl : l.client = some client) (hphase : a'.phase other = a.phase other)
    (hnow : a'.now = a.now) : Explained a₀ (order ++ [l]) a' other (σ.place other) := by
  refine (h.places other).mono hphase hnow.ge fun _ hQ ↦ hQ.append ?_
  simpa [hl] using Ne.symm hother

theorem Explains.tick (h : Explains a₀ order a σ) {now : Milliseconds} (hnow : σ.system.now ≤ now) :
    Explains a₀ (order ++ [.tick now]) { a with now }
      { σ with system := { σ.system with now } } where
  run := exec_concat_eq_some.2 ⟨a, h.run, rfl⟩
  object := h.object
  now := rfl
  places client := by
    have hplace : Explained a₀ (order ++ [.tick now]) { a with now } client (σ.place client) :=
      (h.places client).mono rfl (h.now ▸ hnow) fun _ hQ ↦
        hQ.append (by simp [Atomic.Label.client])
    cases client <;> exact hplace

/-- Whoever is between calls has none on the object either. -/
theorem Explains.phase_of_isIdle (h : Explains a₀ order a σ) (client : Client)
    (hidle : (σ.place client).IsIdle) : a.phase client = .idle := by
  rcases h.places client with ⟨-, hphase⟩ | ⟨call, since, -, -, hdoing⟩
  · exact hphase
  · cases hplace : σ.place client with
    | session task =>
        rw [hplace] at hidle hdoing
        obtain rfl : task = .idle := hidle
        obtain ⟨command, -, hnone⟩ := hdoing
        exact hnone.elim
    | sweeper reading =>
        rw [hplace] at hidle hdoing
        obtain rfl : reading = none := hidle
        obtain ⟨r, hnone, -⟩ := hdoing
        cases hnone
    | persister =>
        rw [hplace] at hdoing
        exact hdoing.elim

/-- A call is made. -/
theorem Explains.call (h : Explains a₀ order a σ) (client : Client) (call : Call)
    (hidle : (σ.place client).IsIdle) (hcache : σ'.system.cache = σ.system.cache)
    (hnow : σ'.system.now = σ.system.now)
    (hplace : (σ'.place client).Doing (Atomic.Since Cache.object a₀ (order ++ [.call client call])
      client) a.now a.now call)
    (hothers : ∀ other ≠ client, σ'.place other = σ.place other) :
    Explains a₀ (order ++ [.call client call]) (a.goto client (.called call a.now)) σ' := by
  refine ⟨exec_concat_eq_some.2 ⟨a, h.run, Atomic.step_call (h.phase_of_isIdle client hidle)⟩,
    h.object.trans hcache.symm, h.now.trans hnow.symm, fun other ↦ ?_⟩
  by_cases ho : other = client
  · subst ho
    exact .inr ⟨call, a.now, Atomic.phase_goto_self, le_rfl, hplace⟩
  · rw [hothers other ho]
    exact h.undisturbed ho rfl (Atomic.phase_goto_of_ne ho) rfl

/-- A call that has taken effect is answered. -/
theorem explains_reply (hrun : exec (Atomic.step Cache.object) a₀ order = some a)
    (hphase : a.phase client = .answered answer readings since)
    (hwithin : ReadBetween since readings σ.system.now) (hobject : a.object = σ.system.cache)
    (hnow : a.now = σ.system.now) (hidle : (σ.place client).IsIdle)
    (hothers : ∀ other ≠ client, Explained a₀ order a other (σ.place other)) :
    Explains a₀ (order ++ [.reply client answer]) (a.goto client .idle) σ := by
  have hreply := Atomic.step_reply (O := Cache.object) hphase (hnow ▸ hwithin)
  refine ⟨exec_concat_eq_some.2 ⟨a, hrun, hreply⟩, hobject, hnow, fun other ↦ ?_⟩
  by_cases ho : other = client
  · subst ho
    exact .inl ⟨hidle, Atomic.phase_goto_self⟩
  · refine (hothers other ho).mono (Atomic.phase_goto_of_ne ho) le_rfl fun _ hQ ↦ hQ.append ?_
    simpa [Atomic.Label.client] using Ne.symm ho

/-- A call takes effect and is answered. -/
theorem Explains.reply (h : Explains a₀ order a σ) (σ' : Shared)
    (readings : Milliseconds × Milliseconds) {call : Call}
    (hphase : a.phase client = .called call since)
    (happly : Cache.object.apply σ.system.cache call readings = (answer, σ'.system.cache))
    (hwithin : ReadBetween since readings σ.system.now) (hnow : σ'.system.now = σ.system.now)
    (hidle : (σ'.place client).IsIdle)
    (hothers : ∀ other ≠ client, σ'.place other = σ.place other) :
    ∃ a', Explains a₀ (order ++ [.effect client readings] ++ [.reply client answer]) a' σ' := by
  rw [← h.object] at happly
  have hrun := exec_concat_eq_some.2 ⟨a, h.run, Atomic.step_effect hphase happly⟩
  refine ⟨_, explains_reply hrun Atomic.phase_goto_self (hnow ▸ hwithin) rfl
    (h.now.trans hnow.symm) hidle fun other ho ↦ ?_⟩
  rw [hothers other ho]
  exact h.undisturbed ho rfl (Atomic.phase_goto_of_ne ho) rfl

/-- A session that goes on without an answer needs no step of the object. -/
theorem Explains.enter (h : Explains a₀ order a σ)
    (htask : Explained a₀ order a (.session i) (.session task)) :
    Explains a₀ order a (σ.enter i task σ.system.cache) where
  run := h.run
  object := h.object
  now := h.now
  places client := by
    by_cases hc : client = .session i
    · rw [hc, place_enter_self]
      exact htask
    · rw [place_enter_of_ne hc]
      exact h.places client

/-- What clients have seen, and the state they have brought about, can be explained. -/
def Explainable (a₀ : Atom) (σ : Shared) (seen : Order) : Prop :=
  ∃ order a, Explains a₀ order a σ ∧ Atomic.seen order = seen

/-- A session reads the clock. -/
theorem Explains.clock (h : Explains a₀ order a σ)
    (hread : (σ.system.tasks i).readClock σ.system.now = some task) :
    Explainable a₀ (σ.enter i task σ.system.cache)
      (Atomic.seen order ++ σ.heard (.act (.clock i))) := by
  rcases h.places (.session i) with ⟨hidle, -⟩ | ⟨call, since, hphase, hsince, hdoing⟩
  · rw [show σ.system.tasks i = .idle from hidle] at hread
    cases hread
  obtain ⟨command, rfl, hdoing⟩ := hdoing
  rw [h.now] at hsince hdoing
  rw [heard]
  rcases hdoing.clock hsince hread with ⟨hanswer, hdoing'⟩ |
    ⟨answer, Q, readings, hanswer, rfl, hseen, hexecute, hwithin⟩
  · refine ⟨order, a, h.enter (.inr ⟨.command command, since, hphase, ?_⟩), ?_⟩
    · rw [h.now]
      exact ⟨hsince, command, rfl, hdoing'⟩
    · rw [hanswer]
      exact (List.append_nil _).symm
  · have happly : ∀ c, Q c →
        Cache.object.apply c (.command command) readings = (.outcome answer, c) := by
      intro c hc
      simp only [Cache.object, hexecute c hc]
    obtain ⟨order', hrun, hsame, hothers⟩ := hseen.effect h.run hphase happly
    refine ⟨order' ++ [.reply (.session i) (.outcome answer)], _,
      explains_reply (σ := σ.enter i .idle σ.system.cache) hrun Atomic.phase_goto_self hwithin
        h.object h.now isIdle_enter fun other ho ↦ ?_, ?_⟩
    · rw [place_enter_of_ne ho]
      exact (h.places other).mono (Atomic.phase_goto_of_ne ho) le_rfl (hothers other ho)
    · rw [Atomic.seen_append, hsame, hanswer]
      rfl

/-- A session runs a critical section. -/
theorem Explains.section {c : Cache} (h : Explains a₀ order a σ)
    (hfinds : σ.system.FindsExpired (.section i))
    (hsection : (σ.system.tasks i).section σ.system.now σ.system.cache = some (task, c)) :
    Explainable a₀ (σ.enter i task c) (Atomic.seen order ++ σ.heard (.act (.section i))) := by
  rcases h.places (.session i) with ⟨hidle, -⟩ | ⟨call, since, hphase, hsince, hdoing⟩
  · rw [show σ.system.tasks i = .idle from hidle] at hsection
    cases hsection
  obtain ⟨command, rfl, hdoing⟩ := hdoing
  rw [h.now] at hsince hdoing
  rw [heard]
  rcases hdoing.section hsince (hfinds i · · rfl) hsection with ⟨hanswer, rfl, hdoing'⟩ |
    ⟨answer, readings, hanswer, rfl, hexecute, hwithin⟩
  · refine ⟨order, a, h.enter (.inr ⟨.command command, since, hphase, ?_⟩), ?_⟩
    · rw [h.now]
      exact ⟨hsince, command, rfl,
        hdoing' fun Q hQ ↦ Atomic.since_self h.run (h.object ▸ hQ)⟩
    · rw [hanswer]
      exact (List.append_nil _).symm
  · have happly : Cache.object.apply σ.system.cache (.command command) readings =
        (.outcome answer, (σ.enter i .idle c).system.cache) := by
      simp only [Cache.object, hexecute]
      rfl
    obtain ⟨a', hexplains⟩ := h.reply (σ.enter i .idle c) readings hphase happly hwithin rfl
      isIdle_enter fun other ho ↦ place_enter_of_ne ho
    refine ⟨_, a', hexplains, ?_⟩
    rw [Atomic.seen_append, Atomic.seen_append, hanswer]
    exact congrArg (· ++ _) (List.append_nil _)

/-- Step lemma: what the object has done so far, and at most one call more, explains what everybody
comes to and what they see. -/
theorem Explains.step {l : Label} (h : Explains a₀ order a σ)
    (hfinds : ∀ l', l = .act l' → σ.system.FindsExpired l') (hstep : σ.step l = some σ') :
    Explainable a₀ σ' (Atomic.seen order ++ σ.heard l) := by
  cases l with
  | act l =>
      obtain ⟨system, hsystem, rfl⟩ := Option.map_eq_some_iff.1 hstep
      cases l with
      | tick now =>
          obtain ⟨hnow, ⟨⟩⟩ := Option.ite_none_right_eq_some.1 hsystem
          exact ⟨_, _, h.tick hnow, Atomic.seen_append ..⟩
      | begin i command =>
          rw [System.step] at hsystem
          split at hsystem
          · next hidle =>
              cases hsystem
              show Explainable a₀ (σ.enter i (.ofCommand command) σ.system.cache) _
              refine ⟨_, _, h.call (.session i) (.command command) hidle rfl rfl ?_
                fun other ho ↦ place_enter_of_ne ho, Atomic.seen_append ..⟩
              rw [place_enter_self]
              exact ⟨command, rfl, Task.doing_ofCommand command⟩
          · cases hsystem
      | clock i =>
          obtain ⟨task, hread, rfl⟩ := Option.map_eq_some_iff.1 hsystem
          exact h.clock hread
      | «section» i =>
          obtain ⟨⟨task, c⟩, hsection, rfl⟩ := Option.map_eq_some_iff.1 hsystem
          exact h.section (hfinds _ rfl) hsection
  | wake =>
      obtain ⟨hidle, ⟨⟩⟩ := Option.ite_none_right_eq_some.1 hstep
      refine ⟨_, _, h.call .sweeper .sweep hidle rfl rfl ?_ fun other ho ↦ ?_,
        Atomic.seen_append ..⟩
      · exact ⟨_, rfl, rfl, h.now.le, h.now.ge⟩
      · rcases other with j | _ | _
        · rfl
        · exact absurd rfl ho
        · rfl
  | sweep =>
      obtain ⟨r, hr, rfl⟩ := Option.map_eq_some_iff.1 hstep
      rcases h.places .sweeper with ⟨hidle, -⟩ | ⟨call, since, hphase, hsince, r', hr', rfl, hle⟩
      · rw [show σ.sweeping = none from hidle] at hr
        cases hr
      obtain rfl := Option.some.inj (hr.symm.trans hr')
      rw [h.now] at hle
      have hothers : ∀ other ≠ .sweeper, (σ.swept r).place other = σ.place other := by
        rintro (j | _ | _) ho
        · rfl
        · exact absurd rfl ho
        · rfl
      obtain ⟨a', hexplains⟩ := h.reply (σ.swept r) (r, σ.system.now) hphase rfl
        ⟨hle.1, hle.2, le_rfl⟩ rfl rfl hothers
      refine ⟨_, a', hexplains, ?_⟩
      rw [Atomic.seen_append, Atomic.seen_append, heard, hr]
      exact congrArg (· ++ _) (List.append_nil _)
  | copy =>
      cases hstep
      have hwithin : ReadBetween a.now (σ.system.now, σ.system.now) σ.system.now :=
        ⟨h.now.le, le_rfl, le_rfl⟩
      have hcall : Atomic.step Cache.object a (.call .persister .copy) =
          some (a.goto .persister (.called .copy a.now)) :=
        Atomic.step_call (h.phase_of_isIdle .persister trivial)
      have heffect : Atomic.step Cache.object (a.goto .persister (.called .copy a.now))
          (.effect .persister (σ.system.now, σ.system.now)) = some _ :=
        Atomic.step_effect Atomic.phase_goto_self rfl
      have hrun := exec_concat_eq_some.2 ⟨_, exec_concat_eq_some.2 ⟨a, h.run, hcall⟩, heffect⟩
      refine ⟨_, _, explains_reply hrun Atomic.phase_goto_self hwithin h.object h.now trivial
        fun other ho ↦ ?_, ?_⟩
      · refine (h.places other).mono
          ((Atomic.phase_goto_of_ne ho).trans (Atomic.phase_goto_of_ne ho)) le_rfl
          fun _ hQ ↦ (hQ.append ?_).append ?_ <;>
          simpa [Atomic.Label.client] using Ne.symm ho
      · rw [Atomic.seen_append, Atomic.seen_append, Atomic.seen_append, heard, ← h.object,
          List.append_assoc, List.append_assoc]
        rfl

/-- And of a run. -/
theorem Explainable.step {seen : Order} {l : Label} (h : Explainable a₀ σ seen)
    (hfinds : ∀ l', l = .act l' → σ.system.FindsExpired l') (hstep : σ.step l = some σ') :
    Explainable a₀ σ' (seen ++ σ.heard l) := by
  obtain ⟨order, a, hexplains, rfl⟩ := h
  exact hexplains.step hfinds hstep

end Explains

/-- Nobody is at work. -/
def start (c : Cache) (now : Milliseconds) : Shared := ⟨⟨c, now, fun _ ↦ .idle⟩, none⟩

/-- However the sessions, the sweeper and the persister are interleaved: as long as no `TTL` comes
to its removal with a live entry under its key, there is an order in which the calls, each executed
at one moment between call and answer and with readings taken in between, give everybody the answer
they got and leave the map as it is. -/
theorem linearizable (c : Cache) (now : Milliseconds) (ls : List Label) {σ : Shared}
    (hrun : exec step (start c now) ls = some σ)
    (hfinds : Along step (fun σ l ↦ ∀ l', l = .act l' → σ.system.FindsExpired l') (start c now)
      ls) :
    ∃ order a, exec (Atomic.step Cache.object) ⟨c, now, fun _ ↦ .idle⟩ order = some a ∧
      Atomic.seen order = history step (fun σ l seen ↦ seen ++ σ.heard l) (start c now) [] ls ∧
      a.object = σ.system.cache ∧ a.now = σ.system.now := by
  have hstart : Explainable ⟨c, now, fun _ ↦ .idle⟩ (start c now) [] := by
    refine ⟨[], _, ⟨rfl, rfl, rfl, fun client ↦ .inl ⟨?_, rfl⟩⟩, rfl⟩
    cases client with
    | session i => exact rfl
    | sweeper => exact rfl
    | persister => trivial
  have hexplained : Explainable ⟨c, now, fun _ ↦ .idle⟩ σ
      (history step (fun σ l seen ↦ seen ++ σ.heard l) (start c now) [] ls) :=
    hfinds.history_invariant (fun h hgood hstep ↦ h.step hgood hstep) hstart hrun
  obtain ⟨order, a, h, hseen⟩ := hexplained
  exact ⟨order, a, h.run, hseen, h.object, h.now⟩

/-- A `TTL` that finds its key expired, while the sweeper has gone before it. -/
theorem linearizable_ttl_swept :
    let k := Blob.singleton 107
    let c : Cache := Finmap.singleton k ⟨.empty, some ⟨10⟩⟩
    let ls : List Label := [.act (.begin 0 (.read (.ttl k))), .act (.section 0), .act (.clock 0),
      .wake, .sweep, .act (.section 0), .copy]
    ∃ σ, exec step (start c ⟨20⟩) ls = some σ ∧
      ∃ order a, exec (Atomic.step Cache.object) ⟨c, ⟨20⟩, fun _ ↦ .idle⟩ order = some a ∧
        Atomic.seen order =
          history step (fun σ l seen ↦ seen ++ σ.heard l) (start c ⟨20⟩) [] ls ∧
        a.object = σ.system.cache ∧ a.now = σ.system.now := by
  intro k c ls
  refine ⟨_, rfl, linearizable c ⟨20⟩ ls rfl ⟨?_, fun _ h ↦ ?_⟩⟩
  · rintro _ ⟨⟩
    exact nofun
  cases h
  refine ⟨?_, fun _ h ↦ ?_⟩
  · rintro _ ⟨⟩ _ _ _ ⟨⟩ ⟨⟩
  cases h
  refine ⟨?_, fun _ h ↦ ?_⟩
  · rintro _ ⟨⟩
    exact nofun
  cases h
  refine ⟨nofun, fun _ h ↦ ?_⟩
  cases h
  refine ⟨nofun, fun _ h ↦ ?_⟩
  cases h
  refine ⟨?_, fun _ h ↦ ⟨nofun, fun _ _ ↦ trivial⟩⟩
  -- the sweeper has left nothing
  rintro _ ⟨⟩ _ _ _ ⟨⟩ ⟨⟩ e he
  cases he

end Shared

end Steller
