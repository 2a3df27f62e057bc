import Steller.Lib.Transition
import Steller.Lib.WriteAhead
import Steller.Outbound.Recovery

/-!
# The server: sessions, the snapshot thread, and crashes

Any number of sessions write, one thread snapshots, and the process may be
killed between any two steps.  A session's write is two critical sections on two
locks: it is applied to the cache under the cache lock and appended to the log
under the log lock, with nothing held in between.  The snapshot thread holds the
cache lock while it stores the map and clears the log, so no write is applied in
that time, but a write applied earlier may still be appended in it.

`recover_eq_live` is crash consistency: as long as every reading of the clock
lies before every deadline, and for every key that one session per life writes,
a start rebuilds exactly what is live, unless the key has a write in flight.
For one key the argument is `WriteAhead.Consistent`; `Holds` says how the server
is an instance of it.
-/

namespace Steller

open Expiry Transition

/-- Where the snapshot thread is. -/
inductive Phase where
  /-- Not holding the cache lock. -/
  | idle
  /-- Holding it, before the store. -/
  | locked
  /-- Holding it, after a store that succeeded. -/
  | stored
  /-- Holding it, after a clear that succeeded. -/
  | cleared
deriving DecidableEq

/-- A running server and its files. -/
structure Server where
  cache : Cache
  persister : Persister
  /-- The write each session has applied and not yet appended. -/
  pending : Nat → Option WriteCommand
  phase : Phase

namespace Server

/-- The first start, with no files. -/
def init : Server := ⟨∅, .empty, fun _ ↦ none, .idle⟩

/-- What can happen next. -/
inductive Label where
  /-- A session applies a write to the cache. -/
  | write (session : Nat) (command : WriteCommand) (now : Milliseconds)
  /-- A session appends the write it has applied. -/
  | append (session : Nat)
  /-- The snapshot thread takes the cache lock. -/
  | lock
  /-- It stores the map, or fails to. -/
  | store (fault : Option StoreFault)
  /-- It clears the log, or fails to. -/
  | clear (fault : Option IoError)
  /-- It is done and releases the lock. -/
  | unlock
  /-- The process is killed and started again. -/
  | crash (times : Nat → Milliseconds) (now : Milliseconds)

variable (wincode : Wincode)

/-- One step.  A store or a clear that fails ends the attempt, and the lock is released on the
way out. -/
def step (σ : Server) : Label → Option Server
  | .write session command now =>
      if σ.phase = .idle ∧ σ.pending session = none then
        some { σ with
          cache := (σ.cache.execute (.ok now) (.ok now) (.write command)).2
          pending := Function.update σ.pending session (some command) }
      else none
  | .append session => match σ.pending session with
    | none => none
    | some command => some { σ with
        persister := (CacheRepository.append σ.persister command).2
        pending := Function.update σ.pending session none }
  | .lock => if σ.phase = .idle then some { σ with phase := .locked } else none
  | .store fault =>
      if σ.phase = .locked then
        match σ.persister.snapshot.store wincode fault σ.cache with
        | (.ok (), snapshot) =>
            some { σ with persister := { σ.persister with snapshot }, phase := .stored }
        | (.error _, snapshot) =>
            some { σ with persister := { σ.persister with snapshot }, phase := .idle }
      else none
  | .clear fault =>
      if σ.phase = .stored then
        match σ.persister.aof.clearUnless fault with
        | (.ok (), aof) => some { σ with persister := { σ.persister with aof }, phase := .cleared }
        | (.error _, aof) => some { σ with persister := { σ.persister with aof }, phase := .idle }
      else none
  | .unlock => if σ.phase = .cleared then some { σ with phase := .idle } else none
  | .crash times now => match recover wincode σ.persister (.ticking times) (.ok now) with
    | .error _ => none
    | .ok cache => some {
        cache
        persister := { σ.persister with aof := .open σ.persister.aof.writer.file }
        pending := fun _ ↦ none
        phase := .idle }

/-! ## What a step can do -/

/-- Everything a step can do, guards included: the store has three outcomes, because the folder
sync can fail after the rename. -/
inductive Steps (σ : Server) : Label → Server → Prop
  | write {session : Nat} {command : WriteCommand} {now : Milliseconds} (hphase : σ.phase = .idle)
      (hfree : σ.pending session = none) :
      Steps σ (.write session command now) { σ with
        cache := (σ.cache.execute (.ok now) (.ok now) (.write command)).2
        pending := Function.update σ.pending session (some command) }
  | append {session : Nat} {command : WriteCommand} (hpending : σ.pending session = some command) :
      Steps σ (.append session) { σ with
        persister := { σ.persister with
          aof := .open (σ.persister.aof.writer.contents ++ command.encode) }
        pending := Function.update σ.pending session none }
  | lock (hphase : σ.phase = .idle) : Steps σ .lock { σ with phase := .locked }
  | storeFailed {fault : Option StoreFault} (hphase : σ.phase = .locked)
      (hkept : Snapshot.renames wincode fault σ.cache = false) :
      Steps σ (.store fault) { σ with phase := .idle }
  | store {fault : Option StoreFault} {snapshot : Snapshot} {phase : Phase}
      (hphase : σ.phase = .locked) (hrenamed : Snapshot.renames wincode fault σ.cache = true)
      (hload : snapshot.load wincode = .ok σ.cache) (hnext : phase = .stored ∨ phase = .idle) :
      Steps σ (.store fault) { σ with persister := { σ.persister with snapshot }, phase }
  | clear (hphase : σ.phase = .stored) :
      Steps σ (.clear none) { σ with
        persister := { σ.persister with aof := .open [] }, phase := .cleared }
  | clearFailed {e : IoError} (hphase : σ.phase = .stored) :
      Steps σ (.clear (some e)) { σ with phase := .idle }
  | unlock (hphase : σ.phase = .cleared) : Steps σ .unlock { σ with phase := .idle }
  | crash {times : Nat → Milliseconds} {now : Milliseconds} {cache : Cache}
      (hrecover : recover wincode σ.persister (.ticking times) (.ok now) = .ok cache) :
      Steps σ (.crash times now) {
        cache
        persister := { σ.persister with aof := .open σ.persister.aof.writer.file }
        pending := fun _ ↦ none
        phase := .idle }

variable {wincode}

theorem steps_of_step {σ σ' : Server} {l : Label} (h : step wincode σ l = some σ') :
    Steps wincode σ l σ' := by
  cases l with
  | write session command now =>
      rw [step] at h
      split at h
      · next hguard => cases h; exact .write hguard.1 hguard.2
      · cases h
  | append session =>
      rw [step] at h
      split at h
      · cases h
      · next command hpending =>
          rw [Persister.append_eq] at h
          cases h
          exact .append hpending
  | lock =>
      rw [step] at h
      split at h
      · next hphase => cases h; exact .lock hphase
      · cases h
  | store fault =>
      rw [step] at h
      split at h
      · next hphase =>
          have hstore := Snapshot.store_cases wincode fault σ.persister.snapshot σ.cache
          split at h
          · next snapshot heq =>
              rw [heq] at hstore
              cases h
              rcases hstore with ⟨-, -, e, he⟩ | ⟨hrenamed, hload⟩
              · cases he
              · exact .store hphase hrenamed hload (.inl rfl)
          · next e snapshot heq =>
              rw [heq] at hstore
              cases h
              rcases hstore with ⟨hkept, hsame, -⟩ | ⟨hrenamed, hload⟩
              · cases hsame
                exact .storeFailed hphase hkept
              · exact .store hphase hrenamed hload (.inr rfl)
      · cases h
  | clear fault =>
      rw [step] at h
      split at h
      · next hphase =>
          cases fault with
          | none => cases h; exact .clear hphase
          | some e => cases h; exact .clearFailed hphase
      · cases h
  | unlock =>
      rw [step] at h
      split at h
      · next hphase => cases h; exact .unlock hphase
      · cases h
  | crash times now =>
      rw [step] at h
      split at h
      · cases h
      · next cache hrecover => cases h; exact .crash hrecover

/-! ## Calls -/

/-- The snapshot thread's steps with nothing in between are `Persister::snapshot`: it runs as
far as the first of them that fails. -/
theorem exec_takeSnapshot {σ : Server} (hphase : σ.phase = .idle) (storeFault : Option StoreFault)
    (clearFault : Option IoError) :
    ∃ ls, ls <+: [.lock, .store storeFault, .clear clearFault, .unlock] ∧
      exec (step wincode) σ ls = some { σ with
        persister := (σ.persister.takeSnapshot wincode storeFault clearFault σ.cache).2 } := by
  rw [Persister.takeSnapshot]
  rcases hstore : σ.persister.snapshot.store wincode storeFault σ.cache with ⟨e | ⟨⟩, snapshot⟩
  · refine ⟨[.lock, .store storeFault], ⟨_, rfl⟩, ?_⟩
    simp only [exec, step, hphase, if_true, Option.bind_some, hstore]
  · rcases hclear : σ.persister.aof.clearUnless clearFault with ⟨e | ⟨⟩, aof⟩
    · refine ⟨[.lock, .store storeFault, .clear clearFault], ⟨_, rfl⟩, ?_⟩
      simp only [exec, step, hphase, if_true, Option.bind_some, hstore, hclear]
    · refine ⟨_, List.prefix_rfl, ?_⟩
      simp only [exec, step, hphase, if_true, Option.bind_some, hstore, hclear]

/-! ## Time and writers -/

/-- The clock readings a step takes. -/
def Label.readings : Label → Set Milliseconds
  | .write _ _ now => {now}
  | .crash times now => insert now (Set.range times)
  | _ => ∅

/-- The deadlines a step brings into play. -/
def Label.deadlines : Label → Set Milliseconds
  | .write _ command _ => {t | t ∈ command.op.deadline}
  | _ => ∅

/-- The deadlines in play in a run. -/
def deadlinesIn (ls : List Label) : Set Milliseconds := {d | ∃ l ∈ ls, d ∈ l.deadlines}

/-- Every clock reading of the run lies strictly below every deadline in play. -/
def Timely (ls : List Label) : Prop := ∀ l ∈ ls, ∀ r ∈ l.readings, ∀ d ∈ deadlinesIn ls, r < d

/-- In each life at most one session writes `k`; `writer` is the one that has already written
it in the current life. -/
def SingleWriter (k : Blob) : Option Nat → List Label → Prop
  | _, [] => True
  | writer, .write session command _ :: ls =>
      if command.key = k then (∀ w ∈ writer, w = session) ∧ SingleWriter k (some session) ls
      else SingleWriter k writer ls
  | _, .crash _ _ :: ls => SingleWriter k none ls
  | writer, _ :: ls => SingleWriter k writer ls

/-- If the step is a write on `k` by a session that is free to make it, no session has one in
flight. -/
def Uncontended (k : Blob) (σ : Server) (l : Label) : Prop :=
  ∀ session command now, l = .write session command now → command.key = k →
    σ.pending session = none → ∀ other c, σ.pending other = some c → c.key ≠ k

/-- A write in flight on `k` is the current life's writer's. -/
def Owned (k : Blob) (writer : Option Nat) (pending : Nat → Option WriteCommand) : Prop :=
  ∀ session command, pending session = some command → command.key = k → writer = some session

theorem Owned.finish {k : Blob} {writer : Option Nat} {pending : Nat → Option WriteCommand}
    (h : Owned k writer pending) (session : Nat) :
    Owned k writer (Function.update pending session none) := by
  intro s c hs hc
  by_cases hss : s = session
  · rw [hss, Function.update_self] at hs; cases hs
  · rw [Function.update_of_ne hss] at hs; exact h s c hs hc

theorem Owned.begin {k : Blob} {writer writer' : Option Nat} {pending : Nat → Option WriteCommand}
    (h : Owned k writer pending) {session : Nat} {command : WriteCommand}
    (hsame : ∀ s, writer = some s → writer' = some s)
    (hnew : command.key = k → writer' = some session) :
    Owned k writer' (Function.update pending session (some command)) := by
  intro s c hs hc
  by_cases hss : s = session
  · rw [hss, Function.update_self] at hs; cases hs; rw [hss]; exact hnew hc
  · rw [Function.update_of_ne hss] at hs; exact hsame s (h s c hs hc)

/-- A write on `k` is made by the session that has written it in the current life, if one
has. -/
def Label.MadeBy (k : Blob) (writer : Option Nat) (l : Label) : Prop :=
  ∀ session command now, l = .write session command now → command.key = k →
    ∀ w ∈ writer, w = session

/-- The session that has written `k` in the current life, after one more step. -/
def Label.writerAfter (k : Blob) (writer : Option Nat) : Label → Option Nat
  | .write session command _ => if command.key = k then some session else writer
  | .crash _ _ => none
  | _ => writer

theorem singleWriter_cons {k : Blob} {writer : Option Nat} {l : Label} {ls : List Label}
    (h : SingleWriter k writer (l :: ls)) :
    l.MadeBy k writer ∧ SingleWriter k (l.writerAfter k writer) ls := by
  cases l with
  | write session command now =>
      rw [SingleWriter] at h
      rw [Label.writerAfter]
      split at h
      · next hkey =>
          rw [if_pos hkey]
          refine ⟨?_, h.2⟩
          rintro _ _ _ ⟨⟩ -
          exact h.1
      · next hkey =>
          rw [if_neg hkey]
          refine ⟨?_, h⟩
          rintro _ _ _ ⟨⟩ hk
          exact absurd hk hkey
  | append session => exact ⟨fun _ _ _ hl ↦ (by cases hl), h⟩
  | lock => exact ⟨fun _ _ _ hl ↦ (by cases hl), h⟩
  | store fault => exact ⟨fun _ _ _ hl ↦ (by cases hl), h⟩
  | clear fault => exact ⟨fun _ _ _ hl ↦ (by cases hl), h⟩
  | unlock => exact ⟨fun _ _ _ hl ↦ (by cases hl), h⟩
  | crash times now => exact ⟨fun _ _ _ hl ↦ (by cases hl), h⟩

/-- The writer's writes on `k` never meet another in flight: no other session has one, and the
writer itself has none when it begins the next. -/
theorem Owned.uncontended {k : Blob} {writer : Option Nat} {σ : Server} {l : Label}
    (h : Owned k writer σ.pending) (hl : l.MadeBy k writer) : Uncontended k σ l := by
  intro session command now heq hkey hfree other c hother hc
  obtain rfl : other = session := hl session command now heq hkey other (h other c hother hc)
  rw [hfree] at hother
  cases hother

/-- Step lemma for the writer of a life. -/
theorem Owned.step {k : Blob} {writer : Option Nat} {σ σ' : Server} {l : Label}
    (h : Owned k writer σ.pending) (hl : l.MadeBy k writer) (hstep : step wincode σ l = some σ') :
    Owned k (l.writerAfter k writer) σ'.pending := by
  cases steps_of_step hstep with
  | @write session command now =>
      rw [Label.writerAfter]
      split
      · next hkey =>
          refine h.begin (fun s hs ↦ ?_) fun _ ↦ rfl
          rw [hl session command now rfl hkey s hs]
      · next hkey => exact h.begin (fun s hs ↦ hs) fun hk ↦ absurd hk hkey
  | append => exact h.finish _
  | lock => exact h
  | storeFailed => exact h
  | store => exact h
  | clear => exact h
  | clearFailed => exact h
  | unlock => exact h
  | crash =>
      rintro session command ⟨⟩

/-- With one writer per life, no write on `k` ever meets another in flight. -/
theorem along_uncontended {k : Blob} {ls : List Label} {writer : Option Nat} {σ : Server}
    (h : SingleWriter k writer ls) (howned : Owned k writer σ.pending) :
    Along (step wincode) (Uncontended k) σ ls := by
  induction ls generalizing writer σ with
  | nil => trivial
  | cons l ls ih =>
      obtain ⟨hl, hls⟩ := singleWriter_cons h
      exact ⟨howned.uncontended hl, fun σ' hstep ↦ ih hls (howned.step hl hstep)⟩

/-! ## One key -/

/-- Every write in flight has a property that those before it and the new one have. -/
theorem forall_pending_update {α : Type} {P : α → Prop} {pending : Nat → Option α}
    (h : ∀ s c, pending s = some c → P c) (session : Nat) {o : Option α}
    (ho : ∀ c, o = some c → P c) :
    ∀ s c, Function.update pending session o s = some c → P c := by
  intro s c hs
  by_cases hss : s = session
  · rw [hss, Function.update_self] at hs; exact ho c hs
  · rw [Function.update_of_ne hss] at hs; exact h s c hs

/-- `pend` is the one write in flight on `k`, if there is any. -/
def InFlight (k : Blob) (pending : Nat → Option WriteCommand)
    (pend : Option (Nat × WriteCommand)) : Prop :=
  ∀ session command, pending session = some command ∧ command.key = k ↔
    pend = some (session, command)

namespace InFlight

variable {k : Blob} {pending : Nat → Option WriteCommand} {pend : Option (Nat × WriteCommand)}
  {session : Nat} {command : WriteCommand}

/-- Nothing is in flight at a start. -/
theorem start (k : Blob) : InFlight k (fun _ ↦ none) none := by
  intro s c
  constructor
  · rintro ⟨⟨⟩, -⟩
  · rintro ⟨⟩

theorem eq_none (h : InFlight k pending pend)
    (hno : ∀ s c, pending s = some c → c.key ≠ k) : pend = none := by
  cases pend with
  | none => rfl
  | some p =>
      obtain ⟨hp, hk⟩ := (h p.1 p.2).2 rfl
      exact absurd hk (hno p.1 p.2 hp)

theorem begin (h : InFlight k pending none) (hk : command.key = k) :
    InFlight k (Function.update pending session (some command)) (some (session, command)) := by
  intro s c
  by_cases hss : s = session
  · subst hss
    rw [Function.update_self]
    constructor
    · rintro ⟨⟨⟩, -⟩; rfl
    · rintro ⟨⟩; exact ⟨rfl, hk⟩
  · rw [Function.update_of_ne hss]
    constructor
    · intro hs; cases (h s c).1 hs
    · rintro ⟨⟩; exact absurd rfl hss

theorem finish (h : InFlight k pending (some (session, command))) :
    InFlight k (Function.update pending session none) none := by
  intro s c
  constructor
  · rintro ⟨hs, hc⟩
    by_cases hss : s = session
    · rw [hss, Function.update_self] at hs; cases hs
    · rw [Function.update_of_ne hss] at hs
      cases (h s c).1 ⟨hs, hc⟩
      exact absurd rfl hss
  · rintro ⟨⟩

/-- What a session does with other keys is not noticed. -/
theorem update_of_ne (h : InFlight k pending pend) {o : Option WriteCommand}
    (hold : ∀ c, pending session = some c → c.key ≠ k) (hnew : ∀ c, o = some c → c.key ≠ k) :
    InFlight k (Function.update pending session o) pend := by
  intro s c
  rw [← h s c]
  by_cases hss : s = session
  · subst hss
    rw [Function.update_self]
    constructor
    · rintro ⟨hs, hc⟩; exact absurd hc (hnew c hs)
    · rintro ⟨hs, hc⟩; exact absurd hc (hold c hs)
  · rw [Function.update_of_ne hss]

end InFlight

/-- The server as a slot, seen from key `k`. -/
abbrev slotAt (k : Blob) (σ : Server) (logged : List WriteCommand) (map : Cache)
    (pend : Option (Nat × WriteCommand)) :
    WriteAhead.Slot (Option Entry) (Op Blob Milliseconds) :=
  ⟨σ.cache.lookup k, map.lookup k, opsOn k logged, pend.map fun p ↦ p.2.op⟩

variable (wincode) in
/-- The server, seen from key `k`, is a consistent slot: `logged` is what the log holds, `map`
what the snapshot loads as, and `pend` the one write in flight on `k`, if any.  `D` are the
deadlines in play, and `T` is a time before all of them. -/
structure Holds (D : Set Milliseconds) (T : Milliseconds) (k : Blob) (σ : Server)
    (logged : List WriteCommand) (map : Cache) (pend : Option (Nat × WriteCommand)) : Prop where
  log : σ.persister.aof = .open (logged.flatMap WriteCommand.encode)
  load : σ.persister.snapshot.load wincode = .ok map
  stored : σ.phase = .stored → map = σ.cache
  pending : InFlight k σ.pending pend
  logged_within : ∀ command ∈ logged, ∀ t ∈ command.op.deadline, t ∈ D
  pending_within : ∀ session command, σ.pending session = some command →
    ∀ t ∈ command.op.deadline, t ∈ D
  cache_within : Within D (σ.cache.lookup k)
  map_within : Within D (map.lookup k)
  slot : WriteAhead.Consistent (Op.apply T)
    ⟨σ.cache.lookup k, map.lookup k, opsOn k logged, pend.map fun p ↦ p.2.op⟩

/-- The step respects the clock: what it reads lies before `D`, and what it brings into play
is in `D`. -/
def Label.Respects (D : Set Milliseconds) (l : Label) : Prop :=
  (∀ r ∈ l.readings, ∀ d ∈ D, r < d) ∧ l.deadlines ⊆ D

section Before

variable {D : Set Milliseconds} {T : Milliseconds} (hT : ∀ d ∈ D, T < d) {k : Blob}

include hT

/-- A write made before every deadline is, on its key, the register write at `T`. -/
theorem lookup_write_of_within {now : Milliseconds} (hnow : ∀ d ∈ D, now < d)
    {command : WriteCommand} (hcommand : ∀ t ∈ command.op.deadline, t ∈ D) {cache : Cache}
    (hcache : Within D (cache.lookup k)) :
    let c := (cache.execute (.ok now) (.ok now) (.write command)).2
    c.lookup k = applyAll T (opsOn k [command]) (cache.lookup k) ∧ Within D (c.lookup k) := by
  intro c
  rw [lookup_execute_write]
  by_cases hk : command.key = k
  · rw [opsOn_of_key hk]
    exact ⟨apply_eq_of_within hnow hT hcommand hcache, within_apply hnow hcommand hcache⟩
  · rw [opsOn_of_key_ne hk]
    exact ⟨rfl, hcache⟩

/-- Executing logged writes before every deadline is applying the register writes at `T`. -/
theorem lookup_executeAll_of_within {times : Nat → Milliseconds}
    (htimes : ∀ n, ∀ d ∈ D, times n < d) {logged : List WriteCommand}
    (hlogged : ∀ command ∈ logged, ∀ t ∈ command.op.deadline, t ∈ D) {cache : Cache}
    (hcache : Within D (cache.lookup k)) (n : Nat) :
    let c := (Aof.executeAll (.ticking times) n (logged.map WriteCommand.toCommand) cache).2
    c.lookup k = applyAll T (opsOn k logged) (cache.lookup k) ∧ Within D (c.lookup k) := by
  induction logged generalizing n cache with
  | nil => exact ⟨rfl, hcache⟩
  | cons command logged ih =>
      obtain ⟨hlookup, hwithin⟩ := lookup_write_of_within hT (htimes n)
        (hlogged command List.mem_cons_self) hcache
      obtain ⟨hrest, hwithin'⟩ :=
        ih (fun c hc ↦ hlogged c (List.mem_cons_of_mem _ hc)) hwithin (n + 1)
      rw [List.map_cons, executeAll_cons]
      refine ⟨?_, hwithin'⟩
      rw [hrest, hlookup, ← applyAll_append, ← opsOn_append]
      rfl

/-- A start before every deadline succeeds, and rebuilds `k` by the decoded writes on it. -/
theorem lookup_recover_of_within {persister : Persister} {logged : List WriteCommand} {map : Cache}
    {file : Bytes} {times : Nat → Milliseconds} (htimes : ∀ n, ∀ d ∈ D, times n < d)
    {now : Milliseconds} (hnow : ∀ d ∈ D, now < d)
    (hload : persister.snapshot.load wincode = .ok map) (hlog : persister.aof = .open file)
    (hdecode : Aof.decode (.ticking times) file = (logged.map WriteCommand.toCommand, .ok ()))
    (hlogged : ∀ command ∈ logged, ∀ t ∈ command.op.deadline, t ∈ D)
    (hmap : Within D (map.lookup k)) :
    ∃ c, recover wincode persister (.ticking times) (.ok now) = .ok c ∧
      c.lookup k = applyAll T (opsOn k logged) (map.lookup k) ∧ Within D (c.lookup k) := by
  obtain ⟨hlookup, hwithin⟩ := lookup_executeAll_of_within hT htimes hlogged hmap 0
  refine ⟨_, recover_of_decode hload hlog hdecode now, ?_⟩
  rw [Cache.lookup_removeExpired, purge_of_within hnow hwithin]
  exact ⟨hlookup, hwithin⟩

theorem Holds.recover {σ : Server} {logged : List WriteCommand} {map : Cache}
    {pend : Option (Nat × WriteCommand)} (h : Holds wincode D T k σ logged map pend)
    {times : Nat → Milliseconds} (htimes : ∀ n, ∀ d ∈ D, times n < d) {now : Milliseconds}
    (hnow : ∀ d ∈ D, now < d) :
    ∃ c, Steller.recover wincode σ.persister (.ticking times) (.ok now) = .ok c ∧
      c.lookup k = applyAll T (opsOn k logged) (map.lookup k) ∧ Within D (c.lookup k) :=
  lookup_recover_of_within hT htimes hnow h.load h.log (Aof.decode_flatMap _ logged)
    h.logged_within h.map_within

variable {σ : Server} {logged : List WriteCommand} {map : Cache}
  {pend : Option (Nat × WriteCommand)}
  {safe : WriteAhead.Slot (Option Entry) (Op Blob Milliseconds) → Prop}

omit hT in
/-- A step of the snapshot thread that only moves it. -/
theorem Holds.move (h : Holds wincode D T k σ logged map pend) {phase : Phase}
    (hphase : phase = .stored → map = σ.cache) :
    Holds wincode D T k { σ with phase } logged map pend :=
  { h with stored := hphase }

/-- A session applies a write. -/
theorem Holds.write (h : Holds wincode D T k σ logged map pend) (hidle : σ.phase = .idle)
    {session : Nat} (hfree : σ.pending session = none) {command : WriteCommand}
    (hcommand : ∀ t ∈ command.op.deadline, t ∈ D) {now : Milliseconds} (hnow : ∀ d ∈ D, now < d)
    (hun : command.key = k → ∀ other c, σ.pending other = some c → c.key ≠ k) :
    let σ' : Server := { σ with
      cache := (σ.cache.execute (.ok now) (.ok now) (.write command)).2
      pending := Function.update σ.pending session (some command) }
    ∃ pend', Holds wincode D T k σ' logged map pend' ∧
      WriteAhead.Move (Op.apply T) safe (slotAt k σ logged map pend)
        (slotAt k σ' logged map pend') := by
  intro σ'
  obtain ⟨hlookup, hwithin⟩ := lookup_write_of_within hT hnow hcommand h.cache_within
  have hstored : σ.phase = .stored → map = σ'.cache := by
    intro hs; rw [hidle] at hs; cases hs
  have hpending := forall_pending_update h.pending_within session (o := some command)
    fun c hc ↦ Option.some.inj hc ▸ hcommand
  by_cases hk : command.key = k
  · obtain rfl : pend = none := h.pending.eq_none (hun hk)
    have hmove : WriteAhead.Move (Op.apply T) safe (slotAt k σ logged map none)
        (slotAt k σ' logged map (some (session, command))) := by
      rw [slotAt, slotAt, hlookup, opsOn_of_key hk]
      exact .write command.op
    exact ⟨some (session, command), { h with
      stored := hstored, pending_within := hpending, cache_within := hwithin
      pending := h.pending.begin hk, slot := h.slot.move (applyAll_idem T) hmove }, hmove⟩
  · have hmove : WriteAhead.Move (Op.apply T) safe (slotAt k σ logged map pend)
        (slotAt k σ' logged map pend) := by
      rw [slotAt, slotAt, hlookup, opsOn_of_key_ne hk]
      exact .stay _
    refine ⟨pend, { h with
      stored := hstored, pending_within := hpending, cache_within := hwithin, pending := ?_
      slot := h.slot.move (applyAll_idem T) hmove }, hmove⟩
    exact h.pending.update_of_ne (fun c hc ↦ by rw [hfree] at hc; cases hc)
      fun c hc ↦ Option.some.inj hc ▸ hk

omit hT in
/-- A session appends the write it has applied. -/
theorem Holds.append (h : Holds wincode D T k σ logged map pend) {session : Nat}
    {command : WriteCommand} (hpending : σ.pending session = some command) :
    let σ' : Server := { σ with
      persister := { σ.persister with
        aof := .open (σ.persister.aof.writer.contents ++ command.encode) }
      pending := Function.update σ.pending session none }
    ∃ pend', Holds wincode D T k σ' (logged ++ [command]) map pend' ∧
      WriteAhead.Move (Op.apply T) safe (slotAt k σ logged map pend)
        (slotAt k σ' (logged ++ [command]) map pend') := by
  intro σ'
  have hlog : Aof.open (σ.persister.aof.writer.contents ++ command.encode) =
      .open ((logged ++ [command]).flatMap WriteCommand.encode) := by
    rw [h.log, Aof.open_append]
  have hlogged : ∀ c ∈ logged ++ [command], ∀ t ∈ c.op.deadline, t ∈ D := by
    intro c hc
    rcases List.mem_append.1 hc with hc | hc
    · exact h.logged_within c hc
    · rw [List.mem_singleton.1 hc]; exact h.pending_within session command hpending
  have hrest := forall_pending_update h.pending_within session (o := none)
    fun c hc ↦ by cases hc
  by_cases hk : command.key = k
  · obtain rfl : pend = some (session, command) := (h.pending session command).1 ⟨hpending, hk⟩
    have hmove : WriteAhead.Move (Op.apply T) safe (slotAt k σ logged map (some (session, command)))
        (slotAt k σ' (logged ++ [command]) map none) := by
      rw [slotAt, slotAt, opsOn_append, opsOn_of_key hk]
      exact .append
    exact ⟨none, { h with
      log := hlog, logged_within := hlogged, pending_within := hrest
      pending := h.pending.finish, slot := h.slot.move (applyAll_idem T) hmove }, hmove⟩
  · have hmove : WriteAhead.Move (Op.apply T) safe (slotAt k σ logged map pend)
        (slotAt k σ' (logged ++ [command]) map pend) := by
      rw [slotAt, slotAt, opsOn_append, opsOn_of_key_ne hk, List.append_nil]
      exact .stay _
    refine ⟨pend, { h with
      log := hlog, logged_within := hlogged, pending_within := hrest, pending := ?_
      slot := h.slot.move (applyAll_idem T) hmove }, hmove⟩
    exact h.pending.update_of_ne (fun c hc ↦ by rw [hpending] at hc; cases hc; exact hk)
      fun c hc ↦ by cases hc

/-- Step lemma: a step that respects the clock and does not meet another write on `k` moves
the slot at `k`, if it moves it at all, as a slot can move; it stores only when that is safe. -/
theorem Holds.step (safe : WriteAhead.Slot (Option Entry) (Op Blob Milliseconds) → Prop)
    {σ' : Server} {l : Label} (h : Holds wincode D T k σ logged map pend)
    (hl : l.Respects D ∧ Uncontended k σ l)
    (hsafe : ∀ fault, l = .store fault → Snapshot.renames wincode fault σ.cache = true →
      safe (slotAt k σ logged map pend)) (hstep : step wincode σ l = some σ') :
    ∃ logged' map' pend', Holds wincode D T k σ' logged' map' pend' ∧
      WriteAhead.Move (Op.apply T) safe (slotAt k σ logged map pend)
        (slotAt k σ' logged' map' pend') := by
  obtain ⟨⟨hreads, hdeadlines⟩, hun⟩ := hl
  cases steps_of_step hstep with
  | @write session command now hphase hfree =>
      obtain ⟨pend', h', hmove⟩ := h.write hT hphase hfree (fun t ht ↦ hdeadlines ht)
        (hreads now rfl) fun hk ↦ hun session command now rfl hk hfree
      exact ⟨logged, map, pend', h', hmove⟩
  | append hpending =>
      obtain ⟨pend', h', hmove⟩ := h.append hpending
      exact ⟨_, map, pend', h', hmove⟩
  | lock hphase => exact ⟨logged, map, pend, h.move fun hs ↦ (by cases hs), .stay _⟩
  | storeFailed => exact ⟨logged, map, pend, h.move fun hs ↦ (by cases hs), .stay _⟩
  | store hphase hrenamed hload hnext =>
      exact ⟨logged, σ.cache, pend, { h with
        load := hload, stored := fun _ ↦ rfl, map_within := h.cache_within, slot := h.slot.store },
        .store (hsafe _ rfl hrenamed)⟩
  | clear hphase =>
      obtain rfl := h.stored hphase
      exact ⟨[], σ.cache, pend, { h with
        log := rfl, stored := fun hs ↦ (by cases hs)
        logged_within := fun c hc ↦ absurd hc List.not_mem_nil, slot := h.slot.clear }, .clear⟩
  | clearFailed hphase => exact ⟨logged, map, pend, h.move fun hs ↦ (by cases hs), .stay _⟩
  | unlock hphase => exact ⟨logged, map, pend, h.move fun hs ↦ (by cases hs), .stay _⟩
  | @crash times now cache hrecover =>
      obtain ⟨c, hc, hlookup, hwithin⟩ := h.recover hT
        (fun n ↦ hreads (times n) (.inr ⟨n, rfl⟩)) (hreads now (.inl rfl))
      obtain rfl : cache = c := Except.ok.inj (hrecover.symm.trans hc)
      refine ⟨logged, map, none, { h with
        log := ?_, stored := fun hs ↦ (by cases hs)
        pending := .start k, pending_within := fun s c h ↦ (by cases h)
        cache_within := hwithin, slot := ?_ }, ?_⟩
      · rw [h.log]; rfl
      · rw [hlookup]; exact h.slot.crash (applyAll_idem T)
      · rw [slotAt, slotAt, hlookup]; exact .crash

end Before

/-! ## Runs -/

section Runs

variable {D : Set Milliseconds} {T : Milliseconds} (hT : ∀ d ∈ D, T < d) {k : Blob}

variable (wincode) in
/-- The invariant of a run: the server is a consistent slot at `k`. -/
def Inv (D : Set Milliseconds) (T : Milliseconds) (k : Blob) (σ : Server) : Prop :=
  ∃ logged map pend, Holds wincode D T k σ logged map pend

theorem holds_init : Holds wincode D T k init [] ∅ none where
  log := rfl
  load := rfl
  stored h := by cases h
  pending := .start k
  logged_within c hc := absurd hc List.not_mem_nil
  pending_within s c h := by cases h
  cache_within := within_none D
  map_within := within_none D
  slot := .refl none

theorem inv_init : Inv wincode D T k init := ⟨[], ∅, none, holds_init⟩

include hT

/-- A step that respects the clock and does not meet another write on `k` keeps the
invariant. -/
theorem Inv.step {σ σ' : Server} {l : Label} (h : Inv wincode D T k σ)
    (hl : l.Respects D ∧ Uncontended k σ l) (hstep : step wincode σ l = some σ') :
    Inv wincode D T k σ' := by
  obtain ⟨logged, map, pend, h⟩ := h
  obtain ⟨logged', map', pend', h', -⟩ := h.step hT (fun _ ↦ True) hl
    (fun _ _ _ ↦ trivial) hstep
  exact ⟨logged', map', pend', h'⟩

end Runs

/-- A timely run respects the clock, for the deadlines in play. -/
theorem respects_of_timely {ls : List Label} (h : Timely ls) :
    ∀ l ∈ ls, l.Respects (deadlinesIn ls) := fun l hl ↦ ⟨h l hl, fun _ hd ↦ ⟨l, hl, hd⟩⟩

theorem along_good {ls : List Label} {D : Set Milliseconds} (hls : ∀ l ∈ ls, l.Respects D)
    {k : Blob} (hk : SingleWriter k none ls) :
    Along (step wincode) (fun σ l ↦ l.Respects D ∧ Uncontended k σ l) init ls :=
  along_and.2 ⟨along_of_forall hls, along_uncontended hk fun s c hs ↦ by cases hs⟩

/-- A run at a clock that stays before every deadline in play, with one writer of `k` in each
life, keeps the invariant at `k`. -/
theorem inv_of_exec {ls : List Label} {σ : Server} (hrun : exec (step wincode) init ls = some σ)
    {D : Set Milliseconds} {T : Milliseconds} (hT : ∀ d ∈ D, T < d)
    (hls : ∀ l ∈ ls, l.Respects D) {k : Blob} (hk : SingleWriter k none ls) :
    Inv wincode D T k σ :=
  (along_good hls hk).invariant (fun h hl hstep ↦ h.step hT hl hstep) inv_init hrun

/-- Crash consistency.  Whatever sessions, snapshots and crashes came before: for a key that
one session per life writes and that has no write in flight, the snapshot and the log on disk
recover to what is live. -/
theorem recover_eq_live (wincode : Wincode) (ls : List Label) (σ : Server)
    (hrun : exec (step wincode) init ls = some σ) (times : Nat → Milliseconds)
    (now : Milliseconds) (htime : Timely (ls ++ [.crash times now])) (k : Blob)
    (hwriter : SingleWriter k none ls)
    (hflight : ∀ session command, σ.pending session = some command → command.key ≠ k) :
    ∃ cache, recover wincode σ.persister (.ticking times) (.ok now) = .ok cache ∧
      cache.lookup k = σ.cache.lookup k := by
  have hrespects := respects_of_timely htime
  obtain ⟨hreads, -⟩ := hrespects (.crash times now) (by simp)
  have hnow := hreads now (.inl rfl)
  obtain ⟨logged, map, pend, h⟩ := inv_of_exec hrun hnow
    (fun l hl ↦ hrespects l (List.mem_append_left _ hl)) hwriter
  obtain rfl : pend = none := h.pending.eq_none hflight
  obtain ⟨cache, hcache, hlookup, -⟩ := h.recover hnow
    (fun n ↦ hreads (times n) (.inr ⟨n, rfl⟩)) hnow
  exact ⟨cache, hcache, hlookup.trans (h.slot.recover (applyAll_idem now))⟩

/-- A session writes `k`, the snapshot falls between its two steps, and the server is killed
before the log is cleared: the log holds a write that the snapshot already contains. -/
theorem recover_eq_live_of_overlap :
    let k := Blob.singleton 107
    let wincode := Wincode.ofMap (Finmap.singleton k ⟨.empty, none⟩)
      [1, 0, 0, 0, 0, 0, 0, 0, 1, 0, 0, 0, 0, 0, 0, 0, 107, 0, 0, 0, 0, 0, 0, 0, 0, 0] (by decide)
    let ls : List Label := [.write 0 (.set k .empty none) ⟨1⟩, .lock, .store none, .append 0,
      .crash (fun _ ↦ ⟨2⟩) ⟨2⟩]
    ∃ σ, exec (step wincode) init ls = some σ ∧
      ∃ cache, recover wincode σ.persister (.ticking fun _ ↦ ⟨3⟩) (.ok ⟨3⟩) = .ok cache ∧
        cache.lookup k = σ.cache.lookup k := by
  intro k wincode ls
  obtain ⟨σ, hrun⟩ := Option.isSome_iff_exists.1
    (show (exec (step wincode) init ls).isSome by decide)
  refine ⟨σ, hrun, recover_eq_live wincode ls σ hrun (fun _ ↦ ⟨3⟩) ⟨3⟩ ?_ k ?_ ?_⟩
  · -- no deadline is in play
    rintro l - r - d ⟨l', hl', hd⟩
    simp only [ls, List.mem_append, List.mem_cons, List.not_mem_nil, or_false] at hl'
    rcases hl' with (rfl | rfl | rfl | rfl | rfl) | rfl <;> cases hd
  · exact ⟨fun w hw ↦ (by cases hw), trivial⟩
  · -- the run ends in a crash, which forgets what was in flight
    have hlast : exec (step wincode) init (ls.dropLast ++ [.crash (fun _ ↦ ⟨2⟩) ⟨2⟩]) = some σ :=
      hrun
    obtain ⟨τ, -, hcrash⟩ := exec_concat_eq_some.1 hlast
    cases steps_of_step hcrash
    rintro session command ⟨⟩

end Server

end Steller
