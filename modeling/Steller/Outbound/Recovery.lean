import Steller.Domain.Batch
import Steller.Outbound.Persister

/-!
# Recovery from the log alone

A server that has run commands one after another has a live cache and a log.
Killed and started again at time `T`, it rebuilds a cache by executing the
logged writes, all of them at `T`.  The two histories differ in two ways: the
log has no reads and no sweeps, and every write in it is executed later than it
was the first time.

For a key, both differences matter, and this file says exactly when.

* `rebuilt_eq_live_iff` — a key that is visible live at `T` is rebuilt as it
  stood exactly when no deadline it was given since its last `SET`, and has
  since been freed of, lies at or before `T`.
* `live_eq_rebuilt_iff` — a key that is visible after replay is the live one
  exactly when it was not dropped, by a read or a sweep, between its last `SET`
  and the next deadline put on it.

Both are the register theorems of `Steller.Lib.Expiry`, read at each key.
-/

namespace Steller

open Expiry

/-- The writes of a history, in order. -/
def writes (steps : List Step) : List WriteCommand :=
  steps.filterMap fun
    | .command (.write wc) _ _ => some wc
    | .command (.read _) _ _ => none
    | .sweep _ => none

/-- The register writes a list of commands makes on `k`. -/
def opsOn (k : Blob) (commands : List WriteCommand) : List (Op Blob Milliseconds) :=
  commands.filterMap fun wc ↦ if k = wc.key then some wc.op else none

/-- The server at the end of a sequential history that began with no files. -/
def serve (steps : List Step) : Executor Persister := (Executor.mk ∅ .empty).runSteps steps

/-- The cache of the server. -/
def live (steps : List Step) : Cache := (serve steps).cache

/-- What a replay of the server's log at time `T` returns and rebuilds. -/
def rebuild (steps : List Step) (T : Milliseconds) : Except AofError Unit × Cache :=
  (serve steps).cacheRepo.aof.replay (.ticking fun _ ↦ T) ∅

/-! ## The two histories of a key -/

theorem lookup_live (steps : List Step) (k : Blob) :
    (live steps).lookup k = Expiry.run (events k steps) none := by
  rw [live, serve, Executor.runSteps_eq]
  exact lookup_runSteps ∅ steps k

/-- The log of a sequential history holds its writes. -/
theorem aof_foldl_log (logged : List WriteCommand) (snapshot : Snapshot) (steps : List Step) :
    steps.foldl Executor.log (Persister.mk (.open (logged.flatMap WriteCommand.encode)) snapshot) =
      ⟨.open ((logged ++ writes steps).flatMap WriteCommand.encode), snapshot⟩ := by
  induction steps generalizing logged with
  | nil => rw [show writes [] = [] from rfl, List.append_nil]; rfl
  | cons s steps ih =>
      rw [List.foldl_cons]
      rcases s with ⟨rc | wc, now, later⟩ | now
      · exact ih logged
      · have happend : Executor.log
            (Persister.mk (.open (logged.flatMap WriteCommand.encode)) snapshot)
            (.command (.write wc) now later) =
              ⟨.open ((logged ++ [wc]).flatMap WriteCommand.encode), snapshot⟩ := by
          rw [Executor.log, Persister.append_eq, Aof.open_append]
        have hwrites : writes (.command (.write wc) now later :: steps) = [wc] ++ writes steps :=
          rfl
        rw [happend, ih, hwrites, List.append_assoc]
      · exact ih logged

theorem serve_log (steps : List Step) :
    (serve steps).cacheRepo.aof = .open ((writes steps).flatMap WriteCommand.encode) := by
  rw [serve, Executor.runSteps_eq]
  exact congrArg Persister.aof (aof_foldl_log [] ⟨[]⟩ steps)

/-- One round of executing logged writes. -/
theorem executeAll_cons (times : Nat → Milliseconds) (n : Nat) (wc : WriteCommand)
    (commands : List Command) (cache : Cache) :
    Aof.executeAll (.ticking times) n (wc.toCommand :: commands) cache =
      Aof.executeAll (.ticking times) (n + 1) commands
        (cache.execute (.ok (times n)) (.ok (times n)) (.write wc)).2 := by
  obtain ⟨outcome, h⟩ := Cache.execute_eq cache (times n) (times n) (.write wc)
  rw [WriteCommand.toCommand, Aof.executeAll,
    show (Aof.Clock.ticking times n).now = .ok (times n) from rfl,
    show (Aof.Clock.ticking times n).later = .ok (times n) from rfl, h]

theorem opsOn_of_key {k : Blob} {wc : WriteCommand} (h : wc.key = k) : opsOn k [wc] = [wc.op] := by
  rw [opsOn, List.filterMap_cons, if_pos h.symm]
  rfl

theorem opsOn_of_key_ne {k : Blob} {wc : WriteCommand} (h : wc.key ≠ k) : opsOn k [wc] = [] := by
  rw [opsOn, List.filterMap_cons, if_neg h.symm]
  rfl

/-- Seen from one key, a write is its register write if it is on that key. -/
theorem lookup_execute_write (cache : Cache) (now : Milliseconds) (wc : WriteCommand) (k : Blob) :
    (cache.execute (.ok now) (.ok now) (.write wc)).2.lookup k =
      applyAll now (opsOn k [wc]) (cache.lookup k) := by
  rw [Cache.lookup_execute, CacheCommand.key_write]
  by_cases hk : wc.key = k
  · rw [opsOn_of_key hk, if_pos hk.symm]
    rfl
  · rw [opsOn_of_key_ne hk, if_neg (Ne.symm hk)]
    rfl

theorem opsOn_append (k : Blob) (xs ys : List WriteCommand) :
    opsOn k (xs ++ ys) = opsOn k xs ++ opsOn k ys := List.filterMap_append

theorem opsOn_eq (k : Blob) (commands : List WriteCommand) :
    opsOn k commands = (Keyed.on WriteCommand.key k commands).map WriteCommand.op := by
  induction commands with
  | nil => rfl
  | cons wc commands ih =>
      rw [← List.singleton_append, opsOn_append, ih, List.singleton_append]
      by_cases hk : wc.key = k
      · rw [opsOn_of_key hk, Keyed.on_cons_self _ hk]
        rfl
      · rw [opsOn_of_key_ne hk, Keyed.on_cons_of_ne _ hk]
        rfl

/-- Replay at a standing clock executes the logged writes at one reading. -/
theorem executeAll_eq_executeWrites (T : Milliseconds) (n : Nat) (commands : List WriteCommand)
    (cache : Cache) :
    (Aof.executeAll (.ticking fun _ ↦ T) n (commands.map WriteCommand.toCommand) cache).2 =
      (Cache.executeWrites T commands cache).2 := by
  induction commands generalizing n cache with
  | nil => rfl
  | cons wc commands ih =>
      rw [List.map_cons, executeAll_cons]
      exact ih (n + 1) _

/-- Seen from one key, executing logged writes at time `T` applies its register writes. -/
theorem lookup_executeAll (T : Milliseconds) (n : Nat) (commands : List WriteCommand)
    (cache : Cache) (k : Blob) :
    (Aof.executeAll (.ticking fun _ ↦ T) n (commands.map WriteCommand.toCommand) cache).2.lookup k =
      applyAll T (opsOn k commands) (cache.lookup k) := by
  rw [executeAll_eq_executeWrites, Cache.lookup_executeWrites, opsOn_eq]

/-- Replay of the server's own log succeeds, and rebuilds each key from its writes. -/
theorem rebuild_spec (steps : List Step) (T : Milliseconds) :
    (rebuild steps T).1 = .ok () ∧
      ∀ k, (rebuild steps T).2.lookup k = applyAll T (opsOn k (writes steps)) none := by
  rw [rebuild, serve_log, Aof.replay_open, Aof.replayBytes_ticking, Aof.decode_flatMap]
  exact ⟨rfl, fun k ↦ lookup_executeAll T 0 (writes steps) ∅ k⟩

/-- What the log holds on a key is the log of the key's history. -/
theorem log_events (k : Blob) (steps : List Step) :
    Expiry.log (events k steps) = opsOn k (writes steps) := by
  induction steps with
  | nil => rfl
  | cons s steps ih =>
      rcases s with ⟨rc | wc, now, later⟩ | now
      · rw [events, List.filterMap_cons, Step.event]
        by_cases hk : k = CacheCommand.key (.read rc)
        · rw [if_pos hk]; exact ih
        · rw [if_neg hk]; exact ih
      · have hwrites : writes (.command (.write wc) now later :: steps) = wc :: writes steps := rfl
        rw [events, List.filterMap_cons, Step.event, CacheCommand.key_write, hwrites, opsOn,
          List.filterMap_cons]
        by_cases hk : k = wc.key
        · rw [if_pos hk, if_pos hk]
          exact congrArg (wc.op :: ·) ih
        · rw [if_neg hk, if_neg hk]
          exact ih
      · exact ih

/-! ## Loss and resurrection -/

/-- Recovery at `T` keeps `k`: replay succeeds, and `k` is visible in the rebuilt cache with
the value and the deadline it has in the live one. -/
def Keeps (steps : List Step) (T : Milliseconds) (k : Blob) : Prop :=
  (rebuild steps T).1 = .ok () ∧ Visible T ((rebuild steps T).2.lookup k) ∧
    (rebuild steps T).2.lookup k = (live steps).lookup k

/-- The live cache backs what recovery at `T` shows of `k`: it is visible there too, with the
same value and deadline. -/
def Backed (steps : List Step) (T : Milliseconds) (k : Blob) : Prop :=
  Visible T ((live steps).lookup k) ∧ (live steps).lookup k = (rebuild steps T).2.lookup k

/-- A key that is visible in the live cache at `T` survives a recovery at `T` exactly when
the log has, since the last `SET` on it, no deadline at or before `T` and no `PERSIST` of a
`SET`'s own deadline that lies at or before `T`. -/
theorem rebuilt_eq_live_iff (steps : List Step) (T : Milliseconds)
    (hT : ∀ r ∈ steps.flatMap Step.readings, r ≤ T) (k : Blob)
    (hlive : Visible T ((live steps).lookup k)) :
    Keeps steps T k ↔ Survives T (opsOn k (writes steps)) := by
  obtain ⟨hok, hrebuild⟩ := rebuild_spec steps T
  have hiff := applyAll_eq_run_iff (now_le_of_mem_events hT) (lookup_live steps k ▸ hlive)
  rw [log_events, ← lookup_live, ← hrebuild] at hiff
  constructor
  · rintro ⟨-, -, heq⟩
    exact hiff.1 heq
  · intro hsurv
    have heq := hiff.2 hsurv
    exact ⟨hok, heq ▸ hlive, heq⟩

/-- A deadline of 100 put on at time 2 and dropped at time 3 does no harm to a recovery at
time 50. -/
theorem keeps_persisted_before_deadline :
    let k := Blob.singleton 107
    let steps : List Step := [.command (.write (.set k .empty none)) ⟨1⟩ ⟨1⟩,
      .command (.write (.expireAt k ⟨100⟩)) ⟨2⟩ ⟨2⟩, .command (.write (.persist k)) ⟨3⟩ ⟨3⟩]
    (∀ r ∈ steps.flatMap Step.readings, r ≤ ⟨50⟩) ∧ Visible ⟨50⟩ ((live steps).lookup k) ∧
      Keeps steps ⟨50⟩ k := by
  intro k steps
  have hT : ∀ r ∈ steps.flatMap Step.readings, r ≤ ⟨50⟩ := by decide
  have hlive : Visible ⟨50⟩ ((live steps).lookup k) := by rw [lookup_live]; decide
  have hops : opsOn k (writes steps) = [.set .empty none, .expireAt ⟨100⟩, .persist] := rfl
  refine ⟨hT, hlive, (rebuilt_eq_live_iff steps ⟨50⟩ hT k hlive).2 ?_⟩
  rw [hops]
  intro pre v d post hsplit _
  rcases List.cons_eq_append_iff.1 hsplit with ⟨-, h⟩ | ⟨pre, -, htail⟩
  · cases h
    refine ⟨fun t ht ↦ ?_, fun t mid rest hd ↦ by cases hd⟩
    rcases List.mem_pair.1 ht with h | h
    · cases h; decide
    · cases h
  · have hmem : Op.set v d ∈ [Op.expireAt (⟨100⟩ : Milliseconds), .persist] := by
      rw [htail]; exact List.mem_append_right _ List.mem_cons_self
    rcases List.mem_pair.1 hmem with h | h
    · cases h
    · cases h

/-- A deadline of 100 dropped in time, at 50, is enforced by a recovery at 200. -/
theorem not_keeps_persisted_set :
    let k := Blob.singleton 107
    let steps : List Step := [.command (.write (.set k .empty (some ⟨100⟩))) ⟨1⟩ ⟨1⟩,
      .command (.write (.persist k)) ⟨50⟩ ⟨50⟩]
    Nondecreasing steps ∧ (∀ r ∈ steps.flatMap Step.readings, r ≤ ⟨200⟩) ∧
      (live steps).lookup k = some ⟨.empty, none⟩ ∧ Visible ⟨200⟩ ((live steps).lookup k) ∧
      (rebuild steps ⟨200⟩).2.lookup k = none ∧ ¬ Keeps steps ⟨200⟩ k := by
  intro k steps
  have hlive : (live steps).lookup k = some ⟨.empty, none⟩ := by rw [lookup_live]; rfl
  have hrebuilt : (rebuild steps ⟨200⟩).2.lookup k = none := by
    rw [(rebuild_spec steps ⟨200⟩).2]; rfl
  refine ⟨by decide, by decide, hlive, by rw [hlive]; decide, hrebuilt, ?_⟩
  rintro ⟨-, hvis, -⟩
  rw [hrebuilt] at hvis
  exact not_visible_none _ hvis

/-- A key that is visible after a recovery at `T` is what it is in the live cache exactly when
no read and no sweep dropped it between the last `SET` on it and the next deadline put on
it. -/
theorem live_eq_rebuilt_iff (steps : List Step) (T : Milliseconds)
    (hT : ∀ r ∈ steps.flatMap Step.readings, r ≤ T) (k : Blob)
    (hrebuilt : Visible T ((rebuild steps T).2.lookup k)) :
    Backed steps T k ↔ ¬ Dropped (events k steps) := by
  obtain ⟨-, hrebuild⟩ := rebuild_spec steps T
  have hvis := hrebuilt
  rw [hrebuild, ← log_events] at hvis
  have hiff := run_eq_applyAll_iff (now_le_of_mem_events hT) hvis
  rw [log_events, ← lookup_live, ← hrebuild] at hiff
  constructor
  · rintro ⟨-, heq⟩
    exact hiff.1 heq
  · intro hdrop
    have heq := hiff.2 hdrop
    exact ⟨heq ▸ hrebuilt, heq⟩

/-- A key read before its deadline and then given a later one is the same live and rebuilt. -/
theorem backed_redated_in_time :
    let k := Blob.singleton 107
    let steps : List Step := [.command (.write (.set k .empty (some ⟨100⟩))) ⟨1⟩ ⟨1⟩,
      .command (.read (.get k)) ⟨50⟩ ⟨50⟩, .command (.write (.expireAt k ⟨1000⟩)) ⟨60⟩ ⟨60⟩]
    (∀ r ∈ steps.flatMap Step.readings, r ≤ ⟨200⟩) ∧
      Visible ⟨200⟩ ((rebuild steps ⟨200⟩).2.lookup k) ∧ Backed steps ⟨200⟩ k := by
  intro k steps
  have hT : ∀ r ∈ steps.flatMap Step.readings, r ≤ ⟨200⟩ := by decide
  have hrebuilt : Visible ⟨200⟩ ((rebuild steps ⟨200⟩).2.lookup k) := by
    rw [(rebuild_spec steps ⟨200⟩).2]; decide
  have hevents : events k steps = [.write (.set .empty (some ⟨100⟩)) ⟨1⟩, .touch ⟨50⟩,
      .write (.expireAt ⟨1000⟩) ⟨60⟩] := rfl
  refine ⟨hT, hrebuilt, (live_eq_rebuilt_iff steps ⟨200⟩ hT k hrebuilt).2 ?_⟩
  rw [hevents]
  rintro ⟨pre, v, d, now, post, hsplit, -, t, mid, n, rest, hd, hpost, -, hle⟩
  rcases List.cons_eq_append_iff.1 hsplit with ⟨-, h⟩ | ⟨pre, -, htail⟩
  · -- the only touch of the key came at time 50
    cases h
    cases hd
    have hmem : Event.touch n ∈ [Event.touch (⟨50⟩ : Milliseconds),
        .write (.expireAt ⟨1000⟩ : Op Blob Milliseconds) ⟨60⟩] := by
      rw [hpost]; exact List.mem_append_right _ List.mem_cons_self
    rcases List.mem_pair.1 hmem with h | h
    · cases h; exact absurd hle (by decide)
    · cases h
  · have hmem : Event.write (.set v d) now ∈ [Event.touch (⟨50⟩ : Milliseconds),
        .write (.expireAt ⟨1000⟩ : Op Blob Milliseconds) ⟨60⟩] := by
      rw [htail]; exact List.mem_append_right _ List.mem_cons_self
    rcases List.mem_pair.1 hmem with h | h
    · cases h
    · cases h

/-- A key that expired at 100 and was dropped by a read at 150 comes back at a restart, because
the deadline it was refused at 160 is in the log. -/
theorem not_backed_dropped_by_get :
    let k := Blob.singleton 107
    let steps : List Step := [.command (.write (.set k .empty (some ⟨100⟩))) ⟨1⟩ ⟨1⟩,
      .command (.read (.get k)) ⟨150⟩ ⟨150⟩, .command (.write (.expireAt k ⟨1000⟩)) ⟨160⟩ ⟨160⟩]
    Nondecreasing steps ∧ (∀ r ∈ steps.flatMap Step.readings, r ≤ ⟨200⟩) ∧
      (rebuild steps ⟨200⟩).2.lookup k = some ⟨.empty, some ⟨1000⟩⟩ ∧
      Visible ⟨200⟩ ((rebuild steps ⟨200⟩).2.lookup k) ∧ (live steps).lookup k = none ∧
      ¬ Backed steps ⟨200⟩ k := by
  intro k steps
  have hlive : (live steps).lookup k = none := by rw [lookup_live]; rfl
  have hrebuilt : (rebuild steps ⟨200⟩).2.lookup k = some ⟨.empty, some ⟨1000⟩⟩ := by
    rw [(rebuild_spec steps ⟨200⟩).2]; rfl
  refine ⟨by decide, by decide, hrebuilt, by rw [hrebuilt]; decide, hlive, ?_⟩
  rintro ⟨hvis, -⟩
  rw [hlive] at hvis
  exact not_visible_none _ hvis

/-! ## Interleaved logs -/

/-- The log after the appends of several sessions, each tagged with the session that made it,
in the order in which they took the log's lock. -/
def logOf (appends : List (Nat × WriteCommand)) : Aof :=
  ((Aof.open []).runCalls (appends.map fun x ↦ .append x.2)).2

theorem logOf_eq (appends : List (Nat × WriteCommand)) :
    logOf appends = .open ((appends.map Prod.snd).flatMap WriteCommand.encode) := by
  have hcalls : appends.map (fun x ↦ Aof.Call.append x.2) =
      (appends.map Prod.snd).map .append := by rw [List.map_map]; rfl
  rw [logOf, hcalls, show Aof.open [] = .open (([] : List WriteCommand).flatMap _) from rfl,
    Aof.runCalls_eq, Aof.sinceClear_map_append]
  rfl

/-- A replay of interleaved appends, all at one reading of the clock. -/
theorem replay_logOf (appends : List (Nat × WriteCommand)) (now : Milliseconds) (c : Cache) :
    (logOf appends).replay (.ticking fun _ ↦ now) c =
      (.ok (), (Cache.executeWrites now (appends.map Prod.snd) c).2) := by
  rw [logOf_eq, Aof.replay_open, Aof.replayBytes_ticking, Aof.decode_flatMap,
    executeAll_eq_executeWrites]

/-- Only the order of the writes on each key matters: two lists that have the same writes in
the same order on every key leave the same map, and every write returns the same in both.  So
the order in which sessions that write different keys get to append makes no difference to what
is replayed. -/
theorem executeWrites_congr (now : Milliseconds) (c : Cache) :
    (∀ xs ys : List WriteCommand,
      (∀ k, Keyed.on WriteCommand.key k xs = Keyed.on WriteCommand.key k ys) →
      (Cache.executeWrites now xs c).2 = (Cache.executeWrites now ys c).2 ∧
        ∀ k, Keyed.on (fun p ↦ p.1.key) k (Cache.executeWrites now xs c).1 =
          Keyed.on (fun p ↦ p.1.key) k (Cache.executeWrites now ys c).1) ∧
    ∀ xs ys : List (Nat × WriteCommand),
      (∀ session, Keyed.on Prod.fst session xs = Keyed.on Prod.fst session ys) →
      (∀ x ∈ xs, ∀ y ∈ xs, x.2.key = y.2.key → x.1 = y.1) →
      (logOf xs).replay (.ticking fun _ ↦ now) c = (logOf ys).replay (.ticking fun _ ↦ now) c := by
  have hcongr {xs ys : List WriteCommand}
      (h : ∀ k, Keyed.on WriteCommand.key k xs = Keyed.on WriteCommand.key k ys) :=
    (Cache.local_executeWrite now).run_congr Finmap.ext_lookup h c
  refine ⟨fun xs ys h ↦ hcongr h, fun xs ys hsame hdisjoint ↦ ?_⟩
  obtain ⟨hmap, -⟩ := hcongr (Keyed.on_eq_of_interleaving hsame hdisjoint)
  rw [replay_logOf, replay_logOf]
  exact congrArg (Prod.mk _) hmap

/-- One session sets a key and another deletes another key, in either order. -/
theorem executeWrites_congr_two :
    let a : WriteCommand := .set (.singleton 97) .empty none
    let b : WriteCommand := .delete (.singleton 98)
    (Cache.executeWrites ⟨0⟩ [a, b] ∅).2 = (Cache.executeWrites ⟨0⟩ [b, a] ∅).2 ∧
      (logOf [(0, a), (1, b)]).replay (.ticking fun _ ↦ ⟨0⟩) ∅ =
        (logOf [(1, b), (0, a)]).replay (.ticking fun _ ↦ ⟨0⟩) ∅ := by
  intro a b
  obtain ⟨hlists, hlogs⟩ := executeWrites_congr ⟨0⟩ ∅
  refine ⟨(hlists [a, b] [b, a] fun k ↦ ?_).1, hlogs _ _ (fun session ↦ ?_) (by decide)⟩
  · by_cases ha : a.key = k
    · have hb : b.key ≠ k := by rw [← ha]; decide
      simp [Keyed.on, ha, hb]
    · by_cases hb : b.key = k <;> simp [Keyed.on, ha, hb]
  · rcases session with _ | _ | session <;> simp [Keyed.on]

end Steller
