import Steller.Domain.Executor
import Steller.Outbound.Aof

/-!
# The persister

The log and the snapshot, each over its own file, and the recovery a server
makes from the two when it starts: load the snapshot, replay the log on top,
sweep.

`wincode` is not part of the repository.  It is a parameter here, with what the
code relies on: whatever it serialized it deserializes to the same map, and it
never serializes a map to no bytes at all, which `load` reads as "no snapshot
yet".
-/

namespace Steller

/-- `wincode::WriteError`. -/
inductive WriteError where
  | custom
deriving DecidableEq

/-- `wincode::ReadError`. -/
inductive ReadError where
  | custom
deriving DecidableEq

/-- The serializer, as far as the snapshot uses it. -/
structure Wincode where
  serialize : Cache → Except WriteError Bytes
  deserialize : Bytes → Except ReadError Cache
  /-- What was written is read back. -/
  deserialize_of_serialize : ∀ {map bytes}, serialize map = .ok bytes → deserialize bytes = .ok map
  /-- A map takes at least its length prefix. -/
  serialize_ne_nil : ∀ {map bytes}, serialize map = .ok bytes → bytes ≠ []

/-- A serializer that knows a single map and refuses every other: what a run needs that
snapshots no other map. -/
def Wincode.ofMap (known : Cache) (bytes : Bytes) (h : bytes ≠ []) : Wincode where
  serialize map := if map = known then .ok bytes else .error .custom
  deserialize b := if b = bytes then .ok known else .error .custom
  deserialize_of_serialize := by
    intro map b hb
    split at hb
    · next hmap => cases hb; rw [if_pos rfl, hmap]
    · cases hb
  serialize_ne_nil := by
    intro map b hb
    split at hb
    · cases hb; exact h
    · cases hb

/-- Failure loading or storing a snapshot. -/
inductive SnapshotError where
  | io (error : IoError)
  | read (error : ReadError)
  | write (error : WriteError)
deriving DecidableEq

/-- The snapshot file. -/
structure Snapshot where
  file : Bytes
deriving DecidableEq

/-- Where the file system can stop a store. -/
inductive StoreFault where
  /-- The temp file cannot be created. -/
  | createTemp (error : IoError)
  /-- The temp file cannot be written or synced, or the rename fails. -/
  | replace (error : IoError)
  /-- The rename is done, but the folder cannot be opened or synced. -/
  | syncFolder (error : IoError)
deriving DecidableEq

namespace Snapshot

variable (wincode : Wincode)

/-- Load the snapshot into a map; an empty file is an empty map. -/
def load (self : Snapshot) : Except SnapshotError Cache :=
  if self.file.isEmpty then .ok ∅ else (wincode.deserialize self.file).mapError .read

/-- Write the map as the new snapshot: a temp file, then a rename over the live one.  The
rename is atomic, so the live file is the old one or the new one. -/
def store (fault : Option StoreFault) (self : Snapshot) (guard : Cache) :
    Except SnapshotError Unit × Snapshot :=
  match fault with
  | some (.createTemp e) => (.error (.io e), self)
  | some (.replace e) => match wincode.serialize guard with
    | .error e' => (.error (.write e'), self)
    | .ok _ => (.error (.io e), self)
  | some (.syncFolder e) => match wincode.serialize guard with
    | .error e' => (.error (.write e'), self)
    | .ok bytes => (.error (.io e), ⟨bytes⟩)
  | none => match wincode.serialize guard with
    | .error e' => (.error (.write e'), self)
    | .ok bytes => (.ok (), ⟨bytes⟩)

/-- Whether a store gets as far as its rename. -/
def renames (fault : Option StoreFault) (guard : Cache) : Bool :=
  match fault with
  | some (.createTemp _) => false
  | some (.replace _) => false
  | some (.syncFolder _) => (wincode.serialize guard).isOk
  | none => (wincode.serialize guard).isOk

theorem load_of_serialize {guard : Cache} {bytes : Bytes}
    (h : wincode.serialize guard = .ok bytes) : load wincode ⟨bytes⟩ = .ok guard := by
  rw [load, if_neg (mt List.isEmpty_iff.1 (wincode.serialize_ne_nil h)),
    wincode.deserialize_of_serialize h]
  rfl

/-- A store that does not get as far as its rename fails and leaves the old file; one that does
leaves a file that loads as the map it was given. -/
theorem store_cases (fault : Option StoreFault) (self : Snapshot) (guard : Cache) :
    (renames wincode fault guard = false ∧ (store wincode fault self guard).2 = self ∧
        ∃ e, (store wincode fault self guard).1 = .error e) ∨
      (renames wincode fault guard = true ∧
        (store wincode fault self guard).2.load wincode = .ok guard) := by
  rcases fault with _ | (e | e | e)
  · rw [store, renames]
    cases h : wincode.serialize guard with
    | error e => exact .inl ⟨rfl, rfl, _, rfl⟩
    | ok bytes => exact .inr ⟨rfl, load_of_serialize wincode h⟩
  · exact .inl ⟨rfl, rfl, _, rfl⟩
  · rw [store]
    cases h : wincode.serialize guard with
    | error e => exact .inl ⟨rfl, rfl, _, rfl⟩
    | ok bytes => exact .inl ⟨rfl, rfl, _, rfl⟩
  · rw [store, renames]
    cases h : wincode.serialize guard with
    | error e => exact .inl ⟨rfl, rfl, _, rfl⟩
    | ok bytes => exact .inr ⟨rfl, load_of_serialize wincode h⟩

end Snapshot

/-- The persistence adapter: the log and the snapshot. -/
structure Persister where
  aof : Aof
  snapshot : Snapshot
deriving DecidableEq

/-- `Aof::clear` on a file that may refuse to be truncated.  Nothing is buffered between two
appends, so the failed call leaves the log as it found it. -/
def Aof.clearUnless (fault : Option IoError) (self : Aof) : Except AofError Unit × Aof :=
  match fault with
  | some e => (.error (.io e), self)
  | none => self.clear

namespace Persister

/-- `Persister::initialize` on two files that do not exist yet. -/
def empty : Persister := ⟨.open [], ⟨[]⟩⟩

instance : CacheRepository Persister where
  append self command := match self.aof.append command with
    | (.error _, aof) => (.error .generic, { self with aof })
    | (.ok (), aof) => (.ok (), { self with aof })

theorem append_eq (self : Persister) (command : WriteCommand) :
    CacheRepository.append self command =
      (.ok (), { self with aof := .open (self.aof.writer.contents ++ command.encode) }) := by
  change (match self.aof.append command with
    | (.error _, aof) => _
    | (.ok (), aof) => _) = _
  rw [Aof.append_eq]

/-- Snapshot then compact.  The caller holds the cache lock across both. -/
def takeSnapshot (wincode : Wincode) (storeFault : Option StoreFault) (clearFault : Option IoError)
    (self : Persister) (guard : Cache) : Except RepositoryError Unit × Persister :=
  match self.snapshot.store wincode storeFault guard with
  | (.error _, snapshot) => (.error .generic, { self with snapshot })
  | (.ok (), snapshot) => match self.aof.clearUnless clearFault with
    | (.error _, aof) => (.error .generic, ⟨aof, snapshot⟩)
    | (.ok (), aof) => (.ok (), ⟨aof, snapshot⟩)

end Persister

/-! ## Starting -/

/-- Why a start failed. -/
inductive StartError where
  | snapshot (error : SnapshotError)
  | aof (error : AofError)
  | cache (error : CacheError)
deriving DecidableEq

/-- What `Server::run` does before the first client: load the snapshot, replay the log on top,
sweep what has expired. -/
def recover (wincode : Wincode) (persister : Persister) (clock : Aof.Clock) (now : Reading) :
    Except StartError Cache :=
  match persister.snapshot.load wincode with
  | .error e => .error (.snapshot e)
  | .ok map => match persister.aof.replay clock map with
    | (.error e, _) => .error (.aof e)
    | (.ok (), cache) => match cache.removeExpired now with
      | (.error e, _) => .error (.cache e)
      | (.ok _, cache) => .ok cache

/-- A start from a snapshot that loads and a log that decodes succeeds; the cache is the loaded
map with the logged writes executed on it, swept. -/
theorem recover_of_decode {wincode : Wincode} {persister : Persister} {map : Cache}
    {logged : List WriteCommand} {file : Bytes} {times : Nat → Milliseconds}
    (hload : persister.snapshot.load wincode = .ok map) (hlog : persister.aof = .open file)
    (hdecode : Aof.decode (.ticking times) file = (logged.map WriteCommand.toCommand, .ok ()))
    (now : Milliseconds) :
    recover wincode persister (.ticking times) (.ok now) =
      .ok ((Aof.executeAll (.ticking times) 0 (logged.map WriteCommand.toCommand)
        map).2.removeExpired (.ok now)).2 := by
  rw [recover, hload, hlog]
  simp only
  rw [Aof.replay_open, Aof.replayBytes_ticking, hdecode]
  rfl

end Steller
