import Mathlib.Data.Finmap
import Steller.Lib.Expiry
import Steller.Domain.Command

/-!
# The cache

The key-value store behind the shared mutex.  Each method is a function of the
map it finds under the lock and of what the clock answers; it returns its result
together with the map it leaves.  A clock that fails is an answer like any
other, and `execute_error` says what the methods have in common there: a failed
command leaves the map as it was.

A poisoned lock is not modelled: no critical section of the source can panic.

The bridge to `Steller.Lib.Expiry` is `lookup_execute` and
`lookup_removeExpired`: seen from one key, a write is one `Expiry.Op`, a read
or a sweep is one `Expiry.purge`, and every other key is left alone.
-/

namespace Steller

open Expiry

/-- Value bytes plus an optional deadline. -/
abbrev Entry := Expiry.Entry Blob Milliseconds

/-- The map under the lock, `HashMap<Vec<u8>, Entry>`. -/
abbrev Cache := Finmap fun _ : Blob ↦ Entry

/-- Failure inside a cache operation. -/
inductive CacheError where
  | systemTime (error : SystemTimeError)
deriving DecidableEq, Repr

namespace Cache

/-- Fetch the entry for `key`; an expired one is removed on the way out. -/
def get (c : Cache) (now : Reading) (key : Blob) : Except CacheError (Option Entry) × Cache :=
  match now with
  | .error e => (.error (.systemTime e), c)
  | .ok now => match c.lookup key with
    | none => (.ok none, c)
    | some e => if e.ExpiredAt now then (.ok none, c.erase key) else (.ok (some e), c)

/-- Insert or replace `key`, returning whatever was there before. -/
def insert (c : Cache) (key : Blob) (entry : Entry) : Option Entry × Cache :=
  (c.lookup key, Finmap.insert key entry c)

/-- Remove `key` unconditionally, returning whatever was there. -/
def remove (c : Cache) (key : Blob) : Option Entry × Cache := (c.lookup key, c.erase key)

/-- Test for `key`; an expired one is dropped on the way out.  The clock is read only when
the key has a deadline. -/
def contains (c : Cache) (now : Reading) (key : Blob) : Except CacheError Bool × Cache :=
  match c.lookup key with
  | none => (.ok false, c)
  | some ⟨_, none⟩ => (.ok true, c)
  | some ⟨_, some t⟩ => match now with
    | .error e => (.error (.systemTime e), c)
    | .ok now => if t ≤ now then (.ok false, c.erase key) else (.ok true, c)

/-- Put a deadline on an existing key.  One that has passed deletes the key.  The deadline
the key already has is not looked at. -/
def setExpiresAt (c : Cache) (now : Reading) (key : Blob) (expiresAt : Milliseconds) :
    Except CacheError Bool × Cache :=
  match now with
  | .error e => (.error (.systemTime e), c)
  | .ok now =>
      if expiresAt ≤ now then
        let (old, c) := remove c key
        (.ok old.isSome, c)
      else match c.lookup key with
        | none => (.ok false, c)
        | some e => (.ok true, (insert c key { e with expiresAt := some expiresAt }).2)

/-- The first critical section of `expires_at`: copy the deadline out. -/
def peekExpiresAt (c : Cache) (key : Blob) : Option (Option Milliseconds) :=
  (c.lookup key).map (·.expiresAt)

/-- Query the deadline on `key`: `none` for a missing key, `some none` for no deadline.  The
lock is released before the clock is read; an expired key is removed under a second one. -/
def expiresAt (c : Cache) (now : Reading) (key : Blob) :
    Except CacheError (Option (Option Milliseconds)) × Cache :=
  match peekExpiresAt c key with
  | none => (.ok none, c)
  | some deadline => match now with
    | .error e => (.error (.systemTime e), c)
    | .ok now =>
        if ∃ t ∈ deadline, t ≤ now then (.ok none, (remove c key).2) else (.ok (some deadline), c)

/-- Time remaining on `key`, which takes a second reading of the clock. -/
def timeToLive (c : Cache) (now later : Reading) (key : Blob) :
    Except CacheError (Option (Option Milliseconds)) × Cache :=
  match expiresAt c now key with
  | (.error e, c) => (.error e, c)
  | (.ok none, c) => (.ok none, c)
  | (.ok (some none), c) => (.ok (some none), c)
  | (.ok (some (some t)), c) => match later with
    | .error e => (.error (.systemTime e), c)
    | .ok later => (.ok (some (some (t.saturatingSub later))), c)

/-- Drop the deadline on `key` but keep the value; a key whose deadline has passed is dropped
instead. -/
def removeTtl (c : Cache) (now : Reading) (key : Blob) : Except CacheError Bool × Cache :=
  match c.lookup key with
  | none => (.ok false, c)
  | some ⟨_, none⟩ => (.ok false, c)
  | some ⟨value, some deadline⟩ => match now with
    | .error e => (.error (.systemTime e), c)
    | .ok now =>
        if deadline ≤ now then (.ok false, c.erase key)
        else (.ok true, (insert c key ⟨value, none⟩).2)

/-- Erasing two keys commutes, so a set of keys can be erased in any order. -/
instance : RightCommutative fun (c : Cache) (key : Blob) ↦ c.erase key :=
  ⟨fun _ _ _ ↦ Finmap.erase_erase⟩

/-- Sweep every expired entry, returning how many went. -/
def removeExpired (c : Cache) (now : Reading) : Except CacheError Nat × Cache :=
  match now with
  | .error e => (.error (.systemTime e), c)
  | .ok now =>
      let expired := c.keys.filter fun key ↦
        (c.lookup key).any fun e ↦ decide (e.ExpiredAt now)
      (.ok expired.card, expired.val.foldl (fun c key ↦ c.erase key) c)

/-- Apply one parsed command and return what the client is owed. -/
def execute (c : Cache) (now later : Reading) :
    CacheCommand → Except CacheError CommandOutcome × Cache
  | .read (.get key) => match get c now key with
    | (.error e, c) => (.error e, c)
    | (.ok entry, c) => (.ok (.value (entry.map (·.value))), c)
  | .read (.exists key) => match contains c now key with
    | (.error e, c) => (.error e, c)
    | (.ok b, c) => (.ok (.integer (if b then 1 else 0)), c)
  | .read (.ttl key) => match timeToLive c now later key with
    | (.error e, c) => (.error e, c)
    | (.ok none, c) => (.ok (.ttl .keyNotFound), c)
    | (.ok (some none), c) => (.ok (.ttl .ttlNotFound), c)
    | (.ok (some (some ttl)), c) => (.ok (.ttl (.some ttl.toSecondsRoundedUp)), c)
  | .write (.set key value expiresAt) => (.ok .ok, (insert c key ⟨value, expiresAt⟩).2)
  | .write (.delete key) =>
      let (old, c) := remove c key
      (.ok (.bool old.isSome), c)
  | .write (.expireAt key t) => match setExpiresAt c now key t with
    | (.error e, c) => (.error e, c)
    | (.ok b, c) => (.ok (.bool b), c)
  | .write (.persist key) => match removeTtl c now key with
    | (.error e, c) => (.error e, c)
    | (.ok b, c) => (.ok (.bool b), c)

/-! ## One key at a time -/

/-- Point update: what a critical section does to the map, in terms of the slot it looks
at. -/
def update (c : Cache) (key : Blob) : Option Entry → Cache
  | none => c.erase key
  | some e => Finmap.insert key e c

theorem lookup_update (c : Cache) (key k : Blob) (o : Option Entry) :
    (update c key o).lookup k = if k = key then o else c.lookup k := by
  by_cases hk : k = key
  · subst hk
    rw [if_pos rfl]
    cases o with
    | none => exact Finmap.lookup_erase k c
    | some e => exact Finmap.lookup_insert c
  · rw [if_neg hk]
    cases o with
    | none => exact Finmap.lookup_erase_ne hk
    | some e => exact Finmap.lookup_insert_of_ne c hk

/-- Writing back what is there changes nothing. -/
theorem update_of_lookup {c : Cache} {key : Blob} {o : Option Entry} (h : c.lookup key = o) :
    update c key o = c := by
  refine Finmap.ext_lookup fun k ↦ ?_
  rw [lookup_update]
  split
  · next hk => rw [hk, h]
  · rfl

theorem get_eq (c : Cache) (now : Milliseconds) (key : Blob) :
    get c (.ok now) key =
      (.ok (purge now (c.lookup key)), update c key (purge now (c.lookup key))) := by
  rw [get]
  cases h : c.lookup key with
  | none => rw [purge_none, update_of_lookup h]
  | some e =>
      by_cases he : e.ExpiredAt now
      · simp only [if_pos he, purge_of_expired he]; rfl
      · simp only [if_neg he, purge_of_not_expired he, update_of_lookup h]

theorem contains_eq (c : Cache) (now : Milliseconds) (key : Blob) :
    contains c (.ok now) key =
      (.ok (purge now (c.lookup key)).isSome, update c key (purge now (c.lookup key))) := by
  rw [contains]
  cases h : c.lookup key with
  | none => rw [purge_none, update_of_lookup h]; rfl
  | some e =>
      obtain ⟨v, d⟩ := e
      cases d with
      | none => rw [purge_of_not_expired (expiredAt_none now v), update_of_lookup h]; rfl
      | some t =>
          by_cases ht : t ≤ now
          · simp only [if_pos ht, purge_of_expired (expiredAt_some.2 ht)]; rfl
          · simp only [if_neg ht, purge_of_not_expired (mt expiredAt_some.1 ht),
              update_of_lookup h]
            rfl

theorem expiresAt_eq (c : Cache) (now : Milliseconds) (key : Blob) :
    expiresAt c (.ok now) key =
      (.ok ((purge now (c.lookup key)).map (·.expiresAt)),
        update c key (purge now (c.lookup key))) := by
  rw [expiresAt, peekExpiresAt]
  cases h : c.lookup key with
  | none => rw [purge_none, update_of_lookup h]; rfl
  | some e =>
      by_cases he : e.ExpiredAt now
      · have he' : ∃ t ∈ e.expiresAt, t ≤ now := he
        simp only [Option.map_some, if_pos he', purge_of_expired he]
        rfl
      · have he' : ¬ ∃ t ∈ e.expiresAt, t ≤ now := he
        simp only [Option.map_some, if_neg he', purge_of_not_expired he, update_of_lookup h]

theorem setExpiresAt_eq (c : Cache) (now : Milliseconds) (key : Blob) (t : Milliseconds) :
    setExpiresAt c (.ok now) key t =
      (.ok (c.lookup key).isSome, update c key ((Op.expireAt t).apply now (c.lookup key))) := by
  rw [setExpiresAt, Op.apply]
  by_cases ht : t ≤ now
  · simp only [if_pos ht]; rfl
  · simp only [if_neg ht]
    cases h : c.lookup key with
    | none => rw [Option.map_none, update_of_lookup h]; rfl
    | some e => rfl

theorem removeTtl_eq (c : Cache) (now : Milliseconds) (key : Blob) :
    removeTtl c (.ok now) key =
      (.ok ((purge now (c.lookup key)).any (·.expiresAt.isSome)),
        update c key (Op.persist.apply now (c.lookup key))) := by
  rw [removeTtl]
  cases h : c.lookup key with
  | none => rw [Op.apply, update_of_lookup h]; rfl
  | some e =>
      obtain ⟨v, d⟩ := e
      cases d with
      | none =>
          rw [Op.apply, purge_of_not_expired (expiredAt_none now v), update_of_lookup h]; rfl
      | some t =>
          by_cases ht : t ≤ now
          · simp only [Op.apply, if_pos ht, purge_of_expired (expiredAt_some.2 ht)]; rfl
          · simp only [Op.apply, if_neg ht, purge_of_not_expired (mt expiredAt_some.1 ht)]; rfl

/-! ## Sweeps -/

theorem lookup_foldl_erase (keys : Multiset Blob) (c : Cache) (k : Blob) :
    (keys.foldl (fun c key ↦ c.erase key) c).lookup k =
      if k ∈ keys then none else c.lookup k := by
  induction keys using Multiset.induction_on generalizing c with
  | empty => simp
  | cons key keys ih =>
      rw [Multiset.foldl_cons, ih]
      by_cases hk : k ∈ keys
      · rw [if_pos hk, if_pos (Multiset.mem_cons_of_mem hk)]
      · rw [if_neg hk]
        by_cases hkey : k = key
        · subst hkey
          rw [if_pos (Multiset.mem_cons_self k keys), Finmap.lookup_erase]
        · rw [if_neg fun h ↦ (Multiset.mem_cons.1 h).elim hkey hk, Finmap.lookup_erase_ne hkey]

/-- A sweep touches every key. -/
theorem lookup_removeExpired (c : Cache) (now : Milliseconds) (k : Blob) :
    (removeExpired c (.ok now)).2.lookup k = purge now (c.lookup k) := by
  rw [removeExpired, lookup_foldl_erase]
  simp only [Finset.mem_val, Finset.mem_filter, Finmap.mem_keys]
  cases h : c.lookup k with
  | none => simp
  | some e =>
      have hmem : k ∈ c := Finmap.mem_of_lookup_eq_some h
      by_cases he : e.ExpiredAt now
      · rw [if_pos ⟨hmem, by simp [he]⟩, purge_of_expired he]
      · rw [if_neg fun hk ↦ he (by simpa using hk.2), purge_of_not_expired he]

/-- The count of a sweep is of the keys it removes. -/
theorem removeExpired_fst (c : Cache) (now : Milliseconds) :
    (removeExpired c (.ok now)).1 =
      .ok (c.keys \ (removeExpired c (.ok now)).2.keys).card := by
  have hgone : c.keys \ (removeExpired c (.ok now)).2.keys =
      c.keys.filter fun key ↦ (c.lookup key).any fun e ↦ decide (e.ExpiredAt now) := by
    ext k
    rw [Finset.mem_sdiff, Finset.mem_filter, Finmap.mem_keys, Finmap.mem_keys,
      ← Finmap.lookup_eq_none, lookup_removeExpired]
    refine and_congr_right fun hk ↦ ?_
    obtain ⟨e, he⟩ := Finmap.mem_iff.1 hk
    by_cases hx : e.ExpiredAt now
    · simp [he, hx, purge_of_expired]
    · simp [he, hx, purge_of_not_expired]
  rw [hgone]
  rfl

end Cache

/-! ## Commands as register events -/

/-- The write a command makes to the slot of its key. -/
def WriteCommand.op : WriteCommand → Op Blob Milliseconds
  | .set _ value expiresAt => .set value expiresAt
  | .delete _ => .delete
  | .expireAt _ expiresAt => .expireAt expiresAt
  | .persist _ => .persist

/-- What a command does to the slot of its key. -/
def CacheCommand.event (now : Milliseconds) : CacheCommand → Event Blob Milliseconds
  | .read _ => .touch now
  | .write command => .write command.op now

/-- What a read reports of the entry it finds; `later` is the second reading of
`time_to_live`. -/
def ReadCommand.answer (later : Milliseconds) : ReadCommand → Option Entry → CommandOutcome
  | .get _, o => .value (o.map (·.value))
  | .exists _, o => .integer (if o.isSome then 1 else 0)
  | .ttl _, none => .ttl .keyNotFound
  | .ttl _, some ⟨_, none⟩ => .ttl .ttlNotFound
  | .ttl _, some ⟨_, some t⟩ => .ttl (.some (t.saturatingSub later).toSecondsRoundedUp)

/-- What a command answers, in terms of the slot of its key.  A read and a `PERSIST` see no
expired entry; a `DEL` and a deadline do. -/
def CacheCommand.outcome (now later : Milliseconds) : CacheCommand → Option Entry → CommandOutcome
  | .read rc, o => rc.answer later (purge now o)
  | .write (.set _ _ _), _ => .ok
  | .write (.delete _), o => .bool o.isSome
  | .write (.expireAt _ _), o => .bool o.isSome
  | .write (.persist _), o => .bool ((purge now o).any (·.expiresAt.isSome))

namespace Cache

/-- With a working clock a command answers from the slot of its key, and updates that slot by
the register event it stands for. -/
theorem execute_ok (c : Cache) (now later : Milliseconds) (cc : CacheCommand) :
    execute c (.ok now) (.ok later) cc =
      (.ok (cc.outcome now later (c.lookup cc.key)),
        update c cc.key ((cc.event now).apply (c.lookup cc.key))) := by
  rcases cc with (key | key | key) | (⟨key, v, d⟩ | key | ⟨key, t⟩ | key)
  · rw [execute, get_eq]; rfl
  · rw [execute, contains_eq]; rfl
  · rw [execute, timeToLive, expiresAt_eq]
    simp only [CacheCommand.outcome, CacheCommand.key, ReadCommand.key, CacheCommand.event,
      Event.apply]
    rcases purge now (c.lookup key) with _ | ⟨v, _ | t⟩ <;> rfl
  · rfl
  · rfl
  · rw [execute, setExpiresAt_eq]; rfl
  · rw [execute, removeTtl_eq]; rfl

/-- With a working clock a command succeeds, and leaves the map updated at its key by the
register event it stands for. -/
theorem execute_eq (c : Cache) (now later : Milliseconds) (cc : CacheCommand) :
    ∃ outcome, execute c (.ok now) (.ok later) cc =
      (.ok outcome, update c cc.key ((cc.event now).apply (c.lookup cc.key))) :=
  ⟨_, execute_ok c now later cc⟩

/-- Seen from key `k`, a command is its register event if it names `k` and nothing
otherwise. -/
theorem lookup_execute (c : Cache) (now later : Milliseconds) (cc : CacheCommand) (k : Blob) :
    (execute c (.ok now) (.ok later) cc).2.lookup k =
      if k = cc.key then (cc.event now).apply (c.lookup k) else c.lookup k := by
  obtain ⟨outcome, h⟩ := execute_eq c now later cc
  rw [h, lookup_update]
  split
  · next hk => rw [hk]
  · rfl

/-- A command that fails, which takes a failed clock, leaves the map as it was. -/
theorem execute_error {c : Cache} {now later : Reading} {cc : CacheCommand} {e : CacheError}
    (h : (execute c now later cc).1 = .error e) : (execute c now later cc).2 = c := by
  rcases cc with (key | key | key) | (⟨key, v, d⟩ | key | ⟨key, t⟩ | key)
  · cases now with
    | error x => rfl
    | ok now => rw [execute, get_eq] at h; cases h
  · grind [execute, contains]
  · cases now with
    | error x => grind [execute, timeToLive, expiresAt]
    | ok now =>
        rw [execute, timeToLive, expiresAt_eq] at h ⊢
        -- past the first reading only a live deadline, whose key is kept, can still fail
        cases hc : c.lookup key with
        | none => rw [hc] at h; cases h
        | some entry =>
            by_cases hx : entry.ExpiredAt now
            · rw [hc, purge_of_expired hx] at h; cases h
            · rw [purge_of_not_expired hx, update_of_lookup hc]
              obtain ⟨v, _ | t⟩ := entry
              · rfl
              · cases later with
                | error x => rfl
                | ok later => rfl
  · cases h
  · cases h
  · cases now with
    | error x => rfl
    | ok now => rw [execute, setExpiresAt_eq] at h; cases h
  · grind [execute, removeTtl]

end Cache

end Steller
