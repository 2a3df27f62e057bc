import Steller.Inbound.Server
import Steller.Outbound.Restart

/-!
# Power loss

A kill keeps what the files hold.  A power loss keeps only what has reached the
disk.  `store` syncs the snapshot and its folder before it returns, but an append
is flushed and not synced, and neither is the truncation of a `clear`.  So the
machine comes back with the snapshot as it was and with a log as it was at some
earlier moment, perhaps with a torn frame behind it: even a log that has been
cleared since, with a snapshot that is newer than all of it.

For a key that has been left alone since that moment this makes no difference
(`recover_eq_live_of_powerLoss`).  It is `WriteAhead.Settled`: replaying the
stale log over the newer snapshot gives what it gave over the older one.  A key
that has been written in the meantime can come back as it never was
(`recover_adds_deadline`).

A store whose folder sync failed may be gone as well.  For the files, and for
everything up to the next start, that is the run in which it failed at the
rename.
-/

namespace Steller

open Expiry Transition

/-- The files after a power loss: the snapshot of now, and the log as it was `written`, with what
there is of the next append. -/
def Persister.afterPowerLoss (self written : Persister) (torn : Option Torn) : Persister :=
  { self with aof := .open (written.aof.writer.file ++ (torn.map Torn.bytes).getD []) }

namespace Server

variable {wincode : Wincode} {k : Blob}

/-- No session has a write on `k` in flight. -/
def Quiet (k : Blob) (σ : Server) : Prop :=
  ∀ session command, σ.pending session = some command → command.key ≠ k

/-- The step is not a write on `k`. -/
def Label.Spares (k : Blob) (l : Label) : Prop :=
  ∀ session command now, l = .write session command now → command.key ≠ k

theorem Label.Spares.uncontended {l : Label} (h : l.Spares k) (σ : Server) :
    Uncontended k σ l := by
  intro session command now hl hk
  exact absurd hk (h session command now hl)

theorem Quiet.step {σ σ' : Server} {l : Label} (h : σ.Quiet k) (hl : l.Spares k)
    (hstep : step wincode σ l = some σ') : σ'.Quiet k := by
  cases steps_of_step hstep with
  | @write session command now =>
      refine forall_pending_update h session fun c hc ↦ ?_
      obtain rfl := Option.some.inj hc
      exact hl session command now rfl
  | append => exact forall_pending_update h _ fun c hc ↦ by cases hc
  | lock => exact h
  | storeFailed => exact h
  | store => exact h
  | clear => exact h
  | clearFailed => exact h
  | unlock => exact h
  | crash => rintro session command ⟨⟩

variable {D : Set Milliseconds} {T : Milliseconds} (hT : ∀ d ∈ D, T < d)

variable (wincode) in
/-- Nobody is writing `k`, and `stale`, which was once the log, recovers its content `entry` from
the snapshot there is. -/
def Stale (D : Set Milliseconds) (T : Milliseconds) (k : Blob) (stale : List WriteCommand)
    (entry : Option Entry) (σ : Server) : Prop :=
  σ.Quiet k ∧ ∃ logged map, Holds wincode D T k σ logged map none ∧
    WriteAhead.Settled (Op.apply T) (opsOn k stale) entry (slotAt k σ logged map none)

theorem Stale.start {σ : Server} {logged : List WriteCommand} {map : Cache}
    (hquiet : σ.Quiet k) (h : Holds wincode D T k σ logged map none) :
    Stale wincode D T k logged (σ.cache.lookup k) σ :=
  ⟨hquiet, logged, map, h, .refl (applyAll_idem T) h.slot⟩

include hT

/-- Step lemma: what leaves `k` alone leaves what the stale log recovers. -/
theorem Stale.step {stale : List WriteCommand} {entry : Option Entry} {σ σ' : Server} {l : Label}
    (h : Stale wincode D T k stale entry σ) (hl : l.Respects D ∧ l.Spares k)
    (hstep : step wincode σ l = some σ') : Stale wincode D T k stale entry σ' := by
  obtain ⟨hquiet, logged, map, hholds, hsettled⟩ := h
  have hquiet' := hquiet.step hl.2 hstep
  obtain ⟨logged', map', pend', hholds', hmove⟩ := hholds.step hT (fun _ ↦ True)
    ⟨hl.1, hl.2.uncontended σ⟩ (fun _ _ _ ↦ trivial) hstep
  obtain rfl : pend' = none := hholds'.pending.eq_none hquiet'
  exact ⟨hquiet', logged', map', hholds', hsettled.move (applyAll_idem T) hholds.slot hmove rfl⟩

omit hT

/-- An `EXPIRE` for a key that does not exist changes nothing, and is logged. -/
theorem exec_expireAt_absent (wincode : Wincode) (k : Blob) {d now : Milliseconds} (hd : now < d) :
    exec (step wincode) init [.write 0 (.expireAt k d) now, .append 0] =
      some { init with persister := ⟨.open (WriteCommand.expireAt k d).encode, ⟨[]⟩⟩ } := by
  have hexpire : (Cache.execute ∅ (.ok now) (.ok now) (.write (.expireAt k d))).2 = ∅ := by
    simp [Cache.execute, Cache.setExpiresAt, not_le.2 hd]
  simp [exec, step, init, hexpire, Persister.append_eq, Persister.empty]

/-- A first write and a snapshot: the log ends up empty, whatever was in it. -/
theorem exec_set_snapshot {wincode : Wincode} {k v : Blob} {bytes : Bytes}
    (hbytes : wincode.serialize (Finmap.insert k ⟨v, none⟩ ∅) = .ok bytes) (file : Bytes)
    (now : Milliseconds) :
    exec (step wincode) { init with persister := ⟨.open file, ⟨[]⟩⟩ }
        [.write 0 (.set k v none) now, .append 0, .lock, .store none, .clear none, .unlock] =
      some ⟨Finmap.insert k ⟨v, none⟩ ∅, ⟨.open [], ⟨bytes⟩⟩, fun _ ↦ none, .idle⟩ := by
  have hset : (Cache.execute ∅ (.ok now) (.ok now) (.write (.set k v none))).2 =
      Finmap.insert k ⟨v, none⟩ ∅ := by
    simp [Cache.execute, Cache.insert]
  have hclear (file : Bytes) : (Aof.open file).clear = (.ok (), .open []) := rfl
  simp [exec, step, init, hset, Persister.append_eq, Snapshot.store, hbytes, Aof.clearUnless,
    hclear]

/-- A key without a deadline in the snapshot gets the one that the log has for it. -/
theorem recover_expireAt {persister : Persister} {map : Cache} {v : Blob} {d now : Milliseconds}
    (hd : now < d) (hload : persister.snapshot.load wincode = .ok map)
    (hlog : persister.aof = .open (WriteCommand.expireAt k d).encode)
    (hmap : map.lookup k = some ⟨v, none⟩) :
    ∃ cache, recover wincode persister (.ticking fun _ ↦ now) (.ok now) = .ok cache ∧
      cache.lookup k = some ⟨v, some d⟩ := by
  have hnow : ∀ t ∈ ({d} : Set Milliseconds), now < t := by
    rintro t rfl
    exact hd
  have hlogged : ∀ command ∈ [WriteCommand.expireAt k d], ∀ t ∈ command.op.deadline,
      t ∈ ({d} : Set Milliseconds) := by
    intro command hc t ht
    obtain rfl := List.mem_singleton.1 hc
    exact (Option.some.inj ht).symm
  have hwithin : Within ({d} : Set Milliseconds) (map.lookup k) := by
    intro e he t ht
    rw [hmap] at he
    cases he
    cases ht
  have hlog' : persister.aof = .open ([WriteCommand.expireAt k d].flatMap WriteCommand.encode) := by
    rw [hlog, List.flatMap_singleton]
  obtain ⟨cache, hcache, hlookup, -⟩ := lookup_recover_of_within hnow (fun _ ↦ hnow) hnow hload
    hlog' (Aof.decode_flatMap _ _) hlogged hwithin
  have hops : opsOn k [WriteCommand.expireAt k d] = [.expireAt d] := opsOn_of_key rfl
  refine ⟨cache, hcache, ?_⟩
  rw [hlookup, hops, hmap]
  exact if_neg (not_le.2 hd)

/-- A key that has been written since may be worse off than with the snapshot alone.  An `EXPIRE`
for a key that does not exist is logged; then the key is set without a deadline, a snapshot that
holds it is stored and the log is cleared.  If the clear is lost with the power, the key comes back
with a deadline it never had. -/
theorem recover_adds_deadline (wincode : Wincode) (k v : Blob) (d now : Milliseconds)
    (hd : now < d) (bytes : Bytes)
    (hbytes : wincode.serialize (Finmap.insert k ⟨v, none⟩ ∅) = .ok bytes) :
    ∃ σ₁ σ₂, exec (step wincode) init [.write 0 (.expireAt k d) now, .append 0] = some σ₁ ∧
      exec (step wincode) σ₁ [.write 0 (.set k v none) now, .append 0, .lock, .store none,
        .clear none, .unlock] = some σ₂ ∧
      σ₂.persister.snapshot.load wincode = .ok σ₂.cache ∧
      σ₂.cache.lookup k = some ⟨v, none⟩ ∧
      ∃ cache, recover wincode (σ₂.persister.afterPowerLoss σ₁.persister none)
          (.ticking fun _ ↦ now) (.ok now) = .ok cache ∧
        cache.lookup k = some ⟨v, some d⟩ := by
  have hload := Snapshot.load_of_serialize wincode hbytes
  refine ⟨_, _, exec_expireAt_absent wincode k hd, exec_set_snapshot hbytes _ now, hload,
    Finmap.lookup_insert _, recover_expireAt hd hload ?_ (Finmap.lookup_insert _)⟩
  rw [Persister.afterPowerLoss, Aof.file_open, Option.map_none, Option.getD_none, List.append_nil]

end Server

end Steller
