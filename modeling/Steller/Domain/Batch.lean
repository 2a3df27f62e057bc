import Steller.Domain.Cache
import Steller.Lib.Keyed

/-!
# Writes at one reading of the clock

A log is executed from beginning to end within a few milliseconds of a start.
This file is about the limit of that: a list of writes, every one of them
executed at the same reading.

A write is local, in the sense of `Steller.Lib.Keyed`: it answers from the slot
of its key and changes that slot only.  So the list acts on each key by the
register writes it has for it (`lookup_executeWrites`), and what
`Steller.Lib.Expiry` proves of one register holds of the map.
-/

namespace Steller

open Expiry

namespace Cache

/-- Execute one write, with the clock at `now`. -/
def executeWrite (now : Milliseconds) (c : Cache) (wc : WriteCommand) :
    Except CacheError CommandOutcome × Cache := c.execute (.ok now) (.ok now) (.write wc)

/-- Execute writes in order, with the clock at `now` throughout: what each of them returned,
and the map at the end. -/
def executeWrites (now : Milliseconds) (commands : List WriteCommand) (c : Cache) :
    List (WriteCommand × Except CacheError CommandOutcome) × Cache :=
  Keyed.run (executeWrite now) commands c

/-- A write, seen from the slot of its key. -/
def writeSlot (now : Milliseconds) (o : Option Entry) (wc : WriteCommand) :
    Except CacheError CommandOutcome × Option Entry :=
  (.ok ((CacheCommand.write wc).outcome now now o), wc.op.apply now o)

/-- A write answers from the slot of its key and changes no other. -/
theorem local_executeWrite (now : Milliseconds) :
    Keyed.Local (fun (c : Cache) key ↦ c.lookup key) (executeWrite now) WriteCommand.key
      (writeSlot now) where
  answer c wc := by rw [executeWrite, execute_ok]; rfl
  slot c wc := by rw [executeWrite, lookup_execute, CacheCommand.key_write, if_pos rfl]; rfl
  frame c wc k hk := by
    rw [executeWrite, lookup_execute, CacheCommand.key_write, if_neg (Ne.symm hk)]

/-- The writes on one key are its register writes, all at `now`. -/
theorem run_writeSlot (now : Milliseconds) (commands : List WriteCommand) (o : Option Entry) :
    (Keyed.run (writeSlot now) commands o).2 = applyAll now (commands.map WriteCommand.op) o := by
  induction commands generalizing o with
  | nil => rfl
  | cons wc commands ih =>
      rw [Keyed.run_cons, List.map_cons, applyAll_cons]
      exact ih _

/-- Seen from one key, a list of writes is the list of its register writes. -/
theorem lookup_executeWrites (now : Milliseconds) (commands : List WriteCommand) (c : Cache)
    (k : Blob) :
    (executeWrites now commands c).2.lookup k =
      applyAll now ((Keyed.on WriteCommand.key k commands).map WriteCommand.op) (c.lookup k) := by
  rw [executeWrites, (local_executeWrite now).get_run, run_writeSlot]

/-- Executing a list of writes on the map it has already been executed on, at the same reading
of the clock, gives that map again. -/
theorem executeWrites_idem (now : Milliseconds) (commands : List WriteCommand) (c : Cache) :
    (executeWrites now commands (executeWrites now commands c).2).2 =
      (executeWrites now commands c).2 := by
  refine (local_executeWrite now).run_idem Finmap.ext_lookup (fun k o ↦ ?_) c
  rw [run_writeSlot, run_writeSlot, applyAll_idem]

end Cache

end Steller
