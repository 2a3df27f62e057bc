import Steller.Inbound.Server

/-!
# Where a recovered entry comes from

`Server.recover_eq_live` says nothing about a key with a write in flight.  One
would hope that a crash then merely loses or keeps that write: whatever is
recovered, the key once had it.  A store between the two halves of a `SET` can
break even this.  The snapshot holds the new value, the log ends before it, and
if all the log says about the key is to move its deadline, then replay moves the
deadline of a value that never had one, or had another.

`recover_held` is what remains: as long as no snapshot is renamed into place in
that situation (`Shadowed`), every recovered entry is one that was live at some
moment of the run.  The situation is the only obstacle, because a log that sets
or deletes the key replays to the state before the write in flight, an empty one
to the state after it, and a write in flight that only moves the deadline is
undone by the log.
-/

namespace Steller

open Expiry Transition

namespace Server

/-- A `SET` of `k` is applied and not yet logged, while what is logged of `k` only moves its
deadline, at last to another one than the `SET` gives it. -/
def Shadowed (k : Blob) (σ : Server) : Prop :=
  ∃ session value d logged d', σ.pending session = some (.set k value d) ∧
    σ.persister.aof = .open (logged.flatMap WriteCommand.encode) ∧
    Redates (opsOn k logged) d' ∧ d' ≠ d

/-- The step does not put a snapshot in place while `k` is shadowed. -/
def Unshadowed (wincode : Wincode) (k : Blob) (σ : Server) (l : Label) : Prop :=
  ∀ fault, l = .store fault → Snapshot.renames wincode fault σ.cache = true → ¬ Shadowed k σ

/-- A run is timely when some time separates its readings from its deadlines. -/
theorem timely_of_le_of_lt {ls : List Label} {T : Milliseconds}
    (hreads : ∀ l ∈ ls, ∀ r ∈ l.readings, r ≤ T)
    (hdeadlines : ∀ l ∈ ls, ∀ d ∈ l.deadlines, T < d) : Timely ls := by
  rintro l hl r hr d ⟨l', hl', hd⟩
  exact lt_of_le_of_lt (hreads l hl r hr) (hdeadlines l' hl' d hd)

variable {wincode : Wincode} {D : Set Milliseconds} {T : Milliseconds} {k : Blob} {σ : Server}
  {logged : List WriteCommand} {map : Cache} {pend : Option (Nat × WriteCommand)}

theorem eq_set_of_op {command : WriteCommand} {value : Blob}
    {d : Option Milliseconds} (h : command.op = .set value d) :
    command = .set command.key value d := by
  cases command with
  | set key v e => cases h; rfl
  | delete key => cases h
  | expireAt key t => cases h
  | persist key => cases h

/-- A store is safe when `k` is not shadowed. -/
theorem Holds.safe_of_not_shadowed (h : Holds wincode D T k σ logged map pend)
    (hT : ∀ d ∈ D, T < d) (hnot : ¬ Shadowed k σ) :
    WriteAhead.Safe (Op.apply T) (slotAt k σ logged map pend) := by
  intro op x hpend hlive hfixed
  obtain ⟨⟨session, command⟩, rfl, rfl⟩ := Option.map_eq_some_iff.1 hpend
  obtain ⟨hflight, hkey⟩ := (h.pending session command).2 rfl
  rw [hlive]
  refine applyAll_apply_or hfixed (fun t ht ↦ ?_) fun v d d' hset hredates ↦ ?_
  · exact hT t (h.pending_within session command hflight t ht)
  · by_contra hne
    have hcommand : command = .set command.key v d := eq_set_of_op hset
    rw [hcommand, hkey] at hflight
    exact hnot ⟨session, v, d, logged, d', hflight, h.log, hredates, hne⟩

variable (wincode D T k) in
/-- The invariant of a run that has passed through the states `V`: what `k` is, was before the
write in flight, and would be after a crash, it has been in one of them. -/
def Traced (V : Server → Prop) (σ : Server) : Prop :=
  ∃ logged map pend x, Holds wincode D T k σ logged map pend ∧
    WriteAhead.Accounted (Op.apply T) (fun e ↦ ∃ τ, V τ ∧ τ.cache.lookup k = e)
      (slotAt k σ logged map pend) x

theorem Traced.mono {V W : Server → Prop} (hle : ∀ τ, V τ → W τ)
    (h : Traced wincode D T k V σ) : Traced wincode D T k W σ := by
  obtain ⟨logged, map, pend, x, h, hacc⟩ := h
  exact ⟨logged, map, pend, x, h, hacc.mono fun e ⟨τ, hτ, he⟩ ↦ ⟨τ, hle τ hτ, he⟩⟩

theorem Traced.step (hT : ∀ d ∈ D, T < d) {V : Server → Prop} {σ' : Server} {l : Label}
    (h : Traced wincode D T k V σ)
    (hl : (l.Respects D ∧ Uncontended k σ l) ∧ Unshadowed wincode k σ l)
    (hstep : step wincode σ l = some σ') (hV : V σ') : Traced wincode D T k V σ' := by
  obtain ⟨logged, map, pend, x, h, hacc⟩ := h
  obtain ⟨logged', map', pend', h', hmove⟩ := h.step hT _ hl.1
    (fun fault hlabel hrenamed ↦ h.safe_of_not_shadowed hT (hl.2 fault hlabel hrenamed)) hstep
  obtain ⟨x', hacc'⟩ := hacc.move (applyAll_idem T) hmove ⟨σ', hV, rfl⟩
  exact ⟨logged', map', pend', x', h', hacc'⟩

theorem traced_init : Traced wincode D T k (Visited (Server.step wincode) init []) init :=
  ⟨[], ∅, none, none, holds_init, .refl ⟨init, visited_self rfl, rfl⟩⟩

/-- A crash never makes an entry up, as far as shadowed keys go: in every run at a clock that
stays before every deadline, for a key that one session per life writes and that is not
shadowed when a snapshot is put in place, what a start recovers for it was live at some moment
of the run. -/
theorem recover_held (wincode : Wincode) (ls : List Label) (σ : Server)
    (hrun : exec (Server.step wincode) init ls = some σ) (times : Nat → Milliseconds)
    (now : Milliseconds) (htime : Timely (ls ++ [.crash times now])) (k : Blob)
    (hwriter : SingleWriter k none ls)
    (hshadow : Along (Server.step wincode) (Unshadowed wincode k) init ls) :
    ∃ cache, recover wincode σ.persister (.ticking times) (.ok now) = .ok cache ∧
      ∃ τ, Visited (Server.step wincode) init ls τ ∧ τ.cache.lookup k = cache.lookup k := by
  have hrespects := respects_of_timely htime
  obtain ⟨hreads, -⟩ := hrespects (.crash times now) (by simp)
  have hnow := hreads now (.inl rfl)
  have hgood : Along (Server.step wincode) (fun σ l ↦
      (l.Respects (deadlinesIn (ls ++ [.crash times now])) ∧ Uncontended k σ l) ∧
        Unshadowed wincode k σ l) init ls :=
    along_and.2 ⟨along_good (fun l hl ↦ hrespects l (List.mem_append_left _ hl)) hwriter, hshadow⟩
  obtain ⟨logged, map, pend, x, h, hacc⟩ := hgood.visited_invariant
    (Traced wincode (deadlinesIn (ls ++ [.crash times now])) now k) Traced.mono
    (Traced.step hnow) traced_init hrun
  obtain ⟨cache, hcache, hlookup, -⟩ := h.recover hnow
    (fun n ↦ hreads (times n) (.inr ⟨n, rfl⟩)) hnow
  obtain ⟨τ, hτ, hfound⟩ := hacc.found
  exact ⟨cache, hcache, τ, hτ, hfound.trans hlookup.symm⟩

/-- A session sets `k` and then gives it a deadline; the snapshot falls between the two steps of
the second write.  The log sets the key, so replaying it undoes the write in flight. -/
theorem recover_held_of_overlap :
    let k := Blob.singleton 107
    let wincode := Wincode.ofMap (Finmap.singleton k ⟨.empty, some ⟨100⟩⟩)
      [1, 0, 0, 0, 0, 0, 0, 0, 1, 0, 0, 0, 0, 0, 0, 0, 107, 0, 0, 0, 0, 0, 0, 0, 0,
        1, 100, 0, 0, 0, 0, 0, 0, 0] (by decide)
    let ls : List Label := [.write 0 (.set k .empty none) ⟨1⟩, .append 0,
      .write 0 (.expireAt k ⟨100⟩) ⟨1⟩, .lock, .store none]
    ∃ σ, exec (Server.step wincode) init ls = some σ ∧
      ∃ cache, recover wincode σ.persister (.ticking fun _ ↦ ⟨2⟩) (.ok ⟨2⟩) = .ok cache ∧
        ∃ τ, Visited (Server.step wincode) init ls τ ∧ τ.cache.lookup k = cache.lookup k := by
  intro k wincode ls
  obtain ⟨σ, hrun⟩ := Option.isSome_iff_exists.1
    (show (exec (Server.step wincode) init ls).isSome by decide)
  refine ⟨σ, hrun, recover_held wincode ls σ hrun (fun _ ↦ ⟨2⟩) ⟨2⟩ ?_ k ?_ ?_⟩
  · refine timely_of_le_of_lt (T := ⟨2⟩) ?_ ?_
    · simp [ls, Label.readings]
      decide
    · simp [ls, Label.deadlines, WriteCommand.op, Op.deadline]
      decide
  · exact ⟨fun w hw ↦ (by cases hw), fun w hw ↦ (by cases hw; rfl), trivial⟩
  · -- what is in flight at the store is not a `SET`
    refine ⟨nofun, fun σ₁ h₁ ↦ ⟨nofun, fun σ₂ h₂ ↦ ⟨nofun, fun σ₃ h₃ ↦ ⟨nofun, fun σ₄ h₄ ↦
      ⟨?_, fun _ _ ↦ trivial⟩⟩⟩⟩⟩
    cases steps_of_step h₁
    cases steps_of_step h₂
    cases steps_of_step h₃
    cases steps_of_step h₄
    rintro fault - - ⟨session, value, d, logged, d', hset, -⟩
    simp only [Function.update_idem, Function.update_apply] at hset
    split at hset <;> cases hset

/-- A deadline for `k` is logged, then `k` is set without one, and the snapshot falls between
the two steps of the `SET`: killed before the log is cleared, the server starts with the value
of the one command under the deadline of the other. -/
theorem recover_never_live :
    let k := Blob.singleton 107
    let wincode := Wincode.ofMap (Finmap.singleton k ⟨.empty, none⟩)
      [1, 0, 0, 0, 0, 0, 0, 0, 1, 0, 0, 0, 0, 0, 0, 0, 107, 0, 0, 0, 0, 0, 0, 0, 0, 0] (by decide)
    let ls : List Label := [.write 0 (.expireAt k ⟨100⟩) ⟨1⟩, .append 0,
      .write 0 (.set k .empty none) ⟨1⟩, .lock, .store none]
    Timely (ls ++ [.crash (fun _ ↦ ⟨2⟩) ⟨2⟩]) ∧ SingleWriter k none ls ∧
      ∃ σ, exec (Server.step wincode) init ls = some σ ∧
        ∃ cache, recover wincode σ.persister (.ticking fun _ ↦ ⟨2⟩) (.ok ⟨2⟩) = .ok cache ∧
          cache.lookup k = some ⟨.empty, some ⟨100⟩⟩ ∧
          ∀ τ, Visited (Server.step wincode) init ls τ → τ.cache.lookup k ≠ cache.lookup k := by
  intro k wincode ls
  refine ⟨?_, ⟨fun w hw ↦ (by cases hw), fun w hw ↦ (by cases hw; rfl), trivial⟩, ?_⟩
  · refine timely_of_le_of_lt (T := ⟨2⟩) ?_ ?_
    · simp [ls, Label.readings]
      decide
    · simp [ls, Label.deadlines, WriteCommand.op, Op.deadline]
      decide
  · have hfound : ((exec (Server.step wincode) init ls).bind fun σ ↦
        (recover wincode σ.persister (.ticking fun _ ↦ ⟨2⟩) (.ok ⟨2⟩)).toOption.map
          fun cache ↦ cache.lookup k) = some (some ⟨.empty, some ⟨100⟩⟩) := by decide
    have hlive : ∀ xs ∈ ls.inits, (exec (Server.step wincode) init xs).map
        (fun τ ↦ τ.cache.lookup k) ≠ some (some ⟨.empty, some ⟨100⟩⟩) := by decide
    obtain ⟨σ, hrun, hσ⟩ := Option.bind_eq_some_iff.1 hfound
    obtain ⟨cache, hcache, hlookup⟩ : ∃ cache,
        recover wincode σ.persister (.ticking fun _ ↦ ⟨2⟩) (.ok ⟨2⟩) = .ok cache ∧
          cache.lookup k = some ⟨.empty, some ⟨100⟩⟩ := by
      cases hrec : recover wincode σ.persister (.ticking fun _ ↦ ⟨2⟩) (.ok ⟨2⟩) with
      | error e => rw [hrec] at hσ; cases hσ
      | ok cache => rw [hrec] at hσ; exact ⟨cache, rfl, Option.some.inj hσ⟩
    refine ⟨σ, hrun, cache, hcache, hlookup, ?_⟩
    rintro τ ⟨xs, hxs, hτ⟩ heq
    refine hlive xs ((List.mem_inits xs ls).2 hxs) ?_
    rw [hτ, Option.map_some, heq, hlookup]

end Server

end Steller
