import Mathlib.Data.List.Basic
import Mathlib.Data.List.Infix

/-!
# A snapshot, a log, and one writer

The general argument behind recovery from a snapshot plus a log, for one slot
with one writer at a time.  A state `S` changes by operations `O`; an operation
is applied to the live state first and appended to the log afterwards, so at any
moment at most one operation is applied and not yet logged (`pend`).  The
snapshot is a copy of the live state, taken at a moment of its own, and the log
may be emptied only while the snapshot is the live state.

`Consistent` is the invariant.  It does not say how much of the log the snapshot
already holds — after a crash between store and clear it holds all of it, and
with a write in flight even more than all of it — only that live state and
snapshot grew from a common base by the same operations, of which the snapshot
has seen a prefix.  That is enough to recover the live state by replaying the
whole log, provided replay is idempotent (`Consistent.recover`).

A log may also be read after it has been replaced, if the end of the file was
never written through.  For a slot that has been left alone since, the stale log
recovers the same state from every later snapshot: this is `Settled`.

With an operation in flight less is true.  `Accounted` says that what a recovery
would find is at least a state the slot once had.  A store can break that: it
copies the operation in flight, and replay then applies on top of it a log that
ends before it.  `Safe` is what a store must respect.
-/

universe u v

namespace WriteAhead

variable {S : Type u} {O : Type v} (act : O → S → S)

/-- Operations in order. -/
def actAll (ops : List O) (s : S) : S := ops.foldl (fun s op ↦ act op s) s

theorem actAll_append (xs ys : List O) (s : S) :
    actAll act (xs ++ ys) s = actAll act ys (actAll act xs s) := List.foldl_append

/-- One slot of the system. -/
structure Slot (S : Type u) (O : Type v) where
  /-- The state in memory. -/
  live : S
  /-- The state on disk. -/
  snap : S
  /-- The operations logged since the log was last emptied. -/
  log : List O
  /-- The operation that has been applied but not yet logged. -/
  pend : Option O

/-- What happens to a slot, where a store happens only when it is `safe`. -/
inductive Move (safe : Slot S O → Prop) : Slot S O → Slot S O → Prop
  | stay (σ : Slot S O) : Move safe σ σ
  | write {live snap : S} {log : List O} (op : O) :
      Move safe ⟨live, snap, log, none⟩ ⟨act op live, snap, log, some op⟩
  | append {live snap : S} {log : List O} {op : O} :
      Move safe ⟨live, snap, log, some op⟩ ⟨live, snap, log ++ [op], none⟩
  | store {live snap : S} {log : List O} {pend : Option O} (h : safe ⟨live, snap, log, pend⟩) :
      Move safe ⟨live, snap, log, pend⟩ ⟨live, live, log, pend⟩
  | clear {live : S} {log : List O} {pend : Option O} :
      Move safe ⟨live, live, log, pend⟩ ⟨live, live, [], pend⟩
  | crash {live snap : S} {log : List O} {pend : Option O} :
      Move safe ⟨live, snap, log, pend⟩ ⟨actAll act log snap, snap, log, none⟩

/-- Live state and snapshot come from one base, the live state by what is logged or pending
and the snapshot by a prefix of that. -/
def Consistent (σ : Slot S O) : Prop :=
  ∃ base pre, σ.live = actAll act (σ.log ++ σ.pend.toList) base ∧
    σ.snap = actAll act pre base ∧ pre <+: σ.log ++ σ.pend.toList

namespace Consistent

variable {act} {live snap : S} {log : List O} {pend : Option O} {op : O}

/-- A fresh slot, whose snapshot is the live state. -/
theorem refl (s : S) : Consistent act ⟨s, s, [], none⟩ := ⟨s, [], rfl, rfl, List.nil_prefix⟩

theorem write (h : Consistent act ⟨live, snap, log, none⟩) (op : O) :
    Consistent act ⟨act op live, snap, log, some op⟩ := by
  obtain ⟨base, pre, hlive, hsnap, hpre⟩ := h
  rw [Option.toList_none, List.append_nil] at hlive hpre
  refine ⟨base, pre, ?_, hsnap, hpre.trans (List.prefix_append _ _)⟩
  rw [Option.toList_some, actAll_append, ← hlive]
  rfl

theorem append (h : Consistent act ⟨live, snap, log, some op⟩) :
    Consistent act ⟨live, snap, log ++ [op], none⟩ := by
  obtain ⟨base, pre, hlive, hsnap, hpre⟩ := h
  refine ⟨base, pre, ?_, hsnap, ?_⟩
  · rw [Option.toList_none, List.append_nil]; exact hlive
  · rw [Option.toList_none, List.append_nil]; exact hpre

/-- A store makes the snapshot the live state. -/
theorem store (h : Consistent act ⟨live, snap, log, pend⟩) :
    Consistent act ⟨live, live, log, pend⟩ := by
  obtain ⟨base, -, hlive, -, -⟩ := h
  exact ⟨base, _, hlive, hlive, List.prefix_rfl⟩

/-- While the snapshot is the live state the log can go, even with a write in flight: the
snapshot has seen that write, and its late append will be replayed on top of itself. -/
theorem clear (h : Consistent act ⟨live, live, log, pend⟩) :
    Consistent act ⟨live, live, [], pend⟩ := by
  obtain ⟨base, -, hlive, -, -⟩ := h
  have hlive' : live = actAll act ([] ++ pend.toList) (actAll act log base) := by
    rw [List.nil_append, ← actAll_append]; exact hlive
  exact ⟨actAll act log base, [] ++ pend.toList, hlive', hlive', List.prefix_rfl⟩

section Replay

variable (hidem : ∀ ops s, actAll act ops (actAll act ops s) = actAll act ops s)

include hidem

/-- Replaying a list over a state that has already seen a prefix of it is replaying it over
the base. -/
theorem actAll_of_prefix {pre ops : List O} (hpre : pre <+: ops) (base : S) :
    actAll act ops (actAll act pre base) = actAll act ops base := by
  obtain ⟨rest, rfl⟩ := hpre
  rw [actAll_append, hidem, ← actAll_append]

/-- With nothing in flight, the log replayed over the snapshot is the live state. -/
theorem recover (h : Consistent act ⟨live, snap, log, none⟩) : actAll act log snap = live := by
  obtain ⟨base, pre, hlive, hsnap, hpre⟩ := h
  rw [Option.toList_none, List.append_nil] at hlive hpre
  change live = actAll act log base at hlive
  change snap = actAll act pre base at hsnap
  rw [hsnap, actAll_of_prefix hidem hpre, ← hlive]

/-- A crash forgets what was in flight and restarts from snapshot and log. -/
theorem crash (h : Consistent act ⟨live, snap, log, pend⟩) :
    Consistent act ⟨actAll act log snap, snap, log, none⟩ := by
  obtain ⟨base, pre, hlive, hsnap, hpre⟩ := h
  change snap = actAll act pre base at hsnap
  rcases List.prefix_or_prefix_of_prefix hpre (List.prefix_append log pend.toList) with hp | hp
  · -- the snapshot had seen at most what is logged
    refine ⟨base, pre, ?_, hsnap, ?_⟩
    · change actAll act log snap = actAll act (log ++ []) base
      rw [List.append_nil, hsnap, actAll_of_prefix hidem hp]
    · change pre <+: log ++ []
      rw [List.append_nil]
      exact hp
  · -- the snapshot had seen the write in flight as well: it is the new base
    refine ⟨snap, [], ?_, rfl, List.nil_prefix⟩
    change actAll act log snap = actAll act (log ++ []) snap
    rw [List.append_nil]

theorem move {safe : Slot S O → Prop} {σ σ' : Slot S O} (h : Consistent act σ)
    (hmove : Move act safe σ σ') : Consistent act σ' := by
  cases hmove with
  | stay => exact h
  | write op => exact h.write op
  | append => exact h.append
  | store => exact h.store
  | clear => exact h.clear
  | crash => exact h.crash hidem

end Replay

end Consistent

/-! ## A stale log -/

/-- The slot is at `s` with nothing in flight, and `ops`, which need not be what is logged now,
recover `s` from the snapshot. -/
structure Settled (ops : List O) (s : S) (σ : Slot S O) : Prop where
  live : σ.live = s
  pend : σ.pend = none
  stale : actAll act ops σ.snap = s

namespace Settled

variable {act} (hidem : ∀ ops s, actAll act ops (actAll act ops s) = actAll act ops s)

include hidem

/-- At first the log is not stale. -/
theorem refl {live snap : S} {log : List O} (h : Consistent act ⟨live, snap, log, none⟩) :
    Settled act log live ⟨live, snap, log, none⟩ := ⟨rfl, rfl, h.recover hidem⟩

/-- Whatever happens to a slot that is left alone, the stale log recovers it. -/
theorem move {ops : List O} {s : S} {safe : Slot S O → Prop} {σ σ' : Slot S O}
    (h : Settled act ops s σ) (hcons : Consistent act σ) (hmove : Move act safe σ σ')
    (hpend : σ'.pend = none) : Settled act ops s σ' := by
  cases hmove with
  | stay => exact h
  | write op => cases hpend
  | append => cases h.pend
  | @store live snap log pend _ =>
      -- replay is idempotent, so the state it leads to is one it leaves alone
      have hlive : live = actAll act ops snap := h.live.trans h.stale.symm
      refine ⟨h.live, hpend, ?_⟩
      calc actAll act ops live = actAll act ops (actAll act ops snap) := by rw [hlive]
        _ = actAll act ops snap := hidem ops snap
        _ = s := h.stale
  | clear => exact ⟨h.live, hpend, h.stale⟩
  | crash =>
      cases h.pend
      exact ⟨(hcons.recover hidem).trans h.live, rfl, h.stale⟩

end Settled

/-! ## What a recovery can find -/

/-- Replaying the log on top of the operation in flight gives the state with or without it. -/
def Safe (σ : Slot S O) : Prop :=
  ∀ op x, σ.pend = some op → σ.live = act op x → actAll act σ.log x = x →
    actAll act σ.log σ.live = x ∨ actAll act σ.log σ.live = σ.live

/-- What is live, what was live before the operation in flight, and what a recovery would
find are all states the slot has had.  `x` is the state before the operation in flight. -/
structure Accounted (held : S → Prop) (σ : Slot S O) (x : S) : Prop where
  before : held x
  live : held σ.live
  found : held (actAll act σ.log σ.snap)
  fixed : actAll act σ.log x = x
  live_eq : σ.live = actAll act σ.pend.toList x
  found_or : actAll act σ.log σ.snap = x ∨ σ.pend ≠ none ∧ σ.snap = σ.live

namespace Accounted

variable {act} {held held' : S → Prop} {live snap x : S} {log : List O} {pend : Option O} {op : O}

theorem refl {s : S} (h : held s) : Accounted act held ⟨s, s, [], none⟩ s :=
  ⟨h, h, h, rfl, rfl, .inl rfl⟩

theorem mono {σ : Slot S O} (h : Accounted act held σ x) (hle : ∀ s, held s → held' s) :
    Accounted act held' σ x :=
  { h with before := hle _ h.before, live := hle _ h.live, found := hle _ h.found }

theorem write (h : Accounted act held ⟨live, snap, log, none⟩ x) (hnew : held (act op live)) :
    Accounted act held ⟨act op live, snap, log, some op⟩ x := by
  obtain rfl : live = x := h.live_eq
  refine { h with live := hnew, live_eq := rfl, found_or := .inl ?_ }
  exact h.found_or.resolve_right fun hor ↦ hor.1 rfl

theorem store (h : Accounted act held ⟨live, snap, log, pend⟩ x)
    (hsafe : Safe act ⟨live, snap, log, pend⟩) : Accounted act held ⟨live, live, log, pend⟩ x := by
  cases pend with
  | none =>
      obtain rfl : live = x := h.live_eq
      exact { h with found := h.fixed.symm ▸ h.live, found_or := .inl h.fixed }
  | some op =>
      refine { h with found := ?_, found_or := .inr ⟨Option.some_ne_none op, rfl⟩ }
      rcases hsafe op x rfl h.live_eq h.fixed with hx | hx
      · exact hx.symm ▸ h.before
      · exact hx.symm ▸ h.live

theorem clear (h : Accounted act held ⟨live, live, log, pend⟩ x) :
    Accounted act held ⟨live, live, [], pend⟩ x := by
  refine { h with found := h.live, fixed := rfl, found_or := ?_ }
  cases pend with
  | none => exact .inl h.live_eq
  | some op => exact .inr ⟨Option.some_ne_none op, rfl⟩

section Replay

variable (hidem : ∀ ops s, actAll act ops (actAll act ops s) = actAll act ops s)

include hidem

theorem append (h : Accounted act held ⟨live, snap, log, some op⟩ x) :
    Accounted act held ⟨live, snap, log ++ [op], none⟩ live := by
  obtain rfl : live = act op x := h.live_eq
  have hfixed : actAll act (log ++ [op]) (act op x) = act op x := by
    have hstep : act op x = actAll act (log ++ [op]) x := by
      rw [actAll_append, h.fixed]
      rfl
    rw [hstep, hidem]
  have hfound : actAll act (log ++ [op]) snap = act op x := by
    rcases h.found_or with hf | ⟨-, hf⟩
    · rw [actAll_append, hf]
      rfl
    · obtain rfl : snap = act op x := hf
      exact hfixed
  exact ⟨h.live, h.live, hfound.symm ▸ h.live, hfixed, rfl, .inl hfound⟩

theorem crash (h : Accounted act held ⟨live, snap, log, pend⟩ x) :
    Accounted act held ⟨actAll act log snap, snap, log, none⟩ (actAll act log snap) :=
  ⟨h.found, h.found, h.found, hidem log snap, rfl, .inl rfl⟩

/-- Whatever happens to the slot, if its stores are safe, a recovery finds a state it has
had. -/
theorem move {σ σ' : Slot S O} (h : Accounted act held σ x) (hmove : Move act (Safe act) σ σ')
    (hlive : held σ'.live) : ∃ x', Accounted act held σ' x' := by
  cases hmove with
  | stay => exact ⟨x, h⟩
  | write op => exact ⟨x, h.write hlive⟩
  | append => exact ⟨_, h.append hidem⟩
  | store hsafe => exact ⟨x, h.store hsafe⟩
  | clear => exact ⟨x, h.clear⟩
  | crash => exact ⟨_, h.crash hidem⟩

end Replay

end Accounted

end WriteAhead
