import Steller.Inbound.Server

/-!
# Compaction discards nothing that is not captured

A clear empties the whole log, whatever is in it.  Appends take only the log
lock, so a write may be appended before the store, between the store and the
clear, or after it.  What makes the clear harmless is the other lock: while the
snapshot thread holds it no write is applied, so everything a clear can find in
the log was applied before the store that came just before it.

A log is only commands, and two sessions may have written the same command.
`Ledger` tells writes apart: it stamps each with the position of its cache step
in the run, and keeps the log, the appends that have returned and the store that
the snapshot file is from in terms of these stamps.
-/

namespace Steller

open Transition

namespace Server

/-- A write and the position of its cache step in the run. -/
structure Applied where
  stamp : Nat
  command : WriteCommand
deriving DecidableEq

/-- What an observer of the run has written down. -/
structure Ledger where
  /-- How many steps it has seen. -/
  steps : Nat
  /-- The write each session has applied and not yet appended. -/
  inFlight : Nat → Option Applied
  /-- The writes in the log, in its order. -/
  log : List Applied
  /-- The writes whose append has returned. -/
  returned : List Applied
  /-- How many steps came before the store that the snapshot file is from. -/
  taken : Nat

namespace Ledger

variable (wincode : Wincode)

/-- The first start. -/
def init : Ledger := ⟨0, fun _ ↦ none, [], [], 0⟩

/-- What the observer changes at a step. -/
def note (σ : Server) (g : Ledger) : Label → Ledger
  | .write session command _ =>
      { g with inFlight := Function.update g.inFlight session (some ⟨g.steps, command⟩) }
  | .append session => { g with
      inFlight := Function.update g.inFlight session none
      log := g.log ++ (g.inFlight session).toList
      returned := g.returned ++ (g.inFlight session).toList }
  | .store fault =>
      if Snapshot.renames wincode fault σ.cache then { g with taken := g.steps } else g
  | .clear none => { g with log := [] }
  | .crash _ _ => { g with inFlight := fun _ ↦ none }
  | _ => g

/-- One step seen. -/
def record (σ : Server) (l : Label) (g : Ledger) : Ledger :=
  { note wincode σ g l with steps := g.steps + 1 }

/-- The write has been applied in this run, and its session has not been killed before it was
appended. -/
def Issued (g : Ledger) (w : Applied) : Prop :=
  w ∈ g.returned ∨ ∃ session, g.inFlight session = some w

end Ledger

/-- The ledger of a run from the first start. -/
def ledger (wincode : Wincode) (ls : List Label) : Ledger :=
  history (step wincode) (Ledger.record wincode) init Ledger.init ls

/-- The stamp of `w` is the position of a cache step in the run, and `w` its command. -/
def AppliedIn (ls : List Label) (w : Applied) : Prop :=
  ∃ session now, ls[w.stamp]? = some (.write session w.command now)

namespace AppliedIn

variable {ls : List Label} {w : Applied}

theorem lt (h : AppliedIn ls w) : w.stamp < ls.length := by
  obtain ⟨session, now, h⟩ := h
  exact (List.getElem?_eq_some_iff.1 h).1

theorem concat (h : AppliedIn ls w) (l : Label) : AppliedIn (ls ++ [l]) w := by
  obtain ⟨session, now, hw⟩ := h
  refine ⟨session, now, ?_⟩
  rw [List.getElem?_append_left (lt ⟨session, now, hw⟩)]
  exact hw

theorem last (ls : List Label) (session : Nat) (command : WriteCommand) (now : Milliseconds) :
    AppliedIn (ls ++ [.write session command now]) ⟨ls.length, command⟩ :=
  ⟨session, now, List.getElem?_concat_length⟩

end AppliedIn

/-! ## The invariant -/

/-- What a run, the server it ends in and its ledger say about each other. -/
structure Audited (wincode : Wincode) (ls : List Label) (σ : Server) (g : Ledger) : Prop where
  steps : g.steps = ls.length
  log : σ.persister.aof = .open ((g.log.map Applied.command).flatMap WriteCommand.encode)
  pending : σ.pending = Option.map Applied.command ∘ g.inFlight
  taken_le : g.taken ≤ ls.length
  snapshot : ∃ τ, exec (step wincode) init (ls.take g.taken) = some τ ∧
    σ.persister.snapshot.load wincode = .ok τ.cache
  issued : ∀ w, g.Issued w → AppliedIn ls w
  log_subset : g.log ⊆ g.returned
  accounted : ∀ w ∈ g.returned, w ∈ g.log ∨ w.stamp < g.taken
  /-- Between the store and the clear there is nothing that the store did not see. -/
  stored : σ.phase = .stored → ∀ w, g.Issued w → w.stamp < g.taken

namespace Audited

variable {wincode : Wincode} {ls : List Label} {σ σ' : Server} {g : Ledger} {l : Label}

theorem start : Audited wincode [] init .init where
  steps := rfl
  log := rfl
  pending := rfl
  taken_le := le_refl 0
  snapshot := ⟨init, rfl, rfl⟩
  issued := by
    rintro w (hw | ⟨session, hw⟩)
    · cases hw
    · cases hw
  log_subset := List.Subset.refl []
  accounted := fun w hw ↦ by cases hw
  stored := fun h ↦ by cases h

/-- One step more, that the observer does not care about. -/
theorem tick (h : Audited wincode ls σ g) (l : Label) :
    Audited wincode (ls ++ [l]) σ { g with steps := g.steps + 1 } where
  steps := by rw [List.length_append, h.steps]; rfl
  log := h.log
  pending := h.pending
  taken_le := by rw [List.length_append]; exact Nat.le_add_right_of_le h.taken_le
  snapshot := by rw [List.take_append_of_le_length h.taken_le]; exact h.snapshot
  issued := fun w hw ↦ (h.issued w hw).concat l
  log_subset := h.log_subset
  accounted := h.accounted
  stored := h.stored

theorem pending_update (h : Audited wincode ls σ g) (session : Nat) (o : Option Applied) :
    Function.update σ.pending session (o.map Applied.command) =
      Option.map Applied.command ∘ Function.update g.inFlight session o := by
  rw [h.pending, Function.comp_update]

/-- A session applies a write. -/
theorem write (h : Audited wincode ls σ g) (hphase : σ.phase = .idle) {session : Nat}
    {command : WriteCommand} {now : Milliseconds} {cache : Cache} :
    let l := Label.write session command now
    Audited wincode (ls ++ [l]) { σ with
        cache
        pending := Function.update σ.pending session (some command) } (g.record wincode σ l) := by
  intro l
  refine { h.tick l with
    pending := h.pending_update session (some ⟨g.steps, command⟩), issued := ?_, stored := ?_ }
  · have hnew : ∀ w, some (Applied.mk g.steps command) = some w → AppliedIn (ls ++ [l]) w := by
      rintro w ⟨⟩
      rw [h.steps]
      exact .last ls session command now
    rintro w (hw | ⟨s, hw⟩)
    · exact (h.issued w (.inl hw)).concat l
    · exact forall_pending_update (fun s w hw ↦ (h.issued w (.inr ⟨s, hw⟩)).concat l) session hnew
        s w hw
  · intro hs
    rw [hphase] at hs
    cases hs

/-- A session appends the write it has applied. -/
theorem append (h : Audited wincode ls σ g) {session : Nat} {command : WriteCommand}
    (hpending : σ.pending session = some command) :
    let l := Label.append session
    Audited wincode (ls ++ [l]) { σ with
        persister := { σ.persister with
          aof := .open (σ.persister.aof.writer.contents ++ command.encode) }
        pending := Function.update σ.pending session none } (g.record wincode σ l) := by
  intro l
  rw [h.pending] at hpending
  obtain ⟨w, hw, rfl⟩ := Option.map_eq_some_iff.1 hpending
  have hrecord : g.record wincode σ l = { g with
      steps := g.steps + 1
      inFlight := Function.update g.inFlight session none
      log := g.log ++ [w]
      returned := g.returned ++ [w] } := by
    simp only [Ledger.record, Ledger.note, l, hw, Option.toList_some]
  -- the write moves from flight to the log, so nothing is issued that was not
  have hissued : ∀ x, (g.record wincode σ l).Issued x → g.Issued x := by
    rw [hrecord]
    rintro x (hx | ⟨s, hx⟩)
    · rcases List.mem_append.1 hx with hx | hx
      · exact .inl hx
      · rw [List.mem_singleton.1 hx]; exact .inr ⟨session, hw⟩
    · exact forall_pending_update (fun s x hx ↦ .inr ⟨s, hx⟩) session (fun c hc ↦ by cases hc)
        s x hx
  have hnext := h.tick l
  rw [hrecord] at hissued ⊢
  refine { hnext with
    log := ?_, pending := h.pending_update session none, log_subset := ?_, accounted := ?_
    issued := fun x hx ↦ hnext.issued x (hissued x hx)
    stored := fun hs x hx ↦ h.stored hs x (hissued x hx) }
  · rw [List.map_append, List.map_singleton, ← Aof.open_append, h.log]
  · intro x hx
    rcases List.mem_append.1 hx with hx | hx
    · exact List.mem_append_left _ (h.log_subset hx)
    · exact List.mem_append_right _ hx
  · intro x hx
    rcases List.mem_append.1 hx with hx | hx
    · exact (h.accounted x hx).imp_left (List.mem_append_left _)
    · exact .inl (List.mem_append_right _ hx)

/-- Step lemma. -/
theorem step (hrun : exec (Server.step wincode) init ls = some σ) (h : Audited wincode ls σ g)
    (hstep : Server.step wincode σ l = some σ') :
    Audited wincode (ls ++ [l]) σ' (g.record wincode σ l) := by
  have hnext := h.tick l
  cases steps_of_step hstep with
  | write hphase hfree => exact h.write hphase
  | append hpending => exact h.append hpending
  | lock hphase => exact { hnext with stored := fun hs ↦ by cases hs }
  | storeFailed hphase hkept =>
      rw [Ledger.record, Ledger.note, if_neg (by rw [hkept]; exact Bool.false_ne_true)]
      exact { hnext with stored := fun hs ↦ by cases hs }
  | store hphase hrenamed hload =>
      rw [Ledger.record, Ledger.note, if_pos hrenamed]
      -- every write issued so far came before this store
      have hall : ∀ w, g.Issued w → w.stamp < g.steps := by
        intro w hw
        rw [h.steps]
        exact (h.issued w hw).lt
      refine { hnext with
        taken_le := ?_, snapshot := ⟨σ, ?_, hload⟩
        accounted := fun w hw ↦ .inr (hall w (.inl hw)), stored := fun _ ↦ hall }
      · rw [h.steps, List.length_append]; exact Nat.le_add_right _ _
      · rw [h.steps, List.take_left]; exact hrun
  | clear hphase =>
      refine { hnext with
        log := rfl, log_subset := List.nil_subset _, accounted := ?_, stored := ?_ }
      · exact fun w hw ↦ .inr (h.stored hphase w (.inl hw))
      · exact fun hs ↦ by cases hs
  | clearFailed hphase => exact { hnext with stored := fun hs ↦ by cases hs }
  | unlock hphase => exact { hnext with stored := fun hs ↦ by cases hs }
  | crash hrecover =>
      refine { hnext with log := ?_, pending := rfl, issued := ?_, stored := ?_ }
      · rw [h.log]; rfl
      · rintro w (hw | ⟨s, hw⟩)
        · exact hnext.issued w (.inl hw)
        · cases hw
      · exact fun hs ↦ by cases hs

/-- A step that drops a write from the log is a clear that came after a store; it leaves the
snapshot file as it is, and the store saw the write. -/
theorem captured_of_dropped (h : Audited wincode ls σ g)
    (hstep : Server.step wincode σ l = some σ') {w : Applied} (hw : w ∈ g.log)
    (hdropped : w ∉ (g.record wincode σ l).log) :
    w.stamp < g.taken ∧ σ'.persister.snapshot = σ.persister.snapshot := by
  cases steps_of_step hstep with
  | write => exact absurd hw hdropped
  | append => exact absurd (List.mem_append_left _ hw) hdropped
  | lock => exact absurd hw hdropped
  | storeFailed hphase hkept =>
      rw [Ledger.record, Ledger.note, if_neg (by rw [hkept]; exact Bool.false_ne_true)] at hdropped
      exact absurd hw hdropped
  | store hphase hrenamed =>
      rw [Ledger.record, Ledger.note, if_pos hrenamed] at hdropped
      exact absurd hw hdropped
  | clear hphase => exact ⟨h.stored hphase w (.inl (h.log_subset hw)), rfl⟩
  | clearFailed => exact absurd hw hdropped
  | unlock => exact absurd hw hdropped
  | crash => exact absurd hw hdropped

end Audited

/-- Run lemma. -/
theorem audited_of_exec {wincode : Wincode} {ls : List Label} {σ : Server}
    (hrun : exec (step wincode) init ls = some σ) : Audited wincode ls σ (ledger wincode ls) :=
  history_invariant .start (fun hrun h hstep ↦ h.step hrun hstep) hrun

/-- Compaction never discards an uncaptured write.  In every reachable state the log is what
the ledger says, the snapshot file is from the state it says, and each write whose append has
returned is still in the log or was applied before the state that the file holds.  And a step
that drops a write from the log leaves the snapshot file alone, and the write was applied
before the state that the file holds. -/
theorem returned_logged_or_captured (wincode : Wincode) (ls : List Label) (σ : Server)
    (hrun : exec (step wincode) init ls = some σ) :
    let g := ledger wincode ls
    σ.persister.aof = .open ((g.log.map Applied.command).flatMap WriteCommand.encode) ∧
      (∃ τ, exec (step wincode) init (ls.take g.taken) = some τ ∧
        σ.persister.snapshot.load wincode = .ok τ.cache) ∧
      (∀ w ∈ g.returned, AppliedIn ls w ∧ (w ∈ g.log ∨ w.stamp < g.taken)) ∧
      ∀ l σ', step wincode σ l = some σ' →
        ∀ w ∈ g.log, w ∉ (ledger wincode (ls ++ [l])).log →
          w.stamp < g.taken ∧ σ'.persister.snapshot = σ.persister.snapshot := by
  intro g
  have h := audited_of_exec hrun
  refine ⟨h.log, h.snapshot, fun w hw ↦ ⟨h.issued w (.inl hw), h.accounted w hw⟩, ?_⟩
  intro l σ' hstep w hw hdropped
  rw [ledger, history_concat hrun hstep] at hdropped
  exact h.captured_of_dropped hstep hw hdropped

/-- Two sessions write the same command.  One append returns before the store, the other
between the store and the clear: both writes leave the log, and both were applied before the
store. -/
theorem captured_between_store_and_clear :
    let k := Blob.singleton 107
    let wincode := Wincode.ofMap (Finmap.singleton k ⟨.empty, none⟩)
      [1, 0, 0, 0, 0, 0, 0, 0, 1, 0, 0, 0, 0, 0, 0, 0, 107, 0, 0, 0, 0, 0, 0, 0, 0, 0] (by decide)
    let command := WriteCommand.set k .empty none
    let ls : List Label := [.write 0 command ⟨1⟩, .write 1 command ⟨1⟩, .append 0, .lock,
      .store none, .append 1, .clear none, .unlock]
    (exec (step wincode) init ls).isSome ∧ (ledger wincode ls).log = [] ∧
      (ledger wincode ls).returned = [⟨0, command⟩, ⟨1, command⟩] ∧
      ∀ w ∈ (ledger wincode ls).returned, w.stamp < (ledger wincode ls).taken := by
  intro k wincode command ls
  have hsome : (exec (step wincode) init ls).isSome := by decide
  have hlog : (ledger wincode ls).log = [] := by decide
  obtain ⟨σ, hrun⟩ := Option.isSome_iff_exists.1 hsome
  refine ⟨hsome, hlog, by decide, fun w hw ↦ ?_⟩
  obtain ⟨-, -, hreturned, -⟩ := returned_logged_or_captured wincode ls σ hrun
  rcases (hreturned w hw).2 with hw | hw
  · rw [hlog] at hw
    cases hw
  · exact hw

end Server

end Steller
