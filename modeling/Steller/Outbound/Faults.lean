import Steller.Outbound.Aof
import Steller.Std.Fault

/-!
# Appends that fail

An append writes its frame piece by piece into the buffer and then drains it.  The
file may fail at any of the writes this takes, the session that made the append
ends with the error, and the writer stays in use for the others.

What the next append finds depends on where the failure fell.  If it was the drain
at the end, the whole frame is still queued and goes out before the next one; the
log is none the worse, it only holds a command whose append failed.  If it was a
write made to make room while the frame was being taken, part of the frame is left
and the rest is gone: the next frame starts in the middle of it.

`replay_of_unbroken` says that this is all that can go wrong.  As long as no append
follows one that failed inside its frame, the log replays without error to every
command that was appended, in order, and to some of those whose append failed.
-/

namespace Steller

open Incremental

namespace Aof

/-! ## Appending to any writer -/

/-- `append`, whatever the log writes to. -/
def appendTo {W : Type} [Write W] (w : W) (command : WriteCommand) : Except AofError Unit × W :=
  match (Frame.ofWriteCommand command).writeTo w with
  | (.error e, w) => (.error (.io e), w)
  | (.ok (), w) => match Write.flush w with
    | (.error e, w) => (.error (.io e), w)
    | (.ok (), w) => (.ok (), w)

/-- The log appends to its own writer. -/
theorem append_eq_appendTo (self : Aof) (command : WriteCommand) :
    self.append command = (appendTo self.writer command).map id Aof.mk := by
  rw [append, appendTo]
  rcases (Frame.ofWriteCommand command).writeTo self.writer with ⟨_ | ⟨⟩, w⟩
  · rfl
  · dsimp only
    rcases Write.flush w with ⟨_ | ⟨⟩, w'⟩ <;> rfl

/-- The buffers an append hands over. -/
def appendPieces (command : WriteCommand) : List Bytes := (Frame.ofWriteCommand command).pieces

open FaultyWriter

theorem appendTo_of_error {w w' : FaultyWriter} {command : WriteCommand} {e : IoError}
    (h : writePieces (appendPieces command) w = (.error e, w')) :
    appendTo w command = (.error (.io e), w') := by
  have hwrite : (Frame.ofWriteCommand command).writeTo w = (.error e, w') := h
  rw [appendTo, hwrite]

/-- Once the frame is taken, the drain decides what is answered but not what is queued. -/
theorem appendTo_of_ok {w w' : FaultyWriter} {command : WriteCommand}
    (h : writePieces (appendPieces command) w = (.ok (), w'))
    (hgrows : Grows w w' command.encode) :
    Grows w (appendTo w command).2 command.encode ∧
      ((appendTo w command).1 = .ok () → (appendTo w command).2.buf.queue = []) := by
  have hflush := hgrows.trans (grows_flushBuf w')
  rw [List.append_nil] at hflush
  have hqueue := queue_flushBuf (w := w')
  have hwrite : (Frame.ofWriteCommand command).writeTo w = (.ok (), w') := h
  rw [appendTo, hwrite]
  dsimp only
  rw [show Write.flush w' = w'.flushBuf from rfl]
  rcases hw : w'.flushBuf with ⟨_ | ⟨⟩, w''⟩ <;> rw [hw] at hflush hqueue
  · exact ⟨hflush, nofun⟩
  · exact ⟨hflush, fun _ ↦ hqueue rfl⟩

/-- How an append can end. -/
inductive Ended (w : FaultyWriter) (command : WriteCommand) :
    Except AofError Unit × FaultyWriter → Prop
  /-- The frame is in the file, and nothing is queued. -/
  | done {w' : FaultyWriter} (hgrows : Grows w w' command.encode) (hqueue : w'.buf.queue = []) :
      Ended w command (.ok (), w')
  /-- The whole frame is taken, and the drain failed. -/
  | queued {w' : FaultyWriter} {e : AofError} (hgrows : Grows w w' command.encode) :
      Ended w command (.error e, w')
  /-- The frame broke off. -/
  | broken {w' : FaultyWriter} {e : AofError} {p : Bytes} (hp : p <+: command.encode)
      (hgrows : Grows w w' p) : Ended w command (.error e, w')

theorem ended_appendTo (w : FaultyWriter) (command : WriteCommand) :
    Ended w command (appendTo w command) := by
  rcases hw : writePieces (appendPieces command) w with ⟨r, w'⟩
  have hends := ends_writePieces (appendPieces command) w
  rw [hw] at hends
  rcases hends with ⟨rfl, hgrows⟩ | ⟨e, p, rfl, hp, -, hgrows⟩
  · obtain ⟨hg, hq⟩ := appendTo_of_ok hw hgrows
    rcases ha : appendTo w command with ⟨e | ⟨⟩, w''⟩ <;> rw [ha] at hg hq
    · exact .queued hg
    · exact .done hg (hq rfl)
  · rw [appendTo_of_error hw]
    exact .broken hp hgrows

/-- The append does not fail inside its frame: the writes to the file that it takes to hand the
frame over go through, or the buffer is full and the very first of them fails. -/
def Unhurt (w : FaultyWriter) (command : WriteCommand) : Prop :=
  Spared (spills w.buf.queue.length ((appendPieces command).map List.length)) w.faults ∨
    bufCapacity ≤ w.buf.queue.length ∧ ∃ f, w.faults.head? = some (some f)

/-- An unhurt append takes the whole frame or nothing of it. -/
theorem appendTo_of_unhurt {w : FaultyWriter} {command : WriteCommand} (h : Unhurt w command) :
    (∃ w', appendTo w command = (.ok (), w') ∧ Grows w w' command.encode ∧ w'.buf.queue = []) ∨
      ∃ e w', appendTo w command = (.error e, w') ∧
        (Grows w w' command.encode ∨ Grows w w' []) := by
  rcases h with h | ⟨hfull, f, hfault⟩
  · have hw := writePieces_of_spared h
    have hends := ends_writePieces (appendPieces command) w
    rw [hw] at hends
    have hgrows := (hends.resolve_right fun ⟨e, p, he, _⟩ ↦ by cases he).2
    obtain ⟨hg, hq⟩ := appendTo_of_ok hw hgrows
    rcases ha : appendTo w command with ⟨e | ⟨⟩, w'⟩ <;> rw [ha] at hg hq
    · exact .inr ⟨e, w', rfl, .inl hg⟩
    · exact .inl ⟨w', rfl, hg, hq rfl⟩
  · obtain ⟨b, bs, hpieces, hb⟩ : ∃ b bs, appendPieces command = b :: bs ∧ b ≠ [] := by
      cases command <;> exact ⟨ascii "*", _, rfl, by decide⟩
    obtain ⟨e, he, hg⟩ := writePieces_of_full hfull hfault hb bs
    rw [← hpieces] at he hg
    exact .inr ⟨.io e, _, appendTo_of_error (Prod.ext he rfl), .inr hg⟩

/-! ## Runs of appends -/

/-- Append commands in order, whichever sessions they come from and however each append ends. -/
def appendAll (w : FaultyWriter) :
    List WriteCommand → List (WriteCommand × Except AofError Unit) × FaultyWriter
  | [] => ([], w)
  | command :: commands =>
      let next := appendTo w command
      ((command, next.1) :: (appendAll next.2 commands).1, (appendAll next.2 commands).2)

/-- Every append but the last is unhurt. -/
def Unbroken : FaultyWriter → List WriteCommand → Prop
  | _, [] => True
  | _, [_] => True
  | w, command :: command' :: commands =>
      Unhurt w command ∧ Unbroken (appendTo w command).2 (command' :: commands)

/-- The commands are those of the attempts, in order; only failed attempts may be missing. -/
inductive Selects : List (WriteCommand × Except AofError Unit) → List WriteCommand → Prop
  | nil : Selects [] []
  | keep {attempts commands} (command : WriteCommand) (r : Except AofError Unit) :
      Selects attempts commands → Selects ((command, r) :: attempts) (command :: commands)
  | skip {attempts commands} (command : WriteCommand) (e : AofError) :
      Selects attempts commands → Selects ((command, .error e) :: attempts) commands

theorem Selects.append {xs ys : List (WriteCommand × Except AofError Unit)}
    {cs ds : List WriteCommand} (h : Selects xs cs) (h' : Selects ys ds) :
    Selects (xs ++ ys) (cs ++ ds) := by
  induction h with
  | nil => exact h'
  | keep command r _ ih => exact .keep command r ih
  | skip command e _ ih => exact .skip command e ih

/-- The file replays without error, to what it held before the attempts, every command that was
appended, and possibly some whose append failed, each in its place. -/
def Undamaged (logged : List WriteCommand) (attempts : List (WriteCommand × Except AofError Unit))
    (file : Bytes) : Prop :=
  ∃ kept, Selects attempts kept ∧
    (∀ clock, decode clock file = ((logged ++ kept).map WriteCommand.toCommand, .ok ())) ∧
    ∀ times cache, ((Aof.open file).replay (.ticking times) cache).1 = .ok ()

/-- What the attempts have left.  `safe` is on disk, `rest` are commands whose append failed and
that come next, as far as the byte queue goes. -/
structure Reached (logged : List WriteCommand)
    (attempts : List (WriteCommand × Except AofError Unit)) (w : FaultyWriter)
    (safe rest : List WriteCommand) : Prop where
  contents : w.contents <+: (logged ++ (safe ++ rest)).flatMap WriteCommand.encode
  file : (logged ++ safe).flatMap WriteCommand.encode <+: w.buf.file
  selects : ∀ r, r <+: rest → Selects attempts (safe ++ r)

variable {logged : List WriteCommand} {attempts : List (WriteCommand × Except AofError Unit)}
  {w w' : FaultyWriter} {safe rest : List WriteCommand}

/-- The file is then a log cut somewhere behind `safe`. -/
theorem Reached.undamaged (h : Reached logged attempts w safe rest) :
    Undamaged logged attempts w.buf.file := by
  have hfile : w.buf.file <+: (logged ++ (safe ++ rest)).flatMap WriteCommand.encode :=
    (List.prefix_append _ _).trans h.contents
  have hcut : w.buf.file = ((logged ++ (safe ++ rest)).flatMap WriteCommand.encode).take
      w.buf.file.length := List.prefix_iff_eq_take.1 hfile
  have hwhole : fitting WriteCommand.encode w.buf.file.length (logged ++ (safe ++ rest)) <+:
      logged ++ (safe ++ rest) := fitting_prefix _ _
  have hsafe : logged ++ safe <+: fitting WriteCommand.encode w.buf.file.length
      (logged ++ (safe ++ rest)) := by
    refine prefix_fitting ?_ h.file.length_le
    rw [← List.append_assoc]
    exact List.prefix_append _ _
  obtain ⟨r, hr⟩ := hsafe
  have hrest : r <+: rest := by
    rw [← hr, List.append_assoc, List.prefix_append_right_inj,
      List.prefix_append_right_inj] at hwhole
    exact hwhole
  have hdecode (clock : Clock) : decode clock w.buf.file =
      ((logged ++ (safe ++ r)).map WriteCommand.toCommand, .ok ()) := by
    rw [hcut, decode_take, ← hr, List.append_assoc]
  refine ⟨safe ++ r, h.selects r hrest, hdecode, fun times cache ↦ ?_⟩
  rw [replay_open, replayBytes_ticking, hdecode]

/-- An attempt that failed may come next in the log, or be left out. -/
theorem Reached.failed (h : Reached logged attempts w safe rest) {command : WriteCommand}
    {e : AofError} (hfile : w.buf.file <+: w'.buf.file)
    (hcontents : w'.contents <+: (logged ++ (safe ++ (rest ++ [command]))).flatMap
      WriteCommand.encode) :
    Reached logged (attempts ++ [(command, .error e)]) w' safe (rest ++ [command]) where
  contents := hcontents
  file := h.file.trans hfile
  selects r hr := by
    rcases List.prefix_concat_iff.1 hr with rfl | hr
    · rw [← List.append_assoc]
      exact (h.selects rest List.prefix_rfl).append (.keep command _ .nil)
    · rw [← List.append_nil (safe ++ r)]
      exact (h.selects r hr).append (.skip command e .nil)

/-- The log ends in whole frames. -/
def Sound (logged : List WriteCommand) (attempts : List (WriteCommand × Except AofError Unit))
    (w : FaultyWriter) : Prop :=
  ∃ safe rest, Reached logged attempts w safe rest ∧
    w.contents = (logged ++ (safe ++ rest)).flatMap WriteCommand.encode

theorem sound_open (logged : List WriteCommand) (faults : List Fault) :
    Sound logged [] ⟨.open (logged.flatMap WriteCommand.encode), faults⟩ := by
  have hcontents : (FaultyWriter.mk (.open (logged.flatMap WriteCommand.encode)) faults).contents =
      logged.flatMap WriteCommand.encode := List.append_nil _
  refine ⟨[], [], ⟨?_, ?_, fun r hr ↦ ?_⟩, ?_⟩
  · rw [hcontents, List.append_nil, List.append_nil]
  · rw [List.append_nil]
    exact List.prefix_rfl
  · rw [List.prefix_nil.1 hr]
    exact .nil
  · rw [hcontents, List.append_nil, List.append_nil]

theorem flatMap_concat (commands : List WriteCommand) (command : WriteCommand) :
    (commands ++ [command]).flatMap WriteCommand.encode =
      commands.flatMap WriteCommand.encode ++ command.encode := by
  rw [List.flatMap_append, List.flatMap_singleton]

section Step

variable {command : WriteCommand} {e : AofError} {p : Bytes}

/-- A frame in the file makes everything before it safe. -/
theorem Sound.done (h : Sound logged attempts w) (hg : Grows w w' command.encode)
    (hq : w'.buf.queue = []) : Sound logged (attempts ++ [(command, .ok ())]) w' := by
  obtain ⟨safe, rest, hreached, hcontents⟩ := h
  have hfile : (logged ++ (safe ++ rest ++ [command])).flatMap WriteCommand.encode =
      w'.buf.file := by
    rw [← List.append_assoc, flatMap_concat, ← hcontents, ← hg.contents, FaultyWriter.contents,
      BufWriter.contents, hq, List.append_nil]
  have hw : w'.contents = (logged ++ (safe ++ rest ++ [command] ++ [])).flatMap
      WriteCommand.encode := by
    rw [List.append_nil, hfile, FaultyWriter.contents, BufWriter.contents, hq, List.append_nil]
  refine ⟨safe ++ rest ++ [command], [], ⟨?_, ?_, fun r hr ↦ ?_⟩, hw⟩
  · rw [hw]
  · rw [hfile]
  · rw [List.prefix_nil.1 hr, List.append_nil]
    exact (hreached.selects rest List.prefix_rfl).append (.keep command _ .nil)

/-- Any part of a frame behind a sound log is part of a log that goes on with that frame. -/
theorem Sound.broken (h : Sound logged attempts w) (hp : p <+: command.encode)
    (hg : Grows w w' p) :
    ∃ safe rest, Reached logged (attempts ++ [(command, .error e)]) w' safe (rest ++ [command]) ∧
      (logged ++ (safe ++ (rest ++ [command]))).flatMap WriteCommand.encode =
        w.contents ++ command.encode := by
  obtain ⟨safe, rest, hreached, hcontents⟩ := h
  have hnext : (logged ++ (safe ++ (rest ++ [command]))).flatMap WriteCommand.encode =
      w.contents ++ command.encode := by
    rw [hcontents, ← flatMap_concat, List.append_assoc, List.append_assoc]
  refine ⟨safe, rest, hreached.failed hg.file ?_, hnext⟩
  rw [hg.contents, hnext, List.prefix_append_right_inj]
  exact hp

theorem Sound.queued (h : Sound logged attempts w) (hg : Grows w w' command.encode) :
    Sound logged (attempts ++ [(command, .error e)]) w' := by
  obtain ⟨safe, rest, hreached, hnext⟩ := h.broken List.prefix_rfl hg
  exact ⟨safe, rest ++ [command], hreached, hg.contents.trans hnext.symm⟩

theorem Sound.refused (h : Sound logged attempts w) (hg : Grows w w' []) :
    Sound logged (attempts ++ [(command, .error e)]) w' := by
  obtain ⟨safe, rest, hreached, hcontents⟩ := h
  have hw : w'.contents = w.contents := by rw [hg.contents, List.append_nil]
  refine ⟨safe, rest, ⟨?_, hreached.file.trans hg.file, fun r hr ↦ ?_⟩, hw.trans hcontents⟩
  · rw [hw]
    exact hreached.contents
  · rw [← List.append_nil (safe ++ r)]
    exact (hreached.selects r hr).append (.skip command e .nil)

/-- Step lemma: an unhurt append keeps the log sound. -/
theorem Sound.append (h : Sound logged attempts w) (hcommand : Unhurt w command) :
    Sound logged (attempts ++ [(command, (appendTo w command).1)]) (appendTo w command).2 := by
  rcases appendTo_of_unhurt hcommand with ⟨w', heq, hg, hq⟩ | ⟨e, w', heq, hg | hg⟩ <;> rw [heq]
  · exact h.done hg hq
  · exact h.queued hg
  · exact h.refused hg

theorem Sound.undamaged (h : Sound logged attempts w) : Undamaged logged attempts w.buf.file := by
  obtain ⟨safe, rest, hreached, -⟩ := h
  exact hreached.undamaged

/-- One more append does no damage yet, even if it fails inside its frame. -/
theorem Sound.undamaged_append (h : Sound logged attempts w) (command : WriteCommand) :
    Undamaged logged (attempts ++ [(command, (appendTo w command).1)])
      (appendTo w command).2.buf.file := by
  have hended := ended_appendTo w command
  generalize appendTo w command = next at hended ⊢
  cases hended with
  | done hg hq => exact (h.done hg hq).undamaged
  | queued hg => exact (h.queued hg).undamaged
  | broken hp hg =>
      obtain ⟨safe, rest, hreached, -⟩ := h.broken hp hg
      exact hreached.undamaged

end Step

/-- Run lemma. -/
theorem Sound.undamaged_appendAll (h : Sound logged attempts w) {commands : List WriteCommand}
    (hcommands : Unbroken w commands) :
    Undamaged logged (attempts ++ (appendAll w commands).1) (appendAll w commands).2.buf.file := by
  induction commands generalizing w attempts with
  | nil =>
      rw [appendAll, List.append_nil]
      exact h.undamaged
  | cons command commands ih =>
      cases commands with
      | nil => exact h.undamaged_append command
      | cons command' commands =>
          have hrest := ih (h.append hcommands.1) hcommands.2
          rw [List.append_assoc] at hrest
          exact hrest

/-- As long as no append follows one that failed inside its frame, a failed append does no
damage: whatever the file fails at otherwise, the log replays to every command that was
appended, in order, with nothing between them but commands whose append failed. -/
theorem replay_of_unbroken (logged : List WriteCommand) (faults : List Fault)
    (commands : List WriteCommand)
    (h : Unbroken ⟨.open (logged.flatMap WriteCommand.encode), faults⟩ commands) :
    let run := appendAll ⟨.open (logged.flatMap WriteCommand.encode), faults⟩ commands
    Undamaged logged run.1 run.2.buf.file :=
  (sound_open logged faults).undamaged_appendAll h

/-- The drain of one append fails after three bytes; the next append completes it. -/
theorem replay_of_unbroken_queued :
    let k := Blob.singleton 107
    let run := appendAll ⟨.open [], [some (3, .other)]⟩ [.delete k, .delete k]
    run.1 = [(.delete k, .error (.io .other)), (.delete k, .ok ())] ∧
      Undamaged [] run.1 run.2.buf.file :=
  ⟨by decide, replay_of_unbroken [] [some (3, .other)] _ ⟨.inl (by decide), trivial⟩⟩

/-- What `SET` on the key `k` hands over before a value as long as the buffer. -/
def setFront : List Bytes :=
  [ascii "*", decimal 3, [cr, lf], ascii "$", decimal 3, [cr, lf], ascii "SET", [cr, lf],
    ascii "$", decimal 1, [cr, lf], [107], [cr, lf], ascii "$", decimal bufCapacity, [cr, lf]]

/-- A frame with such a value spills; if the file fails then, the part before the value is
left. -/
theorem appendTo_set_spilled {v : Blob} (hv : v.bytes.length = bufCapacity) :
    appendTo (⟨.open [], [some (0, .other)]⟩ : FaultyWriter) (.set (.singleton 107) v none) =
      (.error (.io .other), ⟨⟨[], setFront.flatten⟩, []⟩) := by
  have hpieces : appendPieces (.set (.singleton 107) v none) =
      setFront ++ [v.bytes, [cr, lf]] := by
    rw [setFront, ← hv]
    rfl
  have hfront : writePieces setFront (⟨.open [], [some (0, .other)]⟩ : FaultyWriter) =
      (.ok (), ⟨⟨[], setFront.flatten⟩, [some (0, .other)]⟩) := by decide
  have hspill : bufCapacity - setFront.flatten.length < v.bytes.length := by
    rw [hv]
    decide
  have hvalue := writeAll_of_failed_drain (w := ⟨⟨[], setFront.flatten⟩, [some (0, .other)]⟩)
    hspill (by decide) rfl
  refine appendTo_of_error ?_
  rw [hpieces, writePieces_append hfront, writePieces,
    show Write.writeAll (W := FaultyWriter) _ _ = FaultyWriter.writeAll _ _ from rfl, hvalue]
  rfl

/-- A value as large as the buffer, whose frame therefore spills, and a file that fails at that
moment: of the frame only what comes before the value is left.  The next append succeeds, and
is taken for the value that is missing. -/
theorem replay_damaged :
    let k := Blob.singleton 107
    let v : Blob := ⟨List.replicate bufCapacity 0, by rw [List.length_replicate]; decide⟩
    let run := appendAll ⟨.open [], [some (0, .other)]⟩ [.set k v none, .delete k]
    run.1 = [(.set k v none, .error (.io .other)), (.delete k, .ok ())] ∧
      ¬ Undamaged [] run.1 run.2.buf.file := by
  intro k v run
  have hdelete : appendTo (⟨⟨[], setFront.flatten⟩, []⟩ : FaultyWriter) (.delete k) =
      (.ok (), ⟨⟨setFront.flatten ++ WriteCommand.encode (.delete k), []⟩, []⟩) := by decide
  have hrun : run = ([(.set k v none, .error (.io .other)), (.delete k, .ok ())],
      ⟨⟨setFront.flatten ++ WriteCommand.encode (.delete k), []⟩, []⟩) := by
    simp only [run, appendAll]
    rw [appendTo_set_spilled (v := v) List.length_replicate, hdelete]
  rw [hrun]
  refine ⟨rfl, ?_⟩
  rintro ⟨kept, hkept, hdecode, -⟩
  have hnone : (decode (.ticking fun _ ↦ ⟨0⟩)
      (setFront.flatten ++ WriteCommand.encode (.delete k))).1 = [] := by decide
  rw [hdecode, List.map_eq_nil_iff, List.nil_append] at hnone
  subst hnone
  -- nothing is decoded, but the second append succeeded
  cases hkept with
  | skip _ _ hrest => cases hrest

end Aof

end Steller
