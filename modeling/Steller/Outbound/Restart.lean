import Steller.Outbound.Aof

/-!
# Logs across restarts

A server life replays the log, appends to it, and ends; if it is killed in the
middle of an append, a proper prefix of one frame stays at the end of the file.
The next life opens the same file in append mode.

One torn tail is harmless: replay stops at it and keeps what came before
(`recovers_flatMap_append`).  It stays harmless for as long as nothing is
written behind it, which is `recovers_of_cleanStarts`.  But `try_from` neither
truncates the tail nor does `replay`, so the next append lands directly behind
it, and the two together are not a frame: `not_recovers_append_after_tear` is
the shortest history in which a server can no longer start.
-/

namespace Steller

open Incremental

/-- An append cut short after some, but not all, of its bytes. -/
structure Torn where
  /-- The command being appended. -/
  command : WriteCommand
  /-- How many bytes of its frame reached the file. -/
  written : Nat
  /-- The append did not complete. -/
  written_lt : written < command.encode.length

/-- The bytes a torn append leaves behind. -/
def Torn.bytes (t : Torn) : Bytes := t.command.encode.take t.written

/-- One server life, as the log sees it: the appends that completed, and the one it was killed
in, if any. -/
structure Life where
  completed : List WriteCommand
  torn : Option Torn

namespace Life

/-- What the kill leaves behind. -/
def tail (l : Life) : Bytes := (l.torn.map Torn.bytes).getD []

/-- The file after a life that found it holding `file`. -/
def run (file : Bytes) (l : Life) : Bytes :=
  ((Aof.open file).runCalls (l.completed.map .append)).2.writer.file ++ l.tail

/-- The life writes nothing at all. -/
def Silent (l : Life) : Prop := l.completed = [] ∧ l.tail = []

end Life

/-- The file after any number of lives, the first of which found none. -/
def fileAfter (lives : List Life) : Bytes := lives.foldl Life.run []

/-- The commands of all completed appends of all lives, in order. -/
def completedIn (lives : List Life) : List WriteCommand := lives.flatMap Life.completed

/-- A start on `file` succeeds, whatever the time and whatever the snapshot held, and the
commands it decodes are exactly `commands`. -/
def Recovers (file : Bytes) (commands : List WriteCommand) : Prop :=
  ∀ times cache, ((Aof.open file).replay (.ticking times) cache).1 = .ok () ∧
    (Aof.decode (.ticking times) file).1 = commands.map WriteCommand.toCommand

/-- Every byte of the file belongs to a whole frame: `parse_one` reads it to the end. -/
def CleanStart (file : Bytes) : Prop := (drain .incomplete Frame.parseOne file).rest = []

/-- No life writes behind a torn tail: a life that finds one is silent. -/
def CleanStarts (lives : List Life) : Prop :=
  ∀ pre l post, lives = pre ++ l :: post → CleanStart (fileAfter pre) ∨ l.Silent

/-! ## One tail -/

/-- The bytes of a proper prefix of a logged frame are short of a frame. -/
theorem Torn.parseOne_bytes (t : Torn) : Frame.parseOne t.bytes = .error .incomplete := by
  have hsplit : t.bytes ++ t.command.encode.drop t.written = t.command.encode :=
    List.take_append_drop _ _
  refine Encodes.short_of_prefix (v := t.command.encode.drop t.written) Frame.stable_parseOne
    (hsplit ▸ t.command.encodes_encode) fun h ↦ ?_
  have := congrArg List.length h
  rw [List.length_drop, List.length_nil] at this
  exact absurd t.written_lt (by omega)

/-- The tail of a life parses to nothing and stays where it is. -/
theorem Life.drain_tail (l : Life) :
    drain .incomplete Frame.parseOne l.tail = ⟨[], none, l.tail⟩ := by
  obtain ⟨completed, _ | t⟩ := l
  · exact drain_of_short Frame.stable_parseOne.nil
  · exact drain_of_short t.parseOne_bytes

/-- A log followed by a tail: the log is decoded whole, and the tail is left over. -/
theorem drain_flatMap_tail (commands : List WriteCommand) {tail : Bytes}
    (htail : drain .incomplete Frame.parseOne tail = ⟨[], none, tail⟩) :
    drain .incomplete Frame.parseOne (commands.flatMap WriteCommand.encode ++ tail) =
      ⟨commands.map Frame.ofWriteCommand, none, tail⟩ := by
  rw [drain_flatMap Frame.stable_parseOne WriteCommand.encodes_encode, htail, List.append_nil]

/-- A log with a tail decodes to the log. -/
theorem decode_flatMap_append (clock : Aof.Clock) (commands : List WriteCommand) {tail : Bytes}
    (htail : drain .incomplete Frame.parseOne tail = ⟨[], none, tail⟩) :
    Aof.decode clock (commands.flatMap WriteCommand.encode ++ tail) =
      (commands.map WriteCommand.toCommand, .ok ()) := by
  have hdrain := drain_flatMap_tail commands htail
  rw [Aof.decode_of_items (congrArg Drained.items hdrain), hdrain]
  rfl

/-- A start on a log with a tail recovers the log. -/
theorem recovers_flatMap_append (commands : List WriteCommand) {tail : Bytes}
    (htail : drain .incomplete Frame.parseOne tail = ⟨[], none, tail⟩) :
    Recovers (commands.flatMap WriteCommand.encode ++ tail) commands := by
  intro times cache
  rw [Aof.replay_open, Aof.replayBytes_ticking, decode_flatMap_append _ commands htail]
  exact ⟨rfl, rfl⟩

/-! ## Histories -/

theorem Life.run_flatMap (commands : List WriteCommand) (l : Life) :
    l.run (commands.flatMap WriteCommand.encode) =
      (commands ++ l.completed).flatMap WriteCommand.encode ++ l.tail := by
  rw [Life.run, Aof.runCalls_eq, Aof.sinceClear_map_append]
  rfl

theorem Life.run_of_silent {l : Life} (h : l.Silent) (file : Bytes) : l.run file = file := by
  rw [Life.run, h.1, h.2, List.append_nil]
  rfl

/-- The file of a history is a log followed by one tail that is short of a frame. -/
def Shaped (file : Bytes) (commands : List WriteCommand) : Prop :=
  ∃ tail, file = commands.flatMap WriteCommand.encode ++ tail ∧
    drain .incomplete Frame.parseOne tail = ⟨[], none, tail⟩

theorem Shaped.recovers {file : Bytes} {commands : List WriteCommand} (h : Shaped file commands) :
    Recovers file commands := by
  obtain ⟨tail, rfl, htail⟩ := h
  exact recovers_flatMap_append commands htail

/-- Step lemma: a life that finds no tail, or writes nothing, keeps the shape. -/
theorem Shaped.run {file : Bytes} {commands : List WriteCommand} (h : Shaped file commands)
    {l : Life} (hl : CleanStart file ∨ l.Silent) :
    Shaped (l.run file) (commands ++ l.completed) := by
  obtain ⟨tail, rfl, htail⟩ := h
  rcases hl with hclean | hsilent
  · have hnil : tail = [] := by
      rw [CleanStart, drain_flatMap_tail commands htail] at hclean
      exact hclean
    subst hnil
    rw [List.append_nil, Life.run_flatMap]
    exact ⟨l.tail, rfl, l.drain_tail⟩
  · rw [Life.run_of_silent hsilent, hsilent.1, List.append_nil]
    exact ⟨tail, rfl, htail⟩

/-- Run lemma: every history without writes behind a tail has the shape. -/
theorem shaped_fileAfter {lives : List Life} (h : CleanStarts lives) :
    Shaped (fileAfter lives) (completedIn lives) := by
  induction lives using List.reverseRecOn with
  | nil => exact ⟨[], rfl, drain_of_short Frame.stable_parseOne.nil⟩
  | append_singleton lives l ih =>
      have hlives : CleanStarts lives := by
        rintro pre x post rfl
        exact h pre x (post ++ [l]) (by simp)
      rw [fileAfter, List.foldl_append, completedIn, List.flatMap_append, List.flatMap_singleton]
      exact (ih hlives).run (h lives l [] rfl)

/-- In every history in which no life writes behind a torn tail, every start succeeds and
decodes exactly the completed appends of all earlier lives, in order. -/
theorem recovers_of_cleanStarts (lives : List Life) (h : CleanStarts lives) (pre post : List Life)
    (hsplit : lives = pre ++ post) : Recovers (fileAfter pre) (completedIn pre) := by
  subst hsplit
  refine (shaped_fileAfter ?_).recovers
  rintro xs l ys rfl
  exact h xs l (ys ++ post) (by simp)

/-- A life that completes one append and dies in the next, followed by one that only starts:
the third start still finds the completed append. -/
theorem recovers_after_tear :
    let c : WriteCommand := .delete (.singleton 107)
    let lives : List Life := [⟨[c], some ⟨c, 1, by decide⟩⟩, ⟨[], none⟩]
    CleanStarts lives ∧ Recovers (fileAfter lives) [c] := by
  intro c lives
  have hclean : CleanStarts lives := by
    intro pre l post hsplit
    rcases List.cons_eq_append_iff.1 hsplit with ⟨rfl, -⟩ | ⟨pre, rfl, htail⟩
    · exact .inl rfl
    · rcases List.cons_eq_append_iff.1 htail with ⟨-, h⟩ | ⟨pre, -, hnil⟩
      · cases h
        exact .inr ⟨rfl, rfl⟩
      · cases (List.nil_eq_append_iff.1 hnil).2
  exact ⟨hclean, recovers_of_cleanStarts lives hclean lives [] (List.append_nil lives).symm⟩

/-- A life dies after one byte of an append; the next one starts, appends the same command
and stops.  The log then begins with two sigils, and no later start gets past them. -/
theorem not_recovers_append_after_tear :
    let c : WriteCommand := .delete (.singleton 107)
    let lives : List Life := [⟨[], some ⟨c, 1, by decide⟩⟩, ⟨[c], none⟩]
    let clock := Aof.Clock.ticking fun _ ↦ ⟨0⟩
    ((Aof.open (fileAfter (lives.take 1))).replay clock ∅).1 = .ok () ∧
      ((Aof.open (fileAfter lives)).replay clock ∅).1 =
        .error (.frame (.invalidLength (.parseInt .invalidDigit))) ∧
      ¬ Recovers (fileAfter lives) (completedIn lives) := by
  intro c lives clock
  have hlast : ((Aof.open (fileAfter lives)).replay clock ∅).1 =
      .error (.frame (.invalidLength (.parseInt .invalidDigit))) := by decide
  refine ⟨by decide, hlast, fun h ↦ ?_⟩
  have := hlast.symm.trans (h _ ∅).1
  cases this

end Steller
