import Steller.Domain.Cache
import Steller.Resp.Codec
import Steller.Resp.Command

/-!
# The append-only log

The log is RESP: `append` writes a mutation as the frame a client would have
sent and drains the buffer, `clear` drains and truncates, and `replay` walks the
file frame by frame through the inbound parsing path.

`replay` does two things at once, it decodes and it executes.  `replayBytes_eq`
takes them apart: replay is the execution, in order, of the commands `decode`
finds, followed by the verdict `decode` ends on.  Everything about cuts, crashes
and restarts is then a statement about `decode`, where the general theory of
`Steller.Lib.Incremental` applies, because `parse_one` is stable and every
logged frame is an encoding.
-/

namespace Steller

open Incremental

/-- Failure on the log's write or replay path. -/
inductive AofError where
  | io (error : IoError)
  | cache (error : CacheError)
  | command (error : CommandFromFrameError)
  | frame (error : FrameError)
deriving DecidableEq

/-- The append-only log: a buffered writer over the file. -/
structure Aof where
  writer : BufWriter
deriving DecidableEq

namespace Aof

/-- `PersisterInner::try_from`: open the file in append mode, whatever it holds. -/
def «open» (file : Bytes) : Aof := ⟨.open file⟩

/-- Encode one mutation as a RESP frame, append it to the log and flush. -/
def append (self : Aof) (command : WriteCommand) : Except AofError Unit × Aof :=
  match (Frame.ofWriteCommand command).writeTo self.writer with
  | (.error e, writer) => (.error (.io e), ⟨writer⟩)
  | (.ok (), writer) => match Write.flush writer with
    | (.error e, writer) => (.error (.io e), ⟨writer⟩)
    | (.ok (), writer) => (.ok (), ⟨writer⟩)

/-- Empty the log: drain the writer, then truncate under it. -/
def clear (self : Aof) : Except AofError Unit × Aof :=
  match Write.flush self.writer with
  | (.error e, writer) => (.error (.io e), ⟨writer⟩)
  | (.ok (), writer) => (.ok (), ⟨writer.truncate⟩)

/-! ## Replay -/

/-- What the clock answers to each frame of a replay in turn. -/
abbrev Clock := Nat → Readings

/-- A clock that works. -/
def Clock.ticking (times : Nat → Milliseconds) : Clock := fun n ↦ .at (times n)

/-- The loop of `replay`, for at most `fuel` rounds; `n` frames have been read. -/
def replayFuel (clock : Clock) : Nat → Nat → Bytes → Cache → Except AofError Unit × Cache
  | 0, _, _, cache => (.ok (), cache)
  | fuel + 1, n, bytes, cache => match Frame.parseOne bytes with
    | .ok (frame, remainder) => match Command.tryFrom (clock n).parse frame with
      | .ok (.cache cc) => match cache.execute (clock n).now (clock n).later cc with
        | (.ok _, cache) => replayFuel clock fuel (n + 1) remainder cache
        | (.error e, cache) => (.error (.cache e), cache)
      | .ok (.channel _) => replayFuel clock fuel (n + 1) remainder cache
      | .ok (.ping _) => replayFuel clock fuel (n + 1) remainder cache
      | .error e => (.error (.command e), cache)
    | .error .incomplete => (.ok (), cache)
    | .error e => (.error (.frame e), cache)

/-- `replay` over the bytes of the file.  A frame takes at least one byte, so the rounds
suffice. -/
def replayBytes (clock : Clock) (bytes : Bytes) (cache : Cache) : Except AofError Unit × Cache :=
  replayFuel clock (bytes.length + 1) 0 bytes cache

/-- Rebuild cache state by replaying the log on top of `cache`. -/
def replay (self : Aof) (clock : Clock) (cache : Cache) : Except AofError Unit × Cache :=
  replayBytes clock self.writer.file cache

@[simp] theorem file_open (file : Bytes) : (Aof.open file).writer.file = file := rfl

@[simp] theorem contents_open (file : Bytes) : (Aof.open file).writer.contents = file :=
  List.append_nil file

theorem replay_open (file : Bytes) (clock : Clock) (cache : Cache) :
    (Aof.open file).replay clock cache = replayBytes clock file cache := rfl

/-! ## Decoding -/

/-- Lift frames into commands until one does not lift. -/
def liftAll (clock : Clock) : Nat → List Frame → List Command × Option CommandFromFrameError
  | _, [] => ([], none)
  | n, frame :: frames => match Command.tryFrom (clock n).parse frame with
    | .ok command => (command :: (liftAll clock (n + 1) frames).1, (liftAll clock (n + 1) frames).2)
    | .error e => ([], some e)

/-- What replay ends on once every command has been executed. -/
def verdict (lift : Option CommandFromFrameError) (stop : Option FrameError) :
    Except AofError Unit :=
  match lift, stop with
  | some e, _ => .error (.command e)
  | none, some e => .error (.frame e)
  | none, none => .ok ()

/-- The commands replay decodes, and the verdict it ends on if none of them fails. -/
def decode (clock : Clock) (bytes : Bytes) : List Command × Except AofError Unit :=
  let d := drain .incomplete Frame.parseOne bytes
  ((liftAll clock 0 d.items).1, verdict (liftAll clock 0 d.items).2 d.stop)

/-- Execute decoded commands in order; a command that is not the cache's is ignored, and the
first failure ends the replay. -/
def executeAll (clock : Clock) : Nat → List Command → Cache → Except AofError Unit × Cache
  | _, [], cache => (.ok (), cache)
  | n, .cache cc :: commands, cache => match cache.execute (clock n).now (clock n).later cc with
    | (.ok _, cache) => executeAll clock (n + 1) commands cache
    | (.error e, cache) => (.error (.cache e), cache)
  | n, .channel _ :: commands, cache => executeAll clock (n + 1) commands cache
  | n, .ping _ :: commands, cache => executeAll clock (n + 1) commands cache

/-- End an execution on a verdict, unless it has already failed. -/
def finish (v : Except AofError Unit) : Except AofError Unit × Cache → Except AofError Unit × Cache
  | (.ok (), cache) => (v, cache)
  | (.error e, cache) => (.error e, cache)

/-- The loop decodes and executes in step: the induction is over its rounds, one frame at a
time. -/
theorem replayFuel_eq (clock : Clock) {fuel : Nat} {bytes : Bytes} (hfuel : bytes.length < fuel)
    (n : Nat) (cache : Cache) :
    replayFuel clock fuel n bytes cache =
      let d := drain .incomplete Frame.parseOne bytes
      finish (verdict (liftAll clock n d.items).2 d.stop)
        (executeAll clock n (liftAll clock n d.items).1 cache) := by
  induction fuel generalizing bytes n cache with
  | zero => omega
  | succ fuel ih =>
      rw [replayFuel]
      cases hp : Frame.parseOne bytes with
      | error e =>
          by_cases he : e = .incomplete
          · subst he
            rw [drain_of_short hp]
            rfl
          · rw [drain_of_error hp he]
            cases e with
            | incomplete => exact absurd rfl he
            | _ => rfl
      | ok q =>
          obtain ⟨frame, remainder⟩ := q
          have hlt := Frame.stable_parseOne.consumes hp
          have hrest := fun c ↦ ih (by omega : remainder.length < fuel) (n + 1) c
          rw [drain_of_ok Frame.stable_parseOne hp]
          simp only [Drained.cons]
          rw [liftAll]
          cases hl : Command.tryFrom (clock n).parse frame with
          | error e => rfl
          | ok command =>
              cases command with
              | cache cc =>
                  simp only
                  rw [executeAll]
                  cases hx : cache.execute (clock n).now (clock n).later cc with
                  | mk result cache' =>
                      cases result with
                      | error e => rfl
                      | ok outcome => exact hrest cache'
              | channel cc => exact hrest cache
              | ping message => exact hrest cache

theorem finish_ok (r : Except AofError Unit × Cache) : finish (.ok ()) r = r := by
  rcases r with ⟨_ | ⟨⟩, cache⟩ <;> rfl

/-- Replay executes what `decode` finds, in order, and ends on its verdict. -/
theorem replayBytes_eq (clock : Clock) (bytes : Bytes) (cache : Cache) :
    replayBytes clock bytes cache =
      finish (decode clock bytes).2 (executeAll clock 0 (decode clock bytes).1 cache) :=
  replayFuel_eq clock (Nat.lt_succ_self _) 0 cache

/-! ## Logged commands -/

end Aof

/-- The bytes a mutation takes in the log. -/
def WriteCommand.encode (command : WriteCommand) : Bytes := (Frame.ofWriteCommand command).encode

/-- A mutation as the command replay makes of it. -/
def WriteCommand.toCommand (command : WriteCommand) : Command := .cache (.write command)

theorem Frame.fits_ofWriteCommand (command : WriteCommand) :
    (Frame.ofWriteCommand command).Fits := by
  have hbulk : ∀ payloads : List Blob, ∀ f ∈ payloads.map Frame.bulkString, f.Fits := by
    intro payloads f hf
    obtain ⟨payload, -, rfl⟩ := List.mem_map.1 hf
    exact .bulkString payload
  cases command with
  | set key value expiresAt =>
      cases expiresAt with
      | none => exact .array (by simp) (hbulk [_, _, _])
      | some t => exact .array (by simp) (hbulk [_, _, _, _, _])
  | delete key => exact .array (by simp) (hbulk [_, _])
  | expireAt key t => exact .array (by simp) (hbulk [_, _, _])
  | persist key => exact .array (by simp) (hbulk [_, _])

/-- A logged mutation is an encoding of its frame. -/
theorem WriteCommand.encodes_encode (command : WriteCommand) :
    Encodes Frame.parseOne (Frame.ofWriteCommand command) command.encode :=
  Frame.encodes_encode (Frame.fits_ofWriteCommand command)

/-- A logged mutation lifts back into itself, whatever the clock does.  So whatever frame a
mutation first came from and whenever that was, one trip through the log after another, as a
frame or as bytes, yields the same mutation with the same deadline. -/
theorem WriteCommand.round_trip (command : WriteCommand) :
    (∀ now, Command.tryFrom now (.ofWriteCommand command) = .ok (.cache (.write command))) ∧
    ∀ now frame, Command.tryFrom now frame = .ok (.cache (.write command)) → ∀ later rest,
      Command.tryFrom later (.ofWriteCommand command) = .ok (.cache (.write command)) ∧
      ∃ relogged, Frame.parseOne (command.encode ++ rest) = .ok (relogged, rest) ∧
        Command.tryFrom later relogged = .ok (.cache (.write command)) := by
  have hlift := fun now ↦ Command.tryFrom_ofWriteCommand now command
  exact ⟨hlift, fun _ _ _ later rest ↦ ⟨hlift later, _, command.encodes_encode rest, hlift later⟩⟩

/-- `EXPIRE` at one reading of the clock, logged, and read back by a clock that fails. -/
theorem WriteCommand.round_trip_expire :
    let key := Blob.singleton 107
    let frame := Frame.array [.bulkString ⟨ascii "EXPIRE", by decide⟩, .bulkString key,
      .bulkString ⟨ascii "60", by decide⟩]
    Command.tryFrom (.ok ⟨5⟩) frame = .ok (.cache (.write (.expireAt key ⟨60005⟩))) ∧
      Command.tryFrom (.error .beforeEpoch) (.ofWriteCommand (.expireAt key ⟨60005⟩)) =
        .ok (.cache (.write (.expireAt key ⟨60005⟩))) := by
  intro key frame
  have hframe : Command.tryFrom (.ok ⟨5⟩) frame =
      .ok (.cache (.write (.expireAt key ⟨60005⟩))) := by decide
  obtain ⟨-, hagain⟩ := WriteCommand.round_trip (.expireAt key ⟨60005⟩)
  exact ⟨hframe, (hagain _ _ hframe (.error .beforeEpoch) []).1⟩

namespace Aof

theorem liftAll_ofWriteCommand (clock : Clock) (n : Nat) (commands : List WriteCommand) :
    liftAll clock n (commands.map Frame.ofWriteCommand) =
      (commands.map WriteCommand.toCommand, none) := by
  induction commands generalizing n with
  | nil => rfl
  | cons c commands ih =>
      rw [List.map_cons, liftAll, Command.tryFrom_ofWriteCommand]
      simp only
      rw [ih]
      rfl

/-- When every frame of a log is a logged mutation, the log decodes to those mutations, and
only the way the parser stops is left to say. -/
theorem decode_of_items {bytes : Bytes} {commands : List WriteCommand}
    (h : (drain .incomplete Frame.parseOne bytes).items = commands.map Frame.ofWriteCommand)
    (clock : Clock) :
    decode clock bytes = (commands.map WriteCommand.toCommand,
      verdict none (drain .incomplete Frame.parseOne bytes).stop) := by
  rw [decode, h, liftAll_ofWriteCommand]

/-- A whole log decodes to exactly what was appended. -/
theorem decode_flatMap (clock : Clock) (commands : List WriteCommand) :
    decode clock (commands.flatMap WriteCommand.encode) =
      (commands.map WriteCommand.toCommand, .ok ()) := by
  have h := drain_flatMap_nil Frame.stable_parseOne WriteCommand.encodes_encode commands
  rw [decode_of_items (congrArg Drained.items h), h]
  rfl

/-- A log cut at any byte decodes to the mutations whose frames are whole. -/
theorem decode_take (clock : Clock) (k : Nat) (commands : List WriteCommand) :
    decode clock ((commands.flatMap WriteCommand.encode).take k) =
      ((fitting WriteCommand.encode k commands).map WriteCommand.toCommand, .ok ()) := by
  obtain ⟨hitems, hstop⟩ := drain_take Frame.stable_parseOne WriteCommand.encodes_encode k commands
  rw [decode_of_items hitems, hstop]
  rfl

/-- With a clock that works, executing decoded commands cannot fail. -/
theorem executeAll_ticking (times : Nat → Milliseconds) (n : Nat) (commands : List Command)
    (cache : Cache) : (executeAll (.ticking times) n commands cache).1 = .ok () := by
  induction commands generalizing n cache with
  | nil => rfl
  | cons c commands ih =>
      cases c with
      | cache cc =>
          obtain ⟨outcome, h⟩ := Cache.execute_eq cache (times n) (times n) cc
          rw [executeAll, show (Clock.ticking times n).now = .ok (times n) from rfl,
            show (Clock.ticking times n).later = .ok (times n) from rfl, h]
          exact ih (n + 1) _
      | channel cc => exact ih (n + 1) cache
      | ping message => exact ih (n + 1) cache

/-- With a clock that works, replay ends on the verdict of the decoder. -/
theorem replayBytes_ticking (times : Nat → Milliseconds) (bytes : Bytes) (cache : Cache) :
    replayBytes (.ticking times) bytes cache =
      ((decode (.ticking times) bytes).2,
        (executeAll (.ticking times) 0 (decode (.ticking times) bytes).1 cache).2) := by
  rw [replayBytes_eq]
  have h := executeAll_ticking times 0 (decode (.ticking times) bytes).1 cache
  cases hx : executeAll (.ticking times) 0 (decode (.ticking times) bytes).1 cache with
  | mk result cache' =>
      rw [hx] at h
      cases h
      rfl

/-! ## The writer -/

/-- One append puts the frame at the end of the byte queue and drains it. -/
theorem append_eq (self : Aof) (command : WriteCommand) :
    self.append command = (.ok (), .open (self.writer.contents ++ command.encode)) := by
  obtain ⟨hok, hcontents⟩ := Frame.writeTo_bufWriter (Frame.ofWriteCommand command) self.writer
  rw [append]
  cases hw : (Frame.ofWriteCommand command).writeTo self.writer with
  | mk result writer =>
      rw [hw] at hok hcontents
      cases hok
      have hflush : Write.flush writer = (.ok (), writer.flushBuf) := rfl
      simp only
      rw [hflush]
      simp only [Prod.mk.injEq, true_and]
      rw [Aof.open, BufWriter.open, WriteCommand.encode, ← hcontents]
      rfl

/-- The log after one more command. -/
theorem open_append (logged : List WriteCommand) (command : WriteCommand) :
    Aof.open ((Aof.open (logged.flatMap WriteCommand.encode)).writer.contents ++ command.encode) =
      .open ((logged ++ [command]).flatMap WriteCommand.encode) := by
  rw [contents_open, List.flatMap_append, List.flatMap_singleton]

/-- A call that changes the log. -/
inductive Call where
  | append (command : WriteCommand)
  | clear
deriving DecidableEq

/-- Make one call. -/
def Call.run (self : Aof) : Call → Except AofError Unit × Aof
  | .append command => self.append command
  | .clear => self.clear

/-- Make calls in order until one fails. -/
def runCalls (self : Aof) : List Call → Except AofError Unit × Aof
  | [] => (.ok (), self)
  | call :: calls => match call.run self with
    | (.ok (), self) => runCalls self calls
    | (.error e, self) => (.error e, self)

/-- The mutations appended since the last `clear`, on top of those already in the log. -/
def sinceClear (logged : List WriteCommand) : List Call → List WriteCommand
  | [] => logged
  | .append command :: calls => sinceClear (logged ++ [command]) calls
  | .clear :: calls => sinceClear [] calls

theorem sinceClear_map_append (logged commands : List WriteCommand) :
    sinceClear logged (commands.map .append) = logged ++ commands := by
  induction commands generalizing logged with
  | nil => exact (List.append_nil logged).symm
  | cons c commands ih => rw [List.map_cons, sinceClear, ih, List.append_assoc]; rfl

/-- The run lemma for the writer: after any calls the file is the concatenation of the
encodings of what was appended since the last `clear`, and nothing is buffered. -/
theorem runCalls_eq (logged : List WriteCommand) (calls : List Call) :
    runCalls (.open (logged.flatMap WriteCommand.encode)) calls =
      (.ok (), .open ((sinceClear logged calls).flatMap WriteCommand.encode)) := by
  induction calls generalizing logged with
  | nil => rfl
  | cons call calls ih =>
      cases call with
      | append command =>
          rw [runCalls, Call.run, append_eq, open_append]
          exact ih _
      | clear => exact ih []

/-- After any sequence of appends and clears the file is exactly what was appended since the
last clear; and cut at any byte, it replays to the longest run of those commands whose frames
are whole, with no error, whatever was in the cache. -/
theorem replay_take (calls : List Call) :
    ∃ aof, runCalls (.open []) calls = (.ok (), aof) ∧
      aof.writer.file = (sinceClear [] calls).flatMap WriteCommand.encode ∧
      ∀ k, ∃ whole, whole <+: sinceClear [] calls ∧
        (whole.flatMap WriteCommand.encode).length ≤ k ∧
        (∀ cs, cs <+: sinceClear [] calls →
          (cs.flatMap WriteCommand.encode).length ≤ k → cs <+: whole) ∧
        (∀ clock, decode clock (aof.writer.file.take k) =
          (whole.map WriteCommand.toCommand, .ok ())) ∧
        (∀ clock cache, (Aof.open (aof.writer.file.take k)).replay clock cache =
          executeAll clock 0 (whole.map WriteCommand.toCommand) cache) ∧
        ∀ times cache,
          ((Aof.open (aof.writer.file.take k)).replay (.ticking times) cache).1 = .ok () := by
  refine ⟨_, runCalls_eq [] calls, rfl, fun k ↦ ?_⟩
  rw [file_open]
  refine ⟨fitting WriteCommand.encode k (sinceClear [] calls), fitting_prefix k _,
    length_flatMap_fitting_le k _, fun cs hcs hk ↦ prefix_fitting hcs hk, ?_, ?_, ?_⟩
  · intro clock
    exact decode_take clock k _
  · intro clock cache
    rw [replay_open, replayBytes_eq, decode_take, finish_ok]
  · intro times cache
    rw [replay_open, replayBytes_ticking, decode_take]

end Aof

end Steller
