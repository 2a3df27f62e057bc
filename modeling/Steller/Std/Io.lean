import Steller.Std.Bytes

/-!
# Writers

`Frame::write_to` is generic over `impl Write`, and the log writes through a
`BufWriter` in front of a file opened with `O_APPEND`.  A writer here is a type
with the two calls the source makes, each of which may fail and each of which
returns the writer it leaves behind: after a failure the writer is still in use.

`BufWriter` follows the standard library's policy — small writes queue up, a
write that does not fit drains the queue first, one as large as the buffer goes
straight through — so that `BufWriter.contents_writeAll`, the byte-queue view
of it, is a theorem and not an assumption.
-/

namespace Steller

/-- The kinds of `std::io::Error` the source tells apart. -/
inductive IoError where
  | timedOut
  | wouldBlock
  | other
deriving DecidableEq, Repr

/-- `std::io::Write`, as far as the source uses it. -/
class Write (W : Type) where
  /-- `write_all`. -/
  writeAll : W → Bytes → Except IoError Unit × W
  /-- `flush`. -/
  flush : W → Except IoError Unit × W

/-- A run of `write_all` calls joined by `?`: the first failure ends it. -/
def writePieces {W : Type} [Write W] : List Bytes → W → Except IoError Unit × W
  | [], w => (.ok (), w)
  | b :: bs, w => match Write.writeAll w b with
    | (.ok (), w') => writePieces bs w'
    | (.error e, w') => (.error e, w')

/-- `Write for Vec<u8>`: bytes are appended and nothing fails. -/
instance : Write Bytes where
  writeAll w b := (.ok (), w ++ b)
  flush w := (.ok (), w)

theorem writePieces_bytes (ps : List Bytes) (w : Bytes) :
    writePieces ps w = (.ok (), w ++ ps.flatten) := by
  induction ps generalizing w with
  | nil => simp [writePieces]
  | cons b bs ih =>
      change writePieces bs (w ++ b) = _
      rw [ih, List.flatten_cons, List.append_assoc]

/-! ## `BufWriter<File>` -/

/-- The standard library's default buffer size. -/
def bufCapacity : Nat := 8 * 1024

/-- A `BufWriter` over a file opened in append mode. -/
@[ext]
structure BufWriter where
  /-- What is on disk. -/
  file : Bytes
  /-- What is still buffered. -/
  queue : Bytes
deriving DecidableEq, Repr

namespace BufWriter

/-- `OpenOptions::append(true).open` followed by `BufWriter::new`: the file keeps what it
holds and writes go to its end. -/
def «open» (file : Bytes) : BufWriter := ⟨file, []⟩

/-- Move the queue to the end of the file. -/
def flushBuf (w : BufWriter) : BufWriter := ⟨w.file ++ w.queue, []⟩

/-- `BufWriter::write_all` on a file that takes every write. -/
def writeAll (w : BufWriter) (b : Bytes) : BufWriter :=
  if b.length < bufCapacity - w.queue.length then ⟨w.file, w.queue ++ b⟩
  else
    let w' := if bufCapacity - w.queue.length < b.length then w.flushBuf else w
    if bufCapacity ≤ b.length then ⟨w'.file ++ b, w'.queue⟩ else ⟨w'.file, w'.queue ++ b⟩

/-- `get_ref().set_len(0)`: truncate the file under the buffer. -/
def truncate (w : BufWriter) : BufWriter := ⟨[], w.queue⟩

instance : Write BufWriter where
  writeAll w b := (.ok (), w.writeAll b)
  flush w := (.ok (), w.flushBuf)

/-- The file as it will be once the queue is drained. -/
def contents (w : BufWriter) : Bytes := w.file ++ w.queue

@[simp] theorem contents_flushBuf (w : BufWriter) : w.flushBuf.contents = w.contents := by
  simp [contents, flushBuf]

/-- Whatever the policy does with a write, its bytes come last. -/
theorem contents_writeAll (w : BufWriter) (b : Bytes) :
    (w.writeAll b).contents = w.contents ++ b := by
  unfold writeAll
  split
  · simp [contents]
  · next hspare =>
      dsimp only
      -- a write that bypasses the queue finds the queue empty
      have hdirect : bufCapacity ≤ b.length →
          (if bufCapacity - w.queue.length < b.length then w.flushBuf else w).queue = [] := by
        intro hb
        split
        · rfl
        · have hq : w.queue.length = 0 := by
            have : 0 < bufCapacity := by decide
            omega
          exact List.eq_nil_of_length_eq_zero hq
      have hkeep : (if bufCapacity - w.queue.length < b.length then w.flushBuf
          else w).contents = w.contents := by
        split
        · exact contents_flushBuf w
        · rfl
      rw [← hkeep]
      split
      · next hb => simp [contents, hdirect hb]
      · simp [contents]

theorem writePieces_ok (ps : List Bytes) (w : BufWriter) :
    (writePieces ps w).1 = .ok () ∧ (writePieces ps w).2.contents = w.contents ++ ps.flatten := by
  induction ps generalizing w with
  | nil => exact ⟨rfl, by simp [writePieces]⟩
  | cons b bs ih =>
      change (writePieces bs (w.writeAll b)).1 = _ ∧ (writePieces bs (w.writeAll b)).2.contents = _
      rw [List.flatten_cons, ← List.append_assoc, ← contents_writeAll]
      exact ih _

end BufWriter

end Steller
