import Steller.Std.Io

/-!
# Writers over a file that may fail

`BufWriter` in `Steller.Std.Io` sits in front of a file that takes every write.
Here the file may fail: each write to it passes on all of its bytes, or a proper
prefix of them and an error.  How the writes go is an input, a list of `Fault`s
that are used up one by one.

What the buffer does with a failure decides what is lost.  A failed drain keeps
the bytes that did not get through, so the byte queue (`contents`) is unharmed; a
failed write of a piece that bypasses the buffer loses the rest of the piece; and
a piece that was waiting for a failed drain is not taken at all.  `contents_flush`
and `writePieces_cases` are these facts, and `spills` counts the writes to the
file that have to succeed for a run of pieces to be taken.
-/

namespace Steller

/-- How one write to the file goes: `none` when all of it gets through, and `some (n, e)` when
it fails with `e` after `n` bytes, or earlier if there are no more than `n`. -/
abbrev Fault := Option (Nat × IoError)

/-- A `BufWriter` over a file opened in append mode whose writes may fail. -/
structure FaultyWriter where
  buf : BufWriter
  /-- How the next writes to the file go; those beyond the list succeed. -/
  faults : List Fault
deriving DecidableEq

/-- `write_all` on the file: the outcome, the bytes that got through, and the faults to come.
No bytes are no write. -/
def passOn (faults : List Fault) (b : Bytes) : Except IoError Unit × Bytes × List Fault :=
  if b = [] then (.ok (), [], faults)
  else match faults with
    | [] => (.ok (), b, [])
    | none :: faults => (.ok (), b, faults)
    | some (n, e) :: faults => (.error e, b.take (min n (b.length - 1)), faults)

/-- All bytes get through, or a proper prefix of them. -/
theorem passOn_cases (faults : List Fault) (b : Bytes) :
    (∃ faults', passOn faults b = (.ok (), b, faults')) ∨
      ∃ e p faults', passOn faults b = (.error e, p, faults') ∧ p <+: b ∧ p ≠ b := by
  unfold passOn
  split
  · next hb => exact .inl ⟨faults, by rw [hb]⟩
  · next hb =>
      split
      · exact .inl ⟨_, rfl⟩
      · exact .inl ⟨_, rfl⟩
      · next n e faults =>
          refine .inr ⟨e, _, faults, rfl, List.take_prefix _ _, fun heq ↦ ?_⟩
          have hpos : 0 < b.length := List.length_pos_iff.2 hb
          have hlen := congrArg List.length heq
          rw [List.length_take] at hlen
          omega

/-- The next `n` writes to the file go through. -/
def Spared (n : Nat) (faults : List Fault) : Prop := ∀ f ∈ faults.take n, f = none

instance (n : Nat) (faults : List Fault) : Decidable (Spared n faults) :=
  inferInstanceAs (Decidable (∀ f ∈ faults.take n, f = none))

theorem Spared.add {m n : Nat} {faults : List Fault} (h : Spared (m + n) faults) :
    Spared m faults ∧ Spared n (faults.drop m) := by
  unfold Spared at h ⊢
  rw [List.take_add] at h
  exact ⟨fun f hf ↦ h f (List.mem_append_left _ hf), fun f hf ↦ h f (List.mem_append_right _ hf)⟩

/-- A write that is spared gets through, and uses up one fault unless it is empty. -/
theorem passOn_of_spared {n : Nat} {faults : List Fault} {b : Bytes}
    (h : Spared n faults) (hn : n = if b = [] then 0 else 1) :
    passOn faults b = (.ok (), b, faults.drop n) := by
  unfold passOn
  split
  · next hb => rw [if_pos hb] at hn; rw [hn, hb, List.drop_zero]
  · next hb =>
      rw [if_neg hb] at hn
      subst hn
      split
      · rfl
      · rfl
      · next k e faults => cases h _ List.mem_cons_self

namespace FaultyWriter

/-- `BufWriter::flush_buf`: what does not get through stays in the queue. -/
def flushBuf (w : FaultyWriter) : Except IoError Unit × FaultyWriter :=
  match passOn w.faults w.buf.queue with
  | (r, p, faults) => (r, ⟨⟨w.buf.file ++ p, w.buf.queue.drop p.length⟩, faults⟩)

/-- A piece handed to the file itself: what does not get through is lost. -/
def writeDirect (w : FaultyWriter) (b : Bytes) : Except IoError Unit × FaultyWriter :=
  match passOn w.faults b with
  | (r, p, faults) => (r, ⟨⟨w.buf.file ++ p, w.buf.queue⟩, faults⟩)

/-- Put a piece into the buffer. -/
def enqueue (w : FaultyWriter) (b : Bytes) : FaultyWriter :=
  ⟨⟨w.buf.file, w.buf.queue ++ b⟩, w.faults⟩

/-- `BufWriter::write_all`. -/
def writeAll (w : FaultyWriter) (b : Bytes) : Except IoError Unit × FaultyWriter :=
  if b.length < bufCapacity - w.buf.queue.length then (.ok (), w.enqueue b)
  else
    match if bufCapacity - w.buf.queue.length < b.length then w.flushBuf else (.ok (), w) with
    | (.error e, w) => (.error e, w)
    | (.ok (), w) => if bufCapacity ≤ b.length then w.writeDirect b else (.ok (), w.enqueue b)

instance : Write FaultyWriter where
  writeAll := writeAll
  flush := flushBuf

/-- The file as it will be once the queue is drained. -/
def contents (w : FaultyWriter) : Bytes := w.buf.contents

/-- From `w` to `w'` the byte queue got `p` behind it, and the file lost nothing. -/
structure Grows (w w' : FaultyWriter) (p : Bytes) : Prop where
  contents : w'.contents = w.contents ++ p
  file : w.buf.file <+: w'.buf.file

theorem Grows.refl (w : FaultyWriter) : Grows w w [] := ⟨(List.append_nil _).symm, List.prefix_rfl⟩

theorem Grows.trans {w w' w'' : FaultyWriter} {p q : Bytes} (h : Grows w w' p)
    (h' : Grows w' w'' q) : Grows w w'' (p ++ q) :=
  ⟨by rw [h'.contents, h.contents, List.append_assoc], h.file.trans h'.file⟩

theorem grows_enqueue (w : FaultyWriter) (b : Bytes) : Grows w (w.enqueue b) b :=
  ⟨(List.append_assoc _ _ _).symm, List.prefix_rfl⟩

/-- Draining moves bytes from the queue to the file, whether it succeeds or not. -/
theorem grows_flushBuf (w : FaultyWriter) : Grows w w.flushBuf.2 [] := by
  unfold flushBuf
  rcases passOn_cases w.faults w.buf.queue with ⟨faults', h⟩ | ⟨e, p, faults', h, ⟨q, hq⟩, -⟩
  · rw [h]
    exact ⟨by simp [contents, BufWriter.contents], List.prefix_append _ _⟩
  · rw [h]
    exact ⟨by simp [contents, BufWriter.contents, ← hq], List.prefix_append _ _⟩

/-- When it succeeds, nothing is left behind. -/
theorem queue_flushBuf {w : FaultyWriter} (h : w.flushBuf.1 = .ok ()) :
    w.flushBuf.2.buf.queue = [] := by
  unfold flushBuf at h ⊢
  rcases passOn_cases w.faults w.buf.queue with ⟨faults', hp⟩ | ⟨e, p, faults', hp, -, -⟩
  · rw [hp]
    exact List.drop_length
  · rw [hp] at h
    cases h

/-- How a write can end: it is taken whole, or part of it is and it fails. -/
def Ends (w : FaultyWriter) (b : Bytes) (r : Except IoError Unit × FaultyWriter) : Prop :=
  (r.1 = .ok () ∧ Grows w r.2 b) ∨
    ∃ e p, r.1 = .error e ∧ p <+: b ∧ p ≠ b ∧ Grows w r.2 p

theorem ends_writeDirect {w : FaultyWriter} (hq : w.buf.queue = []) (b : Bytes) :
    Ends w b (w.writeDirect b) := by
  have hgrows (p : Bytes) (faults : List Fault) :
      Grows w ⟨⟨w.buf.file ++ p, w.buf.queue⟩, faults⟩ p :=
    ⟨by simp [contents, BufWriter.contents, hq], List.prefix_append _ _⟩
  unfold writeDirect
  rcases passOn_cases w.faults b with ⟨faults', h⟩ | ⟨e, p, faults', h, hpre, hne⟩
  · rw [h]
    exact .inl ⟨rfl, hgrows b faults'⟩
  · rw [h]
    exact .inr ⟨e, p, rfl, hpre, hne, hgrows p faults'⟩

theorem ends_writeAll (w : FaultyWriter) (b : Bytes) : Ends w b (w.writeAll b) := by
  have hcap : 0 < bufCapacity := by decide
  unfold writeAll
  split
  · exact .inl ⟨rfl, grows_enqueue w b⟩
  · next hspare =>
      by_cases hspill : bufCapacity - w.buf.queue.length < b.length
      · rw [if_pos hspill]
        have hgrows := grows_flushBuf w
        cases hflush : w.flushBuf with
        | mk r w' =>
            rw [hflush] at hgrows
            cases r with
            | error e =>
                refine .inr ⟨e, [], rfl, List.nil_prefix, fun hb ↦ ?_, hgrows⟩
                rw [← hb] at hspill
                exact absurd hspill (Nat.not_lt_zero _)
            | ok u =>
                have hq : w'.buf.queue = [] := by
                  have := queue_flushBuf (w := w) (by rw [hflush])
                  rwa [hflush] at this
                dsimp only
                split
                · rcases ends_writeDirect hq b with ⟨hr, hg⟩ | ⟨e, p, hr, hp, hne, hg⟩
                  · exact .inl ⟨hr, hgrows.trans hg⟩
                  · exact .inr ⟨e, p, hr, hp, hne, hgrows.trans hg⟩
                · exact .inl ⟨rfl, hgrows.trans (grows_enqueue w' b)⟩
      · rw [if_neg hspill]
        dsimp only
        split
        · refine ends_writeDirect (List.eq_nil_of_length_eq_zero ?_) b
          omega
        · exact .inl ⟨rfl, grows_enqueue w b⟩

/-- A run of pieces is taken whole, or fails inside one of them. -/
theorem ends_writePieces (ps : List Bytes) (w : FaultyWriter) :
    Ends w ps.flatten (writePieces ps w) := by
  induction ps generalizing w with
  | nil => exact .inl ⟨rfl, .refl w⟩
  | cons b bs ih =>
      rw [writePieces, List.flatten_cons, show Write.writeAll w b = w.writeAll b from rfl]
      have hhead := ends_writeAll w b
      cases hw : w.writeAll b with
      | mk r w' =>
          rw [hw] at hhead
          rcases hhead with ⟨rfl, hg⟩ | ⟨e, p, rfl, hp, hne, hg⟩
          · rcases ih w' with ⟨hr, hg'⟩ | ⟨e, p, hr, hp, hne, hg'⟩
            · exact .inl ⟨hr, hg.trans hg'⟩
            · refine .inr ⟨e, b ++ p, hr, (List.prefix_append_right_inj b).2 hp, fun heq ↦ ?_,
                hg.trans hg'⟩
              exact hne (List.append_cancel_left heq)
          · refine .inr ⟨e, p, rfl, hp.trans (List.prefix_append _ _), fun heq ↦ ?_, hg⟩
            exact hne (hp.eq_of_length_le (by rw [heq, List.length_append]; omega))

/-- A piece that has to wait for the queue is refused when draining it fails. -/
theorem writeAll_of_failed_drain {w : FaultyWriter} {b : Bytes}
    (hspill : bufCapacity - w.buf.queue.length < b.length) (hqueue : w.buf.queue ≠ [])
    {f : Nat × IoError} (hfault : w.faults.head? = some (some f)) :
    w.writeAll b = (.error f.2, w.flushBuf.2) := by
  obtain ⟨faults, hfaults⟩ := List.head?_eq_some_iff.1 hfault
  have hflush : w.flushBuf.1 = .error f.2 := by
    rw [flushBuf, hfaults, passOn.eq_def, if_neg hqueue]
  rw [writeAll, if_neg (by omega), if_pos hspill]
  cases hw : w.flushBuf with
  | mk r w' => rw [hw] at hflush; cases hflush; rfl

/-- With the buffer full, a failed drain takes nothing of the pieces. -/
theorem writePieces_of_full {w : FaultyWriter} (hfull : bufCapacity ≤ w.buf.queue.length)
    {f : Nat × IoError} (hfault : w.faults.head? = some (some f)) {b : Bytes} (hb : b ≠ [])
    (bs : List Bytes) :
    ∃ e, (writePieces (b :: bs) w).1 = .error e ∧ Grows w (writePieces (b :: bs) w).2 [] := by
  have hcap : 0 < bufCapacity := by decide
  have hpos : 0 < b.length := List.length_pos_iff.2 hb
  have hqueue : w.buf.queue ≠ [] := List.length_pos_iff.1 (by omega)
  rw [writePieces, show Write.writeAll w b = w.writeAll b from rfl,
    writeAll_of_failed_drain (by omega) hqueue hfault]
  exact ⟨f.2, rfl, grows_flushBuf w⟩

theorem writePieces_append {w w' : FaultyWriter} {ps : List Bytes}
    (h : writePieces ps w = (.ok (), w')) (qs : List Bytes) :
    writePieces (ps ++ qs) w = writePieces qs w' := by
  induction ps generalizing w with
  | nil => cases h; rfl
  | cons b bs ih =>
      rw [writePieces] at h
      rw [List.cons_append, writePieces]
      rcases hw : Write.writeAll w b with ⟨e | ⟨⟩, w₁⟩ <;> rw [hw] at h
      · cases h
      · exact ih h

/-! ## Which writes have to succeed -/

/-- Handing over a piece of `b` bytes with `queue` bytes buffered: how many writes to the file
that takes, and how many bytes are buffered afterwards. -/
def spill (queue b : Nat) : Nat × Nat :=
  if b < bufCapacity - queue then (0, queue + b)
  else
    let drained := if bufCapacity - queue < b then (if queue = 0 then 0 else 1, 0) else (0, queue)
    if bufCapacity ≤ b then (drained.1 + 1, drained.2) else (drained.1, drained.2 + b)

/-- How many writes to the file it takes to hand over pieces of these lengths with `queue` bytes
buffered. -/
def spills : Nat → List Nat → Nat
  | _, [] => 0
  | queue, b :: bs => (spill queue b).1 + spills (spill queue b).2 bs

theorem flushBuf_of_spared {w : FaultyWriter} {n : Nat}
    (hn : n = if w.buf.queue.length = 0 then 0 else 1) (h : Spared n w.faults) :
    w.flushBuf = (.ok (), ⟨w.buf.flushBuf, w.faults.drop n⟩) := by
  rw [flushBuf, passOn_of_spared h (by rw [hn]; simp only [List.length_eq_zero_iff])]
  simp [BufWriter.flushBuf]

theorem writeDirect_of_spared {w : FaultyWriter} {b : Bytes} (hb : bufCapacity ≤ b.length)
    (h : Spared 1 w.faults) :
    w.writeDirect b = (.ok (), ⟨⟨w.buf.file ++ b, w.buf.queue⟩, w.faults.drop 1⟩) := by
  have hne : b ≠ [] := by
    rintro rfl
    exact absurd hb (by decide)
  rw [writeDirect, passOn_of_spared h (if_neg hne).symm]

/-- If the writes to the file that a piece takes are spared, it is taken as if none could
fail. -/
theorem writeAll_of_spared {w : FaultyWriter} {b : Bytes}
    (h : Spared (spill w.buf.queue.length b.length).1 w.faults) :
    w.writeAll b =
        (.ok (), ⟨w.buf.writeAll b, w.faults.drop (spill w.buf.queue.length b.length).1⟩) ∧
      (w.buf.writeAll b).queue.length = (spill w.buf.queue.length b.length).2 := by
  have hcap : 0 < bufCapacity := by decide
  unfold spill at h ⊢
  unfold writeAll BufWriter.writeAll
  split
  · exact ⟨by simp [enqueue], by simp⟩
  · next hspare =>
      rw [if_neg hspare] at h
      by_cases hspill : bufCapacity - w.buf.queue.length < b.length <;>
        by_cases hbig : bufCapacity ≤ b.length <;>
        simp only [hspill, hbig, if_true, if_false] at h ⊢
      · obtain ⟨hdrain, hdirect⟩ := Spared.add h
        rw [flushBuf_of_spared rfl hdrain]
        dsimp only
        rw [writeDirect_of_spared hbig hdirect, List.drop_drop]
        exact ⟨rfl, rfl⟩
      · rw [flushBuf_of_spared rfl h]
        exact ⟨rfl, by simp [BufWriter.flushBuf]⟩
      · rw [writeDirect_of_spared hbig h]
        exact ⟨rfl, trivial⟩
      · exact ⟨by simp [enqueue], by simp⟩

theorem writePieces_of_spared {w : FaultyWriter} {ps : List Bytes}
    (h : Spared (spills w.buf.queue.length (ps.map List.length)) w.faults) :
    writePieces ps w = (.ok (), ⟨(writePieces ps w.buf).2,
      w.faults.drop (spills w.buf.queue.length (ps.map List.length))⟩) := by
  induction ps generalizing w with
  | nil => rfl
  | cons b bs ih =>
      obtain ⟨hhead, htail⟩ := Spared.add h
      obtain ⟨hw, hlen⟩ := writeAll_of_spared hhead
      rw [writePieces, show Write.writeAll w b = w.writeAll b from rfl, hw]
      dsimp only
      rw [ih (by rw [hlen]; exact htail), hlen, List.drop_drop]
      rfl

end FaultyWriter

end Steller
