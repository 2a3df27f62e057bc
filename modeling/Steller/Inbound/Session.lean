import Mathlib.Data.Prod.Lex
import Steller.Resp.Codec
import Steller.Resp.Reply

/-!
# The reading half of a session

The socket hands over bytes in pieces of its own choosing, with timeouts in
between.  `SessionReader` keeps the bytes of any frame not yet complete and
parses from the front of its buffer again after each read; `read_frame` loops
until a frame is whole, answering a malformed one with an error reply.

`hears_eq_drain` is the point: what comes out does not depend on the pieces.  It is
what `parse_one`, called over and over on the whole stream as the log's replay
calls it, would produce.  The induction is over the deliveries still to come
and, between two of them, over the bytes in the buffer.
-/

namespace Steller

open Incremental

/-- What one `read` of the socket can bring. -/
inductive Delivery where
  /-- At least one byte, and no more than the array it is read into. -/
  | chunk (bytes : Bytes) (nonempty : bytes ≠ []) (length_le : bytes.length ≤ 1024)
  /-- `ErrorKind::TimedOut`. -/
  | timedOut
  /-- `ErrorKind::WouldBlock`, which is how a timeout shows on Unix. -/
  | wouldBlock

/-- The bytes of a delivery. -/
def Delivery.bytes : Delivery → Bytes
  | .chunk bytes _ _ => bytes
  | .timedOut => []
  | .wouldBlock => []

/-- The stream that a list of deliveries makes up. -/
def delivered (deliveries : List Delivery) : Bytes := deliveries.flatMap Delivery.bytes

/-- A socket reader that keeps the bytes of any frame not yet complete.  `inner` is what the
socket will still bring; after that it is at end of stream. -/
structure SessionReader where
  inner : List Delivery
  buf : Bytes

namespace SessionReader

/-- Read onto the end of the buffer, returning how many bytes arrived; `0` means end of
stream. -/
def read (self : SessionReader) : Except IoError Nat × SessionReader :=
  match self.inner with
  | [] => (.ok 0, self)
  | .chunk bytes _ _ :: inner => (.ok bytes.length, ⟨inner, self.buf ++ bytes⟩)
  | .timedOut :: inner => (.error .timedOut, { self with inner })
  | .wouldBlock :: inner => (.error .wouldBlock, { self with inner })

/-- Take one complete frame off the front of the buffer.  On `Incomplete` the buffer is kept;
on any other error the whole buffer is discarded. -/
def parseFrame (self : SessionReader) : Except FrameError Frame × SessionReader :=
  match Frame.parseOne self.buf with
  | .ok (frame, bytes) =>
      let consumed := self.buf.length - bytes.length
      (.ok frame, { self with buf := self.buf.drop consumed })
  | .error e => (.error e, if e = .incomplete then self else { self with buf := [] })

/-- The order in which the reader uses up its input: deliveries first, then the buffer. -/
def size (self : SessionReader) : Nat ×ₗ Nat := toLex (self.inner.length, self.buf.length)

/-- Draining the consumed length leaves exactly what the parser did not read. -/
theorem parseFrame_of_ok {self : SessionReader} {frame : Frame} {rest : Bytes}
    (h : Frame.parseOne self.buf = .ok (frame, rest)) :
    self.parseFrame = (.ok frame, ⟨self.inner, rest⟩) := by
  obtain ⟨pre, hpre⟩ := (Frame.parseFuel_suffix h).1
  rw [parseFrame, h]
  simp only [← hpre, List.length_append, Nat.add_sub_cancel, List.drop_left]

theorem parseFrame_of_incomplete {self : SessionReader}
    (h : Frame.parseOne self.buf = .error .incomplete) :
    self.parseFrame = (.error .incomplete, self) := by
  rw [parseFrame, h]
  rfl

theorem parseFrame_of_error {self : SessionReader} {e : FrameError}
    (h : Frame.parseOne self.buf = .error e) (he : e ≠ .incomplete) :
    self.parseFrame = (.error e, ⟨self.inner, []⟩) := by
  rw [parseFrame, h]
  simp only [if_neg he]

theorem parseFrame_incomplete {self reader : SessionReader}
    (h : self.parseFrame = (.error .incomplete, reader)) : reader = self := by
  rw [parseFrame] at h
  cases hp : Frame.parseOne self.buf with
  | ok q => rw [hp] at h; cases h
  | error e => rw [hp] at h; cases h; rfl

/-- A rejection takes the whole of a buffer that was not empty. -/
theorem size_parseFrame_error {self reader : SessionReader} {e : FrameError}
    (h : self.parseFrame = (.error e, reader)) (he : e ≠ .incomplete) :
    reader.size < self.size := by
  cases hp : Frame.parseOne self.buf with
  | ok q => rw [parseFrame, hp] at h; cases h
  | error e' =>
      have hbuf : self.buf ≠ [] := by
        intro hnil
        rw [parseFrame, hnil, Frame.stable_parseOne.nil] at h
        cases h
        exact he rfl
      rw [parseFrame, hp] at h
      obtain ⟨rfl, rfl⟩ :
          e' = e ∧ ite (e' = .incomplete) self { self with buf := [] } = reader := by
        simpa using h
      rw [if_neg he]
      exact Prod.Lex.right _ (List.length_pos_iff.2 hbuf)

/-- A read that is not at end of stream uses up a delivery. -/
theorem size_read {self reader : SessionReader} {r : Except IoError Nat}
    (h : self.read = (r, reader)) (hr : r ≠ .ok 0) : reader.size < self.size := by
  obtain ⟨inner, buf⟩ := self
  rcases inner with _ | ⟨⟨bytes, _, _⟩ | _ | _, inner⟩
  · cases h; exact absurd rfl hr
  · cases h; exact Prod.Lex.left _ _ (Nat.lt_succ_self _)
  · cases h; exact Prod.Lex.left _ _ (Nat.lt_succ_self _)
  · cases h; exact Prod.Lex.left _ _ (Nat.lt_succ_self _)

end SessionReader

/-- Failure on the reading side of a session. -/
inductive ReadHalfError where
  | io (error : IoError)
deriving DecidableEq

/-- The reading side of a split session: the reader, and the replies it has queued for the
writing side. -/
structure ReadHalf where
  reader : SessionReader
  sender : List Bytes

/-- The reply to a malformed frame. -/
def FrameError.reply (e : FrameError) : Bytes :=
  (Reply.simpleError (.sanitized (ascii "ERR " ++ e.display))).toBytes

namespace ReadHalf

/-- Read the next complete frame, pulling more bytes when the buffer holds only part of one;
`none` is a clean end of stream.  A malformed frame gets an error reply and is skipped.  The
first component lists the errors answered on the way. -/
def readFrame (self : ReadHalf) :
    List FrameError × Except ReadHalfError (Option Frame) × ReadHalf :=
  match _hparse : self.reader.parseFrame with
  | (.ok frame, reader) => ([], .ok (some frame), { self with reader })
  | (.error e, reader) =>
      if _he : e = .incomplete then
        match _hread : reader.read with
        | (.error e, reader) => ([], .error (.io e), { self with reader })
        | (.ok len, reader) =>
            if _hlen : len = 0 then ([], .ok none, { self with reader })
            else readFrame { self with reader }
      else
        let (answered, result) := readFrame { reader, sender := self.sender ++ [e.reply] }
        (e :: answered, result)
termination_by self.reader.size
decreasing_by
  · subst _he
    exact SessionReader.parseFrame_incomplete _hparse ▸
      SessionReader.size_read _hread (mt Except.ok.inj _hlen)
  · exact SessionReader.size_parseFrame_error _hparse _he

/-! ## The rounds of the loop -/

section Rounds

variable {self : ReadHalf}

theorem readFrame_of_ok {frame : Frame} {rest : Bytes}
    (h : Frame.parseOne self.reader.buf = .ok (frame, rest)) :
    self.readFrame = ([], .ok (some frame), ⟨⟨self.reader.inner, rest⟩, self.sender⟩) := by
  rw [readFrame]
  split
  · next frame' reader hparse =>
      rw [SessionReader.parseFrame_of_ok h] at hparse
      cases hparse
      rfl
  · next e reader hparse =>
      rw [SessionReader.parseFrame_of_ok h] at hparse
      cases hparse

theorem readFrame_of_error {e : FrameError} (h : Frame.parseOne self.reader.buf = .error e)
    (he : e ≠ .incomplete) :
    self.readFrame =
      let next : ReadHalf := ⟨⟨self.reader.inner, []⟩, self.sender ++ [e.reply]⟩
      (e :: next.readFrame.1, next.readFrame.2) := by
  rw [readFrame]
  split
  · next frame reader hparse =>
      rw [SessionReader.parseFrame_of_error h he] at hparse
      cases hparse
  · next e' reader hparse =>
      rw [SessionReader.parseFrame_of_error h he] at hparse
      cases hparse
      rw [dif_neg he]

/-- A buffer that is short of a frame sends the loop to the socket. -/
theorem readFrame_of_incomplete (h : Frame.parseOne self.reader.buf = .error .incomplete) :
    self.readFrame = match self.reader.read with
      | (.error e, reader) => ([], .error (.io e), { self with reader })
      | (.ok len, reader) =>
          if len = 0 then ([], .ok none, { self with reader })
          else readFrame { self with reader } := by
  rw [readFrame]
  split
  · next frame reader hparse =>
      rw [SessionReader.parseFrame_of_incomplete h] at hparse
      cases hparse
  · next e reader hparse =>
      rw [SessionReader.parseFrame_of_incomplete h] at hparse
      cases hparse
      rw [dif_pos rfl]
      rcases self.reader.read with ⟨e | len, reader⟩
      · rfl
      · simp only [dite_eq_ite]

end Rounds

/-- Every error answered on the way has its reply in the queue, in order. -/
theorem sender_readFrame (self : ReadHalf) :
    self.readFrame.2.2.sender = self.sender ++ self.readFrame.1.map FrameError.reply := by
  induction hn : self.reader.size using WellFoundedLT.induction generalizing self with
  | _ n ih =>
      subst hn
      cases hp : Frame.parseOne self.reader.buf with
      | ok q => rw [readFrame_of_ok hp]; exact (List.append_nil _).symm
      | error e =>
          by_cases he : e = .incomplete
          · subst he
            rw [readFrame_of_incomplete hp]
            rcases hr : self.reader.read with ⟨e | len, reader⟩
            · exact (List.append_nil _).symm
            · by_cases hlen : len = 0
              · simp only [if_pos hlen]; exact (List.append_nil _).symm
              · simp only [if_neg hlen]
                exact ih _ (SessionReader.size_read hr (mt Except.ok.inj hlen)) _ rfl
          · have hlt := SessionReader.size_parseFrame_error
              (SessionReader.parseFrame_of_error hp he) he
            rw [readFrame_of_error hp he]
            simp only [List.map_cons]
            rw [ih _ hlt _ rfl, List.append_assoc]
            rfl

/-- A call that does not end the stream uses up input. -/
theorem size_readFrame (self : ReadHalf) (h : self.readFrame.2.1 ≠ .ok none) :
    self.readFrame.2.2.reader.size < self.reader.size := by
  induction hn : self.reader.size using WellFoundedLT.induction generalizing self with
  | _ n ih =>
      subst hn
      cases hp : Frame.parseOne self.reader.buf with
      | ok q =>
          rw [readFrame_of_ok hp]
          exact Prod.Lex.right _ (Frame.stable_parseOne.consumes hp)
      | error e =>
          by_cases he : e = .incomplete
          · subst he
            rw [readFrame_of_incomplete hp] at h ⊢
            rcases hr : self.reader.read with ⟨e | len, reader⟩
            · exact SessionReader.size_read hr (by simp)
            · rw [hr] at h
              by_cases hlen : len = 0
              · simp only [if_pos hlen] at h; exact absurd rfl h
              · simp only [if_neg hlen] at h ⊢
                have hlt := SessionReader.size_read hr (mt Except.ok.inj hlen)
                exact (ih _ hlt _ h rfl).trans hlt
          · have hlt := SessionReader.size_parseFrame_error
              (SessionReader.parseFrame_of_error hp he) he
            rw [readFrame_of_error hp he] at h ⊢
            exact (ih _ hlt _ h rfl).trans hlt

end ReadHalf

/-! ## The caller -/

/-- What the session's loop gets to know of the stream, in order. -/
inductive Heard where
  | frame (frame : Frame)
  | rejected (error : FrameError)
  | eof

namespace ReadHalf

/-- The loop around `read_frame`: a timeout is skipped, any other read error ends it, and so
does the end of the stream. -/
def hears (self : ReadHalf) : List Heard :=
  match _h : self.readFrame with
  | (answered, .ok none, _) => answered.map .rejected ++ [.eof]
  | (answered, .ok (some frame), next) => answered.map .rejected ++ .frame frame :: next.hears
  | (answered, .error (.io .timedOut), next) => answered.map .rejected ++ next.hears
  | (answered, .error (.io .wouldBlock), next) => answered.map .rejected ++ next.hears
  | (answered, .error (.io .other), _) => answered.map .rejected
termination_by self.reader.size
decreasing_by
  all_goals
    have hlt := self.size_readFrame (by rw [_h]; simp)
    rw [_h] at hlt
    exact hlt

/-- What the loop makes of one call of `read_frame`. -/
def afterCall : List FrameError × Except ReadHalfError (Option Frame) × ReadHalf → List Heard
  | (answered, .ok none, _) => answered.map .rejected ++ [.eof]
  | (answered, .ok (some frame), next) => answered.map .rejected ++ .frame frame :: next.hears
  | (answered, .error (.io .timedOut), next) => answered.map .rejected ++ next.hears
  | (answered, .error (.io .wouldBlock), next) => answered.map .rejected ++ next.hears
  | (answered, .error (.io .other), _) => answered.map .rejected

theorem hears_eq (self : ReadHalf) : self.hears = afterCall self.readFrame := by
  rw [hears]
  split <;> next h => rw [h]; rfl

theorem afterCall_cons (e : FrameError) (answered : List FrameError)
    (result : Except ReadHalfError (Option Frame) × ReadHalf) :
    afterCall (e :: answered, result) = .rejected e :: afterCall (answered, result) := by
  rcases result with ⟨(_ | _ | _) | (_ | frame), next⟩ <;> rfl

section Calls

variable {inner : List Delivery} {buf : Bytes} {sender : List Bytes}

theorem hears_of_ok {frame : Frame} {rest : Bytes} (h : Frame.parseOne buf = .ok (frame, rest)) :
    hears ⟨⟨inner, buf⟩, sender⟩ = .frame frame :: hears ⟨⟨inner, rest⟩, sender⟩ := by
  rw [hears_eq, readFrame_of_ok h]
  rfl

theorem hears_of_error {e : FrameError} (h : Frame.parseOne buf = .error e)
    (he : e ≠ .incomplete) :
    hears ⟨⟨inner, buf⟩, sender⟩ =
      .rejected e :: hears ⟨⟨inner, []⟩, sender ++ [e.reply]⟩ := by
  rw [hears_eq, readFrame_of_error h he, afterCall_cons, hears_eq]

theorem hears_of_eof (h : Frame.parseOne buf = .error .incomplete) :
    hears ⟨⟨[], buf⟩, sender⟩ = [.eof] := by
  rw [hears_eq, readFrame_of_incomplete h]
  rfl

/-- A delivery, whatever it is, adds its bytes to the buffer and nothing else. -/
theorem hears_of_delivery (h : Frame.parseOne buf = .error .incomplete) (d : Delivery) :
    hears ⟨⟨d :: inner, buf⟩, sender⟩ = hears ⟨⟨inner, buf ++ d.bytes⟩, sender⟩ := by
  rw [hears_eq, readFrame_of_incomplete h]
  cases d with
  | chunk bytes nonempty length_le =>
      have hlen : bytes.length ≠ 0 := mt List.eq_nil_of_length_eq_zero nonempty
      simp only [SessionReader.read, if_neg hlen]
      rw [hears_eq]
      rfl
  | timedOut => rw [Delivery.bytes, List.append_nil]; rfl
  | wouldBlock => rw [Delivery.bytes, List.append_nil]; rfl

end Calls

/-- What the session heard is what repeated parsing of a stream found: the same frames, then
the same rejection, or the end of the stream if there is none. -/
def Agrees (found : Drained UInt8 FrameError Frame) (heard : List Heard) : Prop :=
  match found.stop with
  | none => heard = found.items.map .frame ++ [.eof]
  | some e => ∃ rest, heard = found.items.map .frame ++ .rejected e :: rest

theorem Agrees.cons {found : Drained UInt8 FrameError Frame} {heard : List Heard}
    (h : Agrees found heard) (frame : Frame) :
    Agrees (found.cons frame) (.frame frame :: heard) := by
  rcases hs : found.stop with _ | e
  · rw [Agrees, hs] at h
    rw [Agrees, show (found.cons frame).stop = none from hs, h]
    rfl
  · rw [Agrees, hs] at h
    rw [Agrees, show (found.cons frame).stop = some e from hs]
    obtain ⟨rest, rfl⟩ := h
    exact ⟨rest, rfl⟩

/-- Between two reads the loop takes frames off the buffer, by induction on what is in it; it
is enough to know what happens when the buffer is short of a frame. -/
theorem agrees_of_short {inner : List Delivery} {sender : List Bytes}
    (hshort : ∀ buf, Frame.parseOne buf = .error .incomplete →
      Agrees (drain .incomplete Frame.parseOne (buf ++ delivered inner))
        (hears ⟨⟨inner, buf⟩, sender⟩)) (buf : Bytes) :
    Agrees (drain .incomplete Frame.parseOne (buf ++ delivered inner))
      (hears ⟨⟨inner, buf⟩, sender⟩) := by
  induction hn : buf.length using Nat.strong_induction_on generalizing buf with
  | _ n ih =>
      cases hp : Frame.parseOne buf with
      | ok q =>
          obtain ⟨frame, rest⟩ := q
          rw [drain_of_ok Frame.stable_parseOne (Frame.stable_parseOne.ok_append hp _),
            hears_of_ok hp]
          exact (ih _ (hn ▸ Frame.stable_parseOne.consumes hp) rest rfl).cons frame
      | error e =>
          by_cases he : e = .incomplete
          · exact hshort buf (he ▸ hp)
          · rw [drain_of_error (Frame.stable_parseOne.error_append hp he _) he,
              hears_of_error hp he]
            exact ⟨_, rfl⟩

/-- From any buffer and any deliveries to come, the session hears what the rest of the stream
parses to. -/
theorem agrees_hears (inner : List Delivery) (buf : Bytes) (sender : List Bytes) :
    Agrees (drain .incomplete Frame.parseOne (buf ++ delivered inner))
      (hears ⟨⟨inner, buf⟩, sender⟩) := by
  induction inner generalizing buf with
  | nil =>
      refine agrees_of_short (fun buf hp ↦ ?_) buf
      rw [show delivered [] = [] from rfl, List.append_nil, drain_of_short hp, hears_of_eof hp]
      rfl
  | cons d inner ih =>
      refine agrees_of_short (fun buf hp ↦ ?_) buf
      rw [hears_of_delivery hp, show delivered (d :: inner) = d.bytes ++ delivered inner from rfl,
        ← List.append_assoc]
      exact ih (buf ++ d.bytes)

/-- However a stream is cut into reads, and whatever timeouts fall between them, the frames
the session reads before the first malformed one, and the error it answers that one with, are
those of parsing the whole stream; without a malformed frame it reads them all and then the
end of the stream. -/
theorem hears_eq_drain (deliveries : List Delivery) :
    let found := drain .incomplete Frame.parseOne (delivered deliveries)
    let heard := hears ⟨⟨deliveries, []⟩, []⟩
    (found.stop = none → heard = found.items.map .frame ++ [.eof]) ∧
      ∀ e, found.stop = some e →
        ∃ rest, heard = found.items.map .frame ++ .rejected e :: rest := by
  intro found heard
  have h : Agrees found heard := agrees_hears deliveries [] []
  rw [Agrees] at h
  constructor
  · intro hs
    rw [hs] at h
    exact h
  · intro e hs
    rw [hs] at h
    exact h

end ReadHalf

end Steller
