import Steller.Lib.Incremental
import Steller.Std.Numeral
import Steller.Std.Io
import Steller.Domain.Command

/-!
# RESP frames: the parser and the encoder

A frame is an array of frames or a bulk string.  `Frame.parseOne` takes one
frame off the front of a slice, and `Frame.writeTo` is its inverse.

The parser calls itself once per array element.  Each call consumes at least a
header, so the recursion is bounded by the input; `parseFuel` makes that bound
an argument, `parseOne` starts it high enough, and `parseOne_eq` is the equation
of the source, in which no fuel is left.  `parseHeader` is the common first half
of `parse_one`, up to the match on the sigil.
-/

namespace Steller

open Incremental

/-! ## The terminator -/

/-- `windows(2).position(|w| w == b"\r\n")`. -/
def crlfPosition : Bytes → Option Nat
  | a :: b :: rest =>
      if a = cr ∧ b = lf then some 0 else (crlfPosition (b :: rest)).map (· + 1)
  | _ => none

/-- Split on the first `\r\n`, which belongs to neither half. -/
def splitCrlf (bytes : Bytes) : Option (Bytes × Bytes) :=
  (crlfPosition bytes).map fun p ↦ (bytes.take p, bytes.drop (p + 2))

theorem crlfPosition_append {bytes : Bytes} {p : Nat} (h : crlfPosition bytes = some p)
    (t : Bytes) : crlfPosition (bytes ++ t) = some p ∧ p + 2 ≤ bytes.length := by
  induction bytes generalizing p with
  | nil => cases h
  | cons a bytes ih =>
      cases bytes with
      | nil => cases h
      | cons b rest =>
          rw [crlfPosition] at h
          change crlfPosition (a :: b :: (rest ++ t)) = some p ∧ _
          rw [crlfPosition]
          split at h
          · next hcr =>
              cases h
              rw [if_pos hcr]
              exact ⟨rfl, by simp⟩
          · next hcr =>
              rw [if_neg hcr]
              obtain ⟨q, hq, rfl⟩ := Option.map_eq_some_iff.1 h
              obtain ⟨hq', hlen⟩ := ih hq
              rw [List.cons_append] at hq'
              rw [hq']
              refine ⟨rfl, ?_⟩
              simp only [List.length_cons] at hlen ⊢
              omega

/-- The first `\r\n` of a slice is the first of every longer one. -/
theorem splitCrlf_append {bytes header rest : Bytes} (h : splitCrlf bytes = some (header, rest))
    (t : Bytes) : splitCrlf (bytes ++ t) = some (header, rest ++ t) := by
  obtain ⟨p, hp, heq⟩ := Option.map_eq_some_iff.1 h
  obtain ⟨hp', hlen⟩ := crlfPosition_append hp t
  cases heq
  rw [splitCrlf, hp', Option.map_some, List.take_append_of_le_length (by omega),
    List.drop_append_of_le_length (by omega)]

/-- The two halves and the terminator between them are the slice. -/
theorem splitCrlf_eq {bytes header rest : Bytes} (h : splitCrlf bytes = some (header, rest)) :
    bytes = header ++ cr :: lf :: rest := by
  obtain ⟨p, hp, heq⟩ := Option.map_eq_some_iff.1 h
  cases heq
  clear h
  induction bytes generalizing p with
  | nil => cases hp
  | cons a bytes ih =>
      cases bytes with
      | nil => cases hp
      | cons b rest =>
          rw [crlfPosition] at hp
          split at hp
          · next hcr =>
              cases hp
              rw [hcr.1, hcr.2]
              rfl
          · obtain ⟨q, hq, rfl⟩ := Option.map_eq_some_iff.1 hp
            exact congrArg (List.cons a) (ih q hq)

/-- What is behind the terminator is a suffix, without the terminator at least. -/
theorem splitCrlf_suffix {bytes header rest : Bytes} (h : splitCrlf bytes = some (header, rest)) :
    rest <:+ bytes ∧ rest.length + 2 ≤ bytes.length := by
  obtain ⟨p, hp, heq⟩ := Option.map_eq_some_iff.1 h
  obtain ⟨-, hlen⟩ := crlfPosition_append hp []
  cases heq
  refine ⟨List.drop_suffix _ _, ?_⟩
  rw [List.length_drop]
  omega

/-- A header without a carriage return ends at the terminator that follows it. -/
theorem splitCrlf_of_notMem {header : Bytes} (h : cr ∉ header) (rest : Bytes) :
    splitCrlf (header ++ cr :: lf :: rest) = some (header, rest) := by
  have hp : crlfPosition (header ++ cr :: lf :: rest) = some header.length := by
    induction header with
    | nil => exact if_pos ⟨rfl, rfl⟩
    | cons a header ih =>
        have ha : a ≠ cr := fun hc ↦ h (hc ▸ List.mem_cons_self)
        have hrest := ih fun hc ↦ h (List.mem_cons_of_mem _ hc)
        cases header with
        | nil => simp [crlfPosition, ha]
        | cons b header =>
            rw [List.cons_append] at hrest
            simp [crlfPosition, ha, hrest]
  rw [splitCrlf, hp, Option.map_some, List.take_left, ← List.drop_drop, List.drop_left]
  rfl

/-! ## Frames and errors -/

/-- A parsed RESP frame. -/
inductive Frame where
  | array (frames : List Frame)
  | bulkString (payload : Blob)

/-- Why the length in a RESP header didn't parse. -/
inductive ParseLengthError where
  | utf8 (error : Utf8Error)
  | parseInt (error : ParseIntError)
deriving DecidableEq, Repr

/-- Failure parsing a frame. -/
inductive FrameError where
  | missingTerminator
  | unknownSigil
  | invalidLength (error : ParseLengthError)
  | incomplete
  | malformed
deriving DecidableEq, Repr

namespace Frame

/-! ## Parsing -/

/-- The length bytes of a header, as a `usize`. -/
def parseLength (lenBytes : Bytes) : Except FrameError UInt64 :=
  match fromUtf8 lenBytes with
  | .error e => .error (.invalidLength (.utf8 e))
  | .ok () => match parseU64 lenBytes with
    | .error e => .error (.invalidLength (.parseInt e))
    | .ok len => .ok len

/-- The header line: its sigil, its length, and the bytes behind it. -/
def parseHeader (bytes : Bytes) : Except FrameError (UInt8 × UInt64 × Bytes) :=
  match splitCrlf bytes with
  | none => .error .incomplete
  | some (header, bytes) => match header with
    | [] => .error .malformed
    | sigil :: lenBytes =>
        if lenBytes.isEmpty then .error .malformed
        else match parseLength lenBytes with
          | .error e => .error e
          | .ok len => .ok (sigil, len, bytes)

/-- A bulk string of exactly `len` bytes followed by `\r\n`. -/
def parseBulkString (bytes : Bytes) (len : UInt64) : Except FrameError (Frame × Bytes) :=
  if bytes.length < len.toNat then .error .incomplete
  else
    let rest := bytes.drop len.toNat
    if rest.length < 2 then .error .incomplete
    else if rest.take 2 = [cr, lf] then
      .ok (.bulkString ⟨bytes.take len.toNat,
        lt_of_le_of_lt (List.length_take_le _ _) len.toNat_lt⟩, rest.drop 2)
    else .error .missingTerminator

/-- `len` consecutive frames, each read by `parse`. -/
def parseArrayWith (parse : Parser UInt8 FrameError Frame) (bytes : Bytes) (len : UInt64) :
    Except FrameError (Frame × Bytes) :=
  (times parse len.toNat bytes).map fun q ↦ (.array q.1, q.2)

/-- `parse_one`, nested at most `fuel` deep. -/
def parseFuel : Nat → Parser UInt8 FrameError Frame
  | 0, _ => .error .incomplete
  | fuel + 1, bytes => match parseHeader bytes with
    | .error e => .error e
    | .ok (sigil, len, bytes) =>
        if sigil = 42 then parseArrayWith (parseFuel fuel) bytes len
        else if sigil = 36 then parseBulkString bytes len
        else .error .unknownSigil

/-- Parse one frame from the front of `bytes`. -/
def parseOne (bytes : Bytes) : Except FrameError (Frame × Bytes) :=
  parseFuel (bytes.length + 1) bytes

/-- Parse `len` consecutive frames into an array. -/
def parseArray (bytes : Bytes) (len : UInt64) : Except FrameError (Frame × Bytes) :=
  parseArrayWith parseOne bytes len

theorem parseHeader_suffix {bytes rest : Bytes} {sigil : UInt8} {len : UInt64}
    (h : parseHeader bytes = .ok (sigil, len, rest)) :
    rest <:+ bytes ∧ rest.length + 2 ≤ bytes.length := by
  unfold parseHeader at h
  split at h
  · cases h
  · next header rest' hsplit =>
      have hsuffix := splitCrlf_suffix hsplit
      split at h
      · cases h
      · split at h
        · cases h
        · split at h
          · cases h
          · cases h; exact hsuffix

theorem parseBulkString_suffix {bytes rest : Bytes} {len : UInt64} {f : Frame}
    (h : parseBulkString bytes len = .ok (f, rest)) :
    rest <:+ bytes ∧ rest.length + 2 ≤ bytes.length := by
  unfold parseBulkString at h
  split at h
  · cases h
  · dsimp only at h
    split at h
    · cases h
    · next hlen =>
        split at h
        · cases h
          refine ⟨(List.drop_suffix _ _).trans (List.drop_suffix _ _), ?_⟩
          simp only [List.length_drop] at hlen ⊢
          omega
        · cases h

/-- A parsed frame takes at least its header off the front, however much fuel there is. -/
theorem parseFuel_suffix {fuel : Nat} {bytes rest : Bytes} {f : Frame}
    (h : parseFuel fuel bytes = .ok (f, rest)) : rest <:+ bytes ∧ rest.length < bytes.length := by
  induction fuel generalizing bytes rest f with
  | zero => cases h
  | succ fuel ih =>
      rw [parseFuel] at h
      split at h
      · cases h
      · next sigil len body hheader =>
          obtain ⟨hbody, hlen⟩ := parseHeader_suffix hheader
          split at h
          · unfold parseArrayWith at h
            cases ht : times (parseFuel fuel) len.toNat body with
            | error e => rw [ht] at h; cases h
            | ok q =>
                obtain ⟨fs, r⟩ := q
                rw [ht] at h
                cases h
                have hr : r <:+ body := times_suffix (fun hp ↦ (ih hp).1) ht
                exact ⟨hr.trans hbody, lt_of_le_of_lt hr.length_le (by omega)⟩
          · split at h
            · obtain ⟨hr, hle⟩ := parseBulkString_suffix h
              exact ⟨hr.trans hbody, by omega⟩
            · cases h

/-- Fuel beyond the length of the input makes no difference. -/
theorem parseFuel_eq {n m : Nat} {bytes : Bytes} (hn : bytes.length < n)
    (hm : bytes.length < m) : parseFuel n bytes = parseFuel m bytes := by
  induction n generalizing m bytes with
  | zero => omega
  | succ n ih =>
      obtain ⟨m, rfl⟩ : ∃ m', m = m' + 1 := ⟨m - 1, by omega⟩
      rw [parseFuel, parseFuel]
      cases hheader : parseHeader bytes with
      | error e => rfl
      | ok q =>
          obtain ⟨sigil, len, body⟩ := q
          have hlen := (parseHeader_suffix hheader).2
          have hagree : ∀ s : Bytes, s.length ≤ body.length → parseFuel n s = parseFuel m s :=
            fun s hs ↦ ih (by omega) (by omega)
          simp only
          rw [parseArrayWith, parseArrayWith,
            times_congr (fun _ hp ↦ (parseFuel_suffix hp).2) hagree _ le_rfl]

/-- The equation of the source. -/
theorem parseOne_eq (bytes : Bytes) :
    parseOne bytes = match parseHeader bytes with
      | .error e => .error e
      | .ok (sigil, len, bytes) =>
          if sigil = 42 then parseArray bytes len
          else if sigil = 36 then parseBulkString bytes len
          else .error .unknownSigil := by
  rw [parseOne, parseFuel]
  cases hheader : parseHeader bytes with
  | error e => rfl
  | ok q =>
      obtain ⟨sigil, len, body⟩ := q
      have hlen := (parseHeader_suffix hheader).2
      have hagree : ∀ s : Bytes, s.length ≤ body.length →
          parseFuel bytes.length s = parseOne s := fun s hs ↦
        parseFuel_eq (by omega) (by omega)
      simp only
      rw [parseArray, parseArrayWith, parseArrayWith,
        times_congr (fun _ hp ↦ (parseFuel_suffix hp).2) hagree _ le_rfl]

/-! ## Encoding -/

mutual

/-- The buffers `write_to` hands to `write_all`, in order. -/
def pieces : Frame → List Bytes
  | .array frames =>
      [ascii "*", decimal frames.length, [cr, lf]] ++ piecesList frames
  | .bulkString str =>
      [ascii "$", decimal str.bytes.length, [cr, lf], str.bytes, [cr, lf]]

/-- The buffers of the elements of an array. -/
def piecesList : List Frame → List Bytes
  | [] => []
  | f :: frames => pieces f ++ piecesList frames

end

/-- Encode this frame onto `w`.  Does not flush. -/
def writeTo {W : Type} [Write W] (self : Frame) (w : W) : Except IoError Unit × W :=
  writePieces self.pieces w

/-- The bytes of a frame: what `write_to` leaves in an empty `Vec<u8>`. -/
def encode (f : Frame) : Bytes := f.pieces.flatten

/-- `Frame::write_to` into a vector appends the encoding. -/
theorem writeTo_bytes (f : Frame) (w : Bytes) : f.writeTo w = (.ok (), w ++ f.encode) :=
  writePieces_bytes _ _

/-- `Frame::write_to` into the log's writer appends the encoding to the byte queue. -/
theorem writeTo_bufWriter (f : Frame) (w : BufWriter) :
    (f.writeTo w).1 = .ok () ∧ (f.writeTo w).2.contents = w.contents ++ f.encode :=
  BufWriter.writePieces_ok _ _

theorem flatten_piecesList (frames : List Frame) :
    (piecesList frames).flatten = frames.flatMap encode := by
  induction frames with
  | nil => rfl
  | cons f frames ih => rw [piecesList, List.flatten_append, ih]; rfl

theorem encode_array (frames : List Frame) :
    (array frames).encode =
      (42 :: decimal frames.length) ++ cr :: lf :: frames.flatMap encode := by
  rw [encode, pieces, List.flatten_append, flatten_piecesList]
  simp [show ascii "*" = [42] from rfl]

theorem encode_bulkString (str : Blob) :
    (bulkString str).encode =
      (36 :: decimal str.bytes.length) ++ cr :: lf :: (str.bytes ++ [cr, lf]) := by
  rw [encode, pieces]
  simp [show ascii "$" = [36] from rfl]

end Frame

/-- A mutation as the RESP frame a client would have sent: `From<WriteCommand> for Frame`. -/
def Frame.ofWriteCommand : WriteCommand → Frame
  | .set key value expiresAt => .array
      ([.bulkString ⟨ascii "SET", by decide⟩, .bulkString key, .bulkString value] ++
        match expiresAt with
        | none => []
        | some expiresAt =>
            [.bulkString ⟨ascii "PXAT", by decide⟩,
              .bulkString ⟨decimal expiresAt.get.toNat, length_decimal_lt expiresAt.get.toNat_lt⟩])
  | .delete key => .array [.bulkString ⟨ascii "DEL", by decide⟩, .bulkString key]
  | .expireAt key expiresAt => .array
      [.bulkString ⟨ascii "PEXPIREAT", by decide⟩, .bulkString key,
        .bulkString ⟨decimal expiresAt.get.toNat, length_decimal_lt expiresAt.get.toNat_lt⟩]
  | .persist key => .array [.bulkString ⟨ascii "PERSIST", by decide⟩, .bulkString key]

end Steller
