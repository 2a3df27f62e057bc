import Steller.Lib.PrefixCode
import Steller.Resp.Frame

/-!
# Replies

What the server writes back.  A simple string or a simple error ends at the
first `\r\n`, so its payload must hold neither byte: `SimpleInner` carries that
as a fact, which `try_from` checks and `sanitized` establishes by dropping the
offending bytes.

Every reply is a line without a carriage return, its terminator, and a body whose
length the line determines (`toBytes_eq`).  So a reply is delimited in the sense
of `PrefixCode.Delimited`, and a stream of replies and pushes has one reading.
-/

namespace Steller

open PrefixCode

/-- Validated payload of a simple string or a simple error. -/
@[ext]
structure SimpleInner where
  bytes : Bytes
  cr_notMem : cr ∉ bytes
  lf_notMem : lf ∉ bytes

/-- Why bytes cannot be the payload of a simple frame. -/
inductive SimpleInnerError where
  | includesCarriageReturn
  | includesLineFeed
deriving DecidableEq, Repr

/-- `TryFrom<&[u8]> for SimpleInner`: a carriage return is reported before a line feed. -/
def SimpleInner.tryFrom (value : Bytes) : Except SimpleInnerError SimpleInner :=
  if hcr : cr ∈ value then .error .includesCarriageReturn
  else if hlf : lf ∈ value then .error .includesLineFeed
  else .ok ⟨value, hcr, hlf⟩

/-- The `+OK` payload. -/
def SimpleInner.ok : SimpleInner := ⟨ascii "OK", by decide, by decide⟩

/-- The `+PONG` payload. -/
def SimpleInner.pong : SimpleInner := ⟨ascii "PONG", by decide, by decide⟩

/-- Every payload is one that `try_from` builds. -/
theorem SimpleInner.tryFrom_bytes (inner : SimpleInner) : tryFrom inner.bytes = .ok inner := by
  rw [tryFrom, dif_neg inner.cr_notMem, dif_neg inner.lf_notMem]

/-- Strip any `\r` or `\n` and wrap the result. -/
def SimpleInner.sanitized (bytes : Bytes) : SimpleInner where
  bytes := bytes.filter fun b ↦ b ≠ cr ∧ b ≠ lf
  cr_notMem h := by simpa using (List.mem_filter.1 h).2
  lf_notMem h := by simpa using (List.mem_filter.1 h).2

/-- A reply the server can write back to a client. -/
inductive Reply where
  | simpleString (inner : SimpleInner)
  | simpleError (inner : SimpleInner)
  | bulkString (bytes : Blob)
  | nullBulk
  | integer (n : Int)
  | array (replies : List Reply)

namespace Reply

/-- `i64::to_string().into_bytes()`. -/
def decimalInt (n : Int) : Bytes :=
  if n < 0 then ascii "-" ++ decimal n.natAbs else decimal n.natAbs

mutual

/-- Serialize this reply to RESP bytes. -/
def toBytes : Reply → Bytes
  | .simpleString inner => ascii "+" ++ inner.bytes ++ [cr, lf]
  | .simpleError inner => ascii "-" ++ inner.bytes ++ [cr, lf]
  | .bulkString bytes =>
      ascii "$" ++ decimal bytes.bytes.length ++ [cr, lf] ++ bytes.bytes ++ [cr, lf]
  | .nullBulk => ascii "$-1" ++ [cr, lf]
  | .integer n => ascii ":" ++ decimalInt n ++ [cr, lf]
  | .array replies => ascii "*" ++ decimal replies.length ++ [cr, lf] ++ toBytesList replies

/-- The bytes of the elements of an array. -/
def toBytesList : List Reply → Bytes
  | [] => []
  | reply :: replies => toBytes reply ++ toBytesList replies

end

/-! ## Unique decoding -/

/-- The byte a reply begins with. -/
def sigil : Reply → UInt8
  | .simpleString _ => 43
  | .simpleError _ => 45
  | .bulkString _ => 36
  | .nullBulk => 36
  | .integer _ => 58
  | .array _ => 42

/-- The rest of its first line. -/
def label : Reply → Bytes
  | .simpleString inner => inner.bytes
  | .simpleError inner => inner.bytes
  | .bulkString bytes => decimal bytes.bytes.length
  | .nullBulk => ascii "-1"
  | .integer n => decimalInt n
  | .array replies => decimal replies.length

/-- What follows that line. -/
def body : Reply → Bytes
  | .bulkString bytes => bytes.bytes ++ [cr, lf]
  | .array replies => replies.flatMap toBytes
  | _ => []

theorem toBytesList_eq (replies : List Reply) : toBytesList replies = replies.flatMap toBytes := by
  induction replies with
  | nil => rfl
  | cons r replies ih => rw [toBytesList, ih, List.flatMap_cons]

theorem toBytes_eq (r : Reply) : r.toBytes = (r.sigil :: r.label) ++ cr :: lf :: r.body := by
  cases r with
  | array replies => rw [toBytes, toBytesList_eq]; simp [label, body]; rfl
  | nullBulk => rfl
  | _ => rw [toBytes]; simp [label, body]; rfl

theorem toBytes_ne_nil (r : Reply) : r.toBytes ≠ [] := by
  rw [toBytes_eq]
  exact List.append_ne_nil_of_right_ne_nil _ (List.cons_ne_nil _ _)

theorem cr_notMem_decimalInt (n : Int) : cr ∉ decimalInt n := by
  unfold decimalInt
  split
  · rw [List.mem_append, not_or]
    exact ⟨by decide, cr_notMem_decimal _⟩
  · exact cr_notMem_decimal _

theorem cr_notMem_label (r : Reply) : cr ∉ r.label := by
  cases r with
  | simpleString inner => exact inner.cr_notMem
  | simpleError inner => exact inner.cr_notMem
  | bulkString bytes => exact cr_notMem_decimal _
  | nullBulk => decide
  | integer n => exact cr_notMem_decimalInt _
  | array replies => exact cr_notMem_decimal _

theorem cr_ne_sigil (r : Reply) : cr ≠ r.sigil := by
  cases r <;> simp [sigil, cr]

theorem decimal_injective : Function.Injective decimal := fun n m h ↦ by
  rw [← digitsValue_decimal n, h, digitsValue_decimal]

/-- No decimal begins with a minus sign. -/
theorem decimal_ne_minus (n : Nat) (rest : Bytes) : decimal n ≠ 45 :: rest := fun h ↦ by
  have hdigit : IsDigit 45 := mem_decimal (h ▸ List.mem_cons_self)
  exact hdigit.ne.2.1 rfl

theorem decimalInt_injective : Function.Injective decimalInt := by
  have hminus (n : Nat) : ascii "-" ++ decimal n = 45 :: decimal n := rfl
  intro n m h
  unfold decimalInt at h
  split at h <;> split at h
  · have := decimal_injective (List.append_cancel_left h)
    omega
  · exact absurd h.symm (hminus _ ▸ decimal_ne_minus _ _)
  · exact absurd h (hminus _ ▸ decimal_ne_minus _ _)
  · have := decimal_injective h
    omega

/-- The first line of a reply is told apart from what follows it. -/
theorem line_of_toBytes_append {r r' : Reply} {s t : Bytes}
    (h : r.toBytes ++ s = r'.toBytes ++ t) :
    r.sigil = r'.sigil ∧ r.label = r'.label ∧ r.body ++ s = r'.body ++ t := by
  have hline (q : Reply) : cr ∉ q.sigil :: q.label := by
    rw [List.mem_cons, not_or]
    exact ⟨cr_ne_sigil q, cr_notMem_label q⟩
  rw [toBytes_eq, toBytes_eq, List.append_assoc, List.append_assoc] at h
  obtain ⟨hhead, htail⟩ := append_cons_inj_of_notMem_left (hline r) (hline r') h
  obtain ⟨hsigil, hlabel⟩ := List.cons.inj hhead
  exact ⟨hsigil, hlabel, (List.cons.inj htail).2⟩

theorem delimited_simpleString (inner : SimpleInner) : Delimited toBytes (.simpleString inner) := by
  intro r s t h
  obtain ⟨hsigil, hlabel, hbody⟩ := line_of_toBytes_append h
  cases r with
  | simpleString inner' => exact ⟨congrArg _ (SimpleInner.ext hlabel), hbody⟩
  | _ => exact absurd hsigil (by simp [sigil])

theorem delimited_simpleError (inner : SimpleInner) : Delimited toBytes (.simpleError inner) := by
  intro r s t h
  obtain ⟨hsigil, hlabel, hbody⟩ := line_of_toBytes_append h
  cases r with
  | simpleError inner' => exact ⟨congrArg _ (SimpleInner.ext hlabel), hbody⟩
  | _ => exact absurd hsigil (by simp [sigil])

/-- The line of a bulk string is its length, which a null bulk does not have. -/
theorem delimited_bulkString (bytes : Blob) : Delimited toBytes (.bulkString bytes) := by
  intro r s t h
  obtain ⟨hsigil, hlabel, hbody⟩ := line_of_toBytes_append h
  cases r with
  | bulkString bytes' =>
      rw [body, body, List.append_assoc, List.append_assoc] at hbody
      obtain ⟨hbytes, htail⟩ := List.append_inj hbody (decimal_injective hlabel)
      exact ⟨congrArg _ (Blob.ext hbytes), List.append_cancel_left htail⟩
  | nullBulk => exact absurd hlabel (decimal_ne_minus _ _)
  | _ => exact absurd hsigil (by simp [sigil])

theorem delimited_nullBulk : Delimited toBytes .nullBulk := by
  intro r s t h
  obtain ⟨hsigil, hlabel, hbody⟩ := line_of_toBytes_append h
  cases r with
  | nullBulk => exact ⟨rfl, hbody⟩
  | bulkString bytes' => exact absurd hlabel.symm (decimal_ne_minus _ _)
  | _ => exact absurd hsigil (by simp [sigil])

theorem delimited_integer (n : Int) : Delimited toBytes (.integer n) := by
  intro r s t h
  obtain ⟨hsigil, hlabel, hbody⟩ := line_of_toBytes_append h
  cases r with
  | integer m => exact ⟨congrArg _ (decimalInt_injective hlabel), hbody⟩
  | _ => exact absurd hsigil (by simp [sigil])

theorem delimited_array {replies : List Reply} (h : ∀ r ∈ replies, Delimited toBytes r) :
    Delimited toBytes (.array replies) := by
  intro r s t heq
  obtain ⟨hsigil, hlabel, hbody⟩ := line_of_toBytes_append heq
  cases r with
  | array replies' =>
      obtain ⟨rfl, hst⟩ := Delimited.flatMap_of_length_eq h (decimal_injective hlabel) hbody
      exact ⟨rfl, hst⟩
  | _ => exact absurd hsigil (by simp [sigil])

/-- No reply can be mistaken for another, whatever follows either. -/
theorem delimited_toBytes : ∀ r : Reply, Delimited toBytes r
  | .simpleString inner => delimited_simpleString inner
  | .simpleError inner => delimited_simpleError inner
  | .bulkString bytes => delimited_bulkString bytes
  | .nullBulk => delimited_nullBulk
  | .integer n => delimited_integer n
  | .array replies => delimited_array fun r _ ↦ delimited_toBytes r

end Reply

/-- Several independent frames sent back to back. -/
structure Replies where
  inner : List Reply

/-- Every frame's bytes, concatenated. -/
def Replies.toBytes (self : Replies) : Bytes := self.inner.flatMap Reply.toBytes

/-- A reply and what follows it are read in one way only, and so is a sequence of replies
sent back to back, in batches or one by one. -/
theorem replies_uniquely_decodable :
    (∀ (r₁ r₂ : Reply) (s₁ s₂ : Bytes), r₁.toBytes ++ s₁ = r₂.toBytes ++ s₂ →
      r₁ = r₂ ∧ s₁ = s₂) ∧
    (∀ x y : Replies, x.toBytes = y.toBytes → x.inner = y.inner) ∧
    ∀ xs ys : List Replies, xs.flatMap Replies.toBytes = ys.flatMap Replies.toBytes →
      xs.flatMap Replies.inner = ys.flatMap Replies.inner := by
  have hinj := flatMap_injective Reply.delimited_toBytes Reply.toBytes_ne_nil
  refine ⟨fun r₁ r₂ s₁ s₂ h ↦ r₁.delimited_toBytes h, fun x y h ↦ hinj h, fun xs ys h ↦ ?_⟩
  have hflat (zs : List Replies) :
      zs.flatMap Replies.toBytes = (zs.flatMap Replies.inner).flatMap Reply.toBytes := by
    rw [List.flatMap_assoc]
    rfl
  rw [hflat, hflat] at h
  exact hinj h

/-! ## Error texts -/

/-- `Display for Utf8Error`. -/
def Utf8Error.display (e : Utf8Error) : Bytes :=
  match e.errorLen with
  | some len => ascii "invalid utf-8 sequence of " ++ decimal len ++ ascii " bytes from index " ++
      decimal e.validUpTo
  | none => ascii "incomplete utf-8 byte sequence from index " ++ decimal e.validUpTo

/-- `Display for ParseIntError`. -/
def ParseIntError.display : ParseIntError → Bytes
  | .empty => ascii "cannot parse integer from empty string"
  | .invalidDigit => ascii "invalid digit found in string"
  | .posOverflow => ascii "number too large to fit in target type"

/-- `Display for ParseLengthError`. -/
def ParseLengthError.display : ParseLengthError → Bytes
  | .utf8 e => e.display
  | .parseInt e => e.display

/-- `Display for FrameError`. -/
def FrameError.display : FrameError → Bytes
  | .missingTerminator => ascii "missing crlf terminator"
  | .unknownSigil => ascii "unknown sigil"
  | .invalidLength e => ascii "failed to parse length: " ++ e.display
  | .incomplete => ascii "incomplete frame"
  | .malformed => ascii "malformed value"

end Steller
