import Mathlib.Algebra.Group.Nat.Defs
import Mathlib.Data.List.Basic
import Mathlib.Order.Basic

/-!
# Byte slices and owned byte vectors

The source moves bytes about in two forms.  A borrowed `&[u8]` is a list here,
so that slicing is `List.take` and `List.drop`; an owned `Vec<u8>` — a key, a
value, a bulk-string payload — is a `Blob`, a list together with the fact every
`Vec` carries, that its length is a `usize`.  Keeping that fact in the type is
what lets the codec theorems speak of *every* key and value: a vector whose
length would not print and parse back as a `usize` cannot be built.
-/

namespace Steller

/-- A borrowed byte slice, `&[u8]`. -/
abbrev Bytes := List UInt8

/-- An owned byte vector, `Vec<u8>`, on a 64-bit target. -/
@[ext]
structure Blob where
  /-- The bytes themselves. -/
  bytes : Bytes
  /-- The length of a `Vec` is a `usize`. -/
  size_lt : bytes.length < 2 ^ 64
deriving DecidableEq

namespace Blob

/-- The empty vector. -/
def empty : Blob := ⟨[], by decide⟩

instance : Inhabited Blob := ⟨empty⟩

/-- The vector of one byte. -/
def singleton (b : UInt8) : Blob := ⟨[b], by rw [List.length_singleton]; decide⟩

end Blob

/-- The bytes of a byte-string literal such as `b"SET"`. -/
def ascii (s : String) : Bytes := s.toUTF8.data.toList

/-- Carriage return, `b'\r'`. -/
def cr : UInt8 := 13

/-- Line feed, `b'\n'`. -/
def lf : UInt8 := 10

/-- `to_ascii_lowercase` on one byte: only `A`–`Z` move. -/
def toAsciiLowercaseByte (b : UInt8) : UInt8 := if 65 ≤ b ∧ b ≤ 90 then b + 32 else b

/-- `<[u8]>::to_ascii_lowercase`. -/
def toAsciiLowercase (bytes : Bytes) : Bytes := bytes.map toAsciiLowercaseByte

end Steller
