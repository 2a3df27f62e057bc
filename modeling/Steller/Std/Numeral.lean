import Mathlib.Algebra.Order.Group.Nat
import Mathlib.Tactic.Positivity
import Steller.Std.Bytes

/-!
# Text and numbers as the standard library reads them

Every length header and every deadline on the wire goes through two standard
library calls, `std::str::from_utf8` and `str::parse::<u64>`, and every one that
is written goes through `u64::to_string`.  This file transcribes the documented
behaviour of the three, errors included: a rejected header is echoed to the
client through the `Display` of exactly these errors.

What a `u64` may look like as text is `IsNumeral`, and `parseU64_eq_ok_iff` says
that parsing accepts exactly that; printing a number below `2 ^ 64` is one way of
writing it down (`isNumeral_decimal`).  Around the two stand the side conditions
of a RESP header: a numeral is valid UTF-8 (`IsNumeral.fromUtf8`) and contains no
carriage return (`IsNumeral.cr_notMem`).
-/

namespace Steller

/-! ## UTF-8 validation -/

/-- `std::str::Utf8Error`. -/
structure Utf8Error where
  /-- How many leading bytes are valid. -/
  validUpTo : Nat
  /-- Length of the bad sequence, or `none` when the input ended inside one. -/
  errorLen : Option Nat
deriving DecidableEq, Repr

/-- Length of the sequence a first byte announces; `0` for a byte that starts none. -/
def utf8CharWidth (first : UInt8) : Nat :=
  if first < 0x80 then 1
  else if 0xC2 ≤ first ∧ first ≤ 0xDF then 2
  else if 0xE0 ≤ first ∧ first ≤ 0xEF then 3
  else if 0xF0 ≤ first ∧ first ≤ 0xF4 then 4
  else 0

/-- A continuation byte. -/
def isContinuation (b : UInt8) : Bool := 0x80 ≤ b && b ≤ 0xBF

/-- The second bytes allowed after each three-byte lead: no overlong forms, no surrogates. -/
def isSecondOfThree (first second : UInt8) : Bool :=
  if first = 0xE0 then 0xA0 ≤ second && second ≤ 0xBF
  else if first = 0xED then 0x80 ≤ second && second ≤ 0x9F
  else isContinuation second

/-- The second bytes allowed after each four-byte lead: no overlong forms, nothing past
`U+10FFFF`. -/
def isSecondOfFour (first second : UInt8) : Bool :=
  if first = 0xF0 then 0x90 ≤ second && second ≤ 0xBF
  else if first = 0xF4 then 0x80 ≤ second && second ≤ 0x8F
  else isContinuation second

/-- The validation loop, `offset` bytes in. -/
def validateUtf8 (offset : Nat) : Bytes → Except Utf8Error Unit
  | [] => .ok ()
  | first :: rest =>
    match utf8CharWidth first with
    | 1 => validateUtf8 (offset + 1) rest
    | 2 => match rest with
      | [] => .error ⟨offset, none⟩
      | b :: rest => if isContinuation b then validateUtf8 (offset + 2) rest
          else .error ⟨offset, some 1⟩
    | 3 => match rest with
      | [] => .error ⟨offset, none⟩
      | b :: rest => if isSecondOfThree first b then
            match rest with
            | [] => .error ⟨offset, none⟩
            | c :: rest => if isContinuation c then validateUtf8 (offset + 3) rest
                else .error ⟨offset, some 2⟩
          else .error ⟨offset, some 1⟩
    | 4 => match rest with
      | [] => .error ⟨offset, none⟩
      | b :: rest => if isSecondOfFour first b then
            match rest with
            | [] => .error ⟨offset, none⟩
            | c :: rest => if isContinuation c then
                  match rest with
                  | [] => .error ⟨offset, none⟩
                  | d :: rest => if isContinuation d then validateUtf8 (offset + 4) rest
                      else .error ⟨offset, some 3⟩
                else .error ⟨offset, some 2⟩
          else .error ⟨offset, some 1⟩
    | _ => .error ⟨offset, some 1⟩

/-- `std::str::from_utf8`, of which the source keeps only success or failure: the text is
parsed again from the same bytes. -/
def fromUtf8 (bytes : Bytes) : Except Utf8Error Unit := validateUtf8 0 bytes

theorem validateUtf8_of_ascii {bytes : Bytes} (h : ∀ b ∈ bytes, b < 0x80) (offset : Nat) :
    validateUtf8 offset bytes = .ok () := by
  induction bytes generalizing offset with
  | nil => rfl
  | cons b bs ih =>
      have hb : utf8CharWidth b = 1 := if_pos (h b List.mem_cons_self)
      rw [validateUtf8.eq_def]
      simp only [hb]
      exact ih (fun c hc ↦ h c (List.mem_cons_of_mem _ hc)) _

/-! ## Parsing a `u64` -/

/-- `std::num::IntErrorKind`, as far as an unsigned parse can report it. -/
inductive ParseIntError where
  | empty
  | invalidDigit
  | posOverflow
deriving DecidableEq, Repr

/-- `char::to_digit(10)`. -/
def toDigit (b : UInt8) : Option Nat := if 48 ≤ b ∧ b ≤ 57 then some (b.toNat - 48) else none

/-- The digit loop: a bad digit is reported before an overflow at the same place. -/
def parseDigits (result : Nat) : Bytes → Except ParseIntError Nat
  | [] => .ok result
  | c :: cs => match toDigit c with
    | none => .error .invalidDigit
    | some x => if result * 10 + x < 2 ^ 64 then parseDigits (result * 10 + x) cs
        else .error .posOverflow

/-- `str::parse::<u64>`, and `str::parse::<usize>` on a 64-bit target: an optional `+`, then
at least one decimal digit. -/
def parseU64 (src : Bytes) : Except ParseIntError UInt64 :=
  if src = [] then .error .empty
  else if src = [43] ∨ src = [45] then .error .invalidDigit
  else (parseDigits 0 (if src.head? = some 43 then src.tail else src)).map UInt64.ofNat

/-- `u64::to_string().into_bytes()`. -/
def decimal (n : Nat) : Bytes := (Nat.toDigits 10 n).map fun c ↦ c.toNat.toUInt8

/-! ## Numerals -/

/-- An ASCII digit. -/
def IsDigit (b : UInt8) : Prop := 48 ≤ b ∧ b ≤ 57

/-- The number a string of digits stands for, read on from `value`. -/
def digitsValue (value : Nat) (ds : Bytes) : Nat :=
  ds.foldl (fun value d ↦ value * 10 + (d.toNat - 48)) value

/-- An optional `+` followed by one or more ASCII digits, of a value below `2 ^ 64`. -/
inductive IsNumeral : Bytes → Nat → Prop
  | digits {ds : Bytes} : ds ≠ [] → (∀ d ∈ ds, IsDigit d) → digitsValue 0 ds < 2 ^ 64 →
      IsNumeral ds (digitsValue 0 ds)
  | plus {ds : Bytes} : ds ≠ [] → (∀ d ∈ ds, IsDigit d) → digitsValue 0 ds < 2 ^ 64 →
      IsNumeral (43 :: ds) (digitsValue 0 ds)

theorem digitsValue_cons (value : Nat) (d : UInt8) (ds : Bytes) :
    digitsValue value (d :: ds) = digitsValue (value * 10 + (d.toNat - 48)) ds := by
  rw [digitsValue, digitsValue, List.foldl_cons]

theorem le_digitsValue (value : Nat) (ds : Bytes) : value ≤ digitsValue value ds := by
  induction ds generalizing value with
  | nil => exact le_rfl
  | cons d ds ih =>
      rw [digitsValue_cons]
      exact le_trans (by omega) (ih _)

theorem toDigit_eq_some_iff {b : UInt8} {x : Nat} :
    toDigit b = some x ↔ IsDigit b ∧ x = b.toNat - 48 := by
  unfold toDigit IsDigit
  split
  · next h => simp [h, eq_comm]
  · next h => simp [h]

/-- The digit loop succeeds on digits whose value fits, and computes it. -/
theorem parseDigits_eq_ok_iff {ds : Bytes} {acc n : Nat} (hacc : acc < 2 ^ 64) :
    parseDigits acc ds = .ok n ↔
      (∀ d ∈ ds, IsDigit d) ∧ digitsValue acc ds < 2 ^ 64 ∧ n = digitsValue acc ds := by
  induction ds generalizing acc with
  | nil =>
      refine ⟨fun h ↦ ?_, fun ⟨_, _, hn⟩ ↦ congrArg Except.ok hn.symm⟩
      cases h
      exact ⟨fun d hd ↦ absurd hd List.not_mem_nil, hacc, rfl⟩
  | cons d ds ih =>
      rw [parseDigits, digitsValue_cons, List.forall_mem_cons]
      cases hd : toDigit d with
      | none =>
          have hnot : ¬ IsDigit d := fun h ↦ by
            rw [toDigit_eq_some_iff.2 ⟨h, rfl⟩] at hd
            cases hd
          simp [hnot]
      | some x =>
          obtain ⟨hdigit, rfl⟩ := toDigit_eq_some_iff.1 hd
          simp only
          split
          · next hlt => rw [ih hlt]; simp [hdigit]
          · next hge =>
              have hle := le_digitsValue (acc * 10 + (d.toNat - 48)) ds
              refine ⟨nofun, fun ⟨_, hlt, _⟩ ↦ absurd (lt_of_le_of_lt hle hlt) hge⟩

/-- A digit is neither sign, nor a carriage return. -/
theorem IsDigit.ne {b : UInt8} (h : IsDigit b) : b ≠ 43 ∧ b ≠ 45 ∧ b ≠ cr := by
  refine ⟨?_, ?_, ?_⟩ <;> rintro rfl <;> exact absurd h (by unfold IsDigit; decide)

/-- `str::parse::<usize>` reads every numeral. -/
theorem IsNumeral.parseU64 {src : Bytes} {n : Nat} (h : IsNumeral src n) :
    parseU64 src = .ok (UInt64.ofNat n) := by
  cases h with
  | digits hne hd hlt =>
      obtain ⟨d, ds, rfl⟩ := List.exists_cons_of_ne_nil hne
      obtain ⟨hplus, hminus, -⟩ := (hd d List.mem_cons_self).ne
      rw [Steller.parseU64, if_neg hne, if_neg (by simp [hplus, hminus]), if_neg (by simp [hplus]),
        (parseDigits_eq_ok_iff (by decide)).2 ⟨hd, hlt, rfl⟩]
      rfl
  | plus hne hd hlt =>
      rw [Steller.parseU64, if_neg (List.cons_ne_nil _ _), if_neg (by simp [hne]),
        if_pos List.head?_cons, List.tail_cons,
        (parseDigits_eq_ok_iff (by decide)).2 ⟨hd, hlt, rfl⟩]
      rfl

/-- `str::parse::<usize>` accepts exactly the numerals. -/
theorem parseU64_eq_ok_iff {src : Bytes} {v : UInt64} :
    parseU64 src = .ok v ↔ IsNumeral src v.toNat := by
  refine ⟨fun h ↦ ?_, fun h ↦ by rw [h.parseU64, UInt64.ofNat_toNat]⟩
  unfold parseU64 at h
  split at h
  · cases h
  · next hne =>
      split at h
      · cases h
      · next hsign =>
          cases hp : parseDigits 0 (if src.head? = some 43 then src.tail else src) with
          | error e => rw [hp] at h; cases h
          | ok n =>
              rw [hp] at h
              cases h
              obtain ⟨hd, hlt, rfl⟩ := (parseDigits_eq_ok_iff (by decide)).1 hp
              rw [UInt64.toNat_ofNat_of_lt' hlt]
              split at hd
              · next hplus =>
                  obtain ⟨ds, rfl⟩ := List.head?_eq_some_iff.1 hplus
                  rw [if_pos hplus, List.tail_cons] at hlt ⊢
                  exact .plus (fun hds ↦ hsign (.inl (by rw [hds]))) hd hlt
              · next hplus =>
                  rw [if_neg hplus] at hlt ⊢
                  exact .digits hne hd hlt

theorem IsNumeral.ne_nil {src : Bytes} {v : Nat} (h : IsNumeral src v) : src ≠ [] := by
  cases h with
  | digits hne _ _ => exact hne
  | plus _ _ _ => exact List.cons_ne_nil _ _

theorem IsNumeral.lt {src : Bytes} {v : Nat} (h : IsNumeral src v) : v < 2 ^ 64 := by
  cases h with
  | digits _ _ hlt => exact hlt
  | plus _ _ hlt => exact hlt

/-- A numeral is a sign and digits. -/
theorem IsNumeral.mem {src : Bytes} {v : Nat} (h : IsNumeral src v) {b : UInt8} (hb : b ∈ src) :
    b = 43 ∨ IsDigit b := by
  cases h with
  | digits _ hd _ => exact .inr (hd b hb)
  | plus _ hd _ => exact (List.mem_cons.1 hb).imp id (hd b)

theorem IsNumeral.cr_notMem {src : Bytes} {v : Nat} (h : IsNumeral src v) : cr ∉ src := by
  intro hb
  rcases h.mem hb with hc | hc
  · exact absurd hc (by decide)
  · exact hc.ne.2.2 rfl

theorem IsNumeral.fromUtf8 {src : Bytes} {v : Nat} (h : IsNumeral src v) :
    fromUtf8 src = .ok () := by
  refine validateUtf8_of_ascii (fun b hb ↦ ?_) 0
  rcases h.mem hb with rfl | hc
  · decide
  · exact UInt8.lt_of_le_of_lt hc.2 (by decide)

/-! ## Printing then parsing -/

/-- A decimal digit character, as a byte. -/
theorem toNat_toUInt8_of_isDigit {c : Char} (h : c.isDigit = true) :
    48 ≤ c.toNat.toUInt8 ∧ c.toNat.toUInt8 ≤ 57 ∧ c.toNat.toUInt8.toNat = c.toNat := by
  have h' : 48 ≤ c.toNat ∧ c.toNat ≤ 57 := by
    simpa [Char.isDigit, UInt32.le_iff_toNat_le] using h
  have hn : c.toNat.toUInt8.toNat = c.toNat := by
    rw [Nat.toUInt8_eq, UInt8.toNat_ofNat']
    omega
  exact ⟨UInt8.le_iff_toNat_le.2 (by rw [hn]; exact h'.1),
    UInt8.le_iff_toNat_le.2 (by rw [hn]; exact h'.2), hn⟩

theorem mem_decimal {n : Nat} {b : UInt8} (h : b ∈ decimal n) : IsDigit b := by
  obtain ⟨c, hc, rfl⟩ := List.mem_map.1 h
  obtain ⟨h₁, h₂, _⟩ := toNat_toUInt8_of_isDigit
    (Nat.isDigit_of_mem_toDigits (by decide) (by decide) hc)
  exact ⟨h₁, h₂⟩

theorem decimal_ne_nil (n : Nat) : decimal n ≠ [] := by
  simp [decimal, Nat.toDigits_ne_nil]

/-- The header byte the parser splits on never occurs in a length. -/
theorem cr_notMem_decimal (n : Nat) : cr ∉ decimal n := fun h ↦ by
  have := (mem_decimal h).1
  revert this
  decide

theorem fromUtf8_decimal (n : Nat) : fromUtf8 (decimal n) = .ok () := by
  refine validateUtf8_of_ascii (fun b hb ↦ ?_) 0
  exact UInt8.lt_of_le_of_lt (mem_decimal hb).2 (by decide)

/-- A `u64` prints in at most twenty digits, so its text fits any vector. -/
theorem length_decimal_lt {n : Nat} (h : n < 2 ^ 64) : (decimal n).length < 2 ^ 64 := by
  have h20 : (Nat.toDigits 10 n).length ≤ 20 :=
    (Nat.length_toDigits_le_iff (by decide) (by decide)).2 (lt_trans h (by decide))
  rw [decimal, List.length_map]
  exact lt_of_le_of_lt h20 (by decide)

/-- The digits of a text are read as `Nat.ofDigitChars` reads them. -/
theorem digitsValue_map {cs : List Char} (hcs : ∀ c ∈ cs, c.isDigit = true) (acc : Nat) :
    digitsValue acc (cs.map fun c ↦ c.toNat.toUInt8) = Nat.ofDigitChars 10 cs acc := by
  induction cs generalizing acc with
  | nil => rfl
  | cons c cs ih =>
      obtain ⟨-, -, hn⟩ := toNat_toUInt8_of_isDigit (hcs c List.mem_cons_self)
      have hstep : acc * 10 + (c.toNat.toUInt8.toNat - 48) = 10 * acc + (c.toNat - '0'.toNat) := by
        rw [hn, Nat.mul_comm]
        rfl
      rw [List.map_cons, digitsValue_cons, hstep, Nat.ofDigitChars_cons]
      exact ih (fun d hd ↦ hcs d (List.mem_cons_of_mem _ hd)) _

theorem digitsValue_decimal (n : Nat) : digitsValue 0 (decimal n) = n := by
  have hdigits : ∀ c ∈ Nat.toDigits 10 n, c.isDigit = true := fun c hc ↦
    Nat.isDigit_of_mem_toDigits (by decide) (by decide) hc
  rw [decimal, digitsValue_map hdigits]
  exact Nat.ofDigitChars_toDigits (by decide) (by decide)

/-- What `u64::to_string` prints is a numeral. -/
theorem isNumeral_decimal {n : Nat} (h : n < 2 ^ 64) : IsNumeral (decimal n) n := by
  have hdigits := IsNumeral.digits (decimal_ne_nil n) (fun _ hd ↦ mem_decimal hd)
    (by rw [digitsValue_decimal]; exact h)
  rwa [digitsValue_decimal] at hdigits

/-- Printing a `u64` and parsing the text gives the number back. -/
theorem parseU64_decimal {n : Nat} (h : n < 2 ^ 64) :
    parseU64 (decimal n) = .ok (UInt64.ofNat n) := (isNumeral_decimal h).parseU64

end Steller
