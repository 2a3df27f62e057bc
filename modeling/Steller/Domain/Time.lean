import Mathlib.Order.Lattice
import Mathlib.Order.Nat
import Steller.Std.Bytes

/-!
# The clock and its units

Deadlines are stored and compared in milliseconds; seconds exist only between
the wire and the conversion.  All arithmetic saturates, so a deadline is always
a `u64`.

`Reading` is one answer of `Milliseconds::now`: the source reads the clock at
most three times for one command — once while parsing a relative option, once
while executing it, and a second time in `time_to_live` — and `Readings` names
the three, so that a model of a command can be given whatever the clock did.
-/

namespace Steller

/-- A second count, straight off the wire. -/
structure Seconds where
  get : UInt64
deriving DecidableEq, Repr

/-- A millisecond count: a UNIX timestamp or a duration. -/
@[ext]
structure Milliseconds where
  get : UInt64
deriving Repr

/-- `u64::saturating_add`. -/
def saturatingAdd (a b : UInt64) : UInt64 := UInt64.ofNat (min (a.toNat + b.toNat) (2 ^ 64 - 1))

/-- `u64::saturating_sub`. -/
def saturatingSub (a b : UInt64) : UInt64 := UInt64.ofNat (a.toNat - b.toNat)

/-- `u64::saturating_mul`. -/
def saturatingMul (a b : UInt64) : UInt64 := UInt64.ofNat (min (a.toNat * b.toNat) (2 ^ 64 - 1))

theorem toNat_saturatingAdd (a b : UInt64) :
    (saturatingAdd a b).toNat = min (a.toNat + b.toNat) (2 ^ 64 - 1) := by
  rw [saturatingAdd, UInt64.toNat_ofNat', Nat.mod_eq_of_lt (by omega)]

theorem toNat_saturatingSub (a b : UInt64) : (saturatingSub a b).toNat = a.toNat - b.toNat := by
  rw [saturatingSub, UInt64.toNat_ofNat',
    Nat.mod_eq_of_lt (lt_of_le_of_lt (Nat.sub_le _ _) a.toNat_lt)]

theorem toNat_saturatingMul (a b : UInt64) :
    (saturatingMul a b).toNat = min (a.toNat * b.toNat) (2 ^ 64 - 1) := by
  rw [saturatingMul, UInt64.toNat_ofNat', Nat.mod_eq_of_lt (by omega)]

namespace Milliseconds

theorem toNat_injective : Function.Injective fun m : Milliseconds ↦ m.get.toNat := by
  rintro ⟨a⟩ ⟨b⟩ h
  exact congrArg Milliseconds.mk (UInt64.toNat_inj.1 h)

/-- The derived `Ord`: millisecond counts compare as numbers. -/
instance : LinearOrder Milliseconds :=
  LinearOrder.lift' (fun m : Milliseconds ↦ m.get.toNat) toNat_injective

/-- Difference floored at zero. -/
def saturatingSub (self other : Milliseconds) : Milliseconds :=
  ⟨Steller.saturatingSub self.get other.get⟩

/-- Sum clamped at `u64::MAX`. -/
def saturatingAdd (self other : Milliseconds) : Milliseconds :=
  ⟨Steller.saturatingAdd self.get other.get⟩

/-- Round up to whole seconds: `div_ceil(1000)`. -/
def toSecondsRoundedUp (self : Milliseconds) : Seconds :=
  ⟨UInt64.ofNat ((self.get.toNat + 999) / 1000)⟩

/-- `From<Seconds>`, saturating. -/
def ofSeconds (value : Seconds) : Milliseconds := ⟨saturatingMul value.get 1000⟩

theorem le_iff {a b : Milliseconds} : a ≤ b ↔ a.get.toNat ≤ b.get.toNat := Iff.rfl

theorem toNat_ofSeconds (s : Seconds) :
    (ofSeconds s).get.toNat = min (1000 * s.get.toNat) (2 ^ 64 - 1) := by
  rw [ofSeconds, toNat_saturatingMul, Nat.mul_comm]
  rfl

theorem toNat_toSecondsRoundedUp (a : Milliseconds) :
    a.toSecondsRoundedUp.get.toNat = (a.get.toNat + 999) / 1000 := by
  have hlt := a.get.toNat_lt
  rw [toSecondsRoundedUp, UInt64.toNat_ofNat', Nat.mod_eq_of_lt (by omega)]

end Milliseconds

/-- `std::time::SystemTimeError`: the clock read before the UNIX epoch. -/
inductive SystemTimeError where
  | beforeEpoch
deriving DecidableEq, Repr

/-- One answer of `Milliseconds::now`. -/
abbrev Reading := Except SystemTimeError Milliseconds

/-- The answers the clock gives to one command. -/
structure Readings where
  /-- Read while parsing a relative deadline. -/
  parse : Reading
  /-- Read while executing. -/
  now : Reading
  /-- The second read of `time_to_live`. -/
  later : Reading

/-- A clock that stands still at `t`. -/
def Readings.at (t : Milliseconds) : Readings := ⟨.ok t, .ok t, .ok t⟩

end Steller
