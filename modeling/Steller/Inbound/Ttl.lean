import Mathlib.Algebra.Order.Floor.Div
import Steller.Domain.Presence
import Steller.Resp.Language
import Steller.Resp.Reply

/-!
# From an amount on the wire to a `TTL` reply

An amount a client writes becomes a deadline when its command is parsed, and
comes back as a number of seconds when the client asks for the `TTL`.  On the
way it goes through a saturating product, a saturating sum, a saturating
difference, a division that rounds up and a clamp to `i64`.  `ttl_exact` says
what comes out of that, for every amount and every reading of the clock: the
exact number, up to saturation, and never one of the two that mean something
else.
-/

namespace Steller

/-- `From<CommandOutcome> for Reply`. -/
def Reply.ofCommandOutcome : CommandOutcome → Reply
  | .value (some value) => .bulkString value
  | .value none => .nullBulk
  | .ok => .simpleString .ok
  | .pong (some message) => .bulkString message
  | .pong none => .simpleString .pong
  | .bool b => .integer (if b then 1 else 0)
  | .ttl .keyNotFound => .integer (-2)
  | .ttl .ttlNotFound => .integer (-1)
  | .ttl (.some ttl) => .integer (min (ttl.get.toNat : Int) (2 ^ 63 - 1))
  | .integer n => .integer n

/-- The reply to `TTL key` when the two readings it takes of the clock are `t₁` and `t₂`. -/
def ttlReply (c : Cache) (t₁ t₂ : Milliseconds) (key : Blob) : Except CacheError Reply :=
  (c.answer t₁ t₂ (.read (.ttl key))).map Reply.ofCommandOutcome

namespace Command.SetOption

/-- The deadline that an option with the amount `n`, parsed at `t`, stands for. -/
def exact (t n : Nat) : SetOption → Nat
  | .ex => min (2 ^ 64 - 1) (t + min (2 ^ 64 - 1) (1000 * n))
  | .px => min (2 ^ 64 - 1) (t + n)
  | .exat => min (2 ^ 64 - 1) (1000 * n)
  | .pxat => min (2 ^ 64 - 1) n

theorem toNat_absolute (option : SetOption) (t : Milliseconds) (n : UInt64) :
    (option.absolute t n).get.toNat = option.exact t.get.toNat n.toNat := by
  have hn := n.toNat_lt
  cases option with
  | ex =>
      rw [absolute, Milliseconds.saturatingAdd, toNat_saturatingAdd, Milliseconds.toNat_ofSeconds,
        exact, Nat.min_comm]
      dsimp only
      omega
  | px =>
      rw [absolute, Milliseconds.saturatingAdd, toNat_saturatingAdd, exact, Nat.min_comm]
  | exat => rw [absolute, Milliseconds.toNat_ofSeconds, exact, Nat.min_comm]
  | pxat =>
      rw [absolute, exact]
      dsimp only
      omega

end Command.SetOption

/-- The number a `TTL` replies with on a key with deadline `d`. -/
def ttlNumber (d t₁ t₂ : Nat) : Int :=
  if d ≤ t₁ then -2 else min (2 ^ 63 - 1) ((d - t₂ : Nat) ⌈/⌉ 1000 : Nat)

theorem ttlReply_eq {c : Cache} {key : Blob} {e : Entry} {d : Milliseconds}
    (he : c.lookup key = some e) (hd : e.expiresAt = some d) (t₁ t₂ : Milliseconds) :
    ttlReply c t₁ t₂ key = .ok (.integer (ttlNumber d.get.toNat t₁.get.toNat t₂.get.toNat)) := by
  obtain ⟨v, _⟩ := e
  cases hd
  rw [ttlReply, Cache.answer_read, ReadCommand.key, visibleAt, he, ttlNumber]
  by_cases h : d ≤ t₁
  · rw [Expiry.purge_of_expired (Expiry.expiredAt_some.2 h), if_pos (Milliseconds.le_iff.1 h)]
    rfl
  · rw [Expiry.purge_of_not_expired (mt Expiry.expiredAt_some.1 h),
      if_neg (mt Milliseconds.le_iff.2 h)]
    have hseconds : (d.saturatingSub t₂).toSecondsRoundedUp.get.toNat =
        (d.get.toNat - t₂.get.toNat) ⌈/⌉ 1000 := by
      rw [Milliseconds.toNat_toSecondsRoundedUp, Milliseconds.saturatingSub, toNat_saturatingSub]
      rfl
    rw [← hseconds, min_comm]
    rfl

/-! ## Bounds -/

theorem ttlNumber_of_lt {d t₁ : Nat} (h : t₁ < d) (t₂ : Nat) :
    ttlNumber d t₁ t₂ = min (2 ^ 63 - 1) (((d - t₂ + 999) / 1000 : Nat) : Int) :=
  if_neg (Nat.not_le.2 h)

/-- The number goes down with the second reading. -/
theorem ttlNumber_anti {d t₁ t₂ t₃ : Nat} (h : t₁ < d) (hle : t₂ ≤ t₃) :
    ttlNumber d t₁ t₃ ≤ ttlNumber d t₁ t₂ := by
  rw [ttlNumber_of_lt h, ttlNumber_of_lt h]
  omega

theorem ttlNumber_nonneg {d t₁ : Nat} (h : t₁ < d) (t₂ : Nat) : 0 ≤ ttlNumber d t₁ t₂ := by
  rw [ttlNumber_of_lt h]
  omega

/-- Before the deadline there is at least a second left. -/
theorem one_le_ttlNumber {d t₁ t₂ : Nat} (h₁ : t₁ < d) (h₂ : t₂ < d) : 1 ≤ ttlNumber d t₁ t₂ := by
  rw [ttlNumber_of_lt h₁]
  omega

section Relative

variable {t n t₁ t₂ : Nat} (hlive : t₁ < Command.SetOption.ex.exact t n)

include hlive

/-- No more is left than was given. -/
theorem ttlNumber_le (hle : t ≤ t₂) : ttlNumber (Command.SetOption.ex.exact t n) t₁ t₂ ≤ n := by
  rw [ttlNumber_of_lt hlive, Command.SetOption.exact]
  omega

/-- At the very reading at which the deadline was made, all of it is left. -/
theorem ttlNumber_eq (hfits : 1000 * n + t < 2 ^ 64) :
    ttlNumber (Command.SetOption.ex.exact t n) t₁ t = n := by
  rw [ttlNumber_of_lt hlive, Command.SetOption.exact]
  omega

end Relative

/-- For every amount `n` and every reading `t` at which it is parsed, the deadline of a `SET` or
of one of the `EXPIRE` commands is the exact one, up to saturation; and the `TTL` of a key with
a deadline is `-2` once the deadline has come, and until then the exact number of seconds that
are left, rounded up and clamped.  For a deadline that was `n` seconds away at `t`, that number
lies between `0` and `n`, is positive before the deadline and is `n` at the beginning, and never
goes up. -/
theorem ttl_exact (t : Milliseconds) (n : UInt64) :
    (∀ words key value option, Form words (.set key value (some (option, n))) →
      ∃ d, Command.tryFrom (.ok t) (.ofWords words) = .ok (.set key value (some d)) ∧
        d.get.toNat = option.exact t.get.toNat n.toNat) ∧
    (∀ words key, Form words (.expire key n) →
      ∃ d, Command.tryFrom (.ok t) (.ofWords words) = .ok (.expireAt key d) ∧
        d.get.toNat = Command.SetOption.ex.exact t.get.toNat n.toNat) ∧
    (∀ words key, Form words (.expireat key n) →
      ∃ d, Command.tryFrom (.ok t) (.ofWords words) = .ok (.expireAt key d) ∧
        d.get.toNat = Command.SetOption.exat.exact t.get.toNat n.toNat) ∧
    (∀ words key, Form words (.pexpireat key n) →
      ∃ d, Command.tryFrom (.ok t) (.ofWords words) = .ok (.expireAt key d) ∧
        d.get.toNat = Command.SetOption.pxat.exact t.get.toNat n.toNat) ∧
    (∀ (c : Cache) key e d, c.lookup key = some e → e.expiresAt = some d → ∀ t₁ t₂,
      ttlReply c t₁ t₂ key = .ok (.integer (ttlNumber d.get.toNat t₁.get.toNat t₂.get.toNat))) ∧
    ∀ (c : Cache) key e d, c.lookup key = some e → e.expiresAt = some d →
      d.get.toNat = Command.SetOption.ex.exact t.get.toNat n.toNat →
      ∀ t₁ t₂, t ≤ t₁ → t₁ ≤ t₂ → t₁ < d →
        ∃ r : Int, ttlReply c t₁ t₂ key = .ok (.integer r) ∧ 0 ≤ r ∧ r ≤ n.toNat ∧
          (t₂ < d → 1 ≤ r) ∧
          (t₂ = t → 0 < n.toNat → 1000 * n.toNat + t.get.toNat < 2 ^ 64 → r = n.toNat) ∧
          ∀ t₃, t₂ ≤ t₃ → ∃ r' : Int, ttlReply c t₁ t₃ key = .ok (.integer r') ∧ r' ≤ r := by
  refine ⟨fun words key value option hform ↦ ?_, fun words key hform ↦ ?_,
    fun words key hform ↦ ?_, fun words key hform ↦ ?_,
    fun c key e d he hd t₁ t₂ ↦ ttlReply_eq he hd t₁ t₂, ?_⟩
  · exact ⟨_, Command.tryFrom_of_form hform t, option.toNat_absolute t n⟩
  · exact ⟨_, Command.tryFrom_of_form hform t, Command.SetOption.ex.toNat_absolute t n⟩
  · exact ⟨_, Command.tryFrom_of_form hform t, Command.SetOption.exat.toNat_absolute t n⟩
  · exact ⟨_, Command.tryFrom_of_form hform t, Command.SetOption.pxat.toNat_absolute t n⟩
  · intro c key e d he hd hexact t₁ t₂ h₁ h₂ hlive
    have hlive' : t₁.get.toNat < d.get.toNat := hlive
    have hle : t.get.toNat ≤ t₂.get.toNat := h₁.trans h₂
    refine ⟨_, ttlReply_eq he hd t₁ t₂, ttlNumber_nonneg hlive' _, ?_, one_le_ttlNumber hlive', ?_,
      fun t₃ h₃ ↦ ⟨_, ttlReply_eq he hd t₁ t₃, ttlNumber_anti hlive' h₃⟩⟩
    · rw [hexact] at hlive' ⊢
      exact ttlNumber_le hlive' hle
    · rintro rfl - hfits
      rw [hexact] at hlive' ⊢
      exact ttlNumber_eq hlive' hfits

/-- A minute put on a key and asked for at once. -/
theorem ttl_exact_minute :
    let key := Blob.singleton 107
    let words : List Blob := [⟨ascii "Expire", by decide⟩, key, ⟨ascii "60", by decide⟩]
    let c : Cache := Finmap.singleton key ⟨.empty, some ⟨60005⟩⟩
    (∃ d, Command.tryFrom (.ok ⟨5⟩) (.ofWords words) = .ok (.expireAt key d) ∧
        d.get.toNat = 60005) ∧
      ttlReply c ⟨5⟩ ⟨5⟩ key = .ok (.integer 60) := by
  intro key words c
  have hform : Form words (.expire key 60) :=
    .expire key (Command.Verb.names_iff.2 (by decide)) (parseU64_eq_ok_iff.1 rfl)
  obtain ⟨-, hexpire, -, -, -, hreply⟩ := ttl_exact ⟨5⟩ 60
  refine ⟨hexpire words key hform, ?_⟩
  obtain ⟨r, hr, -, -, -, hfull, -⟩ := hreply c key _ ⟨60005⟩ Finmap.lookup_singleton_eq rfl rfl
    ⟨5⟩ ⟨5⟩ le_rfl le_rfl (by decide)
  rw [hr, hfull rfl (by decide) (by decide)]
  rfl

end Steller
