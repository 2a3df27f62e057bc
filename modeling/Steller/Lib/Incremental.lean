import Mathlib.Data.List.Induction
import Mathlib.Data.Nat.Basic
import Mathlib.Order.Basic

/-!
# Incremental parsers

A parser that reads from a socket or from a log that may be cut short has two
ways to fail: it can reject its input, or it can ask for more.  This file is
about parsers that keep the two apart *stably*: one distinguished error `short`
means "more input could still help", and every other verdict — a parsed item or
a rejection — is final, whatever bytes come next (`Stable`).

Two facts follow, and neither of them looks inside the parser.

* `drain_flatMap` — a concatenation of encodings decodes to the encoded items,
  followed by whatever the tail decodes to.
* `drain_take` — a concatenation of encodings cut at an arbitrary place decodes
  to the longest run of items whose encodings still fit, and stops for want of
  input, never on a rejection.

`drain` runs on fuel so that it computes; `drain_of_ok` and its companions are
the equations of the unbounded loop, which is what proofs use.
-/

universe u v w

namespace Incremental

variable {β : Type u} {ε : Type v} {α : Type w}

/-- A parser returns an item and the unread remainder, or an error. -/
abbrev Parser (β : Type u) (ε : Type v) (α : Type w) := List β → Except ε (α × List β)

/-! ## Stability -/

/-- The verdicts of `p` on inputs no longer than `N` survive any further input, `short`
excepted. -/
structure StableUpTo (short : ε) (p : Parser β ε α) (N : Nat) : Prop where
  /-- A parsed item is really taken off the front. -/
  consumes : ∀ {s a r}, s.length ≤ N → p s = .ok (a, r) → r.length < s.length
  /-- Later input ends up in the remainder of a successful parse. -/
  ok_append : ∀ {s a r}, s.length ≤ N → p s = .ok (a, r) → ∀ t, p (s ++ t) = .ok (a, r ++ t)
  /-- Later input does not cure a rejection. -/
  error_append : ∀ {s x}, s.length ≤ N → p s = .error x → x ≠ short → ∀ t, p (s ++ t) = .error x

/-- Both kinds of verdict at once: later input goes behind whatever is left over. -/
theorem stableUpTo_of_append {short : ε} {p : Parser β ε α} {N : Nat}
    (hconsumes : ∀ {s a r}, p s = .ok (a, r) → r.length < s.length)
    (happend : ∀ {s}, s.length ≤ N → p s ≠ .error short →
      ∀ t, p (s ++ t) = (p s).map fun q ↦ (q.1, q.2 ++ t)) : StableUpTo short p N where
  consumes _ hp := hconsumes hp
  ok_append hs hp t := by
    rw [happend hs (by rw [hp]; rintro ⟨⟩), hp]
    rfl
  error_append hs hp hx t := by
    rw [happend hs (by rw [hp]; exact mt Except.error.inj hx), hp]
    rfl

/-- `p` is stable on every input, and asks for more on the empty one. -/
structure Stable (short : ε) (p : Parser β ε α) : Prop where
  nil : p [] = .error short
  upTo : ∀ N, StableUpTo short p N

namespace Stable

variable {short : ε} {p : Parser β ε α} (h : Stable short p)

include h

theorem consumes {s : List β} {a : α} {r : List β} (hp : p s = .ok (a, r)) :
    r.length < s.length := (h.upTo _).consumes le_rfl hp

theorem ok_append {s : List β} {a : α} {r : List β} (hp : p s = .ok (a, r)) (t : List β) :
    p (s ++ t) = .ok (a, r ++ t) := (h.upTo _).ok_append le_rfl hp t

theorem error_append {s : List β} {x : ε} (hp : p s = .error x) (hx : x ≠ short)
    (t : List β) : p (s ++ t) = .error x := (h.upTo _).error_append le_rfl hp hx t

end Stable

/-! ## Repetition -/

/-- `n` items in a row. -/
def times (p : Parser β ε α) : Nat → Parser β ε (List α)
  | 0, s => .ok ([], s)
  | n + 1, s => match p s with
    | .error x => .error x
    | .ok (a, r) => match times p n r with
      | .error x => .error x
      | .ok (as, r') => .ok (a :: as, r')

theorem times_succ_of_ok {p : Parser β ε α} {s : List β} {a : α} {r : List β}
    (hp : p s = .ok (a, r)) (n : Nat) :
    times p (n + 1) s = (times p n r).map fun q ↦ (a :: q.1, q.2) := by
  rw [times, hp]
  simp only
  cases times p n r <;> rfl

theorem times_succ_of_error {p : Parser β ε α} {s : List β} {x : ε} (hp : p s = .error x)
    (n : Nat) : times p (n + 1) s = .error x := by
  rw [times, hp]

/-- A successful repetition starts with a successful item. -/
theorem times_succ_eq_ok {p : Parser β ε α} {n : Nat} {s : List β} {as : List α} {r' : List β}
    (h : times p (n + 1) s = .ok (as, r')) :
    ∃ a r as', p s = .ok (a, r) ∧ times p n r = .ok (as', r') ∧ as = a :: as' := by
  cases hp : p s with
  | error x => rw [times_succ_of_error hp] at h; cases h
  | ok q =>
      obtain ⟨a, r⟩ := q
      rw [times_succ_of_ok hp] at h
      cases ht : times p n r with
      | error x => rw [ht] at h; cases h
      | ok q' =>
          rw [ht] at h
          cases h
          exact ⟨a, r, q'.1, rfl, ht, rfl⟩

/-- A repetition only looks at suffixes of its input, so it does not notice a parser that
agrees on those. -/
theorem times_congr {p q : Parser β ε α} {N : Nat}
    (hc : ∀ {s a r}, s.length ≤ N → p s = .ok (a, r) → r.length < s.length)
    (hpq : ∀ s : List β, s.length ≤ N → p s = q s) (n : Nat) {s : List β}
    (hs : s.length ≤ N) : times p n s = times q n s := by
  induction n generalizing s with
  | zero => rfl
  | succ n ih =>
      cases hp : p s with
      | error x => rw [times_succ_of_error hp, times_succ_of_error (hpq s hs ▸ hp)]
      | ok a =>
          rw [times_succ_of_ok hp, times_succ_of_ok (hpq s hs ▸ hp),
            ih (le_trans (le_of_lt (hc hs hp)) hs)]

/-- A repetition hands back a suffix of its input, if each item does. -/
theorem times_suffix {p : Parser β ε α} (hp : ∀ {s a r}, p s = .ok (a, r) → r <:+ s) {n : Nat}
    {s : List β} {as : List α} {r : List β} (ht : times p n s = .ok (as, r)) : r <:+ s := by
  induction n generalizing s as with
  | zero => cases ht; exact List.suffix_rfl
  | succ n ih =>
      obtain ⟨a, r', as', hr', ht', -⟩ := times_succ_eq_ok ht
      exact (ih ht').trans (hp hr')

/-- If whatever `p` takes off the front belongs to a language of the item it answers, then
a repetition takes off one word for each item. -/
theorem times_sound {p : Parser β ε α} {L : α → List β → Prop}
    (hp : ∀ {s a r}, p s = .ok (a, r) → ∃ w, L a w ∧ s = w ++ r) {n : Nat} {s : List β}
    {as : List α} {r : List β} (ht : times p n s = .ok (as, r)) :
    as.length = n ∧ ∃ ws, List.Forall₂ L as ws ∧ s = ws.flatten ++ r := by
  induction n generalizing s as with
  | zero => cases ht; exact ⟨rfl, [], .nil, rfl⟩
  | succ n ih =>
      obtain ⟨a, r', as', hr', ht', rfl⟩ := times_succ_eq_ok ht
      obtain ⟨w, hw, rfl⟩ := hp hr'
      obtain ⟨hlen, ws, hws, rfl⟩ := ih ht'
      refine ⟨congrArg (· + 1) hlen, w :: ws, .cons hw hws, ?_⟩
      rw [List.flatten_cons, List.append_assoc]

section Repetition

variable {short : ε} {p : Parser β ε α} {N : Nat} (h : StableUpTo short p N)

include h

/-- A repetition is final, unless it asks for more. -/
theorem StableUpTo.times_append {n : Nat} {s : List β} (hs : s.length ≤ N)
    (ht : times p n s ≠ .error short) (t : List β) :
    times p n (s ++ t) = (times p n s).map fun q ↦ (q.1, q.2 ++ t) := by
  induction n generalizing s with
  | zero => rfl
  | succ n ih =>
      cases hp : p s with
      | error x =>
          rw [times_succ_of_error hp] at ht ⊢
          have hx : x ≠ short := mt (congrArg Except.error) ht
          exact times_succ_of_error (h.error_append hs hp hx t) n
      | ok q =>
          obtain ⟨a, r⟩ := q
          rw [times_succ_of_ok hp] at ht ⊢
          have hrest : times p n r ≠ .error short := fun hr ↦ ht (by rw [hr]; rfl)
          rw [times_succ_of_ok (h.ok_append hs hp t), ih (le_trans (h.consumes hs hp).le hs) hrest]
          cases times p n r <;> rfl

end Repetition

/-! ## Draining a stream -/

/-- What a decoding loop leaves behind. -/
@[ext]
structure Drained (β : Type u) (ε : Type v) (α : Type w) where
  /-- The items, in order. -/
  items : List α
  /-- The rejection that stopped the loop, or `none` when it stopped for want of input. -/
  stop : Option ε
  /-- The input from the place where the loop stopped. -/
  rest : List β

/-- Put an item in front of what a loop went on to find. -/
def Drained.cons (a : α) (d : Drained β ε α) : Drained β ε α := ⟨a :: d.items, d.stop, d.rest⟩

variable [DecidableEq ε]

/-- The decoding loop, for at most `n` rounds. -/
def drainFuel (short : ε) (p : Parser β ε α) : Nat → List β → Drained β ε α
  | 0, s => ⟨[], none, s⟩
  | n + 1, s => match p s with
    | .ok (a, r) => (drainFuel short p n r).cons a
    | .error x => ⟨[], if x = short then none else some x, s⟩

/-- Parse items off the front of `s` until one is missing or rejected. -/
def drain (short : ε) (p : Parser β ε α) (s : List β) : Drained β ε α :=
  drainFuel short p (s.length + 1) s

section Drain

variable {short : ε} {p : Parser β ε α} (h : Stable short p)

include h

/-- Fuel beyond the length of the input makes no difference. -/
theorem drainFuel_eq {n m : Nat} {s : List β} (hn : s.length < n) (hm : s.length < m) :
    drainFuel short p n s = drainFuel short p m s := by
  induction n generalizing m s with
  | zero => omega
  | succ n ih =>
      obtain ⟨m, rfl⟩ : ∃ m', m = m' + 1 := ⟨m - 1, by omega⟩
      rw [drainFuel, drainFuel]
      cases hp : p s with
      | error x => rfl
      | ok q =>
          obtain ⟨a, r⟩ := q
          have hlt := h.consumes hp
          simp only
          rw [ih (by omega : r.length < n) (by omega : r.length < m)]

theorem drain_of_ok {s : List β} {a : α} {r : List β} (hp : p s = .ok (a, r)) :
    drain short p s = (drain short p r).cons a := by
  have hlt := h.consumes hp
  rw [drain, drainFuel, hp]
  simp only
  rw [drain, drainFuel_eq h (by omega : r.length < s.length) (by omega : r.length < r.length + 1)]

omit h in
theorem drain_of_short {s : List β} (hp : p s = .error short) :
    drain short p s = ⟨[], none, s⟩ := by
  rw [drain, drainFuel, hp]
  simp

omit h in
theorem drain_of_error {s : List β} {x : ε} (hp : p s = .error x) (hx : x ≠ short) :
    drain short p s = ⟨[], some x, s⟩ := by
  rw [drain, drainFuel, hp]
  simp [hx]

omit [DecidableEq ε] in
/-- Induction along the loop: an item is taken off, or the loop stops. -/
theorem drain_induction {motive : List β → Prop}
    (ok : ∀ {s a r}, p s = .ok (a, r) → motive r → motive s)
    (stop : ∀ {s}, p s = .error short → motive s)
    (error : ∀ {s x}, p s = .error x → x ≠ short → motive s) (s : List β) : motive s := by
  classical
  induction hn : s.length using Nat.strong_induction_on generalizing s with
  | _ n ih =>
      cases hp : p s with
      | ok q => exact ok hp (ih _ (hn ▸ h.consumes hp) q.2 rfl)
      | error x =>
          by_cases hx : x = short
          · exact stop (hx ▸ hp)
          · exact error hp hx

/-- The loop that stops for want of input goes on where it stopped. -/
theorem drain_append {s : List β} (hs : (drain short p s).stop = none) (t : List β) :
    drain short p (s ++ t) =
      let found := drain short p ((drain short p s).rest ++ t)
      ⟨(drain short p s).items ++ found.items, found.stop, found.rest⟩ := by
  induction s using drain_induction h with
  | ok hp ih =>
      rw [drain_of_ok h hp] at hs ⊢
      rw [drain_of_ok h (h.ok_append hp t), ih hs]
      rfl
  | stop hp =>
      rw [drain_of_short hp]
      rfl
  | error hp hx =>
      rw [drain_of_error hp hx] at hs
      cases hs

/-- A rejection stays where it is. -/
theorem stop_drain_append {s : List β} {x : ε} (hs : (drain short p s).stop = some x)
    (t : List β) : (drain short p (s ++ t)).stop = some x := by
  induction s using drain_induction h with
  | ok hp ih =>
      rw [drain_of_ok h hp] at hs
      rw [drain_of_ok h (h.ok_append hp t)]
      exact ih hs
  | stop hp =>
      rw [drain_of_short hp] at hs
      cases hs
  | error hp hx =>
      rw [drain_of_error hp hx] at hs
      rw [drain_of_error (h.error_append hp hx t) hx]
      exact hs

/-- What is left when the loop stops for want of input is short of an item. -/
theorem short_rest_drain {s : List β} (hs : (drain short p s).stop = none) :
    p (drain short p s).rest = .error short := by
  induction s using drain_induction h with
  | ok hp ih =>
      rw [drain_of_ok h hp] at hs ⊢
      exact ih hs
  | stop hp => rwa [drain_of_short hp]
  | error hp hx =>
      rw [drain_of_error hp hx] at hs
      cases hs

end Drain

/-! ## Encodings -/

omit [DecidableEq ε] in
/-- `w` is an encoding of `a`: wherever it stands, `p` takes exactly it off the front and
answers `a`. -/
def Encodes (p : Parser β ε α) (a : α) (w : List β) : Prop := ∀ r, p (w ++ r) = .ok (a, r)

section Encode

variable {short : ε} {p : Parser β ε α} (h : Stable short p)

include h

omit [DecidableEq ε] in
/-- A proper prefix of an encoding is short of input: it is neither an item nor a
rejection. -/
theorem Encodes.short_of_prefix {a : α} {u v : List β} (he : Encodes p a (u ++ v))
    (hv : v ≠ []) : p u = .error short := by
  have hfull : p (u ++ v) = .ok (a, []) := by simpa using he []
  cases hp : p u with
  | ok q =>
      obtain ⟨b, r⟩ := q
      have := (h.ok_append hp v).symm.trans hfull
      simp only [Except.ok.injEq, Prod.mk.injEq, List.append_eq_nil_iff] at this
      exact absurd this.2.2 hv
  | error x =>
      by_contra hx
      have hx' : x ≠ short := fun hc ↦ hx (by rw [hc])
      have := (h.error_append hp hx' v).symm.trans hfull
      cases this

omit [DecidableEq ε] h in
/-- Encodings one after another encode the list of their items. -/
theorem Encodes.times {as : List α} {ws : List (List β)} (he : List.Forall₂ (Encodes p) as ws) :
    Encodes (times p as.length) as ws.flatten := by
  intro r
  induction he with
  | nil => rfl
  | cons ha _ ih =>
      rw [List.flatten_cons, List.append_assoc, List.length_cons, times_succ_of_ok (ha _), ih]
      rfl

variable {γ : Type*} {f : γ → α} {enc : γ → List β} (henc : ∀ c, Encodes p (f c) (enc c))

include henc

/-- A concatenation of encodings decodes to its items, then to what the tail decodes to. -/
theorem drain_flatMap (cs : List γ) (t : List β) :
    drain short p (cs.flatMap enc ++ t) =
      ⟨cs.map f ++ (drain short p t).items, (drain short p t).stop, (drain short p t).rest⟩ := by
  induction cs with
  | nil => rfl
  | cons c cs ih =>
      rw [List.flatMap_cons, List.append_assoc, drain_of_ok h (henc c _), ih]
      rfl

/-- A concatenation of encodings decodes to exactly its items. -/
theorem drain_flatMap_nil (cs : List γ) :
    drain short p (cs.flatMap enc) = ⟨cs.map f, none, []⟩ := by
  have := drain_flatMap h henc cs []
  rw [drain_of_short h.nil, List.append_nil, List.append_nil] at this
  exact this

end Encode

/-- The items of `cs` whose encodings fit, one after another, into `k` symbols. -/
def fitting {γ : Type*} (enc : γ → List β) : Nat → List γ → List γ
  | _, [] => []
  | k, c :: cs => if (enc c).length ≤ k then c :: fitting enc (k - (enc c).length) cs else []

section Fitting

variable {γ : Type*} {enc : γ → List β}

theorem fitting_prefix (k : Nat) (cs : List γ) : fitting enc k cs <+: cs := by
  induction cs generalizing k with
  | nil => exact List.prefix_rfl
  | cons c cs ih =>
      rw [fitting]
      split
      · exact List.cons_prefix_cons.2 ⟨rfl, ih _⟩
      · exact List.nil_prefix

theorem length_flatMap_fitting_le (k : Nat) (cs : List γ) :
    ((fitting enc k cs).flatMap enc).length ≤ k := by
  induction cs generalizing k with
  | nil => exact Nat.zero_le _
  | cons c cs ih =>
      rw [fitting]
      split
      · have := ih (k - (enc c).length)
        rw [List.flatMap_cons, List.length_append]
        omega
      · exact Nat.zero_le _

/-- No longer run of items fits. -/
theorem prefix_fitting {k : Nat} {cs ds : List γ} (hd : ds <+: cs)
    (hk : (ds.flatMap enc).length ≤ k) : ds <+: fitting enc k cs := by
  induction cs generalizing k ds with
  | nil => exact hd
  | cons c cs ih =>
      cases ds with
      | nil => exact List.nil_prefix
      | cons d ds =>
          obtain ⟨rfl, hds⟩ := List.cons_prefix_cons.1 hd
          rw [List.flatMap_cons, List.length_append] at hk
          rw [fitting, if_pos (by omega)]
          exact List.cons_prefix_cons.2 ⟨rfl, ih hds (by omega)⟩

variable {short : ε} {p : Parser β ε α} {f : γ → α}

/-- A log cut at any place decodes to the items whose encodings are whole, and stops for
want of input. -/
theorem drain_take (h : Stable short p) (henc : ∀ c, Encodes p (f c) (enc c)) (k : Nat)
    (cs : List γ) :
    (drain short p ((cs.flatMap enc).take k)).items = (fitting enc k cs).map f ∧
      (drain short p ((cs.flatMap enc).take k)).stop = none := by
  induction cs generalizing k with
  | nil =>
      rw [List.flatMap_nil, List.take_nil, drain_of_short h.nil]
      exact ⟨rfl, rfl⟩
  | cons c cs ih =>
      rw [List.flatMap_cons, List.take_append, fitting]
      split
      · next hle =>
          obtain ⟨hi, hst⟩ := ih (k - (enc c).length)
          rw [List.take_of_length_le hle, drain_of_ok h (henc c _)]
          exact ⟨congrArg (List.cons (f c)) hi, hst⟩
      · next hlt =>
          have hsplit : Encodes p (f c) ((enc c).take k ++ (enc c).drop k) := by
            rw [List.take_append_drop]; exact henc c
          have hne : (enc c).drop k ≠ [] := by
            rw [Ne, List.drop_eq_nil_iff]; exact hlt
          have hzero : k - (enc c).length = 0 := by omega
          rw [hzero, List.take_zero, List.append_nil,
            drain_of_short (hsplit.short_of_prefix h hne)]
          exact ⟨rfl, rfl⟩

end Fitting

end Incremental
