import Mathlib.Data.List.Basic

/-!
# Stores whose actions touch one slot

A store is anything of which `get m k` is the slot under the key `k`.  An action
names a key; it answers from the slot under that key, changes that slot, and
leaves the others alone (`Local`).

So the slot under a key, and the answers of the actions on it, depend on those
actions only and on the order they come in (`Local.on_run`, `Local.get_run`).
How the actions on different keys are shuffled together makes no difference
(`Local.run_congr`), and what is true of every slot about doing a list of
actions twice is true of the store (`Local.run_idem`).
-/

universe u v w x y

namespace Keyed

variable {M : Type u} {K : Type v} {S : Type w} {A : Type x} {O : Type y}

/-- Do the actions in order, writing down what each of them answers. -/
def run (step : M → A → O × M) : List A → M → List (A × O) × M
  | [], m => ([], m)
  | a :: as, m =>
      ((a, (step m a).1) :: (run step as (step m a).2).1, (run step as (step m a).2).2)

theorem run_cons (step : M → A → O × M) (a : A) (as : List A) (m : M) :
    run step (a :: as) m =
      ((a, (step m a).1) :: (run step as (step m a).2).1, (run step as (step m a).2).2) := rfl

variable [DecidableEq K]

/-- The actions on `k`, in order. -/
def on (key : A → K) (k : K) (as : List A) : List A := as.filter fun a ↦ key a = k

theorem on_cons_self (key : A → K) {a : A} {k : K} (h : key a = k) (as : List A) :
    on key k (a :: as) = a :: on key k as := List.filter_cons_of_pos (decide_eq_true h)

theorem on_cons_of_ne (key : A → K) {a : A} {k : K} (h : key a ≠ k) (as : List A) :
    on key k (a :: as) = on key k as := List.filter_cons_of_neg (by simpa using h)

/-! ## Locality -/

/-- An action answers from the slot under its key and changes no other. -/
structure Local (get : M → K → S) (step : M → A → O × M) (key : A → K) (act : S → A → O × S) :
    Prop where
  /-- What it answers. -/
  answer : ∀ m a, (step m a).1 = (act (get m (key a)) a).1
  /-- What it leaves under its key. -/
  slot : ∀ m a, get (step m a).2 (key a) = (act (get m (key a)) a).2
  /-- What it leaves elsewhere. -/
  frame : ∀ m a k, key a ≠ k → get (step m a).2 k = get m k

namespace Local

variable {get : M → K → S} {step : M → A → O × M} {key : A → K} {act : S → A → O × S}

/-- The slot under one key, after a run, is what the actions on that key make of it. -/
theorem get_run (h : Local get step key act) (k : K) (as : List A) (m : M) :
    get (run step as m).2 k = (run act (on key k as) (get m k)).2 := by
  induction as generalizing m with
  | nil => rfl
  | cons a as ih =>
      by_cases hk : key a = k
      · subst hk
        rw [on_cons_self key rfl, run_cons, run_cons, ← h.slot]
        exact ih (step m a).2
      · rw [on_cons_of_ne key hk, ← h.frame m a k hk]
        exact ih (step m a).2

/-- The answers on one key, in a run, are those its actions give over its slot. -/
theorem on_run (h : Local get step key act) (k : K) (as : List A) (m : M) :
    on (fun p ↦ key p.1) k (run step as m).1 = (run act (on key k as) (get m k)).1 := by
  induction as generalizing m with
  | nil => rfl
  | cons a as ih =>
      by_cases hk : key a = k
      · subst hk
        rw [on_cons_self key rfl, run_cons act, ← h.slot, ← h.answer, ← ih]
        exact on_cons_self (fun p : A × O ↦ key p.1) rfl _
      · rw [on_cons_of_ne key hk, ← h.frame m a k hk, ← ih]
        exact on_cons_of_ne (fun p : A × O ↦ key p.1) hk _

variable (hext : ∀ {m m' : M}, (∀ k, get m k = get m' k) → m = m')

include hext

/-- Only the order of the actions on each key matters, for the store and for every answer. -/
theorem run_congr (h : Local get step key act) {as bs : List A}
    (heq : ∀ k, on key k as = on key k bs) (m : M) :
    (run step as m).2 = (run step bs m).2 ∧
      ∀ k, on (fun p ↦ key p.1) k (run step as m).1 = on (fun p ↦ key p.1) k (run step bs m).1 := by
  refine ⟨hext fun k ↦ ?_, fun k ↦ ?_⟩
  · rw [h.get_run, h.get_run, heq]
  · rw [h.on_run, h.on_run, heq]

/-- A list of actions that does no more when done twice to a slot does no more when done twice
to the store. -/
theorem run_idem (h : Local get step key act) {as : List A}
    (hidem : ∀ k s, (run act (on key k as) (run act (on key k as) s).2).2 =
      (run act (on key k as) s).2) (m : M) :
    (run step as (run step as m).2).2 = (run step as m).2 := by
  refine hext fun k ↦ ?_
  rw [h.get_run, h.get_run, hidem]

end Local

/-! ## Interleavings -/

section Interleaving

variable {ι : Type v} [DecidableEq ι] {key : A → K}

/-- When every key has one owner, the actions on a key are found among its owner's. -/
theorem on_map_snd {xs : List (ι × A)} {i : ι} {k : K}
    (howner : ∀ x ∈ xs, key x.2 = k → x.1 = i) :
    on key k (xs.map Prod.snd) = on key k ((on Prod.fst i xs).map Prod.snd) := by
  rw [on, on, on, List.filter_map, List.filter_map, List.filter_filter]
  refine congrArg (List.map Prod.snd) (List.filter_congr fun x hx ↦ ?_)
  rw [Function.comp_apply]
  by_cases hk : key x.2 = k
  · simp [hk, howner x hx hk]
  · simp [hk]

/-- Two interleavings of the same sequences of actions, no two of which share a key, have the
same actions in the same order on every key. -/
theorem on_eq_of_interleaving {xs ys : List (ι × A)}
    (hsame : ∀ i, on Prod.fst i xs = on Prod.fst i ys)
    (hdisjoint : ∀ x ∈ xs, ∀ y ∈ xs, key x.2 = key y.2 → x.1 = y.1) (k : K) :
    on key k (xs.map Prod.snd) = on key k (ys.map Prod.snd) := by
  have hmem (x : ι × A) : x ∈ ys ↔ x ∈ xs := by
    have hx := congrArg (x ∈ ·) (hsame x.1)
    simpa [on] using hx.symm
  by_cases hused : ∃ x ∈ xs, key x.2 = k
  · obtain ⟨x, hx, rfl⟩ := hused
    have hxs : ∀ y ∈ xs, key y.2 = key x.2 → y.1 = x.1 := fun y hy ↦ hdisjoint y hy x hx
    rw [on_map_snd hxs, on_map_snd fun y hy ↦ hxs y ((hmem y).1 hy), hsame]
  · have hnil (zs : List (ι × A)) (hzs : ∀ z ∈ zs, z ∈ xs) : on key k (zs.map Prod.snd) = [] := by
      rw [on, List.filter_eq_nil_iff]
      intro a ha
      obtain ⟨z, hz, rfl⟩ := List.mem_map.1 ha
      simpa using fun hk ↦ hused ⟨z, hzs z hz, hk⟩
    rw [hnil xs fun _ h ↦ h, hnil ys fun z hz ↦ (hmem z).1 hz]

end Interleaving

end Keyed
