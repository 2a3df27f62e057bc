import Mathlib.Data.List.Basic

/-!
# Codes that say where they end

A code word is *delimited* when nothing that follows it can be mistaken for part
of it: no other word with any other tail spells the same string.  Then a stream
of code words has one reading only.  The property is stated of one value at a
time, so that a code for trees can be shown to have it by induction on the tree.

Two ways of delimiting occur in practice, a terminator that the word cannot
contain (`append_cons_inj_of_notMem_left`) and a count in front
(`Delimited.flatMap_of_length_eq`).
-/

universe u v

namespace PrefixCode

variable {α : Type u} {β : Type v}

/-- The code word of `a` is told apart from every other, and its end is found, whatever
follows. -/
def Delimited (code : α → List β) (a : α) : Prop :=
  ∀ ⦃b : α⦄ ⦃s t : List β⦄, code a ++ s = code b ++ t → a = b ∧ s = t

/-- A word ends at the first occurrence of a symbol it does not contain. -/
theorem append_cons_inj_of_notMem_left {x y s t : List β} {c : β} (hx : c ∉ x) (hy : c ∉ y)
    (h : x ++ c :: s = y ++ c :: t) : x = y ∧ s = t := by
  induction x generalizing y with
  | nil =>
      cases y with
      | nil => exact ⟨rfl, (List.cons.inj h).2⟩
      | cons b y => exact absurd ((List.cons.inj h).1 ▸ List.mem_cons_self) hy
  | cons a x ih =>
      cases y with
      | nil => exact absurd ((List.cons.inj h).1 ▸ List.mem_cons_self) hx
      | cons b y =>
          obtain ⟨rfl, htail⟩ := List.cons.inj h
          obtain ⟨rfl, hst⟩ := ih (fun hc ↦ hx (List.mem_cons_of_mem _ hc))
            (fun hc ↦ hy (List.mem_cons_of_mem _ hc)) htail
          exact ⟨rfl, hst⟩

section Lists

variable {code : α → List β}

/-- Lists of the same length are told apart as their elements are. -/
theorem Delimited.flatMap_of_length_eq {as bs : List α} (h : ∀ a ∈ as, Delimited code a)
    (hlen : as.length = bs.length) {s t : List β}
    (heq : as.flatMap code ++ s = bs.flatMap code ++ t) : as = bs ∧ s = t := by
  induction as generalizing bs with
  | nil =>
      obtain rfl := List.length_eq_zero_iff.1 hlen.symm
      exact ⟨rfl, heq⟩
  | cons a as ih =>
      obtain ⟨b, bs, rfl⟩ := List.exists_cons_of_length_eq_add_one hlen.symm
      rw [List.flatMap_cons, List.flatMap_cons, List.append_assoc, List.append_assoc] at heq
      obtain ⟨rfl, htail⟩ := h a List.mem_cons_self heq
      obtain ⟨rfl, hst⟩ := ih (fun c hc ↦ h c (List.mem_cons_of_mem _ hc)) (by simpa using hlen)
        htail
      exact ⟨rfl, hst⟩

/-- A stream of delimited words has one reading. -/
theorem flatMap_injective (h : ∀ a, Delimited code a) (hne : ∀ a, code a ≠ []) :
    Function.Injective (List.flatMap code) := by
  intro as bs heq
  induction as generalizing bs with
  | nil =>
      cases bs with
      | nil => rfl
      | cons b bs => exact absurd (List.append_eq_nil_iff.1 heq.symm).1 (hne b)
  | cons a as ih =>
      cases bs with
      | nil => exact absurd (List.append_eq_nil_iff.1 heq).1 (hne a)
      | cons b bs =>
          obtain ⟨rfl, htail⟩ := h a heq
          rw [ih htail]

end Lists

end PrefixCode
