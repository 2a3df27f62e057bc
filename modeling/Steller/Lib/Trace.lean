import Mathlib.Data.List.Basic

/-!
# Traces

A trace is the list of what happened, the latest last.  Many properties of a
run are of one shape: whatever happens is justified by what happened before it
(`Each`).  That a session reads only when nothing is left to answer is of this
shape, and so is that nothing happens once a flag was found set.  Such a
property is extended one event at a time.
-/

universe u

namespace Trace

variable {α : Type u}

/-- Every event of a trace stands in the relation `R` to the trace before it. -/
def Each (R : List α → α → Prop) (trace : List α) : Prop :=
  ∀ before a after, trace = before ++ a :: after → R before a

/-- The places of an event in a trace with one more event: where it had one before, or at the
end. -/
theorem concat_eq_append_cons_iff {trace before after : List α} {a b : α} :
    trace ++ [b] = before ++ a :: after ↔
      (∃ after', after = after' ++ [b] ∧ trace = before ++ a :: after') ∨
        after = [] ∧ trace = before ∧ b = a := by
  constructor
  · intro h
    rcases List.eq_nil_or_concat after with rfl | ⟨after', b', rfl⟩
    · obtain ⟨htrace, hb⟩ := List.append_inj' h rfl
      exact .inr ⟨rfl, htrace, List.singleton_inj.1 hb⟩
    · rw [List.concat_eq_append, ← List.cons_append, ← List.append_assoc] at h
      obtain ⟨htrace, hb⟩ := List.append_inj' h rfl
      obtain rfl := List.singleton_inj.1 hb
      exact .inl ⟨after', List.concat_eq_append, htrace⟩
  · rintro (⟨after', rfl, rfl⟩ | ⟨rfl, rfl, rfl⟩)
    · rw [List.append_assoc, List.cons_append]
    · rfl

namespace Each

variable {R : List α → α → Prop} {trace : List α} {a : α}

theorem nil : Each R [] := fun before a after h ↦ by simp at h

theorem concat (h : Each R trace) (ha : R trace a) : Each R (trace ++ [a]) := by
  intro before b after heq
  rcases concat_eq_append_cons_iff.1 heq with ⟨after', -, htrace⟩ | ⟨-, rfl, rfl⟩
  · exact h before b after' htrace
  · exact ha

end Each

/-- No event of kind `p` is left without one of kind `q` after it. -/
def Closed (p q : α → Prop) (trace : List α) : Prop :=
  ∀ before a after, trace = before ++ a :: after → p a → ∃ b ∈ after, q b

namespace Closed

variable {p q : α → Prop} {trace : List α} {a : α}

theorem nil : Closed p q [] := fun before a after h ↦ by simp at h

/-- An event of kind `q` closes whatever was open. -/
theorem concat_close (trace : List α) (ha : q a) (hp : ¬p a) : Closed p q (trace ++ [a]) := by
  intro before b after heq hb
  rcases concat_eq_append_cons_iff.1 heq with ⟨after', rfl, -⟩ | ⟨-, -, rfl⟩
  · exact ⟨a, List.mem_append_right _ (List.mem_singleton_self _), ha⟩
  · exact absurd hb hp

/-- An event that is not of kind `p` opens nothing. -/
theorem concat (h : Closed p q trace) (hp : ¬p a) : Closed p q (trace ++ [a]) := by
  intro before b after heq hb
  rcases concat_eq_append_cons_iff.1 heq with ⟨after', rfl, htrace⟩ | ⟨-, -, rfl⟩
  · obtain ⟨c, hc, hqc⟩ := h before b after' htrace hb
    exact ⟨c, List.mem_append_left _ hc, hqc⟩
  · exact absurd hb hp

end Closed

end Trace
