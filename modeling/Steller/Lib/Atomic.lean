import Mathlib.Logic.Function.Basic
import Steller.Lib.Transition

/-!
# Atomic objects

An object that clients call, and each call of which takes effect in one step
between the call and its reply.  What a call reads from a clock it is given as
its readings; when it takes effect these may still be to come, but by the time
of the reply they must have been taken, and not before the call.

Everything but the taking effect can be seen from outside.  An implementation
is linearizable if each of its runs looks like a run of the object, and the
object may be put together afterwards: a call that leaves the object as it is
can still be given its effect at any point since which its client has done
nothing (`Since.effect`), and what other clients rely on stays true.
-/

universe u

namespace Atomic

open Transition

/-- What calls do. -/
structure Object (S C P R T : Type u) where
  /-- What a call answers, and what it makes of the object. -/
  apply : S → C → P → R × S
  /-- Readings taken between two moments. -/
  Within : T → P → T → Prop

/-- Where a client is with its call. -/
inductive Phase (C P R T : Type u) where
  | idle
  | called (command : C) (since : T)
  /-- The call has taken effect. -/
  | answered (result : R) (readings : P) (since : T)

/-- The object, the time, and where every client is. -/
structure State (ι S C P R T : Type u) where
  object : S
  now : T
  phase : ι → Phase C P R T

/-- What can happen next. -/
inductive Label (ι C P R T : Type u) where
  | tick (now : T)
  | call (client : ι) (command : C)
  /-- A call takes effect. -/
  | effect (client : ι) (readings : P)
  | reply (client : ι) (result : R)

variable {ι S C P R T : Type u}

namespace Label

/-- Whose step it is. -/
def client : Label ι C P R T → Option ι
  | .tick _ => none
  | .call client _ | .effect client _ | .reply client _ => some client

/-- What can be seen from outside. -/
def visible : Label ι C P R T → Bool
  | .effect _ _ => false
  | _ => true

end Label

/-- What can be seen of a run. -/
def seen (ls : List (Label ι C P R T)) : List (Label ι C P R T) := ls.filter Label.visible

@[simp] theorem seen_append (xs ys : List (Label ι C P R T)) :
    seen (xs ++ ys) = seen xs ++ seen ys := List.filter_append ..

@[simp] theorem seen_effect (client : ι) (readings : P) (ls : List (Label ι C P R T)) :
    seen (.effect client readings :: ls) = seen ls := rfl

variable [DecidableEq ι]

/-- Put a client at a new place. -/
def State.goto (a : State ι S C P R T) (client : ι) (phase : Phase C P R T) :
    State ι S C P R T :=
  { a with phase := Function.update a.phase client phase }

section Goto

variable {a : State ι S C P R T} {i j : ι} {x y : Phase C P R T}

@[simp] theorem object_goto : (a.goto i x).object = a.object := rfl

@[simp] theorem phase_goto_self : (a.goto i x).phase i = x := Function.update_self ..

theorem phase_goto_of_ne (h : j ≠ i) : (a.goto i x).phase j = a.phase j :=
  Function.update_of_ne h ..

theorem goto_phase : a.goto i (a.phase i) = a :=
  congrArg (State.mk a.object a.now) (Function.update_eq_self i a.phase)

theorem goto_comm (h : i ≠ j) : (a.goto i x).goto j y = (a.goto j y).goto i x := by
  simp only [State.goto]
  rw [Function.update_comm h]

end Goto

variable [DecidableEq R] (O : Object S C P R T)
  [∀ since readings now, Decidable (O.Within since readings now)]

/-- One step. -/
def step (a : State ι S C P R T) : Label ι C P R T → Option (State ι S C P R T)
  | .tick now => some { a with now }
  | .call i command => match a.phase i with
    | .idle => some (a.goto i (.called command a.now))
    | _ => none
  | .effect i readings => match a.phase i with
    | .called command since =>
        let (result, object) := O.apply a.object command readings
        some ({ a with object }.goto i (.answered result readings since))
    | _ => none
  | .reply i result => match a.phase i with
    | .answered result' readings since =>
        if result' = result ∧ O.Within since readings a.now then some (a.goto i .idle) else none
    | _ => none

section Step

variable {O} {a : State ι S C P R T} {i : ι}

theorem step_call {command : C} (h : a.phase i = .idle) :
    step O a (.call i command) = some (a.goto i (.called command a.now)) := by
  rw [step, h]

theorem step_effect {command : C} {since : T} {readings : P} {result : R} {object : S}
    (h : a.phase i = .called command since)
    (happly : O.apply a.object command readings = (result, object)) :
    step O a (.effect i readings) =
      some ({ a with object }.goto i (.answered result readings since)) := by
  rw [step, h]
  simp only [happly]

theorem step_reply {result : R} {readings : P} {since : T}
    (h : a.phase i = .answered result readings since) (hwithin : O.Within since readings a.now) :
    step O a (.reply i result) = some (a.goto i .idle) := by
  rw [step, h]
  exact if_pos ⟨rfl, hwithin⟩

/-- A step of others does not look at where a client is. -/
theorem step_goto {l : Label ι C P R T} (h : l.client ≠ some i) (x : Phase C P R T) :
    step O (a.goto i x) l = (step O a l).map (State.goto · i x) := by
  cases l with
  | tick now => rfl
  | call j command =>
      have hne : j ≠ i := fun heq ↦ h (congrArg some heq)
      rw [step, step, phase_goto_of_ne hne]
      cases a.phase j with
      | idle => exact congrArg some (goto_comm hne.symm)
      | called _ _ | answered _ _ _ => rfl
  | effect j readings =>
      have hne : j ≠ i := fun heq ↦ h (congrArg some heq)
      rw [step, step, phase_goto_of_ne hne]
      cases a.phase j with
      | called command since =>
          simp only [object_goto, Option.map_some, Option.some.injEq]
          exact goto_comm (a := { a with object := _ }) hne.symm
      | idle | answered _ _ _ => rfl
  | reply j result =>
      have hne : j ≠ i := fun heq ↦ h (congrArg some heq)
      rw [step, step, phase_goto_of_ne hne]
      cases a.phase j with
      | idle | called _ _ => rfl
      | answered result' readings since =>
          dsimp only
          by_cases hreply : result' = result ∧ O.Within since readings a.now
          · refine (if_pos hreply).trans ?_
            rw [if_pos hreply]
            exact congrArg some (goto_comm hne.symm)
          · refine (if_neg hreply).trans ?_
            rw [if_neg hreply]
            rfl

/-- Neither does a run of others. -/
theorem exec_goto {ls : List (Label ι C P R T)} (h : ∀ l ∈ ls, l.client ≠ some i)
    (x : Phase C P R T) :
    exec (step O) (a.goto i x) ls = (exec (step O) a ls).map (State.goto · i x) := by
  induction ls generalizing a with
  | nil => rfl
  | cons l ls ih =>
      rw [exec, exec, step_goto (h l List.mem_cons_self)]
      cases step O a l with
      | none => rfl
      | some a' => exact ih fun l' hl' ↦ h l' (List.mem_cons_of_mem l hl')

end Step

/-! ## Effects given afterwards -/

/-- The run has passed a state of the object with `Q`, and the client has done nothing since. -/
def Since (a₀ : State ι S C P R T) (ls : List (Label ι C P R T)) (i : ι) (Q : S → Prop) : Prop :=
  ∃ xs ys a, ls = xs ++ ys ∧ exec (step O) a₀ xs = some a ∧ Q a.object ∧
    ∀ l ∈ ys, l.client ≠ some i

section Since

variable {O} {a₀ a : State ι S C P R T} {ls : List (Label ι C P R T)} {i j : ι} {Q : S → Prop}

theorem since_self (h : exec (step O) a₀ ls = some a) (hQ : Q a.object) : Since O a₀ ls i Q :=
  ⟨ls, [], a, (List.append_nil ls).symm, h, hQ, nofun⟩

theorem Since.append (h : Since O a₀ ls i Q) {zs : List (Label ι C P R T)}
    (hz : ∀ l ∈ zs, l.client ≠ some i) : Since O a₀ (ls ++ zs) i Q := by
  obtain ⟨xs, ys, a, rfl, ha, hQ, hys⟩ := h
  refine ⟨xs, ys ++ zs, a, List.append_assoc .., ha, hQ, fun l hl ↦ ?_⟩
  exact (List.mem_append.1 hl).elim (hys l) (hz l)

/-- A call that leaves the object as it was takes effect, later, at an earlier point. -/
theorem Since.effect (h : Since O a₀ ls i Q) (hrun : exec (step O) a₀ ls = some a) {command : C}
    {since : T} (hphase : a.phase i = .called command since) {result : R} {readings : P}
    (happly : ∀ s, Q s → O.apply s command readings = (result, s)) :
    ∃ ls', exec (step O) a₀ ls' = some (a.goto i (.answered result readings since)) ∧
      seen ls' = seen ls ∧
      ∀ j ≠ i, ∀ Q' : S → Prop, Since O a₀ ls j Q' → Since O a₀ ls' j Q' := by
  obtain ⟨xs, ys, a₁, rfl, hxs, hQ, hys⟩ := h
  obtain ⟨a₁', ha₁', hrest⟩ := exec_append_eq_some.1 hrun
  obtain rfl := Option.some.inj (hxs.symm.trans ha₁')
  -- the client has not moved, so it was in its call already
  have hphase₁ : a₁.phase i = .called command since := by
    have hstill := exec_goto (O := O) (a := a₁) hys (a₁.phase i)
    rw [goto_phase, hrest, Option.map_some] at hstill
    rw [← phase_goto_self (a := a) (i := i) (x := a₁.phase i), ← Option.some.inj hstill, hphase]
  have heffect : step O a₁ (.effect i readings) =
      some (a₁.goto i (.answered result readings since)) :=
    step_effect hphase₁ (happly a₁.object hQ)
  have hafter {zs : List (Label ι C P R T)} {b : State ι S C P R T}
      (hzs : ∀ l ∈ zs, l.client ≠ some i) (hb : exec (step O) a₁ zs = some b) :
      exec (step O) a₀ (xs ++ .effect i readings :: zs) =
        some (b.goto i (.answered result readings since)) := by
    refine exec_append_eq_some.2 ⟨a₁, hxs, exec_cons_eq_some.2 ⟨_, heffect, ?_⟩⟩
    rw [exec_goto hzs, hb, Option.map_some]
  refine ⟨xs ++ .effect i readings :: ys, hafter hys hrest, by simp, fun j hj Q' hother ↦ ?_⟩
  obtain ⟨xs', ys', a₂, heq, hxs', hQ', hys'⟩ := hother
  rcases List.append_eq_append_iff.1 heq with ⟨zs, rfl, rfl⟩ | ⟨zs, rfl, rfl⟩
  · -- the other client's point comes later, and what it found there is still found
    obtain ⟨a₁', ha₁', hzs⟩ := exec_append_eq_some.1 hxs'
    obtain rfl := Option.some.inj (hxs.symm.trans ha₁')
    have hzs' : ∀ l ∈ zs, l.client ≠ some i := fun l hl ↦ hys l (List.mem_append_left _ hl)
    exact ⟨xs ++ .effect i readings :: zs, ys', _, by simp, hafter hzs' hzs, hQ', hys'⟩
  · refine ⟨xs', zs ++ .effect i readings :: ys, a₂, by simp, hxs', hQ', fun l hl ↦ ?_⟩
    rcases List.mem_append.1 hl with hl | hl
    · exact hys' l (List.mem_append_left _ hl)
    · rcases List.mem_cons.1 hl with rfl | hl
      · exact fun hi ↦ hj (Option.some.inj hi).symm
      · exact hys' l (List.mem_append_right _ hl)

end Since

end Atomic
