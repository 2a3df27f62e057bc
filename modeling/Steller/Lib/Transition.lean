import Mathlib.Data.Option.Basic
import Mathlib.Data.List.Induction

/-!
# Runs of a labelled step function

A system is a function `step : S → L → Option S`: a label says which of its parts
moves next and how, and `none` that the part cannot.  A run is a list of labels,
so a statement about every interleaving is a statement about every list.

`exec` is the run itself, `Along` says that something holds of every step of it,
and `Along.invariant` and `along_of_invariant` are the two rules by which a step
lemma becomes a run lemma; `Along.visited_invariant` is the first of them for an
invariant that speaks of the states the run has passed through, and
`along_iff_visited` is for a condition on steps that is exact.  `history` is
what an observer has written down by the end of a run, and `history_invariant`
and `Along.history_invariant` are the rules for what it and the state say about
each other.
-/

universe u v w

namespace Transition

variable {S : Type u} {L : Type v} {step : S → L → Option S}

/-- Run the labels in order; `none` if one of them is not enabled when its turn comes. -/
def exec (step : S → L → Option S) : S → List L → Option S
  | s, [] => some s
  | s, l :: ls => (step s l).bind fun s' ↦ exec step s' ls

@[simp] theorem exec_nil (s : S) : exec step s [] = some s := rfl

theorem exec_cons_eq_some {s s'' : S} {l : L} {ls : List L} :
    exec step s (l :: ls) = some s'' ↔ ∃ s', step s l = some s' ∧ exec step s' ls = some s'' :=
  Option.bind_eq_some_iff

theorem exec_append_eq_some {s s'' : S} {xs ys : List L} :
    exec step s (xs ++ ys) = some s'' ↔
      ∃ s', exec step s xs = some s' ∧ exec step s' ys = some s'' := by
  induction xs generalizing s with
  | nil => simp
  | cons l xs ih =>
      rw [List.cons_append, exec_cons_eq_some]
      constructor
      · rintro ⟨s₁, hl, hrest⟩
        obtain ⟨s', hxs, hys⟩ := ih.1 hrest
        exact ⟨s', exec_cons_eq_some.2 ⟨s₁, hl, hxs⟩, hys⟩
      · rintro ⟨s', hxs, hys⟩
        obtain ⟨s₁, hl, hrest⟩ := exec_cons_eq_some.1 hxs
        exact ⟨s₁, hl, ih.2 ⟨s', hrest, hys⟩⟩

theorem exec_concat_eq_some {s s'' : S} {ls : List L} {l : L} :
    exec step s (ls ++ [l]) = some s'' ↔
      ∃ s', exec step s ls = some s' ∧ step s' l = some s'' := by
  rw [exec_append_eq_some]
  simp only [exec_cons_eq_some, exec_nil, Option.some.injEq, exists_eq_right]

/-- `P` holds of every step of the run: of the state it is taken in and its label. -/
def Along (step : S → L → Option S) (P : S → L → Prop) : S → List L → Prop
  | _, [] => True
  | s, l :: ls => P s l ∧ ∀ s', step s l = some s' → Along step P s' ls

theorem along_congr {P Q : S → L → Prop} (h : ∀ s l, P s l ↔ Q s l) (s : S) (ls : List L) :
    Along step P s ls ↔ Along step Q s ls := by
  induction ls generalizing s with
  | nil => exact Iff.rfl
  | cons l ls ih => exact and_congr (h s l) (forall_congr' fun s' ↦ imp_congr_right fun _ ↦ ih s')

theorem along_and {P Q : S → L → Prop} {s : S} {ls : List L} :
    Along step (fun s l ↦ P s l ∧ Q s l) s ls ↔ Along step P s ls ∧ Along step Q s ls := by
  induction ls generalizing s with
  | nil => exact ⟨fun _ ↦ ⟨trivial, trivial⟩, fun _ ↦ trivial⟩
  | cons l ls ih =>
      constructor
      · rintro ⟨⟨hp, hq⟩, hrest⟩
        exact ⟨⟨hp, fun s' hl ↦ (ih.1 (hrest s' hl)).1⟩, hq, fun s' hl ↦ (ih.1 (hrest s' hl)).2⟩
      · rintro ⟨⟨hp, hps⟩, hq, hqs⟩
        exact ⟨⟨hp, hq⟩, fun s' hl ↦ ih.2 ⟨hps s' hl, hqs s' hl⟩⟩

/-- What holds of every label holds along every run of them. -/
theorem along_of_forall {P : L → Prop} {s : S} {ls : List L} (h : ∀ l ∈ ls, P l) :
    Along step (fun _ l ↦ P l) s ls := by
  induction ls generalizing s with
  | nil => trivial
  | cons l ls ih =>
      exact ⟨h l List.mem_cons_self, fun s' _ ↦ ih fun x hx ↦ h x (List.mem_cons_of_mem _ hx)⟩

section Invariant

variable {Inv : S → Prop} {Good : S → L → Prop}
  (hstep : ∀ {s l s'}, Inv s → Good s l → step s l = some s' → Inv s')

include hstep

/-- What every good step preserves, a run of good steps preserves. -/
theorem Along.invariant {s s' : S} {ls : List L} (hgood : Along step Good s ls) (hs : Inv s)
    (hrun : exec step s ls = some s') : Inv s' := by
  induction ls generalizing s with
  | nil => cases hrun; exact hs
  | cons l ls ih =>
      obtain ⟨s₁, hl, hrest⟩ := exec_cons_eq_some.1 hrun
      exact ih (hgood.2 s₁ hl) (hstep hs hgood.1 hl) hrest

/-- What the invariant gives of every good step holds along a run of good steps. -/
theorem along_of_invariant {P : S → L → Prop} (hP : ∀ {s l}, Inv s → Good s l → P s l) {s : S}
    {ls : List L} (hs : Inv s) (hgood : Along step Good s ls) : Along step P s ls := by
  induction ls generalizing s with
  | nil => trivial
  | cons l ls ih =>
      exact ⟨hP hs hgood.1, fun s' hl ↦ ih (hstep hs hgood.1 hl) (hgood.2 s' hl)⟩

end Invariant

/-- What every step preserves, every run preserves. -/
theorem exec_invariant {Inv : S → Prop} (hstep : ∀ {s l s'}, Inv s → step s l = some s' → Inv s')
    {s s' : S} {ls : List L} (hs : Inv s) (hrun : exec step s ls = some s') : Inv s' :=
  (along_of_forall fun _ _ ↦ trivial).invariant (fun h (_ : True) hl ↦ hstep h hl) hs hrun

theorem along_append {P : S → L → Prop} {s : S} {xs ys : List L} :
    Along step P s (xs ++ ys) ↔
      Along step P s xs ∧ ∀ s', exec step s xs = some s' → Along step P s' ys := by
  induction xs generalizing s with
  | nil => simp [Along]
  | cons x xs ih =>
      simp only [List.cons_append, Along, exec_cons_eq_some, ih]
      constructor
      · rintro ⟨hx, hrest⟩
        refine ⟨⟨hx, fun s₁ h₁ ↦ (hrest s₁ h₁).1⟩, ?_⟩
        rintro s' ⟨s₁, h₁, hs'⟩
        exact (hrest s₁ h₁).2 s' hs'
      · rintro ⟨⟨hx, hxs⟩, hys⟩
        exact ⟨hx, fun s₁ h₁ ↦ ⟨hxs s₁ h₁, fun s' hs' ↦ hys s' ⟨s₁, h₁, hs'⟩⟩⟩

theorem along_concat {P : S → L → Prop} {s : S} {ls : List L} {l : L} :
    Along step P s (ls ++ [l]) ↔
      Along step P s ls ∧ ∀ s', exec step s ls = some s' → P s' l := by
  simp only [along_append, Along, implies_true, and_true]

/-- The state is one the run passes through. -/
def Visited (step : S → L → Option S) (s : S) (ls : List L) (t : S) : Prop :=
  ∃ xs, xs <+: ls ∧ exec step s xs = some t

theorem Visited.mono {s t : S} {xs ys : List L} (h : Visited step s xs t) (hle : xs <+: ys) :
    Visited step s ys t := by
  obtain ⟨zs, hzs, ht⟩ := h
  exact ⟨zs, hzs.trans hle, ht⟩

theorem visited_self {s t : S} {ls : List L} (h : exec step s ls = some t) :
    Visited step s ls t := ⟨ls, List.prefix_rfl, h⟩

/-- What every good step preserves, a run of good steps preserves, where the invariant may
also speak of the states passed so far. -/
theorem Along.visited_invariant (Inv : (S → Prop) → S → Prop) {Good : S → L → Prop}
    (hmono : ∀ {V W : S → Prop} {s}, (∀ t, V t → W t) → Inv V s → Inv W s)
    (hstep : ∀ {V : S → Prop} {s l s'}, Inv V s → Good s l → step s l = some s' → V s' → Inv V s')
    {s : S} (hs : Inv (Visited step s []) s) {ls : List L} (hgood : Along step Good s ls) {s' : S}
    (hrun : exec step s ls = some s') : Inv (Visited step s ls) s' := by
  induction ls using List.reverseRecOn generalizing s' with
  | nil =>
      obtain rfl := Option.some.inj hrun
      exact hs
  | append_singleton ls l ih =>
      obtain ⟨hls, hl⟩ := along_concat.1 hgood
      obtain ⟨s₁, hs₁, hlast⟩ := exec_concat_eq_some.1 hrun
      have hbefore := hmono (fun t ht ↦ ht.mono (List.prefix_append ls [l])) (ih hls hs₁)
      exact hstep hbefore (hl s₁ hs₁) hlast (visited_self hrun)

/-- A run passes through states with `P` only, if and only if all its steps are good: good steps
keep an invariant that gives `P`, and a step into a state with `P` is good. -/
theorem along_iff_visited {Inv P : S → Prop} {Good : S → L → Prop}
    (hstep : ∀ {s l s'}, Inv s → Good s l → step s l = some s' → Inv s')
    (hInv : ∀ {s}, Inv s → P s) {s : S} (hs : Inv s)
    (hback : ∀ {xs t l t'}, exec step s xs = some t → step t l = some t' → P t' → Good t l)
    {ls : List L} {s' : S} (hrun : exec step s ls = some s') :
    Along step Good s ls ↔ ∀ t, Visited step s ls t → P t := by
  constructor
  · rintro hgood t ⟨xs, ⟨ys, rfl⟩, ht⟩
    exact hInv ((along_append.1 hgood).1.invariant hstep hs ht)
  · intro hP
    induction ls using List.reverseRecOn generalizing s' with
    | nil => trivial
    | append_singleton ls l ih =>
        obtain ⟨s₁, hls, hl⟩ := exec_concat_eq_some.1 hrun
        have hbefore := ih hls fun t ht ↦ hP t (ht.mono (List.prefix_append _ _))
        refine along_concat.2 ⟨hbefore, fun s₂ hs₂ ↦ ?_⟩
        obtain rfl := Option.some.inj (hls.symm.trans hs₂)
        exact hback hls hl (hP s' (visited_self hrun))

section History

variable {O : Type w} {record : S → L → O → O}

/-- What an observer that starts from `o` has written down by the end of the run: it sees the
state each step is taken in and its label, and does not interfere. -/
def history (step : S → L → Option S) (record : S → L → O → O) : S → O → List L → O
  | _, o, [] => o
  | s, o, l :: ls => match step s l with
    | none => o
    | some s' => history step record s' (record s l o) ls

theorem history_append {s s' : S} {o : O} {xs ys : List L} (hrun : exec step s xs = some s') :
    history step record s o (xs ++ ys) =
      history step record s' (history step record s o xs) ys := by
  induction xs generalizing s o with
  | nil =>
      obtain rfl := Option.some.inj hrun
      rfl
  | cons x xs ih =>
      obtain ⟨s₁, hx, hrest⟩ := exec_cons_eq_some.1 hrun
      simp only [List.cons_append, history, hx]
      exact ih hrest

theorem history_concat {s s' s'' : S} {o : O} {ls : List L} {l : L}
    (hrun : exec step s ls = some s') (hl : step s' l = some s'') :
    history step record s o (ls ++ [l]) = record s' l (history step record s o ls) := by
  rw [history_append hrun]
  simp only [history, hl]

/-- What every step keeps true of the run so far, the state and the record of the run, is true
of every run. -/
theorem history_invariant {Inv : List L → S → O → Prop} {s : S} {o : O} (hnil : Inv [] s o)
    (hstep : ∀ {ls s' o' l s''}, exec step s ls = some s' → Inv ls s' o' → step s' l = some s'' →
      Inv (ls ++ [l]) s'' (record s' l o'))
    {ls : List L} {s' : S} (hrun : exec step s ls = some s') :
    Inv ls s' (history step record s o ls) := by
  induction ls using List.reverseRecOn generalizing s' with
  | nil =>
      obtain rfl := Option.some.inj hrun
      exact hnil
  | append_singleton ls l ih =>
      obtain ⟨s₁, hls, hl⟩ := exec_concat_eq_some.1 hrun
      rw [history_concat hls hl]
      exact hstep hls (ih hls) hl

/-- What every good step keeps true of the state and the record, is true of every run of good
steps. -/
theorem Along.history_invariant {Inv : S → O → Prop} {Good : S → L → Prop}
    (hstep : ∀ {s l s' o}, Inv s o → Good s l → step s l = some s' → Inv s' (record s l o))
    {s s' : S} {o : O} {ls : List L} (hgood : Along step Good s ls) (hs : Inv s o)
    (hrun : exec step s ls = some s') : Inv s' (history step record s o ls) := by
  induction ls generalizing s o with
  | nil => cases hrun; exact hs
  | cons l ls ih =>
      obtain ⟨s₁, hl, hrest⟩ := exec_cons_eq_some.1 hrun
      simp only [history, hl]
      exact ih (hgood.2 s₁ hl) (hstep hs hgood.1 hl) hrest

end History

end Transition
