import Mathlib.Data.List.Induction
import Mathlib.Data.Option.Basic
import Mathlib.Data.Set.Basic
import Mathlib.Order.Lattice

/-!
# A register with a deadline

The general theory of one slot of an expiring store: a register that is empty or
holds an entry, and an entry that may carry a deadline.  Time is any linear
order and values are any type.

A register changes in two ways.  A *write* (`Op`) is issued by a user: set,
delete, set the deadline, drop the deadline.  A *touch* is what a reader or a
sweeper does on the way past: it drops an entry whose deadline has passed.  Only
writes go into a log, so the history of the live register (`run`, writes and
touches, each at its own time) and the history that is replayed from the log
(`applyAll`, writes only, all at the time of recovery) differ.

* `not_visible_apply` — the only ways out of the expired state are a set and a
  deadline put on an entry that has already expired (`Revives`).
* `applyAll_eq_run_iff` — for a register that is visible at the time of
  recovery, the replayed register is the live one exactly when the log
  `Survives` the move to that time.
* `run_eq_applyAll_iff` — for a register that is visible after replay, the live
  register is the replayed one exactly when no touch had `Dropped` an entry
  that the log later moved to a new deadline.
* `applyAll_idem` — at one time, replaying a list of writes twice is replaying
  it once.
-/

universe u v

namespace Expiry

/-- A value and an optional deadline. -/
@[ext]
structure Entry (V : Type u) (T : Type v) where
  /-- The payload. -/
  value : V
  /-- The deadline, or `none` for no expiry. -/
  expiresAt : Option T
deriving DecidableEq

variable {V : Type u} {T : Type v}

/-- The writes a register takes. -/
inductive Op (V : Type u) (T : Type v) where
  | set (value : V) (expiresAt : Option T)
  | delete
  | expireAt (t : T)
  | persist

/-- A write that puts a new value in. -/
def Op.IsSet : Op V T → Prop
  | .set _ _ => True
  | _ => False

/-- The deadline a write carries. -/
def Op.deadline : Op V T → Option T
  | .set _ d => d
  | .expireAt t => some t
  | _ => none

/-! ## Histories -/

/-- What happens to a live register, and when. -/
inductive Event (V : Type u) (T : Type v) where
  | write (op : Op V T) (now : T)
  | touch (now : T)

/-- The time of an event. -/
def Event.now : Event V T → T
  | .write _ now | .touch now => now

/-- The write an event logs. -/
def Event.op? : Event V T → Option (Op V T)
  | .write op _ => some op
  | .touch _ => none

/-- An event that puts a new value in. -/
def Event.IsSet : Event V T → Prop
  | .write op _ => op.IsSet
  | .touch _ => False

/-- The log of a history: its writes, in order. -/
def log (evs : List (Event V T)) : List (Op V T) := evs.filterMap Event.op?

/-- A history with a set has a last one. -/
theorem exists_last_set {evs : List (Event V T)} (h : ∃ ev ∈ evs, ev.IsSet) :
    ∃ pre v d now post, evs = pre ++ .write (.set v d) now :: post ∧
      ∀ ev ∈ post, ¬ ev.IsSet := by
  induction evs with
  | nil => obtain ⟨ev, hev, _⟩ := h; cases hev
  | cons ev evs ih =>
      by_cases hrest : ∃ e ∈ evs, e.IsSet
      · obtain ⟨pre, v, d, now, post, rfl, hpost⟩ := ih hrest
        exact ⟨ev :: pre, v, d, now, post, rfl, hpost⟩
      · have hev : ev.IsSet := by
          obtain ⟨e, he, hset⟩ := h
          rcases List.mem_cons.1 he with rfl | he
          · exact hset
          · exact absurd ⟨e, he, hset⟩ hrest
        cases ev with
        | touch now => exact hev.elim
        | write op now =>
            cases op with
            | set v d =>
                exact ⟨[], v, d, now, evs, rfl, fun e he hset ↦ hrest ⟨e, he, hset⟩⟩
            | delete => exact hev.elim
            | expireAt t => exact hev.elim
            | persist => exact hev.elim

theorem log_cons_write (op : Op V T) (now : T) (evs : List (Event V T)) :
    log (.write op now :: evs) = op :: log evs := rfl

theorem log_append (xs ys : List (Event V T)) : log (xs ++ ys) = log xs ++ log ys :=
  List.filterMap_append

theorem log_append_write (pre post : List (Event V T)) (op : Op V T) (now : T) :
    log (pre ++ .write op now :: post) = log pre ++ op :: log post := by
  rw [log_append, log_cons_write]

theorem mem_log {evs : List (Event V T)} {op : Op V T} :
    op ∈ log evs ↔ ∃ now, .write op now ∈ evs := by
  rw [log, List.mem_filterMap]
  constructor
  · rintro ⟨ev, hev, hop⟩
    cases ev with
    | touch now => cases hop
    | write op' now => cases hop; exact ⟨now, hev⟩
  · rintro ⟨now, hev⟩
    exact ⟨_, hev, rfl⟩

theorem not_isSet_of_mem_log {evs : List (Event V T)} (h : ∀ ev ∈ evs, ¬ ev.IsSet) :
    ∀ op ∈ log evs, ¬ op.IsSet := by
  intro op hop
  obtain ⟨now, hev⟩ := mem_log.1 hop
  exact h _ hev

/-! ## Expiry -/

variable [LinearOrder T]

/-- The deadline of `e` is at or before `now`. -/
def Entry.ExpiredAt (now : T) (e : Entry V T) : Prop := ∃ t ∈ e.expiresAt, t ≤ now

instance (now : T) (e : Entry V T) : Decidable (e.ExpiredAt now) :=
  match h : e.expiresAt with
  | none => isFalse fun ⟨t, ht, _⟩ ↦ by rw [h] at ht; cases ht
  | some t => decidable_of_iff (t ≤ now) (by simp [Entry.ExpiredAt, h])

@[simp] theorem expiredAt_none (now : T) (v : V) : ¬ (Entry.mk v none).ExpiredAt now := by
  rintro ⟨t, ht, _⟩; cases ht

@[simp] theorem expiredAt_some {now t : T} {v : V} :
    (Entry.mk v (some t)).ExpiredAt now ↔ t ≤ now := by simp [Entry.ExpiredAt]

/-- Time does not make an expired entry fresh. -/
theorem Entry.ExpiredAt.mono {now later : T} {e : Entry V T} (h : e.ExpiredAt now)
    (hle : now ≤ later) : e.ExpiredAt later := by
  obtain ⟨t, ht, hnow⟩ := h
  exact ⟨t, ht, hnow.trans hle⟩

/-- A register is visible when it holds an entry with no deadline or a later one. -/
def Visible (now : T) (o : Option (Entry V T)) : Prop := ∃ e ∈ o, ¬ e.ExpiredAt now

@[simp] theorem not_visible_none (now : T) : ¬ Visible now (none : Option (Entry V T)) := by
  rintro ⟨e, he, _⟩; cases he

@[simp] theorem visible_some {now : T} {e : Entry V T} :
    Visible now (some e) ↔ ¬ e.ExpiredAt now := by simp [Visible]

instance (now : T) (o : Option (Entry V T)) : Decidable (Visible now o) :=
  match o with
  | none => isFalse (not_visible_none now)
  | some _ => decidable_of_iff _ visible_some.symm

theorem not_visible_mono {now later : T} {o : Option (Entry V T)} (h : ¬ Visible now o)
    (hle : now ≤ later) : ¬ Visible later o := by
  rintro ⟨e, he, hexp⟩
  exact h ⟨e, he, fun hx ↦ hexp (hx.mono hle)⟩

/-! ## Touches and writes -/

/-- Drop an entry whose deadline has passed. -/
def purge (now : T) : Option (Entry V T) → Option (Entry V T)
  | none => none
  | some e => if e.ExpiredAt now then none else some e

@[simp] theorem purge_none (now : T) : purge now (none : Option (Entry V T)) = none := rfl

theorem purge_of_not_expired {now : T} {e : Entry V T} (h : ¬ e.ExpiredAt now) :
    purge now (some e) = some e := if_neg h

theorem purge_of_expired {now : T} {e : Entry V T} (h : e.ExpiredAt now) :
    purge now (some e) = none := if_pos h

/-- What a touch leaves of an entry is what can be seen of it. -/
theorem purge_eq_some_iff {now : T} {o : Option (Entry V T)} {e : Entry V T} :
    purge now o = some e ↔ o = some e ∧ ¬ e.ExpiredAt now := by
  cases o with
  | none => simp
  | some e' =>
      by_cases he : e'.ExpiredAt now
      · rw [purge_of_expired he]
        refine ⟨nofun, ?_⟩
        rintro ⟨h, hfresh⟩
        cases h
        exact absurd he hfresh
      · rw [purge_of_not_expired he]
        refine ⟨?_, And.left⟩
        rintro ⟨⟩
        exact ⟨rfl, he⟩

theorem isSome_purge_iff {now : T} {o : Option (Entry V T)} :
    (purge now o).isSome ↔ Visible now o := by
  simp [Option.isSome_iff_exists, purge_eq_some_iff, Visible]

/-- A touch cannot be seen at its own time or later. -/
theorem purge_purge {now later : T} (hle : now ≤ later) (o : Option (Entry V T)) :
    purge later (purge now o) = purge later o := by
  cases o with
  | none => rfl
  | some e =>
      by_cases he : e.ExpiredAt now
      · rw [purge_of_expired he, purge_of_expired (he.mono hle), purge_none]
      · rw [purge_of_not_expired he]

/-- One write, at time `now`.  A deadline that has passed deletes; dropping a deadline that
has passed deletes too. -/
def Op.apply (now : T) : Op V T → Option (Entry V T) → Option (Entry V T)
  | .set v d, _ => some ⟨v, d⟩
  | .delete, _ => none
  | .expireAt t, o => if t ≤ now then none else o.map fun e ↦ { e with expiresAt := some t }
  | .persist, none => none
  | .persist, some ⟨v, none⟩ => some ⟨v, none⟩
  | .persist, some ⟨v, some t⟩ => if t ≤ now then none else some ⟨v, none⟩

/-- A list of writes, all at time `now`. -/
def applyAll (now : T) (ops : List (Op V T)) (o : Option (Entry V T)) : Option (Entry V T) :=
  ops.foldl (fun o op ↦ op.apply now o) o

@[simp] theorem applyAll_cons (now : T) (op : Op V T) (ops : List (Op V T))
    (o : Option (Entry V T)) : applyAll now (op :: ops) o = applyAll now ops (op.apply now o) := rfl

theorem applyAll_append (now : T) (xs ys : List (Op V T)) (o : Option (Entry V T)) :
    applyAll now (xs ++ ys) o = applyAll now ys (applyAll now xs o) := List.foldl_append

/-- One event. -/
def Event.apply : Event V T → Option (Entry V T) → Option (Entry V T)
  | .write op now => op.apply now
  | .touch now => purge now

/-- The live register after a history. -/
def run (evs : List (Event V T)) (o : Option (Entry V T)) : Option (Entry V T) :=
  evs.foldl (fun o ev ↦ ev.apply o) o

@[simp] theorem run_cons (ev : Event V T) (evs : List (Event V T)) (o : Option (Entry V T)) :
    run (ev :: evs) o = run evs (ev.apply o) := rfl

theorem run_append (xs ys : List (Event V T)) (o : Option (Entry V T)) :
    run (xs ++ ys) o = run ys (run xs o) := List.foldl_append

/-! ## The expired state -/

/-- The write that revives: a later deadline for an entry whose own has passed. -/
def Revives (now : T) (op : Op V T) (o : Option (Entry V T)) : Prop :=
  ∃ t e, op = .expireAt t ∧ now < t ∧ o = some e ∧ e.ExpiredAt now

/-- A register that is not visible stays so under any write but a set and a reviving
deadline. -/
theorem not_visible_apply {now : T} {op : Op V T} {o : Option (Entry V T)}
    (h : ¬ Visible now o) (hset : ¬ op.IsSet) (hrev : ¬ Revives now op o) :
    ¬ Visible now (op.apply now o) := by
  cases o with
  | none =>
      cases op with
      | set v d => exact absurd trivial hset
      | delete => exact not_visible_none now
      | expireAt t => rw [Op.apply, Option.map_none, ite_self]; exact not_visible_none now
      | persist => exact not_visible_none now
  | some e =>
      have hexp : e.ExpiredAt now := by_contra fun hx ↦ h (visible_some.2 hx)
      cases op with
      | set v d => exact absurd trivial hset
      | delete => exact not_visible_none now
      | expireAt t =>
          by_cases ht : t ≤ now
          · rw [Op.apply, if_pos ht]; exact not_visible_none now
          · exact absurd ⟨t, e, rfl, not_le.1 ht, rfl, hexp⟩ hrev
      | persist =>
          obtain ⟨v, d⟩ := e
          obtain ⟨t, ht, hle⟩ := hexp
          cases ht
          rw [Op.apply, if_pos hle]
          exact not_visible_none now

/-- A reviving write makes an invisible register visible. -/
theorem Revives.visible_apply {now : T} {op : Op V T} {o : Option (Entry V T)}
    (h : Revives now op o) : ¬ Visible now o ∧ Visible now (op.apply now o) := by
  obtain ⟨t, e, rfl, hlt, rfl, hexp⟩ := h
  refine ⟨fun hv ↦ visible_some.1 hv hexp, ?_⟩
  rw [Op.apply, if_neg (not_le.2 hlt), Option.map_some]
  exact visible_some.2 (by simpa using hlt)

/-- A touch never makes a register visible. -/
theorem not_visible_purge {now later : T} {o : Option (Entry V T)} (h : ¬ Visible later o) :
    ¬ Visible later (purge now o) := by
  cases o with
  | none => exact h
  | some e =>
      by_cases he : e.ExpiredAt now
      · rw [purge_of_expired he]; exact not_visible_none later
      · rw [purge_of_not_expired he]; exact h

/-! ## Empty registers -/

theorem apply_none_of_not_isSet {op : Op V T} (h : ¬ op.IsSet) (now : T) :
    op.apply now none = none := by
  cases op with
  | set v d => exact absurd trivial h
  | delete => rfl
  | expireAt t => rw [Op.apply, Option.map_none, ite_self]
  | persist => rfl

/-- Without a set, an empty register stays empty. -/
theorem applyAll_none {ops : List (Op V T)} (h : ∀ op ∈ ops, ¬ op.IsSet) (now : T) :
    applyAll now ops none = none := by
  induction ops with
  | nil => rfl
  | cons op ops ih =>
      rw [applyAll_cons, apply_none_of_not_isSet (h op List.mem_cons_self)]
      exact ih fun o ho ↦ h o (List.mem_cons_of_mem _ ho)

theorem run_none {evs : List (Event V T)} (h : ∀ ev ∈ evs, ¬ ev.IsSet) :
    run evs none = none := by
  induction evs with
  | nil => rfl
  | cons ev evs ih =>
      have hnone : ev.apply none = none := by
        cases ev with
        | write op now => exact apply_none_of_not_isSet (h _ List.mem_cons_self) now
        | touch now => rfl
      rw [run_cons, hnone]
      exact ih fun e he ↦ h e (List.mem_cons_of_mem _ he)

/-! ## Replay loses a live register -/

/-- The writes after the last set keep an entry with deadline `d` alive when they are all
replayed at time `rec`: no deadline among them has passed, and no deadline is dropped while
`d`, itself past, is still the current one. -/
def KeptAt (rec : T) (d : Option T) (post : List (Op V T)) : Prop :=
  (∀ t, Op.expireAt t ∈ post → rec < t) ∧
    ∀ t mid rest, d = some t → post = mid ++ .persist :: rest →
      (∀ t', Op.expireAt t' ∉ mid) → rec < t

/-- Since the last set, the log keeps its entry alive at recovery time `rec`. -/
def Survives (rec : T) (ops : List (Op V T)) : Prop :=
  ∀ pre v d post, ops = pre ++ .set v d :: post → (∀ op ∈ post, ¬ op.IsSet) →
    KeptAt rec d post

/-- A deadline that has passed is not dropped but enforced, as long as no other deadline has
replaced it. -/
theorem applyAll_persist_eq_none {rec t : T} {v : V} (ht : t ≤ rec) {mid : List (Op V T)}
    (hset : ∀ op ∈ mid, ¬ op.IsSet) (hexp : ∀ t', Op.expireAt t' ∉ mid) :
    applyAll rec (mid ++ [.persist]) (some ⟨v, some t⟩) = none := by
  cases mid with
  | nil => exact if_pos ht
  | cons op mid =>
      have hrest : ∀ o ∈ mid ++ [.persist], ¬ Op.IsSet o := by
        intro o ho
        rcases List.mem_append.1 ho with ho | ho
        · exact hset o (List.mem_cons_of_mem _ ho)
        · rw [List.mem_singleton.1 ho]; exact id
      have hhead : op.apply rec (some ⟨v, some t⟩) = none := by
        cases op with
        | set v d => exact absurd trivial (hset _ List.mem_cons_self)
        | delete => rfl
        | expireAt t' => exact absurd List.mem_cons_self (hexp t')
        | persist => exact if_pos ht
      rw [List.cons_append, applyAll_cons, hhead]
      exact applyAll_none hrest rec

/-- A log that leaves an entry behind kept it alive. -/
theorem keptAt_of_applyAll_ne_none {rec : T} {v : V} {d : Option T} {post : List (Op V T)}
    (hset : ∀ op ∈ post, ¬ op.IsSet) (h : applyAll rec post (some ⟨v, d⟩) ≠ none) :
    KeptAt rec d post := by
  constructor
  · intro t hmem
    by_contra ht
    obtain ⟨l, r, rfl⟩ := List.append_of_mem hmem
    refine h ?_
    rw [applyAll_append, applyAll_cons, Op.apply, if_pos (not_lt.1 ht)]
    exact applyAll_none (fun op hop ↦ hset op (by simp [hop])) rec
  · rintro t mid rest rfl rfl hexp
    by_contra ht
    refine h ?_
    have hmid : ∀ op ∈ mid, ¬ op.IsSet := fun op hop ↦ hset op (by simp [hop])
    have hcut := applyAll_persist_eq_none (v := v) (not_lt.1 ht) hmid hexp
    rw [← List.singleton_append, ← List.append_assoc, applyAll_append, hcut]
    exact applyAll_none (fun op hop ↦ hset op (by simp [hop])) rec

/-- While nothing is lost, replay tracks the live register: the induction is over the
history since the last set, with the current deadline as its parameter. -/
theorem applyAll_eq_run_of_keptAt {rec : T} {v : V} {d : Option T} {post : List (Event V T)}
    (hle : ∀ ev ∈ post, ev.now ≤ rec) (hset : ∀ ev ∈ post, ¬ ev.IsSet)
    (hlive : run post (some ⟨v, d⟩) ≠ none) (hkept : KeptAt rec d (log post)) :
    applyAll rec (log post) (some ⟨v, d⟩) = run post (some ⟨v, d⟩) := by
  induction post generalizing d with
  | nil => rfl
  | cons ev post ih =>
      have hle' : ∀ e ∈ post, e.now ≤ rec := fun e he ↦ hle e (List.mem_cons_of_mem _ he)
      have hset' : ∀ e ∈ post, ¬ e.IsSet := fun e he ↦ hset e (List.mem_cons_of_mem _ he)
      have hnow : ev.now ≤ rec := hle ev List.mem_cons_self
      rw [run_cons] at hlive ⊢
      cases ev with
      | touch now =>
          by_cases hexp : (Entry.mk v d).ExpiredAt now
          · exact absurd (by rw [Event.apply, purge_of_expired hexp, run_none hset']) hlive
          · rw [Event.apply, purge_of_not_expired hexp] at hlive ⊢
            exact ih hle' hset' hlive hkept
      | write op now =>
          rw [log_cons_write] at hkept ⊢
          rw [applyAll_cons]
          cases op with
          | set v d => exact absurd trivial (hset _ List.mem_cons_self)
          | delete => exact absurd (run_none hset') hlive
          | expireAt t =>
              have ht : rec < t := hkept.1 t List.mem_cons_self
              have htail : KeptAt rec (some t) (log post) :=
                ⟨fun t' h' ↦ hkept.1 t' (List.mem_cons_of_mem _ h'),
                  fun t' mid rest h' _ _ ↦ by cases h'; exact ht⟩
              have hlater : ¬ t ≤ now := not_le.2 (lt_of_le_of_lt hnow ht)
              simp only [Event.apply, Op.apply, if_neg hlater, if_neg (not_le.2 ht),
                Option.map_some] at hlive ⊢
              exact ih hle' hset' hlive htail
          | persist =>
              have htail : KeptAt rec none (log post) :=
                ⟨fun t' h' ↦ hkept.1 t' (List.mem_cons_of_mem _ h'),
                  fun t' mid rest h' ↦ by cases h'⟩
              cases d with
              | none => exact ih hle' hset' hlive htail
              | some t =>
                  have ht : rec < t := hkept.2 t [] (log post) rfl rfl fun t' ↦ List.not_mem_nil
                  have hlater : ¬ t ≤ now := not_le.2 (lt_of_le_of_lt hnow ht)
                  simp only [Event.apply, Op.apply, if_neg hlater, if_neg (not_le.2 ht)] at hlive ⊢
                  exact ih hle' hset' hlive htail

/-- A set makes everything before it irrelevant, live and replayed. -/
theorem run_set (pre post : List (Event V T)) (v : V) (d : Option T) (now : T)
    (o : Option (Entry V T)) :
    run (pre ++ .write (.set v d) now :: post) o = run post (some ⟨v, d⟩) := by
  rw [run_append]; rfl

theorem applyAll_set (rec : T) (pre post : List (Op V T)) (v : V) (d : Option T)
    (o : Option (Entry V T)) :
    applyAll rec (pre ++ .set v d :: post) o = applyAll rec post (some ⟨v, d⟩) := by
  rw [applyAll_append]; rfl

/-- A register that is visible at recovery time is rebuilt from the log as it stood exactly
when the log survives the move to that time. -/
theorem applyAll_eq_run_iff {rec : T} {evs : List (Event V T)} (hle : ∀ ev ∈ evs, ev.now ≤ rec)
    (hlive : Visible rec (run evs none)) :
    applyAll rec (log evs) none = run evs none ↔ Survives rec (log evs) := by
  have hne : run evs none ≠ none := fun h ↦ not_visible_none rec (h ▸ hlive)
  constructor
  · intro heq pre v d post hsplit hset
    rw [← heq, hsplit, applyAll_set] at hne
    exact keptAt_of_applyAll_ne_none hset hne
  · intro hsurv
    have hex : ∃ ev ∈ evs, ev.IsSet := by
      by_contra hno
      push Not at hno
      exact hne (run_none hno)
    obtain ⟨pre, v, d, now, post, rfl, hset⟩ := exists_last_set hex
    have hlog := log_append_write pre post (.set v d) now
    rw [run_set] at hne ⊢
    rw [hlog, applyAll_set]
    exact applyAll_eq_run_of_keptAt (fun ev hev ↦ hle ev (by simp [hev])) hset hne
      (hsurv _ _ _ _ hlog (not_isSet_of_mem_log hset))

/-! ## Replay revives a dropped register -/

/-- Between the last set, whose deadline was `d`, and the next deadline, a touch came at or
after `d`: it dropped the entry, and no log says so. -/
def DroppedAfter (d : Option T) (post : List (Event V T)) : Prop :=
  ∃ t mid now rest, d = some t ∧ post = mid ++ .touch now :: rest ∧
    (∀ t' n, Event.write (.expireAt t') n ∉ mid) ∧ t ≤ now

/-- Since the last set, a touch dropped its entry before another deadline was put on it. -/
def Dropped (evs : List (Event V T)) : Prop :=
  ∃ pre v d now post, evs = pre ++ .write (.set v d) now :: post ∧
    (∀ ev ∈ post, ¬ ev.IsSet) ∧ DroppedAfter d post

/-- Without a deadline nothing is dropped. -/
theorem not_droppedAfter_none {post : List (Event V T)} : ¬ DroppedAfter none post := by
  rintro ⟨t, mid, now, rest, hd, -⟩
  cases hd

/-- The touch that finds the entry expired drops it. -/
theorem droppedAfter_touch_of_expired {v : V} {d : Option T} {now : T} {post : List (Event V T)}
    (h : (Entry.mk v d).ExpiredAt now) : DroppedAfter d (.touch now :: post) := by
  obtain ⟨t, hd, ht⟩ := h
  exact ⟨t, [], now, post, hd, rfl, fun _ _ ↦ List.not_mem_nil, ht⟩

/-- A touch does not keep a later one from dropping the entry. -/
theorem DroppedAfter.touch {d : Option T} {post : List (Event V T)} (h : DroppedAfter d post)
    (now : T) : DroppedAfter d (.touch now :: post) := by
  obtain ⟨t, mid, n, rest, hd, rfl, hexp, ht⟩ := h
  refine ⟨t, .touch now :: mid, n, rest, hd, rfl, fun t' n' hm ↦ ?_, ht⟩
  rcases List.mem_cons.1 hm with h | h
  · cases h
  · exact hexp t' n' h

/-- A deadline that no event of the history comes to drops nothing. -/
theorem not_droppedAfter_of_lt {rec t : T} {post : List (Event V T)}
    (hle : ∀ ev ∈ post, ev.now ≤ rec) (ht : rec < t) : ¬ DroppedAfter (some t) post := by
  rintro ⟨t', mid, n, rest, hd, rfl, -, ht'⟩
  cases hd
  exact not_le.2 ht (ht'.trans (hle (.touch n) (by simp)))

/-- A history of touches and deletions leaves an entry as it is, or nothing. -/
theorem run_of_touch_or_delete {e : Entry V T} {mid : List (Event V T)}
    (h : ∀ ev ∈ mid, (∃ now, ev = .touch now) ∨ ∃ now, ev = .write .delete now) :
    run mid (some e) = some e ∨ run mid (some e) = none := by
  induction mid with
  | nil => exact .inl rfl
  | cons ev mid ih =>
      have hmid := fun e' he' ↦ h e' (List.mem_cons_of_mem _ he')
      have hset : ∀ e' ∈ mid, ¬ Event.IsSet e' := by
        intro e' he'
        rcases hmid e' he' with ⟨now, rfl⟩ | ⟨now, rfl⟩ <;> exact id
      rw [run_cons]
      rcases h ev List.mem_cons_self with ⟨now, rfl⟩ | ⟨now, rfl⟩
      · by_cases hexp : e.ExpiredAt now
        · rw [Event.apply, purge_of_expired hexp]; exact .inr (run_none hset)
        · rw [Event.apply, purge_of_not_expired hexp]; exact ih hmid
      · exact .inr (run_none hset)

/-- A dropped register is empty, as long as the log that survives it does not drop the
deadline first. -/
theorem run_eq_none_of_droppedAfter {rec : T} {v : V} {d : Option T} {post : List (Event V T)}
    (hle : ∀ ev ∈ post, ev.now ≤ rec) (hset : ∀ ev ∈ post, ¬ ev.IsSet)
    (hkept : KeptAt rec d (log post)) (hdrop : DroppedAfter d post) :
    run post (some ⟨v, d⟩) = none := by
  obtain ⟨t, mid, now, rest, rfl, rfl, hexp, ht⟩ := hdrop
  have hrec : t ≤ rec := ht.trans (hle (.touch now) (by simp))
  have hmid : ∀ ev ∈ mid, (∃ n, ev = .touch n) ∨ ∃ n, ev = .write .delete n := by
    intro ev hev
    cases ev with
    | touch n => exact .inl ⟨n, rfl⟩
    | write op n =>
        cases op with
        | set v d => exact absurd trivial (hset (.write (.set v d) n) (by simp [hev]))
        | delete => exact .inr ⟨n, rfl⟩
        | expireAt t' => exact absurd hev (hexp t' n)
        | persist =>
            obtain ⟨l, r, rfl⟩ := List.append_of_mem hev
            refine absurd (hkept.2 t (log l) (log (r ++ .touch now :: rest)) rfl ?_ ?_)
              (not_lt.2 hrec)
            · rw [List.append_assoc, List.cons_append, log_append_write]
            · intro t' h'
              obtain ⟨n', h''⟩ := mem_log.1 h'
              exact hexp t' n' (by simp [h''])
  rw [run_append, run_cons]
  rcases run_of_touch_or_delete (e := ⟨v, some t⟩) hmid with h | h
  · rw [h, Event.apply, purge_of_expired (expiredAt_some.2 ht)]
    exact run_none fun ev hev ↦ hset ev (by simp [hev])
  · rw [h]
    exact run_none fun ev hev ↦ hset ev (by simp [hev])

/-- While nothing is dropped, the live register tracks replay. -/
theorem run_eq_applyAll_of_not_droppedAfter {rec : T} {v : V} {d : Option T}
    {post : List (Event V T)} (hle : ∀ ev ∈ post, ev.now ≤ rec) (hset : ∀ ev ∈ post, ¬ ev.IsSet)
    (hreplay : applyAll rec (log post) (some ⟨v, d⟩) ≠ none) (hdrop : ¬ DroppedAfter d post) :
    run post (some ⟨v, d⟩) = applyAll rec (log post) (some ⟨v, d⟩) := by
  induction post generalizing d with
  | nil => rfl
  | cons ev post ih =>
      have hle' : ∀ e ∈ post, e.now ≤ rec := fun e he ↦ hle e (List.mem_cons_of_mem _ he)
      have hset' : ∀ e ∈ post, ¬ e.IsSet := fun e he ↦ hset e (List.mem_cons_of_mem _ he)
      have hlog' := not_isSet_of_mem_log hset'
      have hnow : ev.now ≤ rec := hle ev List.mem_cons_self
      rw [run_cons]
      cases ev with
      | touch now =>
          have hfresh : ¬ (Entry.mk v d).ExpiredAt now := mt droppedAfter_touch_of_expired hdrop
          rw [Event.apply, purge_of_not_expired hfresh]
          exact ih hle' hset' hreplay fun h ↦ hdrop (h.touch now)
      | write op now =>
          rw [log_cons_write, applyAll_cons] at hreplay ⊢
          cases op with
          | set v d => exact absurd trivial (hset _ List.mem_cons_self)
          | delete => exact absurd (applyAll_none hlog' rec) hreplay
          | expireAt t =>
              by_cases ht : t ≤ rec
              · rw [Op.apply, if_pos ht] at hreplay
                exact absurd (applyAll_none hlog' rec) hreplay
              · have hlater : ¬ t ≤ now := fun h ↦ ht (h.trans hnow)
                simp only [Event.apply, Op.apply, if_neg hlater, if_neg ht,
                  Option.map_some] at hreplay ⊢
                exact ih hle' hset' hreplay (not_droppedAfter_of_lt hle' (not_le.1 ht))
          | persist =>
              cases d with
              | none => exact ih hle' hset' hreplay not_droppedAfter_none
              | some t =>
                  by_cases ht : t ≤ rec
                  · rw [Op.apply, if_pos ht] at hreplay
                    exact absurd (applyAll_none hlog' rec) hreplay
                  · have hlater : ¬ t ≤ now := fun h ↦ ht (h.trans hnow)
                    simp only [Event.apply, Op.apply, if_neg hlater, if_neg ht] at hreplay ⊢
                    exact ih hle' hset' hreplay not_droppedAfter_none

/-- A register that is visible after replay is the live one exactly when no touch had
dropped it. -/
theorem run_eq_applyAll_iff {rec : T} {evs : List (Event V T)} (hle : ∀ ev ∈ evs, ev.now ≤ rec)
    (hreplay : Visible rec (applyAll rec (log evs) none)) :
    run evs none = applyAll rec (log evs) none ↔ ¬ Dropped evs := by
  have hne : applyAll rec (log evs) none ≠ none := fun h ↦ not_visible_none rec (h ▸ hreplay)
  constructor
  · rintro heq ⟨pre, v, d, now, post, rfl, hset, hdrop⟩
    have hpost : ∀ ev ∈ post, ev.now ≤ rec := fun ev hev ↦ hle ev (by simp [hev])
    rw [log_append_write, applyAll_set] at hne heq
    rw [run_set] at heq
    have hkept := keptAt_of_applyAll_ne_none (not_isSet_of_mem_log hset) hne
    exact hne (heq ▸ run_eq_none_of_droppedAfter hpost hset hkept hdrop)
  · intro hdrop
    have hex : ∃ ev ∈ evs, ev.IsSet := by
      by_contra hno
      push Not at hno
      exact hne (applyAll_none (not_isSet_of_mem_log hno) rec)
    obtain ⟨pre, v, d, now, post, rfl, hset⟩ := exists_last_set hex
    rw [log_append_write, applyAll_set] at hne ⊢
    rw [run_set]
    exact run_eq_applyAll_of_not_droppedAfter (fun ev hev ↦ hle ev (by simp [hev])) hset hne
      fun h ↦ hdrop ⟨pre, v, d, now, post, rfl, hset, h⟩

/-! ## Touches alone -/

section Touches

variable {evs : List (Event V T)} (htouch : ∀ ev ∈ evs, ∃ now, ev = .touch now)

include htouch

/-- Touches leave an entry as it is, or drop it after its deadline. -/
theorem run_of_touches (o : Option (Entry V T)) :
    run evs o = o ∨ run evs o = none ∧ ∃ e ∈ o, ∃ ev ∈ evs, e.ExpiredAt ev.now := by
  induction evs with
  | nil => exact .inl rfl
  | cons ev evs ih =>
      obtain ⟨now, rfl⟩ := htouch ev List.mem_cons_self
      have hrest : ∀ ev ∈ evs, ∃ now, ev = .touch now := fun ev hev ↦
        htouch ev (List.mem_cons_of_mem _ hev)
      have hset : ∀ ev ∈ evs, ¬ ev.IsSet := fun ev hev ↦ by
        obtain ⟨n, rfl⟩ := hrest ev hev
        exact id
      rw [run_cons, Event.apply]
      cases o with
      | none => exact .inl (run_none hset)
      | some e =>
          by_cases he : e.ExpiredAt now
          · rw [purge_of_expired he]
            exact .inr ⟨run_none hset, e, rfl, .touch now, List.mem_cons_self, he⟩
          · rw [purge_of_not_expired he]
            rcases ih hrest with h | ⟨h, e', he', ev', hev', hexp⟩
            · exact .inl h
            · exact .inr ⟨h, e', he', ev', List.mem_cons_of_mem _ hev', hexp⟩

/-- Touches cannot be seen by the time of the last of them. -/
theorem purge_run_of_touches {later : T} (hle : ∀ ev ∈ evs, ev.now ≤ later)
    (o : Option (Entry V T)) : purge later (run evs o) = purge later o := by
  rcases run_of_touches htouch o with h | ⟨h, e, rfl, ev, hev, hexp⟩
  · rw [h]
  · rw [h, purge_of_expired (hexp.mono (hle ev hev)), purge_none]

end Touches

/-! ## Before every deadline -/

/-- The deadline of the register, if it has one, is in `D`. -/
def Within (D : Set T) (o : Option (Entry V T)) : Prop := ∀ e ∈ o, ∀ t ∈ e.expiresAt, t ∈ D

omit [LinearOrder T] in
@[simp] theorem within_none (D : Set T) : Within D (none : Option (Entry V T)) := by
  intro e he; cases he

section Before

variable {D : Set T} {now : T} (hnow : ∀ d ∈ D, now < d)

include hnow

theorem not_expiredAt_of_within {o : Option (Entry V T)} (ho : Within D o) {e : Entry V T}
    (he : e ∈ o) : ¬ e.ExpiredAt now := by
  rintro ⟨t, ht, hle⟩
  exact not_lt.2 hle (hnow t (ho e he t ht))

/-- Before every deadline a touch does nothing. -/
theorem purge_of_within {o : Option (Entry V T)} (ho : Within D o) : purge now o = o := by
  cases o with
  | none => rfl
  | some e => exact purge_of_not_expired (not_expiredAt_of_within hnow ho rfl)

/-- Before every deadline it does not matter when a write is made. -/
theorem apply_eq_of_within {later : T} (hlater : ∀ d ∈ D, later < d) {op : Op V T}
    (hop : ∀ t ∈ op.deadline, t ∈ D) {o : Option (Entry V T)} (ho : Within D o) :
    op.apply now o = op.apply later o := by
  cases op with
  | set v d => rfl
  | delete => rfl
  | expireAt t =>
      have ht : t ∈ D := hop t rfl
      rw [Op.apply, Op.apply, if_neg (not_le.2 (hnow t ht)), if_neg (not_le.2 (hlater t ht))]
  | persist =>
      rcases o with _ | ⟨v, _ | t⟩
      · rfl
      · rfl
      · have ht : t ∈ D := ho _ rfl t rfl
        rw [Op.apply, Op.apply, if_neg (not_le.2 (hnow t ht)), if_neg (not_le.2 (hlater t ht))]

/-- A write brings in no other deadline than its own. -/
theorem within_apply {op : Op V T} (hop : ∀ t ∈ op.deadline, t ∈ D) {o : Option (Entry V T)}
    (ho : Within D o) : Within D (op.apply now o) := by
  cases op with
  | set v d => rintro e ⟨⟩ t ht; exact hop t ht
  | delete => exact within_none D
  | expireAt t =>
      rw [Op.apply, if_neg (not_le.2 (hnow t (hop t rfl)))]
      intro e he t' ht'
      obtain ⟨e', -, rfl⟩ := Option.map_eq_some_iff.1 he
      cases ht'
      exact hop t rfl
  | persist =>
      rcases o with _ | ⟨v, _ | t⟩
      · exact ho
      · exact ho
      · rw [Op.apply, if_neg (not_le.2 (hnow t (ho _ rfl t rfl)))]
        rintro e ⟨⟩ t' ht'
        cases ht'

end Before

/-! ## Writes that move deadlines -/

/-- The deadline a write moves an entry to, if that is all it does. -/
def Op.redate? : Op V T → Option (Option T)
  | .expireAt t => some (some t)
  | .persist => some none
  | _ => none

/-- Only the deadline moves, to `d`, which has not passed; an entry can be lost on the way only
if its own deadline had passed. -/
structure Moves (now : T) (d : Option T) (f : Option (Entry V T) → Option (Entry V T)) :
    Prop where
  ahead : ∀ t ∈ d, now < t
  none : f none = none
  some : ∀ v d', f (some ⟨v, d'⟩) = some ⟨v, d⟩ ∨
    (f (some ⟨v, d'⟩) = Option.none ∧ ∃ t ∈ d', t ≤ now)

theorem Moves.some_of_ahead {now : T} {d d' : Option T}
    {f : Option (Entry V T) → Option (Entry V T)} (h : Moves now d f) (v : V)
    (hd' : ∀ t ∈ d', now < t) : f (.some ⟨v, d'⟩) = .some ⟨v, d⟩ := by
  rcases h.some v d' with hkept | ⟨-, t, ht, hle⟩
  · exact hkept
  · exact absurd (hd' t ht) (not_lt.2 hle)

/-- A deadline moved and moved again ends up where the second write puts it. -/
theorem Moves.comp {now : T} {d d' : Option T} {f g : Option (Entry V T) → Option (Entry V T)}
    (hg : Moves now d' g) (hf : Moves now d f) : Moves now d' (g ∘ f) where
  ahead := hg.ahead
  none := (congrArg g hf.none).trans hg.none
  some v d₀ := by
    rw [Function.comp_apply]
    rcases hf.some v d₀ with hkept | ⟨hlost, hpast⟩
    · rw [hkept]
      exact .inl (hg.some_of_ahead v hf.ahead)
    · rw [hlost]
      exact .inr ⟨hg.none, hpast⟩

theorem moves_apply (now : T) {op : Op V T} {d : Option T} (h : op.redate? = some d) :
    (∀ x y, op.apply now x = op.apply now y) ∨ Moves now d (op.apply now) := by
  cases op with
  | set v d => cases h
  | delete => cases h
  | expireAt t =>
      cases h
      by_cases ht : t ≤ now
      · exact .inl fun x y ↦ by simp only [Op.apply, if_pos ht]
      · refine .inr ⟨fun t' h' ↦ by cases h'; exact not_le.1 ht, ?_, fun v d' ↦ .inl ?_⟩
        · rw [Op.apply, if_neg ht, Option.map_none]
        · rw [Op.apply, if_neg ht, Option.map_some]
  | persist =>
      cases h
      refine .inr ⟨fun t' h' ↦ (by cases h'), rfl, fun v d' ↦ ?_⟩
      cases d' with
      | none => exact .inl rfl
      | some t =>
          by_cases ht : t ≤ now
          · exact .inr ⟨if_pos ht, t, rfl, ht⟩
          · exact .inl (if_neg ht)

theorem apply_none_of_redate? {op : Op V T} {d : Option T} (h : op.redate? = some d) (now : T) :
    op.apply now none = none := by
  cases op with
  | set v d => cases h
  | delete => rfl
  | expireAt t => rw [Op.apply, Option.map_none, ite_self]
  | persist => rfl

/-- A write that does not move a deadline forgets what was there. -/
theorem apply_eq_of_redate?_eq_none {op : Op V T} (h : op.redate? = none) (now : T)
    (x y : Option (Entry V T)) : op.apply now x = op.apply now y := by
  cases op with
  | set v d => rfl
  | delete => rfl
  | expireAt t => cases h
  | persist => cases h

/-! ## Replaying twice -/

/-- What a list of writes does, seen as one function of the register it starts from. -/
inductive Shape (now : T) (f : Option (Entry V T) → Option (Entry V T)) : Prop
  /-- Some write forgets what was there. -/
  | const (h : ∀ x y, f x = f y)
  /-- There are no writes. -/
  | id (h : ∀ x, f x = x)
  /-- Only the deadline moves, to one that has not passed; an entry can be lost on the way
  only if its own deadline had passed. -/
  | redate (d : Option T) (hd : ∀ t ∈ d, now < t) (hnone : f none = none)
      (hsome : ∀ v d', f (some ⟨v, d'⟩) = some ⟨v, d⟩ ∨
        (f (some ⟨v, d'⟩) = none ∧ ∃ t ∈ d', t ≤ now))

theorem Moves.shape {now : T} {d : Option T} {f : Option (Entry V T) → Option (Entry V T)}
    (h : Moves now d f) : Shape now f := .redate d h.ahead h.none h.some

/-- The shapes compose. -/
theorem Shape.comp {now : T} {f g : Option (Entry V T) → Option (Entry V T)} (hg : Shape now g)
    (hf : Shape now f) : Shape now (g ∘ f) := by
  rcases hg with hg | hg | ⟨d, hd, hgnone, hgsome⟩
  · exact .const fun x y ↦ hg _ _
  · have heq : g ∘ f = f := funext fun x ↦ hg (f x)
    rw [heq]
    exact hf
  · have hg : Moves now d g := ⟨hd, hgnone, hgsome⟩
    rcases hf with hf | hf | ⟨d', hd', hfnone, hfsome⟩
    · exact .const fun x y ↦ congrArg g (hf x y)
    · have heq : g ∘ f = g := funext fun x ↦ congrArg g (hf x)
      rw [heq]
      exact hg.shape
    · exact (hg.comp ⟨hd', hfnone, hfsome⟩).shape

theorem shape_apply (now : T) (op : Op V T) : Shape now (op.apply now) := by
  cases hop : op.redate? with
  | none => exact .const (apply_eq_of_redate?_eq_none hop now)
  | some d =>
      rcases moves_apply now hop with hconst | hmoves
      · exact .const hconst
      · exact hmoves.shape

/-- Every list of writes has one of the three shapes. -/
theorem shape_applyAll (now : T) (ops : List (Op V T)) :
    Shape now (applyAll now ops : Option (Entry V T) → Option (Entry V T)) := by
  induction ops with
  | nil => exact .id fun _ ↦ rfl
  | cons op ops ih => exact ih.comp (shape_apply now op)

/-- At one time, replaying a list of writes on top of itself changes nothing. -/
theorem applyAll_idem (now : T) (ops : List (Op V T)) (o : Option (Entry V T)) :
    applyAll now ops (applyAll now ops o) = applyAll now ops o := by
  rcases shape_applyAll now ops with h | h | ⟨d, hd, hnone, hsome⟩
  · exact h _ _
  · exact h _
  · have hfix (v : V) : applyAll now ops (some ⟨v, d⟩) = some ⟨v, d⟩ :=
      Moves.some_of_ahead ⟨hd, hnone, hsome⟩ v hd
    cases o with
    | none => rw [hnone, hnone]
    | some e =>
        obtain ⟨v, d'⟩ := e
        rcases hsome v d' with h | ⟨h, -⟩
        · rw [h, hfix]
        · rw [h, hnone]

/-! ## Replaying on top of a later write -/

/-- The writes only move deadlines, the last of them to `d`. -/
def Redates (ops : List (Op V T)) (d : Option T) : Prop :=
  (∀ op ∈ ops, op.redate? ≠ none) ∧ ∃ op, ops.getLast? = some op ∧ op.redate? = some d

omit [LinearOrder T] in
theorem Redates.concat {ops : List (Op V T)} (h : ∀ op ∈ ops, op.redate? ≠ none) {op : Op V T}
    {d : Option T} (hop : op.redate? = some d) : Redates (ops ++ [op]) d := by
  refine ⟨fun o ho ↦ ?_, op, List.getLast?_concat, hop⟩
  rcases List.mem_append.1 ho with ho | ho
  · exact h o ho
  · rw [List.mem_singleton.1 ho, hop]
    exact Option.some_ne_none d

/-- A list of writes forgets what was there, or is empty, or only moves deadlines. -/
theorem applyAll_cases (now : T) (ops : List (Op V T)) :
    (∀ x y : Option (Entry V T), applyAll now ops x = applyAll now ops y) ∨ ops = [] ∨
      ∃ d, Redates ops d ∧ Moves now d (applyAll now ops) := by
  induction ops using List.reverseRecOn with
  | nil => exact .inr (.inl rfl)
  | append_singleton ops op ih =>
      have heq : applyAll now (ops ++ [op]) = op.apply now ∘ applyAll now ops := by
        funext x
        rw [applyAll_append]
        rfl
      rw [heq]
      cases hop : op.redate? with
      | none => exact .inl fun x y ↦ apply_eq_of_redate?_eq_none hop now _ _
      | some d =>
          rcases moves_apply now hop with hconst | hmoves
          · exact .inl fun x y ↦ hconst _ _
          · rcases ih with hconst | rfl | ⟨d', hops, hmoves'⟩
            · exact .inl fun x y ↦ congrArg (op.apply now) (hconst x y)
            · exact .inr (.inr ⟨d, .concat (fun o ho ↦ absurd ho List.not_mem_nil) hop, hmoves⟩)
            · exact .inr (.inr ⟨d, .concat hops.1 hop, hmoves.comp hmoves'⟩)

/-- A list of writes on top of one that was made after them gives the register with that write
or without it, unless that write sets a value whose deadline the list moves. -/
theorem applyAll_apply_or {now : T} {ops : List (Op V T)} {op : Op V T}
    {x : Option (Entry V T)} (hx : applyAll now ops x = x) (hop : ∀ t ∈ op.deadline, now < t)
    (hset : ∀ v d d', op = .set v d → Redates ops d' → d' = d) :
    applyAll now ops (op.apply now x) = x ∨
      applyAll now ops (op.apply now x) = op.apply now x := by
  rcases applyAll_cases (V := V) now ops with hconst | rfl | ⟨d, hd, hmoves⟩
  · exact .inl ((hconst _ _).trans hx)
  · exact .inr rfl
  · cases hmoved : op.redate? with
    | none =>
        -- the write does not look at `x`, so only what it leaves matters
        right
        cases op with
        | set v e =>
            obtain rfl := hset v e d rfl hd
            exact hmoves.some_of_ahead v hop
        | delete => exact hmoves.none
        | expireAt t => cases hmoved
        | persist => cases hmoved
    | some e =>
        have hlost (h : op.apply now x = none) :
            applyAll now ops (op.apply now x) = op.apply now x := by rw [h, hmoves.none]
        rcases moves_apply now hmoved with hconst | hmoves'
        · exact .inr (hlost ((hconst x none).trans (apply_none_of_redate? hmoved now)))
        · rcases x with _ | ⟨v, d₀⟩
          · exact .inr (hlost hmoves'.none)
          · rcases hmoves'.some v d₀ with hkept | ⟨hnone, -⟩
            · -- the entry has the deadline of the list already, and gets it back
              left
              rw [hkept, hmoves.some_of_ahead v hmoves'.ahead, ← hx]
              exact (hmoves.some v d₀).elim Eq.symm fun h ↦ by rw [hx] at h; cases h.1
            · exact .inr (hlost hnone)

end Expiry
