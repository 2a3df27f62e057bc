import Steller.Inbound.Registry

/-!
# The accept loop and its ids

The loop gives each connection the next value of a 32-bit counter, which wraps.
The registry keys senders by these ids and trusts that connected sessions have
different ones.  `isolated_iff` says when they have: as long as nobody connects a
multiple of `2 ^ 32` connections after someone who is still there.

A connection whose stream cannot be cloned takes an id and ends; here it is a
session that stops at once.
-/

namespace Steller

open Transition

/-! ## One session cannot touch what is another's -/

namespace Hub

variable {σ σ' : Hub} {l : Label} {s t : Nat} {p q : Session}

/-- The session that takes the step. -/
def Label.session? : Label → Option Nat
  | .connect _ => none
  | .begin s _ _ | .advance s | .other s _ | .stop s | .hangUp s | .leave s _ => some s

/-- No two sessions that are there have the same id. -/
def DistinctIds (σ : Hub) : Prop :=
  ∀ s t p q, σ.session s = some p → σ.session t = some q → p.activity ≠ .gone →
    q.activity ≠ .gone → p.id = q.id → s = t

/-- The step, if it is not the registry call of a `PUBLISH`, leaves the registrations of sessions
other than the one that takes it, as long as they are there. -/
def Respects (σ : Hub) (l : Label) (σ' : Hub) : Prop :=
  σ.publication? l = none → ∀ c i t q, l.session? ≠ some t → σ.session t = some q →
    q.activity ≠ .gone → σ.channels.sender c i = some t → σ'.channels.sender c i = some t

theorem Registered.respects (h : Registered σ) (hstep : Hub.step σ l = some σ') :
    Respects σ l σ' := by
  intro hl c i t q ht hq hgone hr
  have hkey {s : Nat} {p : Session} (hs : σ.session s = some p) (hp : p.activity ≠ .gone)
      (hst : some s ≠ some t) (d : Blob) : ¬(c = d ∧ i = p.id) := by
    rintro ⟨-, rfl⟩
    exact hst (congrArg some (h.distinct hs hq hp hgone (h.of_sender hq hr).1))
  cases steps_of_step hstep with
  | subscribe hs hp =>
      have hne := hkey hs (by rw [hp]; exact nofun) ht
      exact (Channels.sender_subscribe _ _ _ _ _ _).trans ((if_neg (hne _)).trans hr)
  | unsubscribe hs hp =>
      have hne := hkey hs (by rw [hp]; exact nofun) ht
      exact (Channels.sender_unsubscribe _ _ _ _ _).trans ((if_neg (hne _)).trans hr)
  | publish hs hp =>
      rw [publication?_advance hs, hp] at hl
      cases hl
  | leaveOne hs hp =>
      have hne := hkey hs (by rw [hp]; exact nofun) ht
      exact (Channels.sender_unsubscribe _ _ _ _ _).trans ((if_neg (hne _)).trans hr)
  | _ => exact hr

end Hub

/-! ## The loop -/

/-- The accept loop: everything the sessions share, and the counter. -/
structure Acceptor where
  hub : Hub
  id : UInt32

namespace Acceptor

/-- `let mut id = 0u32`. -/
def init : Acceptor := ⟨.init, 0⟩

/-- What can happen next. -/
inductive Event where
  /-- The loop accepts a connection. -/
  | accept
  /-- A session takes a step. -/
  | act (l : Hub.Label)

/-- One step; only the loop itself gives ids. -/
def step (σ : Acceptor) : Event → Option Acceptor
  | .accept => (σ.hub.step (.connect (σ.id + 1))).map fun hub ↦ ⟨hub, σ.id + 1⟩
  | .act (.connect _) => none
  | .act l => (σ.hub.step l).map fun hub ↦ ⟨hub, σ.id⟩

variable {σ σ' : Acceptor} {e : Event} {ls : List Event}

/-- A step is one of the hub's, with the counter's next value if it is a connection. -/
theorem step_cases (h : step σ e = some σ') :
    e = .accept ∧ σ' = ⟨σ.hub.add (.new (σ.id + 1)), σ.id + 1⟩ ∨
      ∃ l, e = .act l ∧ (∀ id, l ≠ .connect id) ∧ σ.hub.step l = some σ'.hub ∧ σ'.id = σ.id := by
  unfold step at h
  split at h
  · cases h
    exact .inl ⟨rfl, rfl⟩
  · cases h
  · next l hl =>
      obtain ⟨hub, hhub, rfl⟩ := Option.map_eq_some_iff.1 h
      exact .inr ⟨l, rfl, hl, hhub, rfl⟩

/-! ## Ids and numbers -/

/-- The id of a session is its number, counted from one and wrapped. -/
structure Numbered (σ : Acceptor) : Prop where
  counter : σ.id = UInt32.ofNat σ.hub.sessions.length
  id_eq : ∀ {t q}, σ.hub.session t = some q → q.id = UInt32.ofNat (t + 1)

theorem Numbered.next (h : Numbered σ) :
    σ.id + 1 = UInt32.ofNat (σ.hub.sessions.length + 1) := by
  rw [h.counter, UInt32.ofNat_add]
  rfl

theorem numbered_step (h : Numbered σ) (hstep : step σ e = some σ') : Numbered σ' := by
  rcases step_cases hstep with ⟨rfl, rfl⟩ | ⟨l, rfl, hl, hhub, hid⟩
  · constructor
    · rw [Hub.length_add]
      exact h.next
    · intro t q ht
      rcases Hub.add_cases ht with ⟨rfl, rfl⟩ | ht
      · exact h.next
      · exact h.id_eq ht
  · have hsteps := Hub.steps_of_step hhub
    constructor
    · rcases hsteps.length with ⟨id, rfl, -⟩ | hlength
      · exact absurd rfl (hl id)
      · rw [hid, hlength, h.counter]
    · intro t q' hq'
      rcases hsteps.session_or_new hq' with ⟨q, hq⟩ | ⟨-, id, rfl, -⟩
      · obtain ⟨r, hown, hr⟩ := hsteps.session hq
        obtain rfl := Option.some.inj (hq'.symm.trans hr)
        exact hown.id_eq.trans (h.id_eq hq)
      · exact absurd rfl (hl id)

theorem numbered_init : Numbered init := ⟨rfl, fun hs ↦ (nomatch hs)⟩

theorem numbered_of_exec (hrun : exec step init ls = some σ) : Numbered σ :=
  exec_invariant numbered_step numbered_init hrun

/-- Two ids are the same if the counter has gone round between them. -/
theorem ofNat_succ_eq_iff {t n : Nat} (h : t ≤ n) :
    UInt32.ofNat (t + 1) = UInt32.ofNat (n + 1) ↔ 2 ^ 32 ∣ n - t := by
  rw [← UInt32.toNat_inj, UInt32.toNat_ofNat', UInt32.toNat_ofNat']
  omega

/-- The next session gets the id of one that came a multiple of `2 ^ 32` sessions before, and
of no other. -/
theorem Numbered.id_eq_next_iff (h : Numbered σ) {t : Nat} {q : Session}
    (hq : σ.hub.session t = some q) : q.id = σ.id + 1 ↔ 2 ^ 32 ∣ σ.hub.sessions.length - t := by
  rw [h.id_eq hq, h.next]
  exact ofNat_succ_eq_iff (Nat.le_of_lt (Hub.lt_of_session hq))

/-! ## When sessions are apart -/

/-- A connection is not accepted a multiple of `2 ^ 32` connections after one whose session is
still there. -/
def Spaced (σ : Acceptor) (e : Event) : Prop :=
  e = .accept → ∀ t q, σ.hub.session t = some q → q.activity ≠ .gone →
    ¬2 ^ 32 ∣ σ.hub.sessions.length - t

/-- Sessions that are there have different ids, and no step of one session removes or replaces
the registration of another. -/
def Isolated (σ : Acceptor) : Prop :=
  σ.hub.DistinctIds ∧ ∀ l σ', step σ (.act l) = some σ' → σ.hub.Respects l σ'.hub

theorem registered_step (h : σ.hub.Registered ∧ Numbered σ) (hspaced : Spaced σ e)
    (hstep : step σ e = some σ') : σ'.hub.Registered ∧ Numbered σ' := by
  obtain ⟨hreg, hnumbered⟩ := h
  refine ⟨?_, numbered_step hnumbered hstep⟩
  rcases step_cases hstep with ⟨rfl, rfl⟩ | ⟨l, rfl, hl, hhub, -⟩
  · refine hreg.connect ?_
    rintro id hid s p hs hp
    cases hid
    exact mt (hnumbered.id_eq_next_iff hs).1 (hspaced rfl s p hs hp)
  · exact hreg.step (fun id hid ↦ absurd hid (hl id)) hhub

theorem isolated_of_registered (h : σ.hub.Registered) : Isolated σ := by
  refine ⟨fun s t p q hs ht hp hq hid ↦ h.distinct hs ht hp hq hid, fun l σ' hstep ↦ ?_⟩
  rcases step_cases hstep with ⟨hact, -⟩ | ⟨l', hact, -, hhub, -⟩
  · cases hact
  · cases hact
    exact h.respects hhub

/-- If two sessions that are there never have the same id, no connection came round to one. -/
theorem spaced_of_distinctIds (h : Numbered σ) (hstep : step σ e = some σ')
    (hids : σ'.hub.DistinctIds) : Spaced σ e := by
  rintro rfl t q hq hgone hdvd
  rcases step_cases hstep with ⟨-, rfl⟩ | ⟨l, hact, -⟩
  · have heq := hids t _ q _ (Hub.add_of_some hq _) (Hub.add_new _ _) hgone nofun
      ((h.id_eq_next_iff hq).2 hdvd)
    exact absurd heq (Nat.ne_of_lt (Hub.lt_of_session hq))
  · cases hact

/-- Sessions are apart in every state of a run if and only if the counter never comes round to
the id of one that is still there. -/
theorem isolated_iff (hrun : exec step init ls = some σ) :
    Along step Spaced init ls ↔ ∀ τ, Visited step init ls τ → Isolated τ := by
  have hinit : init.hub.Registered ∧ Numbered init := ⟨.init, numbered_init⟩
  refine along_iff_visited registered_step (fun h ↦ isolated_of_registered h.1) hinit ?_ hrun
  intro xs σ₁ e σ₂ hσ₁ he hisolated
  exact spaced_of_distinctIds (numbered_of_exec hσ₁) he hisolated.1

theorem isolated_iff_pair : ∃ σ, exec step init [.accept, .accept] = some σ ∧ Isolated σ := by
  have hspaced : Along step Spaced init [.accept, .accept] := by
    refine ⟨fun _ t q hq ↦ (nomatch hq), fun σ hσ ↦ ⟨fun _ t q hq _ ↦ ?_, fun _ _ ↦ trivial⟩⟩
    obtain rfl := Option.some.inj hσ
    have hlt : t < 1 := Hub.lt_of_session hq
    obtain rfl := Nat.lt_one_iff.1 hlt
    decide
  have hisolated {σ : Acceptor} (hrun : exec step init _ = some σ) : Isolated σ :=
    (isolated_iff hrun).1 hspaced σ (visited_self hrun)
  exact ⟨_, rfl, hisolated rfl⟩

/-! ## All the way round -/

/-- A session of the hub takes a step. -/
theorem step_act {hub : Hub} {l : Hub.Label} (h : σ.hub.step l = some hub)
    (hl : ∀ id, l ≠ .connect id) : step σ (.act l) = some ⟨hub, σ.id⟩ := by
  cases l with
  | connect id => exact absurd rfl (hl id)
  | _ => exact congrArg (Option.map _) h

/-- A session that has joined nothing goes. -/
theorem exec_depart {hub : Hub} (id : UInt32) {n : Nat} {p : Session}
    (hs : hub.session n = some p) (hp : p.activity = .idle) (hempty : p.subscriptions = ∅) :
    exec step ⟨hub, id⟩ [.act (.stop n), .act (.leave n []), .act (.advance n)] =
      some ⟨((hub.put n { p with activity := .stopped }).put n
        { p with activity := .leaving [] }).put n { p with activity := .gone }, id⟩ := by
  have h₁ := Hub.put_self hs { p with activity := .stopped }
  have h₂ := Hub.put_self h₁ { p with activity := .leaving [] }
  have hstop := Hub.step_of_steps (.stop hs hp)
  have hleave := Hub.step_of_steps (.leave h₁ rfl ⟨List.nodup_nil, hempty.symm⟩)
  have hleft := Hub.step_of_steps (.left h₂ rfl)
  exact exec_cons_eq_some.2 ⟨_, step_act hstop nofun, exec_cons_eq_some.2
    ⟨_, step_act hleave nofun, exec_cons_eq_some.2 ⟨_, step_act hleft nofun, rfl⟩⟩⟩

/-- A client connects and goes, any number of times, and nothing else happens. -/
theorem exec_visits (σ : Acceptor) (n : Nat) :
    ∃ ls σ', exec step σ ls = some σ' ∧ σ'.hub.channels = σ.hub.channels ∧
      σ'.hub.sessions.length = σ.hub.sessions.length + n ∧
      ∀ t < σ.hub.sessions.length, σ'.hub.session t = σ.hub.session t := by
  induction n with
  | zero => exact ⟨[], σ, rfl, rfl, rfl, fun _ _ ↦ rfl⟩
  | succ n ih =>
      obtain ⟨ls, σ₁, hls, hchannels, hlength, hsessions⟩ := ih
      have haccept : step σ₁ .accept = some ⟨σ₁.hub.add (.new (σ₁.id + 1)), σ₁.id + 1⟩ := rfl
      have hnew := Hub.add_new σ₁.hub (.new (σ₁.id + 1))
      have hdepart := exec_depart (σ₁.id + 1) hnew rfl rfl
      refine ⟨_, _, exec_append_eq_some.2 ⟨σ₁, hls, exec_cons_eq_some.2 ⟨_, haccept, hdepart⟩⟩,
        hchannels, ?_, fun t ht ↦ ?_⟩
      · simp only [Hub.length_put, Hub.length_add, hlength]
        rfl
      · have hlt : t < σ₁.hub.sessions.length := by rw [hlength]; exact Nat.lt_add_right n ht
        have hne := Nat.ne_of_lt hlt
        simp only [Hub.put_of_ne hne, Hub.add_of_lt hlt, hsessions t ht]

/-- An idle session starts on a `SUBSCRIBE` and calls the registry. -/
theorem exec_join {hub : Hub} {n : Nat} {p : Session} (hs : hub.session n = some p)
    (hp : p.activity = .idle) (c : Blob) :
    ∃ hub₁ hub₂, hub.step (.begin n (.subscribe [c]) []) = some hub₁ ∧
      hub₁.channels = hub.channels ∧ (∀ t, t ≠ n → hub₁.session t = hub.session t) ∧
      hub₁.publication? (.advance n) = none ∧ hub₁.step (.advance n) = some hub₂ ∧
      hub₂.channels = hub.channels.subscribe c p.id n := by
  have hjoin := Hub.put_self hs { p with activity := .subscribing [c] [] }
  refine ⟨_, _, Hub.step_of_steps (.begin hs hp nofun), rfl, fun t ht ↦ Hub.put_of_ne ht _, ?_,
    Hub.step_of_steps (.subscribe hjoin rfl), rfl⟩
  exact Hub.publication?_advance hjoin

/-- A session stays while the counter goes all the way round, and then a stranger with its id
joins its channel: the registration is replaced, and the session is still there. -/
theorem registration_replaced :
    ∃ ls σ σ' q, exec step init ls = some σ ∧ σ.hub.session 0 = some q ∧ q.activity = .idle ∧
      σ.hub.channels.sender news q.id = some 0 ∧
      step σ (.act (.advance (2 ^ 32))) = some σ' ∧
      σ'.hub.channels.sender news q.id = some (2 ^ 32) ∧ ¬Isolated σ := by
  obtain ⟨σ₀, q, h₀, hq, hidle, hsender, hlength⟩ :
      ∃ σ₀ q, exec step init [.accept, .act (.begin 0 (.subscribe [news]) []),
          .act (.advance 0), .act (.advance 0)] = some σ₀ ∧ σ₀.hub.session 0 = some q ∧
        q.activity = .idle ∧ σ₀.hub.channels.sender news q.id = some 0 ∧
        σ₀.hub.sessions.length = 1 := ⟨_, _, rfl, rfl, rfl, rfl, rfl⟩
  obtain ⟨visits, τ, hvisits, hchannels, hcount, hsessions⟩ := exec_visits σ₀ (2 ^ 32 - 1)
  have hτ := exec_append_eq_some.2 ⟨σ₀, h₀, hvisits⟩
  have hcount : τ.hub.sessions.length = 2 ^ 32 := by rw [hcount, hlength]; rfl
  have hq : τ.hub.session 0 = some q := (hsessions 0 (by rw [hlength]; exact Nat.one_pos)).trans hq
  -- the counter is at the first session's id again
  have hid : q.id = τ.id + 1 :=
    ((numbered_of_exec hτ).id_eq_next_iff hq).2 ⟨1, by rw [hcount]; rfl⟩
  have hnew := Hub.add_new τ.hub (.new (τ.id + 1))
  rw [hcount] at hnew
  obtain ⟨hub₁, hub₂, hbegin, hkept, hothers, hquiet, hadvance, hreplaced⟩ :=
    exec_join hnew rfl news
  have haccept : step τ .accept = some ⟨τ.hub.add (.new (τ.id + 1)), τ.id + 1⟩ := rfl
  have hrun := exec_append_eq_some.2 ⟨τ, hτ, exec_cons_eq_some.2 ⟨_, haccept,
    exec_cons_eq_some.2 ⟨_, step_act hbegin nofun, exec_nil _⟩⟩⟩
  have hstep : step ⟨hub₁, τ.id + 1⟩ (.act (.advance (2 ^ 32))) = some ⟨hub₂, τ.id + 1⟩ :=
    step_act hadvance nofun
  have hbefore : hub₁.channels.sender news q.id = some 0 := by
    rw [hkept]
    exact (congrArg (Channels.sender · _ _) hchannels).trans hsender
  have hafter : hub₂.channels.sender news q.id = some (2 ^ 32) := by
    rw [hreplaced, Channels.sender_subscribe]
    exact if_pos ⟨rfl, hid⟩
  have hq₁ : hub₁.session 0 = some q := (hothers 0 (by decide)).trans (Hub.add_of_some hq _)
  refine ⟨_, _, _, q, hrun, hq₁, hidle, hbefore, hstep, hafter, fun hisolated ↦ ?_⟩
  have hgone : q.activity ≠ .gone := by rw [hidle]; exact nofun
  have hstays := hisolated.2 _ _ hstep hquiet _ _ 0 q (by decide) hq₁ hgone hbefore
  exact absurd (Option.some.inj (hafter.symm.trans hstays)) (by decide)

end Acceptor

end Steller
