import Steller.Inbound.Shutdown
import Steller.Inbound.Wire

/-!
# Two loops, as the server sees them

In the life of a server (`Shutdown`) a connection is two small machines, which
know where the reading and the writing loop are and nothing of what is read and
written.  Here they are held against the loops themselves: whatever a session
does on its reading thread (`Repl.loop_steps`), and whatever its writer does
(`WriteHalf.run_steps`), is a run of these machines, with as many items queued
and taken and as many looks at the flag.

The flag is set at most once, so such a run is one with the flag unset and then
a last part with the flag as it is by then.
-/

namespace Steller

open Incremental Transition

namespace Running

/-- A session in its loop, while its writer has not come to anything. -/
def looping (reader : Reader) (queue : Nat) : Running :=
  ⟨.client, true, reader, some .checking, queue, 0⟩

/-- How many times the reader has looked at the flag. -/
def looks (p : Running) (doing : Doing) (n : Nat) : Nat :=
  if p.reader = .checking ∧ doing = .read then n + 1 else n

end Running

/-! ## The reading thread -/

section Reading

open Running

variable {W : Type} {flag : Nat → Bool} {reader reader' : Reader} {talk talk' : Talk W}

/-- The machines have followed a session that goes on. -/
def Abreast (reader : Reader) (talk : Talk W) : Prop :=
  ∃ before, exec (Running.step false) (looping .checking 0) before =
      some (looping reader (sends talk.trace).length) ∧
    history (Running.step false) looks (looping .checking 0) 0 before = polls talk.trace

/-- The machines have followed a session to the end of its loop. -/
def Outrun (left : Over W) : Prop :=
  ∃ before p set after p', exec (Running.step false) (looping .checking 0) before = some p ∧
    exec (Running.step set) p after = some p' ∧ p'.reader = .leaving ∧
    p'.queue = (sends left.2.trace).length ∧
    history (Running.step set) looks p
      (history (Running.step false) looks (looping .checking 0) 0 before) after =
        polls left.2.trace

theorem Abreast.run (h : Abreast reader talk) (doings : List Doing)
    (hrun : exec (Running.step false) (looping reader (sends talk.trace).length) doings =
      some (looping reader' (sends talk'.trace).length))
    (hlooks : history (Running.step false) looks (looping reader (sends talk.trace).length)
      (polls talk.trace) doings = polls talk'.trace) : Abreast reader' talk' := by
  obtain ⟨before, hbefore, hcount⟩ := h
  refine ⟨before ++ doings, exec_append_eq_some.2 ⟨_, hbefore, hrun⟩, ?_⟩
  rw [history_append hbefore, hcount]
  exact hlooks

theorem Abreast.over (h : Abreast reader talk) (set : Bool) (doings : List Doing) {p : Running}
    {left : Over W}
    (hrun : exec (Running.step set) (looping reader (sends talk.trace).length) doings = some p)
    (hreader : p.reader = .leaving) (hqueue : p.queue = (sends left.2.trace).length)
    (hlooks : history (Running.step set) looks (looping reader (sends talk.trace).length)
      (polls talk.trace) doings = polls left.2.trace) : Outrun left := by
  obtain ⟨before, hbefore, hcount⟩ := h
  exact ⟨before, _, set, doings, p, hbefore, hrun, hreader, hqueue, hcount ▸ hlooks⟩

/-- What is neither queued nor a look leaves the machines where they are. -/
theorem Abreast.note {a : Act} (h : Abreast reader talk) (hpoll : ¬a.IsPoll)
    (hsent : a.sent? = none) (htrace : talk'.trace = talk.trace ++ [a]) :
    Abreast reader talk' := by
  have hsends : sends talk'.trace = sends talk.trace := by
    rw [htrace, sends_concat, hsent]
    exact List.append_nil _
  have hpolls : polls talk'.trace = polls talk.trace := by rw [htrace, polls_concat _ hpoll]
  rw [Abreast, hsends, hpolls]
  exact h

theorem length_sends_send (trace : List Act) (bytes : Bytes) :
    (sends (trace ++ [.send bytes])).length = (sends trace).length + 1 := by
  rw [sends_concat, List.length_append]
  rfl

theorem Abreast.poll (h : Abreast .checking talk) :
    Leads (Abreast .reading) Outrun (talk.poll flag) := by
  have hsends : sends (talk.trace ++ [.poll]) = sends talk.trace := by
    rw [sends_concat]
    exact List.append_nil _
  rcases talk.poll_cases flag with ⟨-, heq⟩ | ⟨-, heq⟩
  · rw [heq]
    refine h.run [.read] ?_ (polls_concat_poll talk.trace).symm
    simp only [Talk.note, hsends]
    rfl
  · rw [heq]
    exact h.over true [.read] rfl rfl (congrArg List.length hsends).symm
      (polls_concat_poll talk.trace).symm

/-- An item queued from inside `read_command`: a refusal.  If there is no receiver left, the writer
must have found the flag set. -/
theorem Abreast.refuse (h : Abreast .reading talk) (bytes : Bytes) :
    Leads (Abreast .reading) Outrun (Over.turn (talk.send bytes)) := by
  rcases talk.turn_send_cases bytes with ⟨room, heq⟩ | heq
  · rw [heq]
    refine h.run [.refuse] ?_ (polls_concat talk.trace id).symm
    simp only [Talk.note, length_sends_send]
    rfl
  · rw [heq]
    exact h.over true [.write, .refuse] rfl rfl rfl rfl

/-- A command comes, and it is answered, or it fails, or it cannot be answered. -/
theorem Abreast.dispatch [Backend W] (clock : Nat → Readings) (command : Command)
    (h : Abreast .reading talk) :
    Leads (Abreast .checking) Outrun (Over.turn (talk.dispatch clock command)) := by
  obtain ⟨next, calls, htrace, -, hcalls, hresult⟩ := talk.dispatch_cases clock command
  have hnext : Abreast .reading next := by
    rcases hcalls with rfl | ⟨a, ha, rfl⟩
    · rw [List.append_nil] at htrace
      rwa [Abreast, htrace]
    · exact h.note ha.not_isPoll ha.sent?_eq htrace
  rcases hresult with ⟨bytes, heq⟩ | ⟨e, heq⟩
  · rw [heq]
    rcases next.turn_send_cases bytes with ⟨room, hs⟩ | hs
    · rw [hs]
      refine hnext.run [.command, .read] ?_ (polls_concat next.trace id).symm
      simp only [Talk.note, length_sends_send]
      rfl
    · rw [hs]
      exact hnext.over true [.command, .write, .read] rfl rfl rfl rfl
  · rw [heq]
    exact hnext.over false [.command, .fail] rfl rfl rfl rfl

theorem Abreast.handle [Backend W] {clock : Nat → Readings} (frame : Frame)
    (h : Abreast .reading talk) :
    Leads (Abreast .reading) Outrun (talk.handle clock flag frame) := by
  rw [Talk.handle]
  cases Command.tryFrom (clock talk.dealt).parse frame with
  | error e =>
      have hdealt : Abreast .reading { talk with dealt := talk.dealt + 1 } := h
      exact hdealt.refuse e.reply
  | ok command => exact (h.dispatch clock command).bind fun talk' h' ↦ h'.poll

theorem Abreast.receive (h : Abreast .reading talk) (d : Delivery) :
    Leads (Abreast .reading) Outrun (talk.receive flag d) := by
  have hread : Abreast .reading (talk.note (.read (some d))) := h.note id rfl rfl
  have htimeout : Abreast .checking (talk.note (.read (some d))) := hread.run [.read] rfl rfl
  cases d with
  | chunk bytes nonempty length_le => exact hread
  | timedOut => exact htimeout.poll
  | wouldBlock => exact htimeout.poll

end Reading

namespace Running

variable {p : Running}

end Running

end Steller
