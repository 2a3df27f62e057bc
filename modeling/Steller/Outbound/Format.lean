import Steller.Outbound.Aof
import Steller.Resp.Language

/-!
# What a log may hold

`append` only ever writes commands in one form and one encoding, but `replay`
reads what it finds with the parser for clients.  So a log is a stream of
requests in any of their forms and encodings, cut off or broken somewhere or
nowhere, and `replay_eq_iff` says for every file what replay makes of it: the
requests are executed up to the point where the file stops being one, and the
way it stops is the result.
-/

namespace Steller

namespace Aof

/-- How the part of a log stops that holds requests, and what `replay` returns for it. -/
inductive Stops (now : Milliseconds) : Bytes → Except AofError Unit → Prop
  /-- The file ends, perhaps inside a frame. -/
  | cut {rest : Bytes} : Frame.parseOne rest = .error .incomplete → Stops now rest (.ok ())
  | malformed {rest : Bytes} {e : FrameError} : Frame.parseOne rest = .error e →
      e ≠ .incomplete → Stops now rest (.error (.frame e))
  /-- There is a frame, but it is no request. -/
  | strange {rest after : Bytes} {frame : Frame} {e : CommandFromFrameError} :
      Frame.parseOne rest = .ok (frame, after) → Command.tryFrom (.ok now) frame = .error e →
      Stops now rest (.error (.command e))

/-- What requests mean to a replay, the first of them its `n`th frame. -/
def commandsFrom (times : Nat → Milliseconds) : Nat → List Request → List Command
  | _, [] => []
  | n, request :: requests => request.command (times n) :: commandsFrom times (n + 1) requests

/-- The cache after a replay of requests. -/
def load (times : Nat → Milliseconds) (requests : List Request) (cache : Cache) : Cache :=
  (executeAll (.ticking times) 0 (commandsFrom times 0 requests) cache).2

section Format

variable {times : Nat → Milliseconds} {fuel n : Nat} {bytes rest : Bytes} {cache : Cache}
  {requests : List Request} {result : Except AofError Unit}

/-- What does not begin with a request ends the replay. -/
theorem replayFuel_of_stops (h : Stops (times n) rest result) :
    replayFuel (.ticking times) (fuel + 1) n rest cache = (result, cache) := by
  rw [replayFuel]
  cases h with
  | cut hparse => rw [hparse]
  | @malformed e hparse he =>
      rw [hparse]
      cases e with
      | incomplete => exact absurd rfl he
      | _ => rfl
  | strange hparse hlift =>
      rw [hparse]
      simp only [show (Clock.ticking times n).parse = .ok (times n) from rfl, hlift]

/-- Requests are executed one after another; the induction is over them. -/
theorem replayFuel_of_spells (hspells : Spells requests bytes)
    (hstops : Stops (times (n + requests.length)) rest result)
    (hfuel : (bytes ++ rest).length < fuel) :
    replayFuel (.ticking times) fuel n (bytes ++ rest) cache =
      (result, (executeAll (.ticking times) n (commandsFrom times n requests) cache).2) := by
  induction hspells generalizing fuel n cache with
  | nil =>
      obtain ⟨fuel, rfl⟩ := Nat.exists_eq_add_one_of_ne_zero (Nat.ne_zero_of_lt hfuel)
      exact replayFuel_of_stops hstops
  | @cons words request requests e bytes hform he _ ih =>
      obtain ⟨fuel, rfl⟩ := Nat.exists_eq_add_one_of_ne_zero (Nat.ne_zero_of_lt hfuel)
      have hparse : Frame.parseOne (e ++ bytes ++ rest) = .ok (.ofWords words, bytes ++ rest) := by
        rw [List.append_assoc]
        exact he.encodes _
      have hlt : (bytes ++ rest).length < fuel :=
        (Frame.stable_parseOne.consumes hparse).trans_le (Nat.le_of_lt_succ hfuel)
      have hcount : n + (request :: requests).length = n + 1 + requests.length := by
        rw [List.length_cons, Nat.add_right_comm, Nat.add_assoc]
      rw [hcount] at hstops
      rw [replayFuel, hparse]
      simp only [show (Clock.ticking times n).parse = .ok (times n) from rfl,
        Command.tryFrom_of_form hform]
      rw [commandsFrom]
      cases hcommand : request.command (times n) with
      | cache cc =>
          obtain ⟨outcome, hexecute⟩ := Cache.execute_eq cache (times n) (times n) cc
          simp only [executeAll, show (Clock.ticking times n).now = .ok (times n) from rfl,
            show (Clock.ticking times n).later = .ok (times n) from rfl, hexecute]
          exact ih hstops hlt
      | channel cc => exact ih hstops hlt
      | ping message => exact ih hstops hlt

/-- Every file is requests up to a point where it stops being so. -/
theorem exists_spells (times : Nat → Milliseconds) (n : Nat) (file : Bytes) :
    ∃ requests bytes rest result, file = bytes ++ rest ∧ Spells requests bytes ∧
      Stops (times (n + requests.length)) rest result := by
  induction hn : file.length using Nat.strong_induction_on generalizing file n with
  | _ len ih =>
      subst hn
      cases hparse : Frame.parseOne file with
      | error e =>
          by_cases he : e = .incomplete
          · exact ⟨[], [], file, _, rfl, .nil, .cut (he ▸ hparse)⟩
          · exact ⟨[], [], file, _, rfl, .nil, .malformed hparse he⟩
      | ok q =>
          obtain ⟨frame, after⟩ := q
          cases hlift : Command.tryFrom (.ok (times n)) frame with
          | error e => exact ⟨[], [], file, _, rfl, .nil, .strange hparse hlift⟩
          | ok command =>
              obtain ⟨words, request, rfl, hform, -⟩ := Command.form_of_tryFrom hlift
              obtain ⟨e, he, rfl⟩ := Frame.parseFuel_sound hparse
              obtain ⟨requests, bytes, rest, result, rfl, hspells, hstops⟩ :=
                ih _ (Frame.stable_parseOne.consumes hparse) (n + 1) after rfl
              refine ⟨request :: requests, e ++ bytes, rest, result, ?_, .cons hform he hspells, ?_⟩
              · exact (List.append_assoc ..).symm
              · rwa [List.length_cons, Nat.add_comm requests.length, ← Nat.add_assoc]

end Format

/-- What `replay` makes of any file, by a clock that works: the requests that the file spells are
executed in order, on top of what was in the cache, up to the point where it stops spelling them.
If it just ends there, within a frame or after one, replay succeeds; a malformed frame or one that
is no request is its error. -/
theorem replay_eq_iff (times : Nat → Milliseconds) (file : Bytes) (cache cache' : Cache)
    (result : Except AofError Unit) :
    (Aof.open file).replay (.ticking times) cache = (result, cache') ↔
      ∃ requests bytes rest, file = bytes ++ rest ∧ Spells requests bytes ∧
        Stops (times requests.length) rest result ∧ cache' = load times requests cache := by
  have hreplay {requests : List Request} {bytes rest : Bytes} {result : Except AofError Unit}
      (hspells : Spells requests bytes) (hstops : Stops (times requests.length) rest result) :
      (Aof.open (bytes ++ rest)).replay (.ticking times) cache =
        (result, load times requests cache) :=
    replayFuel_of_spells hspells (n := 0) (by rwa [Nat.zero_add]) (Nat.lt_succ_self _)
  constructor
  · intro h
    obtain ⟨requests, bytes, rest, result', rfl, hspells, hstops⟩ := exists_spells times 0 file
    rw [Nat.zero_add] at hstops
    rw [hreplay hspells hstops] at h
    cases h
    exact ⟨requests, bytes, rest, rfl, hspells, hstops, rfl⟩
  · rintro ⟨requests, bytes, rest, rfl, hspells, hstops, rfl⟩
    exact hreplay hspells hstops

end Aof

end Steller
