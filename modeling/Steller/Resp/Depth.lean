import Steller.Resp.Codec

/-!
# How deep the parser calls itself

`parse_array` loops over its elements, but each round of the loop is a call of
`parse_one`, which may find an array again.  An array of many elements therefore
takes no more stack than an array of one, while an array within an array takes
one more pair of calls; the loop does not bound the depth, the input does.

`callDepth` counts the calls of `parse_one` that are on the stack together, with
the control flow of the parser.  `Opens` says of a byte string, in the terms of
the grammar alone, that it begins with so many arrays each opened inside the
last.  `lt_callDepth_iff` identifies the two.
-/

namespace Steller

namespace Frame

open Incremental

/-! ## Counting calls -/

/-- The deepest stack of calls under the loop of `parse_array`, where `depth` is the depth of
one call of `parse_one`.  The loop leaves at the first error. -/
def elementsDepth (depth : Bytes → Nat) : Nat → Bytes → Nat
  | 0, _ => 0
  | n + 1, bytes => max (depth bytes) (match parseOne bytes with
      | .error _ => 0
      | .ok (_, rest) => elementsDepth depth n rest)

/-- The deepest stack of calls under `parse_one`, nested at most `fuel` deep. -/
def callDepthFuel : Nat → Bytes → Nat
  | 0, _ => 0
  | fuel + 1, bytes => match parseHeader bytes with
    | .error _ => 1
    | .ok (sigil, len, bytes) =>
        if sigil = 42 then elementsDepth (callDepthFuel fuel) len.toNat bytes + 1 else 1

/-- How many calls of `parse_one` are on the stack at the deepest point of
`parse_one(bytes)`, itself included. -/
def callDepth (bytes : Bytes) : Nat := callDepthFuel (bytes.length + 1) bytes

theorem elementsDepth_succ_of_ok {depth : Bytes → Nat} {bytes rest : Bytes} {f : Frame}
    (h : parseOne bytes = .ok (f, rest)) (n : Nat) :
    elementsDepth depth (n + 1) bytes = max (depth bytes) (elementsDepth depth n rest) := by
  rw [elementsDepth, h]

theorem elementsDepth_succ_of_error {depth : Bytes → Nat} {bytes : Bytes} {e : FrameError}
    (h : parseOne bytes = .error e) (n : Nat) :
    elementsDepth depth (n + 1) bytes = depth bytes := by
  rw [elementsDepth, h]
  exact Nat.max_zero _

/-- The loop only looks at suffixes of its input. -/
theorem elementsDepth_congr {d d' : Bytes → Nat} {N : Nat}
    (h : ∀ s : Bytes, s.length ≤ N → d s = d' s) (n : Nat) {s : Bytes} (hs : s.length ≤ N) :
    elementsDepth d n s = elementsDepth d' n s := by
  induction n generalizing s with
  | zero => rfl
  | succ n ih =>
      cases hp : parseOne s with
      | error e => rw [elementsDepth_succ_of_error hp, elementsDepth_succ_of_error hp, h s hs]
      | ok q =>
          have hlen := (parseFuel_suffix hp).2
          rw [elementsDepth_succ_of_ok hp, elementsDepth_succ_of_ok hp, h s hs, ih (by omega)]

theorem callDepthFuel_eq {n m : Nat} {bytes : Bytes} (hn : bytes.length < n)
    (hm : bytes.length < m) : callDepthFuel n bytes = callDepthFuel m bytes := by
  induction n generalizing m bytes with
  | zero => omega
  | succ n ih =>
      obtain ⟨m, rfl⟩ : ∃ m', m = m' + 1 := ⟨m - 1, by omega⟩
      rw [callDepthFuel, callDepthFuel]
      cases hheader : parseHeader bytes with
      | error e => rfl
      | ok q =>
          obtain ⟨sigil, len, body⟩ := q
          have hlen := (parseHeader_suffix hheader).2
          have hagree : ∀ s : Bytes, s.length ≤ body.length →
              callDepthFuel n s = callDepthFuel m s := fun s hs ↦ ih (by omega) (by omega)
          simp only
          rw [elementsDepth_congr hagree _ le_rfl]

/-- The equation without fuel. -/
theorem callDepth_eq (bytes : Bytes) :
    callDepth bytes = match parseHeader bytes with
      | .error _ => 1
      | .ok (sigil, len, bytes) =>
          if sigil = 42 then elementsDepth callDepth len.toNat bytes + 1 else 1 := by
  rw [callDepth, callDepthFuel]
  cases hheader : parseHeader bytes with
  | error e => rfl
  | ok q =>
      obtain ⟨sigil, len, body⟩ := q
      have hlen := (parseHeader_suffix hheader).2
      have hagree : ∀ s : Bytes, s.length ≤ body.length →
          callDepthFuel bytes.length s = callDepth s := fun s hs ↦
        callDepthFuel_eq (by omega) (by omega)
      simp only
      rw [elementsDepth_congr hagree _ le_rfl]

theorem callDepth_pos (bytes : Bytes) : 0 < callDepth bytes := by
  rw [callDepth_eq]
  split
  · exact Nat.one_pos
  · split
    · exact Nat.succ_pos _
    · exact Nat.one_pos

/-! ## What makes it deep -/

/-- The loop is as deep as the deepest round it comes to, and it comes to a round when all
elements before it are whole. -/
theorem lt_elementsDepth_iff {depth : Bytes → Nat} {D n : Nat} {bytes : Bytes} :
    D < elementsDepth depth n bytes ↔
      ∃ frames rest, frames.length < n ∧ times parseOne frames.length bytes = .ok (frames, rest) ∧
        D < depth rest := by
  induction n generalizing bytes with
  | zero => simp [elementsDepth]
  | succ n ih =>
      cases hp : parseOne bytes with
      | error e =>
          rw [elementsDepth_succ_of_error hp]
          refine ⟨fun h ↦ ⟨[], bytes, Nat.succ_pos n, rfl, h⟩, ?_⟩
          rintro ⟨frames, rest, -, ht, hlt⟩
          cases frames with
          | nil => cases ht; exact hlt
          | cons f frames => rw [List.length_cons, times_succ_of_error hp] at ht; cases ht
      | ok q =>
          obtain ⟨f, r⟩ := q
          rw [elementsDepth_succ_of_ok hp, lt_max_iff, ih]
          constructor
          · rintro (hlt | ⟨frames, rest, hlen, ht, hlt⟩)
            · exact ⟨[], bytes, Nat.succ_pos n, rfl, hlt⟩
            · refine ⟨f :: frames, rest, Nat.succ_lt_succ hlen, ?_, hlt⟩
              rw [List.length_cons, times_succ_of_ok hp, ht]
              rfl
          · rintro ⟨frames, rest, hlen, ht, hlt⟩
            cases frames with
            | nil => cases ht; exact .inl hlt
            | cons g frames =>
                obtain ⟨_, _, _, hp', ht', heq⟩ := times_succ_eq_ok ht
                rw [hp] at hp'
                cases hp'
                cases heq
                exact .inr ⟨frames, rest, Nat.lt_of_succ_lt_succ hlen, ht', hlt⟩

/-- `bytes` begins with `D` arrays, each opened inside the one before it: a header that
announces more elements than the whole ones that follow it, and after these the next array. -/
def Opens : Nat → Bytes → Prop
  | 0, _ => True
  | D + 1, bytes => ∃ (n : Bytes) (v : Nat) (frames : List Frame) (es : List Bytes) (rest : Bytes),
      IsNumeral n v ∧ frames.length < v ∧ List.Forall₂ IsEncoding frames es ∧
        bytes = 42 :: n ++ cr :: lf :: (es.flatten ++ rest) ∧ Opens D rest

/-- The calls are nested deeper than `D` exactly when the input opens `D` arrays. -/
theorem lt_callDepth_iff {D : Nat} {bytes : Bytes} : D < callDepth bytes ↔ Opens D bytes := by
  induction D generalizing bytes with
  | zero => simp [callDepth_pos, Opens]
  | succ D ih =>
      rw [callDepth_eq]
      constructor
      · intro h
        cases hheader : parseHeader bytes with
        | error e => rw [hheader] at h; simp at h
        | ok q =>
            obtain ⟨sigil, len, body⟩ := q
            obtain ⟨n, hn, rfl⟩ := parseHeader_sound hheader
            rw [hheader] at h
            simp only at h
            split at h
            · next hsigil =>
                obtain ⟨frames, rest, hlen, ht, hlt⟩ :=
                  lt_elementsDepth_iff.1 (Nat.lt_of_succ_lt_succ h)
                obtain ⟨-, es, hes, rfl⟩ := times_sound parseFuel_sound ht
                rw [hsigil]
                exact ⟨n, _, frames, es, rest, hn, hlen, hes, rfl, ih.1 hlt⟩
            · omega
      · rintro ⟨n, v, frames, es, rest, hn, hlen, hes, rfl, hrest⟩
        rw [parseHeader_numeral (by decide) hn]
        simp only [if_true, UInt64.toNat_ofNat_of_lt' hn.lt]
        refine Nat.succ_lt_succ (lt_elementsDepth_iff.2 ⟨frames, rest, hlen, ?_, ih.2 hrest⟩)
        exact Encodes.times (hes.imp fun _ _ he ↦ he.encodes) rest

/-! ## What it shows in the result -/

mutual

/-- How deep the arrays of a frame are nested. -/
def nesting : Frame → Nat
  | .bulkString _ => 0
  | .array frames => nestingList frames + 1

/-- The deepest nesting among the elements of an array. -/
def nestingList : List Frame → Nat
  | [] => 0
  | f :: frames => max (nesting f) (nestingList frames)

end

/-- The loop over whole elements is as deep as they are nested, up to the call that reads a
bulk string. -/
theorem elementsDepth_of_encodings {frames : List Frame} {es : List Bytes}
    (h : List.Forall₂ (fun f e ↦ Encodes parseOne f e ∧
      ∀ rest, nesting f ≤ callDepth (e ++ rest) ∧ callDepth (e ++ rest) ≤ nesting f + 1)
      frames es) (rest : Bytes) :
    nestingList frames ≤ elementsDepth callDepth frames.length (es.flatten ++ rest) ∧
      elementsDepth callDepth frames.length (es.flatten ++ rest) ≤ nestingList frames + 1 := by
  induction h with
  | nil => exact ⟨le_rfl, Nat.zero_le _⟩
  | @cons f e frames es hf _ ih =>
      obtain ⟨hlo, hhi⟩ := hf.2 (es.flatten ++ rest)
      rw [List.flatten_cons, List.append_assoc, List.length_cons,
        elementsDepth_succ_of_ok (hf.1 _), nestingList]
      exact ⟨max_le_max hlo ih.1, by omega⟩

/-- A frame that is returned was read by calls as deep as it is nested. -/
theorem IsEncoding.callDepth {f : Frame} {e : Bytes} (h : IsEncoding f e) (rest : Bytes) :
    nesting f ≤ callDepth (e ++ rest) ∧ callDepth (e ++ rest) ≤ nesting f + 1 := by
  induction h generalizing rest with
  | @bulkString n str hn =>
      have hbytes : (36 :: n ++ cr :: lf :: (str.bytes ++ [cr, lf])) ++ rest =
          36 :: n ++ cr :: lf :: (str.bytes ++ [cr, lf] ++ rest) := by simp
      rw [callDepth_eq, hbytes, parseHeader_numeral (by decide) hn]
      exact ⟨Nat.zero_le _, le_rfl⟩
  | @array n frames es hn hlen helement ih =>
      have hbytes : (42 :: n ++ cr :: lf :: es.flatten) ++ rest =
          42 :: n ++ cr :: lf :: (es.flatten ++ rest) := by simp
      rw [callDepth_eq, hbytes, parseHeader_numeral (by decide) hn]
      simp only [if_true, UInt64.toNat_ofNat_of_lt' hn.lt, nesting]
      obtain ⟨hlo, hhi⟩ := elementsDepth_of_encodings
        (List.forall₂_iff_zip.2 ⟨hlen, fun hp ↦ ⟨(helement hp).encodes, ih hp⟩⟩) rest
      exact ⟨Nat.succ_le_succ hlo, Nat.succ_le_succ hhi⟩

/-- The calls of `parse_one` on an input stay within `D` exactly when the input does not open
`D` arrays one inside the other; and what is returned is nested as deep as the calls were,
give or take the one that read a bulk string. -/
theorem callDepth_le_iff_not_opens (D : Nat) (bytes : Bytes) :
    (callDepth bytes ≤ D ↔ ¬ Opens D bytes) ∧
      ∀ f rest, parseOne bytes = .ok (f, rest) →
        nesting f ≤ callDepth bytes ∧ callDepth bytes ≤ nesting f + 1 := by
  refine ⟨by rw [← not_lt, lt_callDepth_iff], fun f rest h ↦ ?_⟩
  obtain ⟨e, he, rfl⟩ := parseFuel_sound h
  exact he.callDepth rest

/-- `depth` arrays of one element around an empty bulk string. -/
def nested : Nat → Frame
  | 0 => .bulkString .empty
  | depth + 1 => .array [nested depth]

theorem fits_nested (depth : Nat) : (nested depth).Fits := by
  induction depth with
  | zero => exact .bulkString _
  | succ depth ih =>
      refine .array (by rw [List.length_singleton]; decide) fun f hf ↦ ?_
      rw [List.mem_singleton.1 hf]
      exact ih

theorem nesting_nested (depth : Nat) : nesting (nested depth) = depth := by
  induction depth with
  | zero => rfl
  | succ depth ih => rw [nested, nesting, nestingList, ih]; simp [nestingList]

/-- No bound holds for every input: `*1\r\n` sent over and over opens one more array each
time, and a bulk string behind them makes a frame as deep. -/
theorem callDepth_unbounded :
    (¬ ∃ D, ∀ bytes, callDepth bytes ≤ D) ∧
      ¬ ∃ D, ∀ bytes f rest, parseOne bytes = .ok (f, rest) → nesting f ≤ D := by
  refine ⟨fun ⟨D, hD⟩ ↦ ?_, fun ⟨D, hD⟩ ↦ ?_⟩
  · have hdeep := ((isEncoding_encode (fits_nested (D + 1))).callDepth []).1
    rw [nesting_nested] at hdeep
    exact absurd (hD _) (not_le.2 hdeep)
  · have hdeep := hD _ _ _ (encodes_encode (fits_nested (D + 1)) [])
    rw [nesting_nested] at hdeep
    omega

end Frame

end Steller
