import Steller.Resp.Grammar

/-!
# The frame codec is stable and invertible

Two facts about `Frame.parseOne`, from which everything the project says about
streams and logs of frames follows through `Steller.Lib.Incremental`.

* `Frame.stable_parseOne` — the parser is stable in the sense of
  `Incremental.Stable`, with `FrameError.incomplete` as the request for more: a
  frame, once parsed, and a rejection, once reported, do not change when more
  bytes arrive.
* `Frame.parseOne_writeTo` — whatever bytes follow, the parser reads back the
  frame that `write_to` wrote, arrays nested to any depth and payloads full of
  terminators included.
-/

namespace Steller

namespace Frame

open Incremental

/-! ## Stability -/

theorem parseHeader_append {bytes : Bytes} (h : parseHeader bytes ≠ .error .incomplete)
    (t : Bytes) :
    parseHeader (bytes ++ t) = (parseHeader bytes).map fun q ↦ (q.1, q.2.1, q.2.2 ++ t) := by
  unfold parseHeader at h ⊢
  cases hs : splitCrlf bytes with
  | none => rw [hs] at h; exact absurd rfl h
  | some q =>
      obtain ⟨header, body⟩ := q
      rw [splitCrlf_append hs t]
      cases header with
      | nil => rfl
      | cons sigil lenBytes =>
          simp only
          split
          · rfl
          · cases parseLength lenBytes <;> rfl

theorem parseBulkString_append {bytes : Bytes} {len : UInt64}
    (h : parseBulkString bytes len ≠ .error .incomplete) (t : Bytes) :
    parseBulkString (bytes ++ t) len =
      (parseBulkString bytes len).map fun q ↦ (q.1, q.2 ++ t) := by
  unfold parseBulkString at h ⊢
  split at h
  · exact absurd rfl h
  · next hlen =>
      dsimp only at h ⊢
      split at h
      · exact absurd rfl h
      · next hrest =>
          have htwo : 2 ≤ (bytes.drop len.toNat).length := not_lt.1 hrest
          have hdrop : (bytes ++ t).drop len.toNat = bytes.drop len.toNat ++ t :=
            List.drop_append_of_le_length (not_lt.1 hlen)
          have htake : (bytes ++ t).take len.toNat = bytes.take len.toNat :=
            List.take_append_of_le_length (not_lt.1 hlen)
          rw [if_neg hlen, if_neg hrest, if_neg (by rw [List.length_append]; omega), hdrop,
            if_neg (by rw [List.length_append]; omega), List.take_append_of_le_length htwo,
            List.drop_append_of_le_length htwo]
          simp only [htake]
          split <;> rfl

/-- Stability of the parser on inputs up to a given length, by induction on that length:
the elements of an array are parsed from what its header leaves, which is shorter. -/
theorem stableUpTo_parseOne (N : Nat) : StableUpTo .incomplete parseOne N := by
  induction N with
  | zero =>
      refine stableUpTo_of_append (fun hp ↦ (parseFuel_suffix hp).2) fun hs hp t ↦ ?_
      rw [List.eq_nil_of_length_eq_zero (Nat.le_zero.1 hs)] at hp
      exact absurd rfl hp
  | succ N ih =>
      refine stableUpTo_of_append (fun hp ↦ (parseFuel_suffix hp).2) fun {s} hs hp t ↦ ?_
      rw [parseOne_eq] at hp
      rw [parseOne_eq, parseOne_eq]
      cases hheader : parseHeader s with
      | error e =>
          rw [hheader] at hp
          have he : e ≠ .incomplete := mt (congrArg Except.error) hp
          rw [parseHeader_append (by rw [hheader]; exact mt Except.error.inj he), hheader]
          rfl
      | ok q =>
          obtain ⟨sigil, len, body⟩ := q
          have hlen := (parseHeader_suffix hheader).2
          rw [hheader] at hp
          rw [parseHeader_append (by rw [hheader]; rintro ⟨⟩), hheader]
          simp only [Except.map] at hp ⊢
          split at hp
          · next hsigil =>
              have htimes : times parseOne len.toNat body ≠ .error .incomplete :=
                fun ht ↦ hp (by rw [parseArray, parseArrayWith, ht]; rfl)
              rw [if_pos hsigil, if_pos hsigil, parseArray, parseArray, parseArrayWith,
                parseArrayWith, ih.times_append (by omega) htimes]
              cases times parseOne len.toNat body <;> rfl
          · next hsigil =>
              rw [if_neg hsigil, if_neg hsigil]
              split at hp
              · next hbulk => rw [if_pos hbulk, if_pos hbulk]; exact parseBulkString_append hp t
              · next hbulk => rw [if_neg hbulk, if_neg hbulk]

/-- `parse_one` is an incremental parser. -/
theorem stable_parseOne : Stable .incomplete parseOne := ⟨rfl, stableUpTo_parseOne⟩

/-- A frame cut short is neither a frame nor a rejection. -/
theorem parseOne_incomplete_of_cut {bytes t : Bytes} {f : Frame}
    (h : parseOne (bytes ++ t) = .ok (f, [])) (ht : t ≠ []) :
    parseOne bytes = .error .incomplete := by
  have henc : Encodes parseOne f (bytes ++ t) := fun r ↦ stable_parseOne.ok_append h r
  exact henc.short_of_prefix stable_parseOne ht

/-- More input changes neither a frame nor a rejection, and what is left over after a frame
is a strictly shorter suffix; so a proper prefix of a whole frame asks for more. -/
theorem parseOne_append_final (bytes t : Bytes) :
    (∀ f rest, parseOne bytes = .ok (f, rest) → parseOne (bytes ++ t) = .ok (f, rest ++ t) ∧
      rest <:+ bytes ∧ rest.length < bytes.length) ∧
    (∀ e, parseOne bytes = .error e → e ≠ .incomplete → parseOne (bytes ++ t) = .error e) ∧
    (∀ f, parseOne (bytes ++ t) = .ok (f, []) → t ≠ [] →
      parseOne bytes = .error .incomplete) := by
  refine ⟨fun f rest h ↦ ?_, fun e h he ↦ ?_, fun f h ht ↦ ?_⟩
  · obtain ⟨hsuffix, hlen⟩ := parseFuel_suffix h
    exact ⟨stable_parseOne.ok_append h t, hsuffix, hlen⟩
  · exact stable_parseOne.error_append h he t
  · exact parseOne_incomplete_of_cut h ht

/-! ## Round trip -/

/-- Every length in the frame is a `usize`.  A `Vec` cannot be longer, so every frame the
program holds has this property; payloads carry it in their type. -/
inductive Fits : Frame → Prop
  | bulkString (payload : Blob) : Fits (.bulkString payload)
  | array {frames : List Frame} : frames.length < 2 ^ 64 → (∀ f ∈ frames, Fits f) →
      Fits (.array frames)

/-- `write_to` writes one of the encodings, the one without signs and leading zeros. -/
theorem isEncoding_encode {f : Frame} (hf : f.Fits) : IsEncoding f f.encode := by
  induction hf with
  | bulkString str =>
      rw [encode_bulkString]
      exact .bulkString str (isNumeral_decimal str.size_lt)
  | @array frames hlen _ ih =>
      rw [encode_array, List.flatMap_def]
      refine .of_forall₂ (isNumeral_decimal hlen) ?_
      rw [List.forall₂_map_right_iff, List.forall₂_same]
      exact ih

theorem encodes_encode {f : Frame} (hf : f.Fits) : Encodes parseOne f f.encode :=
  (isEncoding_encode hf).encodes

/-- What `write_to` wrote, `parse_one` reads back, leaving whatever followed. -/
theorem parseOne_writeTo (f : Frame) (hf : f.Fits) (rest : Bytes) :
    parseOne ((f.writeTo ([] : Bytes)).2 ++ rest) = .ok (f, rest) := by
  rw [writeTo_bytes]
  exact encodes_encode hf rest

/-- A nested array holding an empty array and a payload made of RESP bytes, followed by the
start of another frame. -/
theorem parseOne_writeTo_nested :
    parseOne (((array [array [], bulkString ⟨ascii "$1\r\n*", by decide⟩]).writeTo
        ([] : Bytes)).2 ++ ascii "*1\r\n") =
      .ok (array [array [], bulkString ⟨ascii "$1\r\n*", by decide⟩], ascii "*1\r\n") := by
  refine parseOne_writeTo _ (.array (by decide) fun f hf ↦ ?_) _
  rcases List.mem_pair.1 hf with rfl | rfl
  · exact .array (by decide) fun g hg ↦ absurd hg List.not_mem_nil
  · exact .bulkString _

end Frame

end Steller
