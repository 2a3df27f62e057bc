import Steller.Resp.Frame

/-!
# The grammar of frames

The language the parser is meant to accept, written down without a parser: a
numeral is an optional `+` and some digits, a bulk string is a numeral and that
many bytes, an array is a numeral and that many encodings.  A frame has many
encodings, since a header may be signed or padded with zeros; `Frame.encode` is
only one of them.

`Frame.parseOne_eq_ok_iff` says that `parse_one` accepts exactly this language.
Soundness is an induction on the fuel of the parser, completeness an induction on
the derivation.
-/

namespace Steller

open Incremental

namespace Frame

/-! ## Headers -/

theorem parseLength_eq_ok_iff {src : Bytes} {len : UInt64} :
    parseLength src = .ok len ↔ IsNumeral src len.toNat := by
  unfold parseLength
  refine ⟨fun h ↦ ?_, fun h ↦ ?_⟩
  · split at h
    · cases h
    · split at h
      · cases h
      · next hlen => cases h; exact parseU64_eq_ok_iff.1 hlen
  · rw [h.fromUtf8, parseU64_eq_ok_iff.2 h]

/-- A header line is a byte and a numeral.  The sigil may be anything here, a carriage
return included; only the match that follows looks at it. -/
theorem parseHeader_sound {bytes body : Bytes} {sigil : UInt8} {len : UInt64}
    (h : parseHeader bytes = .ok (sigil, len, body)) :
    ∃ n, IsNumeral n len.toNat ∧ bytes = sigil :: n ++ cr :: lf :: body := by
  unfold parseHeader at h
  split at h
  · cases h
  · next header rest hsplit =>
      have hbytes := splitCrlf_eq hsplit
      split at h
      · cases h
      · next sigil' lenBytes =>
          split at h
          · cases h
          · cases hlen : parseLength lenBytes with
            | error e => rw [hlen] at h; cases h
            | ok len' =>
                rw [hlen] at h
                cases h
                exact ⟨lenBytes, parseLength_eq_ok_iff.1 hlen, hbytes⟩

/-- A sigil, a numeral and a terminator are a header line. -/
theorem parseHeader_numeral {sigil : UInt8} (hs : sigil ≠ cr) {n : Bytes} {v : Nat}
    (hn : IsNumeral n v) (rest : Bytes) :
    parseHeader (sigil :: n ++ cr :: lf :: rest) = .ok (sigil, UInt64.ofNat v, rest) := by
  have hcr : cr ∉ sigil :: n := by
    rw [List.mem_cons, not_or]
    exact ⟨hs.symm, hn.cr_notMem⟩
  have hne : ¬ n.isEmpty = true := by rw [List.isEmpty_iff]; exact hn.ne_nil
  have hlen : parseLength n = .ok (UInt64.ofNat v) := by
    rw [parseLength_eq_ok_iff, UInt64.toNat_ofNat_of_lt' hn.lt]
    exact hn
  rw [parseHeader, splitCrlf_of_notMem hcr]
  simp only
  rw [if_neg hne, hlen]

/-! ## Encodings -/

/-- The byte strings that stand for a frame. -/
inductive IsEncoding : Frame → Bytes → Prop
  | bulkString {n : Bytes} (str : Blob) : IsNumeral n str.bytes.length →
      IsEncoding (.bulkString str) (36 :: n ++ cr :: lf :: (str.bytes ++ [cr, lf]))
  | array {n : Bytes} {frames : List Frame} {es : List Bytes} : IsNumeral n frames.length →
      frames.length = es.length → (∀ {f e}, (f, e) ∈ frames.zip es → IsEncoding f e) →
      IsEncoding (.array frames) (42 :: n ++ cr :: lf :: es.flatten)

theorem IsEncoding.of_forall₂ {n : Bytes} {frames : List Frame} {es : List Bytes}
    (hn : IsNumeral n frames.length) (h : List.Forall₂ IsEncoding frames es) :
    IsEncoding (.array frames) (42 :: n ++ cr :: lf :: es.flatten) :=
  .array hn (List.forall₂_iff_zip.1 h).1 (List.forall₂_iff_zip.1 h).2

theorem parseBulkString_payload (str : Blob) (rest : Bytes) :
    parseBulkString (str.bytes ++ [cr, lf] ++ rest) (UInt64.ofNat str.bytes.length) =
      .ok (.bulkString str, rest) := by
  have hlen : (UInt64.ofNat str.bytes.length).toNat = str.bytes.length :=
    UInt64.toNat_ofNat_of_lt' str.size_lt
  have hdrop : (str.bytes ++ [cr, lf] ++ rest).drop str.bytes.length = [cr, lf] ++ rest := by
    rw [List.append_assoc, List.drop_left]
  have htake : (str.bytes ++ [cr, lf] ++ rest).take str.bytes.length = str.bytes := by
    rw [List.append_assoc, List.take_left]
  unfold parseBulkString
  simp only [hlen, hdrop]
  rw [if_neg (by simp only [List.length_append]; omega), if_neg (by simp), if_pos (by simp)]
  exact congrArg (fun b ↦ Except.ok (Frame.bulkString b, rest)) (Blob.ext htake)

/-- A bulk string is the announced number of bytes, and a terminator. -/
theorem parseBulkString_sound {bytes rest : Bytes} {len : UInt64} {f : Frame}
    (h : parseBulkString bytes len = .ok (f, rest)) :
    ∃ str : Blob, f = .bulkString str ∧ str.bytes.length = len.toNat ∧
      bytes = str.bytes ++ [cr, lf] ++ rest := by
  unfold parseBulkString at h
  split at h
  · cases h
  · next hlen =>
      dsimp only at h
      split at h
      · cases h
      · split at h
        · next hcrlf =>
            cases h
            refine ⟨_, rfl, List.length_take_of_le (not_lt.1 hlen), ?_⟩
            rw [← hcrlf, List.append_assoc, List.take_append_drop, List.take_append_drop]
        · cases h

/-- Every encoding is read back, whatever follows it. -/
theorem IsEncoding.encodes {f : Frame} {e : Bytes} (h : IsEncoding f e) :
    Encodes parseOne f e := by
  induction h with
  | @bulkString n str hn =>
      intro rest
      have hbytes : (36 :: n ++ cr :: lf :: (str.bytes ++ [cr, lf])) ++ rest =
          36 :: n ++ cr :: lf :: (str.bytes ++ [cr, lf] ++ rest) := by simp
      rw [parseOne_eq, hbytes, parseHeader_numeral (by decide) hn]
      exact parseBulkString_payload str rest
  | @array n frames es hn hlen _ ih =>
      intro rest
      have hbytes : (42 :: n ++ cr :: lf :: es.flatten) ++ rest =
          42 :: n ++ cr :: lf :: (es.flatten ++ rest) := by simp
      have helements : Encodes (times parseOne frames.length) frames es.flatten :=
        .times (List.forall₂_iff_zip.2 ⟨hlen, ih⟩)
      rw [parseOne_eq, hbytes, parseHeader_numeral (by decide) hn]
      simp only [if_true]
      rw [parseArray, parseArrayWith, UInt64.toNat_ofNat_of_lt' hn.lt, helements]
      rfl

/-- Whatever the parser takes off the front is an encoding of the frame it returns. -/
theorem parseFuel_sound {fuel : Nat} {bytes rest : Bytes} {f : Frame}
    (h : parseFuel fuel bytes = .ok (f, rest)) : ∃ e, IsEncoding f e ∧ bytes = e ++ rest := by
  induction fuel generalizing bytes rest f with
  | zero => cases h
  | succ fuel ih =>
      rw [parseFuel] at h
      split at h
      · cases h
      · next sigil len body hheader =>
          obtain ⟨n, hn, rfl⟩ := parseHeader_sound hheader
          split at h
          · next hsigil =>
              unfold parseArrayWith at h
              cases ht : times (parseFuel fuel) len.toNat body with
              | error e => rw [ht] at h; cases h
              | ok q =>
                  rw [ht] at h
                  cases h
                  obtain ⟨hlen, es, hes, rfl⟩ := times_sound ih ht
                  refine ⟨_, .of_forall₂ (hlen ▸ hn) hes, ?_⟩
                  rw [hsigil]
                  simp
          · split at h
            · next hsigil =>
                obtain ⟨str, rfl, hlen, rfl⟩ := parseBulkString_sound h
                refine ⟨_, .bulkString str (hlen ▸ hn), ?_⟩
                rw [hsigil]
                simp
            · cases h

/-- `parse_one` accepts exactly the grammar: it returns a frame and a remainder just when
the input is an encoding of that frame followed by that remainder. -/
theorem parseOne_eq_ok_iff (bytes : Bytes) (f : Frame) (rest : Bytes) :
    parseOne bytes = .ok (f, rest) ↔ ∃ e, IsEncoding f e ∧ bytes = e ++ rest := by
  constructor
  · exact parseFuel_sound
  · rintro ⟨e, he, rfl⟩
    exact he.encodes rest

end Frame

end Steller
