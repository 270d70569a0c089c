/-
The cursor of an audit page: its text is read back as the position it was
written for.
-/
import AuthCore.Audit.Search

namespace AuthCore

open Base64 AuditQueryControl

variable {δ ι : Type}

theorem fromUrlSafe_char (d : Sextet) :
    fromUrlSafe (Alphabet.urlSafe.char d) = Alphabet.standard.char d := by
  revert d
  decide +kernel

theorem ascii_char (d : Sextet) : (Alphabet.urlSafe.char d).val < 128 := by
  revert d
  decide +kernel

theorem a2bBase64_digit (quad : Quad) (pads : Nat) (d : Sextet) (rest : List Char) :
    a2bBase64 quad pads (Alphabet.standard.char d :: rest) =
      match quad with
      | .zero => a2bBase64 (.one d) 0 rest
      | .one left =>
          (a2bBase64 (.two d) 0 rest).map (octet (left.val * 4 + d.val / 16) :: ·)
      | .two left =>
          (a2bBase64 (.three d) 0 rest).map (octet (left.val % 16 * 16 + d.val / 4) :: ·)
      | .three left =>
          (a2bBase64 .zero 0 rest).map (octet (left.val % 4 * 64 + d.val) :: ·) := by
  rw [a2bBase64.eq_def]
  dsimp only
  rw [if_neg (Alphabet.standard.not_padding d), Alphabet.standard.digit_char]
  all_goals rfl

/-- Padding behind two or three digits of a group ends the text. -/
theorem a2bBase64_padding :
    (∀ left pads, a2bBase64 (.two left) pads ['=', '='] = some []) ∧
      ∀ left pads, a2bBase64 (.three left) pads ['='] = some [] := by
  constructor
  · intro left pads
    rw [a2bBase64, if_pos rfl]
    split
    · rfl
    · rw [a2bBase64, if_pos rfl, if_pos (by omega)]
  · intro left pads
    rw [a2bBase64, if_pos rfl, if_pos (by omega)]

theorem missing_add_four (n : Nat) : missing (n + 1 + 1 + 1 + 1) = missing n := by
  unfold missing
  omega

/-- The digits of some bytes with the padding they need are read as those bytes. -/
theorem a2bBase64_sextets (bytes : List UInt8) :
    a2bBase64 .zero 0 ((sextets bytes).map Alphabet.standard.char ++
      List.replicate (missing (sextets bytes).length) '=') = some bytes := by
  fun_induction sextets bytes with
  | case1 => rfl
  | case2 a =>
      change a2bBase64 .zero 0 (_ :: _ :: ['=', '=']) = _
      have hfirst := first_octet a (n := 0) (by omega)
      rw [Nat.add_zero] at hfirst
      rw [a2bBase64_digit, a2bBase64_digit]
      dsimp only
      rw [hfirst, a2bBase64_padding.1]
      rfl
  | case3 a b =>
      change a2bBase64 .zero 0 (_ :: _ :: _ :: ['=']) = _
      have hb := b.toNat_lt
      have hfirst := first_octet a (n := b.toNat / 16) (by omega)
      have hsecond := second_octet a.toNat b (n := 0) (by omega)
      rw [Nat.add_zero] at hsecond
      rw [a2bBase64_digit, a2bBase64_digit]
      dsimp only
      rw [a2bBase64_digit]
      dsimp only
      rw [hfirst, hsecond, a2bBase64_padding.2]
      rfl
  | case4 a b c rest ih =>
      have hb := b.toNat_lt
      have hc := c.toNat_lt
      have hfirst := first_octet a (n := b.toNat / 16) (by omega)
      have hsecond := second_octet a.toNat b (n := c.toNat / 64) (by omega)
      have hthird := third_octet b.toNat c
      simp only [List.map_cons, List.length_cons, List.cons_append]
      rw [missing_add_four, a2bBase64_digit, a2bBase64_digit]
      dsimp only
      rw [a2bBase64_digit]
      dsimp only
      rw [a2bBase64_digit]
      dsimp only
      rw [ih, hfirst, hsecond, hthird]
      rfl

/-- What `urlsafe_b64encode` writes is read back without its padding as well. -/
theorem urlsafeB64decode_sextets (bytes : List UInt8) :
    urlsafeB64decode ((sextets bytes).map Alphabet.urlSafe.char ++
      List.replicate (missing (sextets bytes).length) '=') = some bytes := by
  have hascii : ((sextets bytes).map Alphabet.urlSafe.char ++
      List.replicate (missing (sextets bytes).length) '=').all (·.val < 128) = true := by
    rw [List.all_eq_true]
    intro c hc
    rcases List.mem_append.mp hc with hdigit | hpadding
    · obtain ⟨d, _, rfl⟩ := List.mem_map.mp hdigit
      exact decide_eq_true (ascii_char d)
    · rw [(List.mem_replicate.mp hpadding).2]
      rfl
  have htranslated : ((sextets bytes).map Alphabet.urlSafe.char ++
      List.replicate (missing (sextets bytes).length) '=').map fromUrlSafe =
        (sextets bytes).map Alphabet.standard.char ++
          List.replicate (missing (sextets bytes).length) '=' := by
    rw [List.map_append, List.map_map, List.map_replicate]
    congr 1
    exact List.map_congr_left fun d _ => fromUrlSafe_char d
  unfold urlsafeB64decode
  rw [if_pos hascii, htranslated, a2bBase64_sextets]

theorem ofUtf8_utf8 (text : String) : ofUtf8 (utf8 text) = some text := by
  unfold ofUtf8 utf8 String.fromUTF8?
  rw [Array.toArray_toList, dif_pos text.isValidUTF8]
  rfl

theorem splitBar_append {left right : String} (h : '|' ∉ left.toList) :
    splitBar (left ++ "|" ++ right) = some (left, right) := by
  have htext : (left ++ "|" ++ right).toList = left.toList ++ '|' :: right.toList := by
    simp
  have hnone : ∀ c ∈ left.toList, decide (c ≠ '|') = true := by
    intro c hc
    exact decide_eq_true fun heq => h (heq ▸ hc)
  unfold splitBar
  rw [htext, List.span_eq_takeWhile_dropWhile, List.takeWhile_append_of_pos hnone,
    List.dropWhile_append_of_pos hnone]
  simp

theorem toList_encodeCursor (forms : TextForms δ ι) (time : δ) (id : ι) :
    (encodeCursor forms time id).toList =
      (sextets (utf8 (forms.isoformat time ++ "|" ++ forms.uuidText id))).map
        Alphabet.urlSafe.char := by
  unfold encodeCursor
  rw [String.toList_ofList, Alphabet.stripped_encode]

/-- A cursor is read back as its position. -/
theorem readCursor_encodeCursor (forms : TextForms δ ι) (time : δ) (id : ι) :
    readCursor forms (encodeCursor forms time id) = some (time, id) := by
  have hlength : (encodeCursor forms time id).length =
      (sextets (utf8 (forms.isoformat time ++ "|" ++ forms.uuidText id))).length := by
    rw [← String.length_toList, toList_encodeCursor, List.length_map]
  unfold readCursor
  dsimp only
  rw [hlength, toList_encodeCursor, urlsafeB64decode_sextets]
  simp only [Option.bind_eq_bind, Option.bind_some, ofUtf8_utf8,
    splitBar_append (forms.bar_not_mem time), forms.fromisoformat_isoformat,
    forms.uuid_uuidText, Option.pure_def]

theorem encodeCursor_ne_empty (forms : TextForms δ ι) (time : δ) (id : ι) :
    encodeCursor forms time id ≠ "" := by
  intro heq
  have hread := readCursor_encodeCursor forms time id
  have hnone : readCursor forms "" = none := rfl
  rw [heq, hnone] at hread
  cases hread

end AuthCore
