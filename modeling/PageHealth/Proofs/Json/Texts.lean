import PageHealth.Json.Token
import PageHealth.Json.Writer

namespace PageHealth.Json

section Characters

variable {done rest : List Char} {c meant : Char}

theorem readText_shown (quote : c ≠ '"') (backslash : c ≠ '\\') (shown : ¬ c < ' ') :
    readText done (c :: rest) = readText (c :: done) rest := by
  rw [readText]
  · rw [if_neg shown]
  · exact quote
  · exact backslash

theorem readText_escape {length : Nat} (read : escape rest = .ok (meant, length)) :
    readText done ('\\' :: rest) = readText (meant :: done) (rest.drop length) := by
  rw [readText, read]

theorem readText_letter {letter : Char} (apart : letter ≠ 'u') (known : letterEscape? letter = some meant) :
    readText done ('\\' :: letter :: rest) = readText (meant :: done) rest := by
  have read : escape (letter :: rest) = .ok (meant, 1) := by
    unfold escape
    split
    · rename_i same
      cases same
    · rename_i same
      exact absurd (List.cons.inj same).1 apart
    · rename_i same
      obtain ⟨rfl, rfl⟩ := List.cons.inj same
      rw [known]
  exact readText_escape read

theorem hexUnit_control {n : Nat} (small : n < 32) (rest : List Char) :
    hexUnit ('0' :: '0' :: lowerHexDigit (n / 16) :: lowerHexDigit (n % 16) :: rest) = .ok n := by
  have digits : ∀ n < 32, ['0', '0', lowerHexDigit (n / 16), lowerHexDigit (n % 16)].mapM hexDigit? =
      some [0, 0, n / 16, n % 16] := by decide +kernel
  have four : ('0' :: '0' :: lowerHexDigit (n / 16) :: lowerHexDigit (n % 16) :: rest).take 4 =
      ['0', '0', lowerHexDigit (n / 16), lowerHexDigit (n % 16)] := rfl
  unfold hexUnit
  rw [four, digits n small]
  simp only [Except.ok.injEq]
  omega

theorem unicodeEscape_of_lt {n : Nat} (unit : hexUnit rest = .ok n) (low : n < 0xD800) :
    unicodeEscape rest = .ok (Char.ofNat n, 4) := by
  have notLow : ¬ (0xDC00 ≤ n ∧ n ≤ 0xDFFF) := by omega
  have notHigh : n < 0xD800 ∨ 0xDBFF < n := .inl low
  unfold unicodeEscape
  simp only [unit, bind, Except.bind, if_neg notLow, if_pos notHigh]
  rfl

theorem readText_control (control : c < ' ') :
    readText done ('\\' :: 'u' :: '0' :: '0' :: lowerHexDigit (c.toNat / 16) ::
        lowerHexDigit (c.toNat % 16) :: rest) = readText (c :: done) rest := by
  have small : c.toNat < 32 := control
  have spelt := unicodeEscape_of_lt (hexUnit_control small rest) (by omega)
  rw [Char.ofNat_toNat] at spelt
  refine @readText_escape done _ c 5 ?_
  change (unicodeEscape _).map _ = _
  rw [spelt]
  rfl

theorem readText_spellChar (done rest : List Char) (c : Char) :
    readText done (spellChar c ++ rest) = readText (c :: done) rest := by
  unfold spellChar
  iterate 7
    split
    · subst c
      exact readText_letter (by decide) rfl
  split
  · exact readText_control ‹_›
  · exact readText_shown ‹_› ‹_› ‹_›

end Characters

theorem readText_spellChars (cs done rest : List Char) :
    readText done (cs.flatMap spellChar ++ '"' :: rest) = .ok (done.reverse ++ cs, rest) := by
  induction cs generalizing done with
  | nil =>
    rw [List.flatMap_nil, List.nil_append, readText, List.append_nil]
  | cons c cs ih =>
    rw [List.flatMap_cons, List.append_assoc, readText_spellChar, ih, List.reverse_cons,
      List.append_assoc, List.singleton_append]

theorem tokens_text (text : String) (rest : List Char) :
    tokens ((writeText text).toList ++ rest) = .text (.ok text) :: tokens rest := by
  have content := readText_spellChars text.toList [] rest
  have written : (writeText text).toList ++ rest =
      '"' :: (text.toList.flatMap spellChar ++ '"' :: rest) := by
    simp [writeText]
  rw [written, tokens, if_neg (by decide)]
  have read : readToken '"' (text.toList.flatMap spellChar ++ '"' :: rest) = (.text (.ok text), rest) := by
    unfold readToken
    rw [if_pos rfl, content]
    simp
  simp only [read]

end PageHealth.Json
