import PageHealth.Json.Basic
import PageHealth.Text

namespace PageHealth.Json

/-- A text, a word (a number, `true`, `false` or `null`), or a single character of any other kind.
A token that is cut short or malformed carries its fault and is the last one. -/
inductive Token where
  | text (content : Except Fault String)
  | word (value : Value)
  | mark (c : Char)

def isSpace (c : Char) : Bool := c = ' ' || c = '\t' || c = '\n' || c = '\r'

def utf8Length (cs : List Char) : Nat := cs.foldl (fun n c => n + c.utf8Size) 0

/-- The 16-bit unit written with four hexadecimal digits. A text that ends before four bytes were
seen is incomplete rather than malformed. -/
def hexUnit (cs : List Char) : Except Fault Nat :=
  match cs.take 4 |>.mapM hexDigit? with
  | some [a, b, c, d] => .ok (((a * 16 + b) * 16 + c) * 16 + d)
  | _ =>
    if utf8Length (cs.take 4) < 4 then .error .endInText
    else .error .invalidEscape

/-- The character after `\u` and how many characters spell it. Characters beyond 16 bits are spelt as
a pair of surrogates. -/
def unicodeEscape (cs : List Char) : Except Fault (Char × Nat) := do
  let unit ← hexUnit cs
  if 0xDC00 ≤ unit ∧ unit ≤ 0xDFFF then throw .loneSurrogate
  if unit < 0xD800 ∨ 0xDBFF < unit then return (Char.ofNat unit, 4)
  match cs.drop 4 with
  | [] => throw .endInText
  | ['\\'] => throw .endInText
  | '\\' :: 'u' :: rest =>
    let low ← hexUnit rest
    if low < 0xDC00 ∨ 0xDFFF < low then throw .loneSurrogate
    return (Char.ofNat (0x10000 + (unit - 0xD800) * 0x400 + (low - 0xDC00)), 10)
  | _ => throw .unpairedSurrogate

def letterEscape? : Char → Option Char
  | '"' => some '"'
  | '\\' => some '\\'
  | '/' => some '/'
  | 'b' => some '\x08'
  | 'f' => some '\x0c'
  | 'n' => some '\n'
  | 'r' => some '\r'
  | 't' => some '\t'
  | _ => none

def escape : List Char → Except Fault (Char × Nat)
  | [] => .error .endInText
  | 'u' :: rest => (unicodeEscape rest).map fun (c, n) => (c, n + 1)
  | c :: _ =>
    match letterEscape? c with
    | some meant => .ok (meant, 1)
    | none => .error .invalidEscape

/-- The text up to the closing quote, after what was already read of it in reverse, and the rest. -/
def readText (done : List Char) : List Char → Except Fault (List Char × List Char)
  | [] => .error .endInText
  | '"' :: rest => .ok (done.reverse, rest)
  | '\\' :: rest =>
    match escape rest with
    | .error fault => .error fault
    | .ok (c, n) => readText (c :: done) (rest.drop n)
  | c :: rest => if c < ' ' then .error .controlCharacter else readText (c :: done) rest
  termination_by cs => cs.length
  decreasing_by
    · simp only [List.length_drop, List.length_cons]
      omega
    · simp only [List.length_cons, Nat.lt_succ_self]

def someDigits (cs : List Char) : Except Fault (List Char × List Char) :=
  match takeDigits cs with
  | ([], []) => .error .endInValue
  | ([], _) => .error .invalidNumber
  | run => .ok run

def wholeDigits : List Char → Except Fault (List Char × List Char)
  | '0' :: c :: rest => if isDigit c then .error .invalidNumber else .ok (['0'], c :: rest)
  | cs => someDigits cs

def fractionDigits : List Char → Except Fault (Option (List Char) × List Char)
  | '.' :: rest => (someDigits rest).map fun run => (some run.1, run.2)
  | cs => .ok (none, cs)

def exponentPart : List Char → Except Fault (Option Int × List Char)
  | [] => .ok (none, [])
  | c :: rest =>
    if c = 'e' ∨ c = 'E' then
      match rest with
      | '-' :: rest => (someDigits rest).map fun run => (some (-(digitsValue run.1 : Int)), run.2)
      | '+' :: rest => (someDigits rest).map fun run => (some (digitsValue run.1 : Int), run.2)
      | rest => (someDigits rest).map fun run => (some (digitsValue run.1 : Int), run.2)
    else .ok (none, c :: rest)

/-- Whole numbers that fit 64 bits stay exact; minus zero is a double. -/
def wholeNumber? (negative : Bool) (n : Nat) : Option Number :=
  if negative then
    if 0 < n ∧ n ≤ 9223372036854775808 then some (.integer (-(n : Int))) else none
  else if n < 18446744073709551616 then some (.integer n) else none

/-- The number that a numeral spells, rounded to the nearest double. This is an assumption: it makes the
shortest digits of a finite double read back to it, where a reader that multiplies by a rounded power of
ten can be off in the last place of sixteen or more digits. -/
def numberOf (negative : Bool) (whole : List Char) (fraction : Option (List Char))
    (exponent : Option Int) : Except Fault Number :=
  let plain := if fraction.isNone ∧ exponent.isNone then wholeNumber? negative (digitsValue whole)
    else none
  match plain with
  | some number => .ok number
  | none =>
    let digits := whole ++ fraction.getD []
    let decimal : Decimal := ⟨digitsValue digits, exponent.getD 0 - (fraction.getD []).length⟩
    if decimal.rank = infiniteRank then .error .numberOutOfRange
    else .ok (.double (decimal.toBinary64 negative))

def readNumber (negative : Bool) (cs : List Char) : Except Fault (Number × List Char) := do
  let (whole, rest) ← wholeDigits cs
  let (fraction, rest) ← fractionDigits rest
  let (exponent, rest) ← exponentPart rest
  let number ← numberOf negative whole fraction exponent
  return (number, rest)

def readLetters : List Char → List Char → Except Fault (List Char)
  | [], cs => .ok cs
  | _ :: _, [] => .error .endInValue
  | letter :: letters, c :: cs => if c = letter then readLetters letters cs else .error .expectedWord

def readWord (value : Value) (letters cs : List Char) : Token × List Char :=
  match readLetters letters cs with
  | .ok rest => (.word value, rest)
  | .error fault => (.word (.broken fault), [])

def numberToken (negative : Bool) (cs : List Char) : Token × List Char :=
  match readNumber negative cs with
  | .ok (number, rest) => (.word (.number number), rest)
  | .error fault => (.word (.broken fault), [])

def readToken (c : Char) (rest : List Char) : Token × List Char :=
  if c = '"' then
    match readText [] rest with
    | .ok (content, rest) => (.text (.ok (String.ofList content)), rest)
    | .error fault => (.text (.error fault), [])
  else if c = '-' then numberToken true rest
  else if isDigit c then numberToken false (c :: rest)
  else if c = 'n' then readWord .null ['u', 'l', 'l'] rest
  else if c = 't' then readWord (.bool true) ['r', 'u', 'e'] rest
  else if c = 'f' then readWord (.bool false) ['a', 'l', 's', 'e'] rest
  else (.mark c, rest)

theorem readText_length_le {done cs content rest : List Char}
    (h : readText done cs = .ok (content, rest)) : rest.length ≤ cs.length := by
  fun_induction readText done cs with
  | case1 => simp at h
  | case2 done tail => simp_all
  | case3 done tail fault he => simp at h
  | case4 done tail c n he ih =>
    have := ih h
    simp at this ⊢
    omega
  | case5 => simp at h
  | case6 done c tail _ _ _ ih =>
    have := ih h
    simp
    omega

theorem takeDigits_length (cs : List Char) :
    (takeDigits cs).1.length + (takeDigits cs).2.length = cs.length := by
  rw [takeDigits, ← List.length_append, List.takeWhile_append_dropWhile]

theorem someDigits_length_lt {cs digits rest : List Char}
    (h : someDigits cs = .ok (digits, rest)) : rest.length < cs.length := by
  have total := takeDigits_length cs
  unfold someDigits at h
  split at h
  · simp at h
  · simp at h
  · rename_i nonempty _
    rw [Except.ok.injEq] at h
    rw [h] at total nonempty
    cases digits with
    | nil => simp_all
    | cons d ds => simp at total; omega

theorem wholeDigits_length_lt {cs digits rest : List Char}
    (h : wholeDigits cs = .ok (digits, rest)) : rest.length < cs.length := by
  unfold wholeDigits at h
  split at h
  · split at h
    · simp at h
    · simp only [Except.ok.injEq, Prod.mk.injEq] at h
      simp [← h.2]
  · exact someDigits_length_lt h

theorem fractionDigits_length_le {cs rest : List Char} {digits : Option (List Char)}
    (h : fractionDigits cs = .ok (digits, rest)) : rest.length ≤ cs.length := by
  unfold fractionDigits at h
  split at h
  · rename_i tail
    cases hd : someDigits tail with
    | error fault => simp [hd, Except.map] at h
    | ok run =>
      have := @someDigits_length_lt _ run.1 run.2 hd
      simp only [hd, Except.map, Except.ok.injEq, Prod.mk.injEq] at h
      simp only [← h.2, List.length_cons]
      omega
  · simp_all

theorem exponentPart_length_le {cs rest : List Char} {exponent : Option Int}
    (h : exponentPart cs = .ok (exponent, rest)) : rest.length ≤ cs.length := by
  have step {tail : List Char} {f : List Char × List Char → Option Int}
      (h : (someDigits tail).map (fun run => (f run, run.2)) = .ok (exponent, rest)) :
      rest.length ≤ tail.length := by
    cases hd : someDigits tail with
    | error fault => simp [hd, Except.map] at h
    | ok run =>
      have := @someDigits_length_lt _ run.1 run.2 hd
      simp only [hd, Except.map, Except.ok.injEq, Prod.mk.injEq] at h
      simp only [← h.2]
      omega
  unfold exponentPart at h
  split at h
  · simp_all
  · split at h
    · split at h
      all_goals
        have := step h
        simp only [List.length_cons]
        omega
    · simp_all

theorem readNumber_length_le {negative : Bool} {cs rest : List Char} {number : Number}
    (h : readNumber negative cs = .ok (number, rest)) : rest.length < cs.length := by
  unfold readNumber at h
  cases hw : wholeDigits cs with
  | error fault => simp [hw, bind, Except.bind] at h
  | ok whole =>
    cases hf : fractionDigits whole.2 with
    | error fault => simp [hw, hf, bind, Except.bind] at h
    | ok fraction =>
      cases he : exponentPart fraction.2 with
      | error fault => simp [hw, hf, he, bind, Except.bind] at h
      | ok exponent =>
        have := @wholeDigits_length_lt _ whole.1 whole.2 hw
        have := @fractionDigits_length_le _ fraction.2 fraction.1 hf
        have := @exponentPart_length_le _ exponent.2 exponent.1 he
        cases hn : numberOf negative whole.1 fraction.1 exponent.1 with
        | error fault => simp [hw, hf, he, hn, bind, Except.bind] at h
        | ok value =>
          simp [hw, hf, he, hn, bind, Except.bind, pure, Except.pure] at h
          rw [← h.2]
          omega

theorem readLetters_length_le {letters cs rest : List Char}
    (h : readLetters letters cs = .ok rest) : rest.length ≤ cs.length := by
  fun_induction readLetters letters cs with
  | case1 => simp_all
  | case2 => simp at h
  | case3 letter letters cs ih =>
    have := ih h
    simp
    omega
  | case4 => simp at h

theorem readToken_length_le (c : Char) (rest : List Char) :
    (readToken c rest).2.length ≤ rest.length := by
  have word (value : Value) (letters : List Char) :
      (readWord value letters rest).2.length ≤ rest.length := by
    unfold readWord
    split
    · exact readLetters_length_le ‹_›
    · simp
  unfold readToken
  split
  · split
    · exact readText_length_le ‹_›
    · simp
  split
  · unfold numberToken
    split
    · have := readNumber_length_le ‹_›
      simp only
      omega
    · simp
  split
  · unfold numberToken
    split
    · have := readNumber_length_le ‹_›
      simp only [List.length_cons] at this
      simp only
      omega
    · simp
  split
  · exact word _ _
  split
  · exact word _ _
  split
  · exact word _ _
  · simp

def tokens : List Char → List Token
  | [] => []
  | c :: rest =>
    if isSpace c then tokens rest
    else
      have := readToken_length_le c rest
      (readToken c rest).1 :: tokens (readToken c rest).2
  termination_by cs => cs.length

end PageHealth.Json
