import PageHealth.Text
import PageHealth.Yaml.Plain

namespace PageHealth.Yaml

inductive Piece where
  | close
  | char (c : Char) (length : Nat)
  /-- A space that counts unless it ends the line. -/
  | space (c : Char)
  | join
  | invalid

def numberedChar (digits : Nat) (cs : List Char) : Piece :=
  if cs.length < digits then .invalid
  else
    match hexNumber? (cs.take digits) with
    | some n => if n.isValidChar then .char (Char.ofNat n) (digits + 2) else .invalid
    | none => .invalid

def letterEscape? (c : Char) : Option Char :=
  match c with
  | '0' => some '\x00'
  | 'a' => some '\x07'
  | 'b' => some '\x08'
  | 't' | '\t' => some '\t'
  | 'n' => some '\n'
  | 'v' => some '\x0b'
  | 'f' => some '\x0c'
  | 'r' => some '\r'
  | 'e' => some '\x1b'
  | ' ' => some ' '
  | '"' => some '"'
  | '/' => some '/'
  | '\\' => some '\\'
  | 'N' => some '\u0085'
  | '_' => some '\u00a0'
  | 'L' => some '\u2028'
  | 'P' => some '\u2029'
  | _ => none

def escaped : List Char → Piece
  | [] => .join
  | 'x' :: rest => numberedChar 2 rest
  | 'u' :: rest => numberedChar 4 rest
  | 'U' :: rest => numberedChar 8 rest
  | c :: _ =>
    match letterEscape? c with
    | some meant => .char meant 2
    | none => .invalid

def doublePiece (c : Char) (rest : List Char) : Piece :=
  if c = '"' then .close
  else if c = '\\' then escaped rest
  else if isSpace c then .space c
  else .char c 1

def singlePiece (c : Char) (rest : List Char) : Piece :=
  if c = '\'' then if rest.head? = some '\'' then .char c 2 else .close
  else if isSpace c then .space c
  else .char c 1

def nextLine : Nat → List Line → Option (Nat × Line × List Line)
  | _, [] => none
  | count, line :: below =>
    if line.isBlank then nextLine (count + 1) below else some (count, line, below)

theorem nextLine_length_lt {count : Nat} {lines : List Line} {found : Nat × Line × List Line}
    (h : nextLine count lines = some found) : found.2.2.length < lines.length := by
  fun_induction nextLine count lines with
  | case1 => simp at h
  | case2 count line below blank ih =>
    have := ih h
    simp only [List.length_cons]
    omega
  | case3 =>
    cases h
    simp

/-- The text up to the closing quote. It is handed over in reverse: what was read, and the spaces
read after it. A line break between its parts is read as a space, and each empty line as a line
break; spaces around it do not count. -/
def readPieces (piece : Char → List Char → Piece) (least : Nat) (done spaces : List Char)
    (here : List Char) (below : List Line) : Except Fault (List Char × Rest) :=
  match here with
  | [] =>
    match _found : nextLine 0 below with
    | none => .error .unclosedText
    | some (count, line, below) =>
      if line.indent < least then .error .misplaced
      else readPieces piece least (foldedBreak count ++ done) [] (skipSpaces line.text) below
  | c :: rest =>
    match piece c rest with
    | .close => .ok ((spaces ++ done).reverse, ⟨rest, below⟩)
    | .char meant length =>
      readPieces piece least (meant :: spaces ++ done) [] (rest.drop (length - 1)) below
    | .space c => readPieces piece least done (c :: spaces) rest below
    | .join =>
      match _found : nextLine 0 below with
      | none => .error .unclosedText
      | some (count, line, below) =>
        if line.indent < least then .error .misplaced
        else
          let breaks := List.replicate count '\n'
          readPieces piece least (breaks ++ spaces ++ done) [] (skipSpaces line.text) below
    | .invalid => .error .invalidEscape
  termination_by (below.length, here.length)
  decreasing_by
    · exact Prod.Lex.left _ _ (nextLine_length_lt _found)
    · apply Prod.Lex.right
      simp only [List.length_drop, List.length_cons]
      omega
    · apply Prod.Lex.right
      simp only [List.length_cons, Nat.lt_succ_self]
    · exact Prod.Lex.left _ _ (nextLine_length_lt _found)

def readQuoted (double : Bool) (least : Nat) (rest : Rest) : Except Fault (List Char × Rest) :=
  readPieces (if double then doublePiece else singlePiece) least [] [] rest.here rest.below

end PageHealth.Yaml
