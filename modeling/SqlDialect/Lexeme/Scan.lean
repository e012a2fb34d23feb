import SqlDialect.Dialect
import SqlDialect.Lexeme
import SqlDialect.Text.Blank
import SqlDialect.Text.Letter
import SqlDialect.Text.Quoted

/-!
# SqlDialect.Lexeme.Scan

Cutting a text into lexemes.  At each place the rules are tried in a fixed
order: blanks and comments, hexadecimal literals, delimited identifiers,
strings, numbers, words, symbols.  A rule says how many characters it takes,
which is never none, so the scan ends; the text of a lexeme is what was
taken, so nothing is lost.
-/

namespace SqlDialect

/-- What a rule takes from the front of a text: so many characters, which are
a lexeme or, without a kind, nothing but a gap. -/
structure Piece where
  kind? : Option LexemeKind
  length : Nat
  length_pos : 0 < length

namespace Piece

/-- A lexeme of one character more than counted. -/
def ofKind (kind : LexemeKind) (more : Nat) : Piece := ⟨some kind, more + 1, Nat.succ_pos _⟩

/-- A gap of one character more than counted. -/
def gap (more : Nat) : Piece := ⟨none, more + 1, Nat.succ_pos _⟩

end Piece

namespace Text

/-- Where a text first occurs in another one. -/
def indexOf? (stop : List Char) : List Char → Option Nat
  | [] => if stop.isEmpty then some 0 else none
  | c :: cs => if stop.isPrefixOf (c :: cs) then some 0 else (indexOf? stop cs).map (· + 1)

/-- The number of bytes that a text takes up. -/
def byteLength (cs : List Char) : Nat := cs.foldr (fun c n => c.utf8Size + n) 0

/-- The number of digits at the front of a text. -/
def digitsLength (cs : List Char) : Nat := (cs.takeWhile Char.isDigit).length

end Text

open Text

/-! ## gaps -/

/-- A comment.  One behind two dashes ends before the end of its line; one
between `/*` and `*/` has to be closed. -/
def comment? (offset : Nat) : List Char → Except ParseError (Option Piece)
  | '-' :: '-' :: rest => .ok (some (.gap (1 + (rest.takeWhile (· ≠ '\n')).length)))
  | '/' :: '*' :: rest =>
    match indexOf? ['*', '/'] rest with
    | some n => .ok (some (.gap (n + 3)))
    | none => .error (.unterminatedComment offset)
  | _ => .ok none

/-- A blank or a comment. -/
def gap? (offset : Nat) (c : Char) (cs : List Char) : Except ParseError (Option Piece) :=
  if isBlank c then .ok (some (.gap 0)) else comment? offset (c :: cs)

/-! ## literals -/

/-- A hexadecimal literal between one of the pairs of marks, tried in order.
An integer needs a digit, or the next pair is tried; a binary string needs
its closing mark, and nothing but digits before it. -/
def hexLiteral? (offset : Nat) (cs : List Char) :
    List (String × String) → Except ParseError (Option Piece)
  | [] => .ok none
  | (start, stop) :: pairs =>
    match start.toList.isPrefixOf? cs with
    | none => hexLiteral? offset cs pairs
    | some body =>
      if hs : stop.toList = [] then
        let digits := body.takeWhile isHexDigit
        if hd : digits = [] then hexLiteral? offset cs pairs
        else .ok (some ⟨some (.hexNumber (String.ofList digits)),
          start.toList.length + digits.length,
          Nat.lt_of_lt_of_le (List.length_pos_iff.2 hd) (Nat.le_add_left _ _)⟩)
      else
        match indexOf? stop.toList body with
        | none => .error (.unterminatedString offset)
        | some n =>
          let digits := body.take n
          if digits.all isHexDigit then
            .ok (some ⟨some (.hexString (String.ofList digits)),
              start.toList.length + n + stop.toList.length,
              Nat.lt_of_lt_of_le (List.length_pos_iff.2 hs) (Nat.le_add_left _ _)⟩)
          else .error (.invalidHexString (String.ofList digits) offset)

/-- How many characters the digits of a number take, with at most one point
among them. -/
def mantissaLength (cs : List Char) : Nat :=
  let whole := digitsLength cs
  match cs.drop whole with
  | '.' :: part => whole + 1 + digitsLength part
  | _ => whole

/-- How many characters announce an exponent: `e` and possibly a sign. -/
def exponentMarkLength : List Char → Nat
  | 'e' :: '+' :: _ | 'e' :: '-' :: _ | 'E' :: '+' :: _ | 'E' :: '-' :: _ => 2
  | 'e' :: _ | 'E' :: _ => 1
  | _ => 0

/-- Whether a number starts here: a digit, or a point in front of one. -/
def startsNumber (c : Char) (cs : List Char) : Bool :=
  c.isDigit || (c == '.' && cs.head?.any Char.isDigit)

theorem mantissaLength_pos {c : Char} {cs : List Char} (h : startsNumber c cs = true) :
    0 < mantissaLength (c :: cs) := by
  unfold mantissaLength
  by_cases hc : c.isDigit = true
  · have : 0 < digitsLength (c :: cs) := by simp [digitsLength, hc]
    dsimp only
    split <;> omega
  · have hdot : c = '.' := by simp_all [startsNumber]
    subst hdot
    have : digitsLength ('.' :: cs) = 0 := by simp [digitsLength]
    rw [this]
    simp only [List.drop_zero]
    omega

/-- A number.  An announced exponent has to have a digit. -/
def number (offset : Nat) (c : Char) (cs : List Char) (h : startsNumber c cs = true) :
    Except ParseError Piece :=
  let m := mantissaLength (c :: cs)
  let mark := exponentMarkLength ((c :: cs).drop m)
  let digits := digitsLength ((c :: cs).drop (m + mark))
  if mark ≠ 0 ∧ digits = 0 then
    .error (.invalidNumber (String.ofList ((c :: cs).take (m + mark))) offset)
  else .ok ⟨some .number, m + mark + digits,
    Nat.lt_of_lt_of_le (mantissaLength_pos h) (by omega)⟩

/-! ## words and symbols -/

/-- A bare word: a keyword of the dialect, or just a word. -/
def word (d : Dialect) (c : Char) (cs : List Char) : Piece :=
  let more := cs.takeWhile continuesWord
  let kind := match d.keyword? (String.ofList (c :: more)) with
    | some k => .keyword k
    | none => .word
  .ofKind kind more.length

/-- A symbol, the longest one that fits. -/
def symbol? : List Char → Option Piece
  | '-' :: '>' :: '>' :: _ => some (.ofKind .doubleArrow 2)
  | '-' :: '>' :: _ => some (.ofKind .arrow 1)
  | '|' :: '|' :: _ => some (.ofKind .concat 1)
  | '<' :: '>' :: _ => some (.ofKind .ne 1)
  | '!' :: '=' :: _ => some (.ofKind .ne 1)
  | '<' :: '=' :: _ => some (.ofKind .lte 1)
  | '>' :: '=' :: _ => some (.ofKind .gte 1)
  | '=' :: '=' :: _ => some (.ofKind .eq 1)
  | '=' :: _ => some (.ofKind .eq 0)
  | '<' :: _ => some (.ofKind .lt 0)
  | '>' :: _ => some (.ofKind .gt 0)
  | ',' :: _ => some (.ofKind .comma 0)
  | '.' :: _ => some (.ofKind .dot 0)
  | '(' :: _ => some (.ofKind .lparen 0)
  | ')' :: _ => some (.ofKind .rparen 0)
  | ';' :: _ => some (.ofKind .semicolon 0)
  | '*' :: _ => some (.ofKind .star 0)
  | '+' :: _ => some (.ofKind .plus 0)
  | '-' :: _ => some (.ofKind .minus 0)
  | '/' :: _ => some (.ofKind .slash 0)
  | '%' :: _ => some (.ofKind .percent 0)
  | _ => none

/-! ## the scan -/

/-- A delimited identifier, a string, a number, a word or a symbol. -/
def plainLexeme (d : Dialect) (offset : Nat) (c : Char) (cs : List Char) :
    Except ParseError Piece :=
  match d.lexis.identifiers.find? fun p => p.1 = c with
  | some (_, closing) =>
    match readQuoted closing cs with
    | some (name, n) => .ok (.ofKind (.quotedIdent (String.ofList name)) n)
    | none => .error (.unterminatedIdentifier offset)
  | none =>
    if c = '\x27' then
      match readQuoted '\x27' cs with
      | some (value, n) => .ok (.ofKind (.string (String.ofList value)) n)
      | none => .error (.unterminatedString offset)
    else if h : startsNumber c cs = true then number offset c cs h
    else if startsWord c then .ok (word d c cs)
    else match symbol? (c :: cs) with
      | some p => .ok p
      | none => .error (.unexpectedChar c offset)

/-- The piece at the front of a text. -/
def frontPiece (d : Dialect) (offset : Nat) (c : Char) (cs : List Char) :
    Except ParseError Piece := do
  match ← gap? offset c cs with
  | some p => return p
  | none =>
    match ← hexLiteral? offset (c :: cs) d.lexis.hexStrings with
    | some p => return p
    | none => plainLexeme d offset c cs

/-- What a piece stands for: a lexeme with its text, or nothing. -/
def Piece.lexemes (p : Piece) (text : List Char) (offset : Nat) : List Lexeme :=
  match p.kind? with
  | some kind => [⟨kind, String.ofList text, offset⟩]
  | none => []

/-- The lexemes of a text that starts at an offset, with the pieces cut off
one after the other. -/
def scanBy (front : Nat → Char → List Char → Except ParseError Piece) (offset : Nat) :
    List Char → Except ParseError (List Lexeme)
  | [] => .ok []
  | c :: cs => do
    let p ← front offset c cs
    let taken := (c :: cs).take p.length
    let others ← scanBy front (offset + byteLength taken) ((c :: cs).drop p.length)
    return p.lexemes taken offset ++ others
termination_by cs => cs.length
decreasing_by
  have := p.length_pos
  simp only [List.length_drop, List.length_cons]
  omega

/-- The lexemes of a text that starts at an offset, as a dialect reads it. -/
def scanFrom (d : Dialect) (offset : Nat) (cs : List Char) : Except ParseError (List Lexeme) :=
  scanBy (frontPiece d) offset cs

/-- The lexemes of a text, as a dialect reads it. -/
def Dialect.scan (d : Dialect) (sql : String) : Except ParseError (List Lexeme) :=
  scanFrom d 0 sql.toList

end SqlDialect
