import SqlDialect.Front
import SqlDialect.Lexeme
import SqlDialect.ParseError

/-!
# SqlDialect.Grammar.Read

Reading the front of a list of lexemes: single lexemes, lists with commas and
operators that group to the left.
-/

namespace SqlDialect.Grammar

/-- A value read, with fewer than `bound` lexemes left. -/
abbrev Read (α : Type) (bound : Nat) : Type := Front Lexeme α bound

/-- Reading either gives a value or a reason why not. -/
abbrev Reading (α : Type) (bound : Nat) : Type := Except ParseError (Read α bound)

/-! ## single lexemes -/

/-- The complaint that something else was expected here. -/
def unexpected (expected : Expected) : List Lexeme → ParseError
  | [] => .unexpectedEnd expected
  | t :: _ => .unexpectedToken t.text expected t.offset

/-- Takes a lexeme of a kind if it comes next, and says whether it did. -/
def accept (kind : LexemeKind) : (ts : List Lexeme) → Read Bool (ts.length + 1)
  | [] => .stay false []
  | t :: ts => if t.kind = kind then (Front.step true t ts).loosen else .stay false (t :: ts)

/-- Takes a lexeme of a kind, which has to come next. -/
def expect (kind : LexemeKind) (expected : Expected) : (ts : List Lexeme) → Reading Unit ts.length
  | [] => .error (.unexpectedEnd expected)
  | t :: ts =>
    if t.kind = kind then .ok (.step () t ts) else .error (unexpected expected (t :: ts))

/-- Takes a keyword if it comes next, and says whether it did. -/
def acceptKeyword (k : Keyword) (ts : List Lexeme) : Read Bool (ts.length + 1) :=
  accept (.keyword k) ts

/-- Takes a keyword, which has to come next. -/
def expectKeyword (k : Keyword) (ts : List Lexeme) : Reading Unit ts.length :=
  expect (.keyword k) (.keyword k) ts

/-- Whether a lexeme of a kind comes next. -/
def comes (kind : LexemeKind) : List Lexeme → Bool
  | [] => false
  | t :: _ => t.kind = kind

/-- Takes bare words as long as they come. -/
def words : (ts : List Lexeme) → Read (List String) (ts.length + 1)
  | [] => .stay [] []
  | t :: ts =>
    if t.kind = .word then ((words ts).map (t.text :: ·)).loosen else .stay [] (t :: ts)

/-! ## repetition -/

/-- One or more items with commas between them: the first one and the
others. -/
def commaList {α : Type} {n : Nat}
    (item : (ts : List Lexeme) → ts.length < n → Reading α ts.length)
    (ts : List Lexeme) (h : ts.length < n) : Reading (α × List α) ts.length := do
  let ⟨first, ts₁, h₁⟩ ← item ts h
  match ts₁, h₁ with
  | [], h₁ => return ⟨(first, []), [], h₁⟩
  | t :: ts₂, h₁ =>
    if t.kind = .comma then
      have := Front.tail_lt h₁
      let ⟨(second, others), ts₃, h₃⟩ ← commaList item ts₂ (by omega)
      return ⟨(first, second :: others), ts₃, by omega⟩
    else return ⟨(first, []), t :: ts₂, h₁⟩
termination_by ts.length

/-- What follows the first operand of operators that group to the left, as
long as an operator comes. -/
def operators {α : Type} {n : Nat}
    (item : (ts : List Lexeme) → ts.length ≤ n → Reading α ts.length)
    (operator? : LexemeKind → Option (α → α → α)) (left : α) (ts : List Lexeme)
    (h : ts.length ≤ n) : Reading α (ts.length + 1) :=
  match ts, h with
  | [], _ => return .stay left []
  | t :: ts, h =>
    match operator? t.kind with
    | none => return .stay left (t :: ts)
    | some combine => do
      let ⟨right, ts₁, h₁⟩ ← item ts (Front.tail_le h)
      let r ← operators item operator? (combine left right) ts₁
        (Front.le_of_lt_of_le h₁ (Front.tail_le h))
      return (r.widen h₁).behind t |>.loosen
termination_by ts.length
decreasing_by simp only [List.length_cons]; omega

/-- Operands with operators between them that group to the left. -/
def leftAssoc {α : Type} {n : Nat}
    (item : (ts : List Lexeme) → ts.length ≤ n → Reading α ts.length)
    (operator? : LexemeKind → Option (α → α → α)) (ts : List Lexeme) (h : ts.length ≤ n) :
    Reading α ts.length := do
  let ⟨first, ts₁, h₁⟩ ← item ts h
  let r ← operators item operator? first ts₁ (Front.le_of_lt_of_le h₁ h)
  return r.widen h₁

end SqlDialect.Grammar
