import SqlDialect.Toml.Key
import SqlDialect.Toml.Scalar

/-!
# SqlDialect.Toml.Value

Values as they are written: strings, scalars, arrays and tables in braces.
Arrays and tables may stand inside each other only up to a limit, so a value
is read by recursion on the number of brackets that may still be opened.
-/

namespace SqlDialect.Toml

/-- Reading something from the front of a text. -/
abbrev Reader (α : Type) : Type := (cs : List Char) → Option (Front Char α cs.length)

/-! ## entries -/

/-- A key and its value, with an equals sign between them.  What may stand
around the sign is skipped by `skip`. -/
def pair (skip : List Char → List Char) (skip_le : ∀ cs, (skip cs).length ≤ cs.length)
    (value : Reader Item) : Reader ((List String × String) × Item) := fun cs => do
  let k ← dottedKey cs
  let equals ← char? '=' (skip k.rest)
  let v ← value (skip equals.rest)
  return (v.map fun v => (k.value, v)).widen (by
    have h₁ := k.lt
    have h₂ := equals.lt
    have h₃ := skip_le k.rest
    have h₄ := skip_le equals.rest
    omega)

/-- A key and its value on one line. -/
def linePair (value : Reader Item) : Reader ((List String × String) × Item) :=
  pair (List.dropWhile isSpace) (length_dropWhile_le isSpace) value

/-- A key and its value in braces, where the sign may be on a line of its
own. -/
def bracedPair (value : Reader Item) : Reader ((List String × String) × Item) :=
  pair dropBlank length_dropBlank_le value

/-! ## brackets -/

/-- Items up to a closing bracket, with commas between them and perhaps one
behind the last.  Each item adds to what the items before it have come to. -/
def enclosed {α : Type} (close : Char) (item : α → Reader α) (sofar : α) (cs : List Char) :
    Option (Front Char α cs.length) :=
  have h₀ := length_dropBlank_le cs
  match char? close (dropBlank cs) with
  | some r => some ⟨sofar, r.rest, by have := r.lt; omega⟩
  | none => do
    let v ← item sofar (dropBlank cs)
    have h₁ := v.lt
    have h₂ := length_dropBlank_le v.rest
    match char? close (dropBlank v.rest) with
    | some r => return ⟨v.value, r.rest, by have := r.lt; omega⟩
    | none => do
      let comma ← char? ',' (dropBlank v.rest)
      have h₃ := comma.lt
      let r ← enclosed close item v.value comma.rest
      return r.widen (by omega)
termination_by cs.length

/-- One more item of an array. -/
def arrayItem (value : Reader Item) (items : List Item) : Reader (List Item) := fun cs =>
  (value cs).map fun r => r.map fun v => items ++ [v]

/-- One more entry of a table in braces. -/
def tableItem (value : Reader Item) (es : Entries) : Reader Entries := fun cs => do
  let p ← bracedPair value cs
  let es ← es.insert p.value.1.1 p.value.1.2 p.value.2 .braced
  return p.map fun _ => es

/-! ## values -/

/-- A value without delimiters. -/
def scalar : Reader Item := fun cs =>
  let n := scalarLength cs
  if h : 0 < n ∧ n ≤ cs.length then
    (scalar? (cs.take n)).map fun v => ⟨v, cs.drop n, by simp only [List.length_drop]; omega⟩
  else none

/-- A string, behind its quotes. -/
def quoted {n : Nat} (r : Option (Front Char (List Char) n)) : Option (Front Char Item n) :=
  r.map fun r => r.map fun s => .string (String.ofList s)

/-- A value without brackets. -/
def flat : Reader Item
  | '"' :: '"' :: '"' :: cs =>
    (quoted (basicBlock cs)).map fun r => ((r.behind '"').behind '"').behind '"'
  | '\x27' :: '\x27' :: '\x27' :: cs =>
    (quoted (literalBlock cs)).map fun r => ((r.behind '\x27').behind '\x27').behind '\x27'
  | '"' :: cs => (quoted (basic cs)).map fun r => r.behind '"'
  | '\x27' :: cs => (quoted (literal cs)).map fun r => r.behind '\x27'
  | cs => scalar cs

/-- A value in brackets, from the means to read what stands in them. -/
def bracketed (value : Reader Item) : Reader Item
  | '[' :: cs => (enclosed ']' (arrayItem value) [] cs).map fun r => (r.map .array).behind '['
  | '\x7b' :: cs =>
    (enclosed '\x7d' (tableItem value) [] cs).map fun r => (r.map (.table .braced)).behind '\x7b'
  | _ => none

/-- A value in which so many brackets stand inside each other at most. -/
def valueWithin : Nat → Reader Item
  | 0 => flat
  | depth + 1 => fun cs => (flat cs).or (bracketed (valueWithin depth) cs)

/-- A value. -/
def value : Reader Item := valueWithin depthLimit

end SqlDialect.Toml
