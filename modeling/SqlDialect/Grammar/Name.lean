import SqlDialect.DataType
import SqlDialect.Decimal.Text
import SqlDialect.Expr
import SqlDialect.Grammar.Read

/-!
# SqlDialect.Grammar.Name

The parts of the grammar that hold no expressions: identifiers, names of
tables, aliases, types and numbers.
-/

namespace SqlDialect.Grammar

/-! ## identifiers -/

/-- The identifier that a lexeme can stand for: a bare word, a delimited one,
or a keyword that is not reserved. -/
def identOf? (t : Lexeme) : Option Ident :=
  match t.kind with
  | .word => some ⟨t.text, false⟩
  | .quotedIdent name => some ⟨name, true⟩
  | .keyword k => if k.isReserved then none else some ⟨t.text, false⟩
  | _ => none

/-- An identifier. -/
def ident (expected : Expected) : (ts : List Lexeme) → Reading Ident ts.length
  | [] => .error (.unexpectedEnd expected)
  | t :: ts =>
    match identOf? t with
    | some i => .ok (.step i t ts)
    | none => .error (unexpected expected (t :: ts))

/-- A table name, perhaps with a schema in front. -/
def tableName (ts : List Lexeme) : Reading (Option Ident × Ident) ts.length := do
  let ⟨first, ts₁, h₁⟩ ← ident .tableName ts
  match ts₁, h₁ with
  | [], h₁ => return ⟨(none, first), [], h₁⟩
  | t :: ts₂, h₁ =>
    if t.kind = .dot then
      let r ← ident .tableName ts₂
      return (r.map (some first, ·)).after (Front.tail_lt h₁)
    else return ⟨(none, first), t :: ts₂, h₁⟩

/-- Whether a lexeme is an alias even without `AS` in front. -/
def isBareAlias (t : Lexeme) : Bool :=
  match t.kind with
  | .word | .quotedIdent _ => true
  | _ => false

/-- An alias, if one comes: any identifier behind `AS`, or a word or delimited
identifier alone. -/
def aliasName? : (ts : List Lexeme) → Reading (Option Ident) (ts.length + 1)
  | [] => .ok (.stay none [])
  | t :: ts => do
    if t.kind = .keyword .AS then
      let r ← ident .aliasName ts
      return ((r.map some).behind t).loosen
    else if isBareAlias t then
      let r ← ident .aliasName (t :: ts)
      return (r.map some).loosen
    else return .stay none (t :: ts)

/-! ## types -/

/-- A parameter of a type, as written. -/
def typeParam : (ts : List Lexeme) → Reading String ts.length
  | [] => .error (.unexpectedEnd .typeParameter)
  | t :: ts =>
    if t.kind = .number then .ok (.step t.text t ts)
    else .error (unexpected .typeParameter (t :: ts))

/-- The parameters of a type in parentheses, as written, if they come. -/
def typeParams? : (ts : List Lexeme) → Reading (Option (List String)) (ts.length + 1)
  | [] => .ok (.stay none [])
  | t :: ts => do
    if t.kind = .lparen then
      let ⟨(first, others), ts₁, h₁⟩ ← commaList (fun ts _ => typeParam ts) ts (Front.lt_succ ts)
      let r ← expect .rparen .closeParen ts₁
      return (((r.map fun _ => some (first :: others)).after h₁).behind t).loosen
    else return .stay none (t :: ts)

/-- A type: bare words, perhaps with parameters. -/
def dataType : (ts : List Lexeme) → Reading DataType ts.length
  | [] => .error (.unexpectedEnd .typeName)
  | t :: ts => do
    if t.kind = .word then
      let ⟨others, ts₁, h₁⟩ := words ts
      let ⟨params?, ts₂, h₂⟩ ← typeParams? ts₁
      let name := " ".intercalate (t.text :: others)
      let spelled := match params? with
        | some params => name ++ "(" ++ ", ".intercalate params ++ ")"
        | none => name
      match DataType.ofText? spelled with
      | some type => return ⟨type, ts₂, Nat.lt_of_lt_of_le h₂ h₁⟩
      | none => throw (.unknownType spelled)
    else throw (unexpected .typeName (t :: ts))

/-! ## numbers -/

/-- The value of a number.  One with a point or an exponent is a
floating-point number, and so is a whole number that does not fit into 64
bits with a sign. -/
def numberOf (t : Lexeme) : Except ParseError Literal :=
  let cs := t.text.toList
  if cs.all Char.isDigit ∧ Text.decimalValue cs < 0x8000000000000000 then
    .ok (.int (Int64.ofNat (Text.decimalValue cs)))
  else match Decimal.Binary64.ofText? t.text with
    | some f => .ok (.float f)
    | none => .error (.invalidNumber t.text t.offset)

end SqlDialect.Grammar
