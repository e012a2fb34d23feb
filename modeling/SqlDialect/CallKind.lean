import SqlDialect.Expr
import SqlDialect.ParseError

/-!
# SqlDialect.CallKind

The functions that have a kind of node of their own.  A call of one of them
becomes its node, provided it has the right number of arguments; a JSON
extraction along more than one path stays a plain call under the usual name.
-/

namespace SqlDialect

/-- What makes the node of a call from its arguments, or refuses them. -/
abbrev Constructor := List Expr → Except ParseError Expr

/-- The functions that have a kind of node of their own. -/
inductive CallKind where
  | levenshtein | groupConcat | least | greatest | dateAdd | jsonExtract | jsonExtractScalar
  | jsonbExtract | jsonbExtractScalar | dateStrToDate | timeStrToTime
  deriving DecidableEq, Repr

namespace CallKind

/-- Every function of this sort. -/
def all : List CallKind :=
  [.levenshtein, .groupConcat, .least, .greatest, .dateAdd, .jsonExtract, .jsonExtractScalar,
   .jsonbExtract, .jsonbExtractScalar, .dateStrToDate, .timeStrToTime]

theorem mem_all (k : CallKind) : k ∈ all := by cases k <;> decide

/-- The kind of node that a call becomes. -/
def kind : CallKind → NodeKind
  | levenshtein => .levenshtein
  | groupConcat => .groupConcat
  | least => .least
  | greatest => .greatest
  | dateAdd => .dateAdd
  | jsonExtract => .jsonExtract
  | jsonExtractScalar => .jsonExtractScalar
  | jsonbExtract => .jsonbExtract
  | jsonbExtractScalar => .jsonbExtractScalar
  | dateStrToDate => .dateStrToDate
  | timeStrToTime => .timeStrToTime

/-- The usual name of a function: the name of its kind in upper case. -/
def name (k : CallKind) : String := Text.upper k.kind.name

/-- The function whose calls become nodes of a kind. -/
def ofKind? (kind : NodeKind) : Option CallKind := all.find? fun k => k.kind = kind

/-- The function of a usual name, given in upper case. -/
def ofName? (upperName : String) : Option CallKind := all.find? fun k => k.name = upperName

/-- How many arguments a call takes. -/
def arity : CallKind → Arity
  | levenshtein => ⟨2, none⟩
  | groupConcat => ⟨1, some 2⟩
  | least | greatest => ⟨1, none⟩
  | dateAdd => ⟨2, some 3⟩
  | jsonExtract | jsonExtractScalar | jsonbExtract | jsonbExtractScalar => ⟨2, none⟩
  | dateStrToDate | timeStrToTime => ⟨1, some 1⟩

/-- A unit of time: a bare word or a string. -/
def unit? : Expr → Option String
  | .column none name => some name.name
  | .literal (.string s) => some s
  | _ => none

/-- The node of a call.  A number of arguments that the arity does not admit
is refused. -/
def build : CallKind → List Expr → Except ParseError Expr
  | levenshtein, a :: b :: rest => .ok (.levenshtein (a :: b :: rest))
  | groupConcat, [a] => .ok (.groupConcat a none)
  | groupConcat, [a, separator] => .ok (.groupConcat a (some separator))
  | least, a :: rest => .ok (.least (a :: rest))
  | greatest, a :: rest => .ok (.greatest (a :: rest))
  | dateAdd, [a, amount] => .ok (.dateAdd a amount none)
  | dateAdd, [a, amount, unit] =>
    match unit? unit with
    | some u => .ok (.dateAdd a amount (some u))
    | none => .error (.invalidUnit dateAdd.name)
  | jsonExtract, [a, path] => .ok (.jsonExtract a path)
  | jsonExtractScalar, [a, path] => .ok (.jsonExtractScalar a path)
  | jsonbExtract, [a, path] => .ok (.jsonbExtract a path)
  | jsonbExtractScalar, [a, path] => .ok (.jsonbExtractScalar a path)
  | jsonExtract, a :: b :: rest => .ok (.function jsonExtract.name (a :: b :: rest))
  | jsonExtractScalar, a :: b :: rest => .ok (.function jsonExtractScalar.name (a :: b :: rest))
  | jsonbExtract, a :: b :: rest => .ok (.function jsonbExtract.name (a :: b :: rest))
  | jsonbExtractScalar, a :: b :: rest => .ok (.function jsonbExtractScalar.name (a :: b :: rest))
  | dateStrToDate, [a] => .ok (.dateStrToDate a)
  | timeStrToTime, [a] => .ok (.timeStrToTime a)
  | k, args => .error (.wrongArgumentCount k.name k.arity args.length)

instance : Coe CallKind Constructor := ⟨build⟩

/-! ## lemmas -/

/-- Each usual name is that of one function at most. -/
theorem ofName?_name (k : CallKind) : ofName? k.name = some k := by cases k <;> decide

end CallKind

end SqlDialect
