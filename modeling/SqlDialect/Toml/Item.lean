import SqlDialect.Toml.Number

/-!
# SqlDialect.Toml.Item

The values of a TOML document, and how a document grows.  A table remembers
how it came about, because that decides whether it may still grow: a table
with a header of its own not by dotted keys, a table made by dotted keys not
by a header, and a table written in braces not at all.
-/

namespace SqlDialect.Toml

/-- How a table came about. -/
inductive TableForm where
  /-- By a header of its own, or as the document itself. -/
  | headed
  /-- As a part of the path of another table's header. -/
  | implied
  /-- As a part of a dotted key. -/
  | dotted
  /-- In braces. -/
  | braced
  deriving DecidableEq, Repr

/-- A value of a document. -/
inductive Item where
  | string (value : String)
  | number (value : Number)
  | boolean (value : Bool)
  /-- A date, a time or both, in normal form. -/
  | dateTime (text : String)
  | array (items : List Item)
  | table (form : TableForm) (entries : List (String × Item))
  /-- An array whose tables have headers of their own. -/
  | tables (tables : List (List (String × Item)))

/-- The keys of a table with their values, in the order written. -/
abbrev Entries : Type := List (String × Item)

mutual

/-- The numbers in a value, however deep. -/
def Item.numbers : Item → List Number
  | .number n => [n]
  | .array items => numbersOfItems items
  | .table _ es => Entries.numbers es
  | .tables ts => numbersOfTables ts
  | _ => []

/-- The numbers in the values of an array. -/
def numbersOfItems : List Item → List Number
  | [] => []
  | v :: vs => v.numbers ++ numbersOfItems vs

/-- The numbers in the values of a table. -/
def Entries.numbers : List (String × Item) → List Number
  | [] => []
  | (_, v) :: es => v.numbers ++ Entries.numbers es

/-- The numbers in the tables of an array. -/
def numbersOfTables : List (List (String × Item)) → List Number
  | [] => []
  | es :: ts => Entries.numbers es ++ numbersOfTables ts

end

namespace Entries

/-- Puts a value in the place of that of a key, or behind all others. -/
def put (key : String) (v : Item) : Entries → Entries
  | [] => [(key, v)]
  | (k, w) :: es => if k = key then (key, v) :: es else (k, w) :: put key v es

/-- Changes the table at the end of a path.  Tables missing on the way are
made in the given form.  The way leads through the last table of an array of
tables, and is barred by braces and by values that are no tables; a dotted
key may not pass a table with a header of its own. -/
def changeAt (made : TableForm) (change : TableForm → Entries → Option Entries) :
    List String → TableForm → Entries → Option Entries
  | [], form, es => change form es
  | key :: path, _, es =>
    match es.lookup key with
    | none => do
      let inner ← changeAt made change path made []
      return es.put key (.table made inner)
    | some (.table form inner) =>
      if form = .braced ∨ (form = .headed ∧ made = .dotted) then none
      else do
        let inner ← changeAt made change path form inner
        return es.put key (.table form inner)
    | some (.tables ts) =>
      match ts.getLast? with
      | none => none
      | some last => do
        let last ← changeAt made change path .headed last
        return es.put key (.tables (ts.dropLast ++ [last]))
    | some _ => none

/-- Adds a value under a dotted key, whose last part is given apart.  A table
made by a header cannot grow by a dotted key, and no key comes twice. -/
def insert (path : List String) (key : String) (v : Item) (form : TableForm) (es : Entries) :
    Option Entries :=
  changeAt .dotted (fun form es =>
    if (form = .dotted) = path.isEmpty ∨ (es.lookup key).isSome then none
    else some (es ++ [(key, v)])) path form es

/-- Opens a table by a header, whose last part is given apart. -/
def openTable (path : List String) (key : String) (es : Entries) : Option Entries :=
  changeAt .implied (fun _ es =>
    match es.lookup key with
    | none => some (es ++ [(key, .table .headed [])])
    | some (.table .implied inner) => some (es.put key (.table .headed inner))
    | some _ => none) path .headed es

/-- Opens one more table of an array by a header. -/
def appendTable (path : List String) (key : String) (es : Entries) : Option Entries :=
  changeAt .implied (fun _ es =>
    match es.lookup key with
    | none => some (es ++ [(key, .tables [[]])])
    | some (.tables ts) => some (es.put key (.tables (ts ++ [[]])))
    | some _ => none) path .headed es

end Entries

end SqlDialect.Toml
