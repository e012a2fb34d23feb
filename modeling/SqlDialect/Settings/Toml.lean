import SqlDialect.Settings
import SqlDialect.Toml.Document

/-!
# SqlDialect.Settings.Toml

Settings from TOML text.  A record is a table, whose unknown keys do not
matter as long as the numbers in them have values, or an array with the fields
in order, behind which anything may stand; whatever is missing has its default.
A map is a table with any keys.
-/

namespace SqlDialect

namespace Toml.Item

/-- The entries of a map in ascending order of their keys.  A date counts as a
map with its text under a reserved key. -/
def map? : Item → Option Entries
  | .table _ es => some (es.mergeSort fun a b => decide (a.1 ≤ b.1))
  | .dateTime text => some [("$__toml_private_datetime", .string text)]
  | _ => none

/-- Whether all numbers in a value are in the range of so many bits. -/
def fits (bits : Nat) (v : Item) : Bool := v.numbers.all (·.fits bits)

/-- The entries of a table that are fields of a record.  The others are passed
over, but their numbers have to be in the range of 128 bits. -/
def known? (names : List String) (es : Entries) : Option Entries :=
  if es.all fun (k, v) => names.contains k || v.fits 128 then
    some (es.filter fun (k, _) => names.contains k)
  else none

/-- The fields of a record, whose names are given in order. -/
def record? (names : List String) : Item → Option Entries
  | .array items => some (names.zip items)
  | .tables ts => some (names.zip (ts.map (.table .headed)))
  | v => v.map?.bind (known? names)

def string? : Item → Option String
  | .string s => some s
  | _ => none

def boolean? : Item → Option Bool
  | .boolean b => some b
  | _ => none

/-- A map whose values are all of one type. -/
def mapOf? {α : Type} (value : Item → Option α) (v : Item) : Option (List (String × α)) := do
  (← v.map?).mapM fun (k, v) => do return (k, ← value v)

end Toml.Item

/-- The value of a field, or its default if it is missing. -/
def Toml.Entries.field {α : Type} (es : Toml.Entries) (key : String) (default : α)
    (value : Toml.Item → Option α) : Option α :=
  match es.lookup key with
  | none => some default
  | some v => value v

open Toml

/-- The level of a name, which is in lower case. -/
def UnsupportedLevel.ofName? : String → Option UnsupportedLevel
  | "ignore" => some .ignore
  | "warn" => some .warn
  | "raise" => some .raise
  | _ => none

/-- A level by its name, which may also be the key of an empty value. -/
def UnsupportedLevel.ofItem? : Item → Option UnsupportedLevel
  | .string name => ofName? name
  | .table _ [(name, .table _ [])] => ofName? name
  | .table _ [(name, .array [])] => ofName? name
  | _ => none

/-- How to print. -/
def RenderOptions.ofItem? (v : Item) : Option RenderOptions := do
  let es ← v.record? ["unsupported_level", "identify"]
  let defaults : RenderOptions := {}
  return {
    level := ← es.field "unsupported_level" defaults.level UnsupportedLevel.ofItem?
    identify := ← es.field "identify" defaults.identify Item.boolean? }

/-- A transform by its word, or a new name under its own key.  Numbers beside
that key have to be in the range of 64 bits. -/
def TransformSetting.ofItem? : Item → Option TransformSetting
  | .string word => some (.named word)
  | .table form es => do
    let name ← (← es.lookup "rename").string?
    if (Item.table form es).fits 64 then return .rename name else none
  | _ => none

/-- A configured dialect. -/
def DialectSettings.ofItem? (v : Item) : Option DialectSettings := do
  let es ← v.record? ["base", "types", "tokens", "functions", "transforms"]
  let defaults : DialectSettings := {}
  return {
    base := ← es.field "base" defaults.base Item.string?
    types := ← es.field "types" defaults.types (Item.mapOf? Item.string?)
    tokens := ← es.field "tokens" defaults.tokens (Item.mapOf? Item.string?)
    functions := ← es.field "functions" defaults.functions (Item.mapOf? Item.string?)
    transforms := ← es.field "transforms" defaults.transforms
      (Item.mapOf? TransformSetting.ofItem?) }

namespace Settings

/-- Settings from the entries of a document. -/
def ofEntries? (es : Entries) : Option Settings := do
  let es ← Item.known? ["render", "dialects"] es
  let defaults : Settings := {}
  return {
    render := ← es.field "render" defaults.render RenderOptions.ofItem?
    dialects := ← es.field "dialects" defaults.dialects (Item.mapOf? DialectSettings.ofItem?) }

/-- Settings from TOML text. -/
def ofToml (text : String) : Except SettingsError Settings :=
  match (Entries.ofText? text).bind ofEntries? with
  | some s => .ok s
  | none => .error .malformed

end Settings

end SqlDialect
