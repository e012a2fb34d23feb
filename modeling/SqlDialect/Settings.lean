import SqlDialect.Dialect.Registry
import SqlDialect.Rendering

/-!
# SqlDialect.Settings

Options and dialects as they are configured.  Nothing here is checked against
the names that exist; that happens when a configured dialect is built.
-/

namespace SqlDialect

/-- What a configured dialect does with a kind of node. -/
inductive TransformSetting where
  /-- One of the words for a transform without arguments. -/
  | named (word : String)
  | rename (name : String)
  deriving DecidableEq, Repr

/-- A configured dialect: what is different from its base.  Every table is in
ascending order of its keys. -/
structure DialectSettings where
  base : String := Builtin.generic.name
  /-- Names of types to their spellings. -/
  types : List (String × String) := []
  /-- Names of keywords to their spellings. -/
  tokens : List (String × String) := []
  /-- Names of functions to names of kinds of nodes. -/
  functions : List (String × String) := []
  /-- Names of kinds of nodes to transforms. -/
  transforms : List (String × TransformSetting) := []
  deriving DecidableEq, Repr

/-- Everything configured.  The dialects are in ascending order of their
names, and no name comes twice. -/
structure Settings where
  render : RenderOptions := {}
  dialects : List (String × DialectSettings) := []
  deriving DecidableEq, Repr

/-- Why settings cannot be used. -/
inductive SettingsError where
  /-- The text is not TOML, or its values are not settings. -/
  | malformed
  | invalidDialect (name : String) (source : DialectError)
  deriving DecidableEq, Repr

/-- The wording of an error. -/
def SettingsError.message : SettingsError → String
  | malformed => "Failed to parse config file"
  | invalidDialect name source => s!"Invalid dialect '{name}': " ++ source.message

end SqlDialect
