import SqlDialect.NodeKind

/-!
# SqlDialect.Diagnostic

Remarks about output that is not quite what the tree says, because the
dialect has nothing closer.
-/

namespace SqlDialect

/-- What a dialect could not express faithfully. -/
inductive Diagnostic where
  | ilike
  | tryCast
  | tableSample
  /-- An ordering inside a grouped concatenation was dropped. -/
  | groupConcatOrder
  | fetchPercent
  | fetchTies
  /-- A binary literal needs whole bytes. -/
  | oddHexBlob (digits : String)
  | wideHexNumber (digits : String)
  deriving DecidableEq, Repr

namespace Diagnostic

/-- The kind of the node concerned. -/
def node : Diagnostic → NodeKind
  | ilike => .ilike
  | tryCast => .tryCast
  | tableSample => .tableSample
  | groupConcatOrder => .groupConcat
  | fetchPercent | fetchTies => .fetch
  | oddHexBlob _ | wideHexNumber _ => .literal

/-- The wording of a remark. -/
def message : Diagnostic → String
  | ilike => "ILIKE unsupported, rendered as LOWER(..) LIKE"
  | tryCast => "TRY_CAST unsupported, rendered as CAST"
  | tableSample => "TABLESAMPLE unsupported"
  | groupConcatOrder => "SQLite GROUP_CONCAT doesn't support ORDER BY"
  | fetchPercent => "SQLite LIMIT doesn't support PERCENT"
  | fetchTies => "SQLite LIMIT doesn't support WITH TIES"
  | oddHexBlob digits =>
    s!"hex blob '{digits}' has an odd number of digits, padded with a leading 0"
  | wideHexNumber digits => s!"hex integer 0x{digits} doesn't fit in 64 bits"

/-- A remark with the node it is about. -/
def text (g : Diagnostic) : String := s!"{g.node.name}: {g.message}"

end Diagnostic

end SqlDialect
