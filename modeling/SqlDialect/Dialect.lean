import SqlDialect.CallKind
import SqlDialect.Overrides

/-!
# SqlDialect.Dialect

A dialect is data: which delimiters and words its texts use, what it makes
of a call by which name, how it spells types and keywords, and which kinds of
nodes it prints in a way of its own.  Every table holds exceptions only; what
has none is as in the base dialect.
-/

namespace SqlDialect

/-! ## overrides of the printing of a node -/

/-- Ways of printing one kind of node other than the base form. -/
inductive Renderer where
  /-- `GROUP_CONCAT` with a comma before the separator and without ordering. -/
  | groupConcat
  /-- `DATE` with amount and unit in one string. -/
  | dateAdd
  /-- `MIN` of several arguments, a single one bare. -/
  | least
  /-- `MAX` of several arguments, a single one bare. -/
  | greatest
  /-- A fetch as `LIMIT`. -/
  | fetch
  /-- The start of a transaction with `TRANSACTION` written out. -/
  | transaction
  /-- A query whose offset has a limit in front of it. -/
  | select
  /-- The approximation of whatever kind has one. -/
  | degraded
  /-- `ILIKE` as `LIKE` on the lower case. -/
  | lowerLike
  /-- `TRY_CAST` as `CAST`. -/
  | plainCast
  /-- A sampled table without the sample. -/
  | unsampled
  /-- The wrapped operand alone. -/
  | operandOnly
  /-- `->` between operand and path. -/
  | arrow
  /-- `->>` between operand and path. -/
  | doubleArrow
  deriving DecidableEq, Repr

/-- What a dialect does with one kind of node. -/
inductive Transform where
  /-- Another name for a call-shaped node. -/
  | rename (name : String)
  /-- The closest supported form, with a diagnostic. -/
  | unsupported
  /-- The wrapped operand alone. -/
  | inner
  | custom (renderer : Renderer)
  deriving DecidableEq, Repr

namespace Transform

/-- The name of a transform in errors. -/
def label : Transform → String
  | rename _ => "rename"
  | unsupported => "unsupported"
  | inner => "inner"
  | custom _ => "custom"

/-- Whether a transform can print nodes of a kind. -/
def appliesTo : Transform → NodeKind → Bool
  | rename _, k => k.isCallShaped
  | unsupported, k => k.hasDegradedForm
  | inner, k => k.hasInnerOperand
  | custom _, _ => true

end Transform

/-! ## dialects -/

/-- The delimiters and words of a dialect's texts. -/
structure Lexis where
  /-- Pairs of identifier delimiters, all accepted; the first one is written. -/
  identifiers : List (Char × Char) := [('"', '"')]
  /-- Pairs of delimiters of hexadecimal literals.  One with an empty end is
  an integer that runs to its last digit. -/
  hexStrings : List (String × String) := [("X'", "'"), ("x'", "'")]
  /-- More words for keywords, in upper case. -/
  keywords : Overrides String Keyword := {}

/-- The tables of one dialect. -/
structure Dialect where
  name : String
  lexis : Lexis := {}
  /-- More names for functions, in upper case. -/
  functions : Overrides String Constructor := {}
  types : Overrides TypeKind String := {}
  tokens : Overrides Keyword String := {}
  transforms : Overrides NodeKind Transform := {}

namespace Dialect

variable (d : Dialect)

/-! ## look-ups -/

/-- The keyword that a word stands for, in any case. -/
def keyword? (word : String) : Option Keyword :=
  (d.lexis.keywords.get? (Text.upper word)).or (Keyword.ofSpelling? word)

/-- The constructor that goes by a name, in any case. -/
def function? (name : String) : Option Constructor :=
  (d.functions.get? (Text.upper name)).or
    ((CallKind.ofName? (Text.upper name)).map CallKind.build)

/-- The node of a call by name.  A function without a constructor becomes a
plain call under the name as written. -/
def call (name : String) (args : List Expr) : Except ParseError Expr :=
  match d.function? name with
  | some construct => construct args
  | none => .ok (.function name args)

/-- The functions of the dialect are usual ones, each perhaps under more names. -/
def UsualFunctions : Prop := ∀ name f, d.functions.get? name = some f → ∃ k : CallKind, f = k

/-- How the dialect spells a kind of type, without parameters. -/
def typeSpelling (k : TypeKind) : String := (d.types.get? k).getD k.spelling

/-- How the dialect spells a keyword. -/
def spelling (k : Keyword) : String := (d.tokens.get? k).getD k.spelling

/-- What the dialect does with a kind of node, if it is not the base form. -/
def transform? (k : NodeKind) : Option Transform := d.transforms.get? k

/-- The pair of delimiters that the dialect writes around identifiers. -/
def identifierPair : Char × Char := d.lexis.identifiers.head?.getD ('"', '"')

/-- The first pair of delimiters around a binary string, if there is one. -/
def blobPair? : Option (String × String) := d.lexis.hexStrings.find? fun p => p.2 ≠ ""

/-- The first mark in front of a hexadecimal integer, if there is one. -/
def hexNumberMark? : Option String := (d.lexis.hexStrings.find? fun p => p.2 = "").map (·.1)

/-! ## lemmas -/

variable {d}

/-- A dialect that knows the usual functions only makes the node of one of them
from a call, or refuses it as that function does, or leaves it a plain call. -/
theorem UsualFunctions.call_cases (hd : d.UsualFunctions) (name : String) (args : List Expr) :
    (∃ k : CallKind, d.call name args = k.build args) ∨
      d.call name args = .ok (.function name args) := by
  unfold call
  cases hf : d.function? name with
  | none => exact .inr rfl
  | some f =>
    refine .inl ?_
    rcases Option.or_eq_some_iff.1 hf with hadded | ⟨-, husual⟩
    · obtain ⟨k, rfl⟩ := hd _ f hadded
      exact ⟨k, rfl⟩
    · obtain ⟨k, -, rfl⟩ := Option.map_eq_some_iff.1 husual
      exact ⟨k, rfl⟩

end Dialect

end SqlDialect
