import SqlDialect.Diagnostic
import SqlDialect.Token

/-!
# SqlDialect.Rendering.Fragment

A part of the output: its pieces and the remarks that came up while making
it.  Putting parts in a row puts both in a row, so the remarks come in the
order of the text unless a printer says otherwise.
-/

namespace SqlDialect

/-- A part of the output and the remarks about it. -/
structure Fragment where
  tokens : List Token := []
  diagnostics : List Diagnostic := []
  deriving DecidableEq

namespace Fragment

instance : Append Fragment where
  append a b := ⟨a.tokens ++ b.tokens, a.diagnostics ++ b.diagnostics⟩

/-- Pieces without remarks. -/
def ofTokens (tokens : List Token) : Fragment := ⟨tokens, []⟩

/-- A remark without text. -/
def remark (g : Diagnostic) : Fragment := ⟨[], [g]⟩

/-- Text written as it is. -/
def raw (text : String) : Fragment := ofTokens [.raw text]

/-- A keyword. -/
def keyword (k : Keyword) : Fragment := ofTokens [.keyword k]

/-- Parts in a row. -/
def concat (fs : List Fragment) : Fragment := fs.foldr (· ++ ·) {}

/-- Parts with a comma and a space between them. -/
def commaSeparated : List Fragment → Fragment
  | [] => {}
  | [f] => f
  | f :: fs => f ++ ofTokens [.comma, .space] ++ commaSeparated fs

/-- A name with arguments in parentheses. -/
def call (name : String) (args : List Fragment) : Fragment :=
  ofTokens [.raw name, .lparen] ++ commaSeparated args ++ ofTokens [.rparen]

/-! ## lemmas -/

@[simp] theorem tokens_append (a b : Fragment) : (a ++ b).tokens = a.tokens ++ b.tokens := rfl

@[simp] theorem diagnostics_append (a b : Fragment) :
    (a ++ b).diagnostics = a.diagnostics ++ b.diagnostics := rfl

theorem append_assoc (a b c : Fragment) : a ++ b ++ c = a ++ (b ++ c) := by
  show Fragment.mk _ _ = Fragment.mk _ _
  simp

end Fragment

end SqlDialect
