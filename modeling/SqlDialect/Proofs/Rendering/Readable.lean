import SqlDialect.Proofs.Grammar.Proper
import SqlDialect.Proofs.Rendering.Fixpoint
import SqlDialect.Proofs.Rendering.Types

/-!
# SqlDialect.Proofs.Rendering.Readable

When the text of a node can be read back, and as what.

* `Clear` -- nothing about a node keeps its text from being read: its operands
  are bound as tightly as their slots ask, and its pieces do not fuse.
* `Faithful` -- the text of a node is read as the same node.
* `settled` -- the tree that a faithful text is read as.
* `Shown` -- the text of a tree is an expression of its tier.
-/

namespace SqlDialect

open Text Grammar

variable {b : Builtin} {i : Bool} {e : Expr}

/-! ## hazards -/

/-- Bare words of a dialect, with a space between them. -/
def BareWords (b : Builtin) (text : String) : Prop :=
  ∃ ws, ws ≠ [] ∧ text = " ".intercalate ws ∧
    ∀ w ∈ ws, isWord w = true ∧ b.dialect.keyword? w = none

/-- The pieces of a node keep apart, and its texts are read as what they
were. -/
def Smooth (b : Builtin) : Expr → Prop
  | .literal (.float f) => ∀ m, f = .finite false m → m.ReadsBack
  | .literal (.hexNumber digits) => b = .generic → hexValue digits.toList < 2 ^ 64
  | .unaryOp .minus a => (a.core b).dashed b = false
  | .aliased a _ => a.starred b = false
  | .select q => ∀ p ∈ q.projections, p.core b = .star none ∨ p.starred b = false
  | .function name es =>
    ∀ k, b.function? name = some k → k.arity.least ≤ Expr.callCount es
  | .dateAdd _ _ unit => b = .generic → ∀ u ∈ unit, Bare (upper u)
  | .transaction modifier => ∀ text ∈ modifier, BareWords b text
  | _ => True

/-- Nothing about a node keeps its text from being read. -/
def Clear (b : Builtin) (e : Expr) : Prop := (∀ s ∈ e.slots b, s.2.tier b ≤ s.1) ∧ Smooth b e

/-! ## what is read -/

/-- Several arguments, the first of which gathers others. -/
def GathersMore (es : List Expr) : Prop := 2 ≤ es.length ∧ ∃ a ∈ es.head?, a.gathers = true

/-- The text of a node is read as the same node. -/
def Faithful (b : Builtin) : Expr → Prop
  | .literal (.hexString digits) => digits.length % 2 = 0
  | .literal (.hexNumber _) => b = .sqlite
  | .cast _ t => retyped b t = t
  | .function name es =>
    ¬GathersMore es ∧ ∀ k, b.function? name = some k → k.extracts = true
  | .least es | .greatest es =>
    match b with
    | .generic => ¬GathersMore es
    | .sqlite => es.length = 1
  | .dateAdd .. => False
  | .dateStrToDate _ | .timeStrToTime _ => b = .sqlite
  | .jsonbExtract .. | .jsonbExtractScalar .. | .ilike .. | .tryCast .. | .groupConcat .. | .select _
  | .tableSample .. | .fetch .. | .createTable _ => b = .generic
  | _ => True

/-- A node with its identifiers delimited, if every identifier is. -/
def markNode (identify : Bool) : Expr → Expr
  | .column t n => .column (t.map (Ident.marked identify)) (n.marked identify)
  | .star t => .star (t.map (Ident.marked identify))
  | .aliased a n => .aliased a (n.marked identify)
  | .table s n x =>
    .table (s.map (Ident.marked identify)) (n.marked identify) (x.map (Ident.marked identify))
  | .createTable t =>
    .createTable { t with columns := t.columns.map fun c => { c with name := c.name.marked identify } }
  | e => e

/-- A tree with every identifier delimited, if they are to be. -/
def Expr.marked (identify : Bool) (e : Expr) : Expr := e.rebuild (markNode identify)

/-- Nothing is marked where nothing is to be. -/
theorem markNode_false (e : Expr) : markNode false e = e := by
  have hid : Ident.marked false = id := funext Ident.marked_false
  cases e <;> simp [markNode, hid]

/-- The operand of a call that SQLite prints as its bare operand. -/
def unwrapNode : Builtin → Expr → Expr
  | .sqlite, .least [a] => a
  | .sqlite, .greatest [a] => a
  | .sqlite, .dateStrToDate a => a
  | .sqlite, .timeStrToTime a => a
  | _, e => e

/-- The tree that a faithful text is read as. -/
def Expr.settled (b : Builtin) (identify : Bool) (e : Expr) : Expr :=
  e.rebuild fun n => unwrapNode b (markNode identify n)

theorem Expr.settled_eq (b : Builtin) (i : Bool) (e : Expr) :
    e.settled b i = unwrapNode b (markNode i (e.mapChildren (settled b i))) :=
  rebuild_eq _ e

/-! ## pieces -/

/-- The pieces of a printed tree. -/
def tokensOf (b : Builtin) (i : Bool) (e : Expr) : List Token := ((style b i).fragment e).tokens

/-- A node without a printer of its own in the base form. -/
theorem tokensOf_base (h : b.dialect.transform? e.kind = none) :
    tokensOf b i e = ((style b i).base (style b i).fragment e).tokens := by
  rw [tokensOf, Style.fragment_eq, Style.node]
  simp only [style, h]

/-- A node with a printer of its own. -/
theorem tokensOf_custom {r : Renderer} (h : b.dialect.transform? e.kind = some (.custom r)) :
    tokensOf b i e = (r.apply (style b i) (style b i).fragment e).tokens := by
  rw [tokensOf, Style.fragment_eq, Style.node]
  simp only [style, h]

/-! ## texts of expressions -/

/-- A text that does not fuse with a minus sign in front of it. -/
def Undashed (cs : List Char) : Prop := ∃ c ds, cs = c :: ds ∧ c ≠ '-' ∧ c ≠ '>'

/-- The lexemes of a printed tree, read as another one. -/
structure ReadAs (b : Builtin) (e e' : Expr) (ls : List Lexeme) : Prop where
  derives : Derives b.dialect (.expr (e.tier b) e') ls
  star : ∀ t ∈ ls.head?, t.kind = .star → e.starred b = true
  rows : e.tier b ≤ 1 → (e.core b).namesRows = false →
    ∀ t ∈ ls.head?, t.kind ≠ .keyword .ROW ∧ t.kind ≠ .keyword .ROWS

/-- The text of a tree is an expression of its tier, and of the settled tree
where it is faithful. -/
structure Shown (b : Builtin) (i : Bool) (e : Expr) : Prop where
  written : ∃ e', Written b (tokensOf b i e) (ReadAs b e e') ∧
    (e.All (Faithful b) → e' = e.settled b i)
  start : e.tier b ≤ 1 → (e.core b).dashed b = false →
    Undashed (b.dialect.spell (tokensOf b i e)).toList

/-- The text of a query is one of a query, and of the settled one where it is
faithful. -/
def ShownQuery (b : Builtin) (i : Bool) (q : Select Expr) : Prop :=
  ∃ q', Written b (tokensOf b i (.select q)) (fun ls => ∃ t us, ls = t :: us ∧
      t.kind = .keyword .SELECT ∧ Derives b.dialect (.query q') us) ∧
    ((Expr.select q).All (Faithful b) → .select q' = (Expr.select q).settled b i)

/-- A node that was read, can be printed without hazards, and is read again. -/
structure Ready (b : Builtin) (i : Bool) (e : Expr) : Prop where
  proper : Proper e
  sound : e.fault? = none
  clear : Clear b e
  shown : e.tier b ≤ 8 → Shown b i e
  query : ∀ q, e = .select q → ShownQuery b i q

/-- A node that was read and can be printed without hazards, over nodes that
are read again. -/
structure Prepared (b : Builtin) (i : Bool) (e : Expr) : Prop where
  proper : Proper e
  sound : e.fault? = none
  clear : Clear b e
  children : ∀ c ∈ e.children, c.All (Ready b i)

end SqlDialect
