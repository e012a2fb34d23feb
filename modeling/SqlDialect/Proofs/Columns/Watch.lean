import SqlDialect.Proofs.Columns.Tree
import SqlDialect.Proofs.Grammar.Derivation

/-!
# SqlDialect.Proofs.Columns.Watch

A reader of lexemes that knows nothing of precedence and collects columns.  It
goes from left to right with one lexeme at a time, and keeps in mind what the
lexeme before was good for and what the parentheses around it hold.

* `Watch.State.step`, `Watch.run` -- the reader.
* `Watch.Adds` -- what reading a phrase does to its state.

Wherever the order of columns in a text is not their order in the tree that the
text is read as, the reader stops without a result.
-/

namespace SqlDialect

/-- The kinds of lexemes that may be identifiers. -/
def LexemeKind.isName : LexemeKind → Bool
  | .word | .quotedIdent _ => true
  | .keyword k => !k.isReserved
  | _ => false

theorem Grammar.identOf?_eq_none {t : Lexeme} (h : t.kind.isName = false) : identOf? t = none := by
  unfold identOf?
  split <;> simp_all [LexemeKind.isName]

namespace Watch

open Grammar Text

/-! ## states -/

/-- What a pair of parentheses holds so far. -/
inductive Nest where
  /-- Expressions, among which an ordering concerns all of them or the last. -/
  | free
  /-- The first argument of a call. -/
  | call
  /-- Several arguments of a call: an ordering would concern the first. -/
  | listed
  /-- The count of a row limit: behind a comma, it would be the offset. -/
  | limited
  deriving DecidableEq

/-- What the lexeme before was good for. -/
inductive Mode where
  /-- An operand is due. -/
  | due
  /-- A name, which is a column unless a point or a parenthesis follows. -/
  | named (i : Ident)
  /-- A name and a point. -/
  | behind (q : Ident)
  /-- An operand is complete. -/
  | whole
  /-- An alias or a type is due. -/
  | label
  /-- An alias or a type, perhaps with more words to come. -/
  | labelled
  /-- A table is due. -/
  | source
  /-- A table. -/
  | sourced
  deriving DecidableEq

/-- A name comes next, if one may come at all. -/
def Mode.awaits : Mode → Bool
  | due | behind _ | label | source => true
  | named _ | whole | labelled | sourced => false

/-- An operand is complete. -/
def Mode.closed : Mode → Bool
  | named _ | whole => true
  | _ => false

/-- The column that is complete once nothing that changes it follows. -/
def Mode.columns : Mode → List Expr
  | named i => [.column none i]
  | _ => []

theorem Mode.awaits_of_closed {m : Mode} (h : m.closed = true) : m.awaits = false := by
  cases m <;> first | rfl | cases h

/-- What is known in front of a lexeme. -/
structure State where
  mode : Mode
  /-- The innermost parentheses. -/
  nest : Nest
  /-- The parentheses around them. -/
  outer : List Nest
  /-- The columns that are complete. -/
  done : List Expr

/-- The columns so far. -/
def State.columns (s : State) : List Expr := s.done ++ s.mode.columns

/-- What parentheses hold once a comma has come. -/
def Nest.comma : Nest → Option Nest
  | free => some free
  | call | listed => some listed
  | limited => none

/-- What parentheses hold once an ordering starts. -/
def Nest.order : Nest → Option Nest
  | free | call => some free
  | listed | limited => none

/-- What parentheses hold once their expressions are to be distinct. -/
def Nest.distinct : Nest → Nest
  | call => free
  | n => n

/-- What parentheses hold behind so many expressions. -/
def Nest.lists (n : Nest) : Nat → Option Nest
  | 0 => none
  | 1 => some n
  | _ => n.comma

theorem Nest.comma_comma {n m : Nest} (h : n.comma = some m) : m.comma = some m := by
  cases n <;> cases h <;> rfl

theorem Nest.lists_succ {n m l : Nest} {k : Nat} (h : n.comma = some m) (hl : m.lists k = some l) :
    n.lists (k + 1) = some l := by
  match k, hl with
  | 1, hl => exact h.trans hl
  | _ + 2, hl => exact h.trans ((comma_comma h).symm.trans hl)

/-! ## steps -/

namespace State

/-- The columns so far are complete, and something else is good for the next
lexeme. -/
def turn (s : State) (m : Mode) : State := ⟨m, s.nest, s.outer, s.columns⟩

/-- A name where one is due. -/
def name (s : State) (i : Ident) : State :=
  match s.mode with
  | .due => ⟨.named i, s.nest, s.outer, s.done⟩
  | .behind q => ⟨.whole, s.nest, s.outer, s.done ++ [.column (some q) i]⟩
  | .label => ⟨.labelled, s.nest, s.outer, s.done⟩
  | .source => ⟨.sourced, s.nest, s.outer, s.done⟩
  | _ => s

/-- A value where an operand is due. -/
def value (s : State) : Option State := if s.mode = .due then some (s.turn .whole) else none

/-- A star is an operand or an operator. -/
def star (s : State) : Option State :=
  match s.mode with
  | .due | .behind _ => some (s.turn .whole)
  | .label | .source => none
  | _ => some (s.turn .due)

/-- A point behind a name. -/
def dot (s : State) : Option State :=
  match s.mode with
  | .named i => some ⟨.behind i, s.nest, s.outer, s.done⟩
  | .sourced => some ⟨.source, s.nest, s.outer, s.done⟩
  | _ => none

/-- An opening parenthesis, perhaps behind the name of a function.  A unit of a
date is written like a column and is none. -/
def enter (s : State) : Option State :=
  match s.mode with
  | .named i =>
    if upper i.name = CallKind.dateAdd.name then none
    else some ⟨.due, .call, s.nest :: s.outer, s.done⟩
  | .due | .labelled => some ⟨.due, .free, s.nest :: s.outer, s.done⟩
  | _ => none

/-- A closing parenthesis. -/
def leave (s : State) : Option State :=
  match s.outer with
  | n :: ns => some ⟨.whole, n, ns, s.columns⟩
  | [] => none

/-- A keyword. -/
def keyword (s : State) : Keyword → Option State
  | .SELECT | .WHERE | .GROUP | .BY | .HAVING | .OFFSET | .AND | .OR | .NOT | .IS | .LIKE | .ILIKE
  | .BETWEEN | .IN | .CASE | .WHEN | .THEN | .ELSE | .CAST | .TRY_CAST => some (s.turn .due)
  | .DISTINCT => some ⟨.due, s.nest.distinct, s.outer, s.columns⟩
  | .ORDER => s.nest.order.map fun n => ⟨.due, n, s.outer, s.columns⟩
  | .LIMIT => some ⟨.due, .limited, s.outer, s.columns⟩
  | .AS => some (s.turn .label)
  | .FROM => some (s.turn .source)
  | .ASC | .DESC | .END => some (s.turn .whole)
  | .NULL | .TRUE | .FALSE => s.value
  | _ => none

/-- A lexeme that is no name. -/
def mark (s : State) : LexemeKind → Option State
  | .word => if s.mode = .labelled then some s else none
  | .number | .string _ | .hexString _ | .hexNumber _ => s.value
  | .comma => s.nest.comma.map fun n => ⟨.due, n, s.outer, s.columns⟩
  | .dot => s.dot
  | .lparen => s.enter
  | .rparen => s.leave
  | .star => s.star
  | .plus | .minus | .slash | .percent | .concat | .eq | .ne | .lt | .gt | .lte | .gte
  | .arrow | .doubleArrow => some (s.turn .due)
  | .keyword k => s.keyword k
  | .quotedIdent _ | .semicolon => none

/-- One lexeme. -/
def step (s : State) (t : Lexeme) : Option State :=
  match identOf? t with
  | some i => if s.mode.awaits then some (s.name i) else s.mark t.kind
  | none => s.mark t.kind

end State

/-- Lexemes in a row. -/
def run (s : State) (ls : List Lexeme) : Option State := ls.foldlM State.step s

/-! ## lemmas -/

variable {s s' : State} {t : Lexeme} {k : LexemeKind} {ls ls' : List Lexeme}

@[simp] theorem run_nil (s : State) : run s [] = some s := rfl

theorem run_cons (s : State) (t : Lexeme) (ls : List Lexeme) :
    run s (t :: ls) = (s.step t).bind fun s' => run s' ls := rfl

theorem run_append (s : State) (ls ls' : List Lexeme) :
    run s (ls ++ ls') = (run s ls).bind fun s' => run s' ls' := by
  rw [run, List.foldlM_append]
  rfl

theorem run_append_eq_some :
    run s (ls ++ ls') = some s' ↔ ∃ s₁, run s ls = some s₁ ∧ run s₁ ls' = some s' := by
  rw [run_append, Option.bind_eq_some_iff]

theorem step_mark (h : t.kind = k) (hk : k.isName = false) (s : State) : s.step t = s.mark k := by
  subst h
  rw [State.step, identOf?_eq_none hk]

/-- Behind an operand, an alias or a table, no lexeme is a name. -/
theorem step_rests (h : t.kind = k) (hs : s.mode.awaits = false) : s.step t = s.mark k := by
  subst h
  rw [State.step]
  split <;> simp [hs]

theorem step_name {i : Ident} (h : identOf? t = some i) (hs : s.mode.awaits = true) :
    s.step t = some (s.name i) := by
  rw [State.step, h]
  simp [hs]

theorem run_mark (h : t.kind = k) (hk : k.isName = false) (s : State) (ls : List Lexeme) :
    run s (t :: ls) = (s.mark k).bind fun s' => run s' ls := by
  rw [run_cons, step_mark h hk]

/-- A lexeme that is no name, and the state behind it. -/
theorem run_to {s₁ : State} (h : t.kind = k) (hk : k.isName = false) (hs : s.mark k = some s₁) :
    run s (t :: ls) = run s₁ ls := by
  rw [run_mark h hk, hs]
  rfl

theorem run_rests (h : t.kind = k) (hs : s.mode.awaits = false) (ls : List Lexeme) :
    run s (t :: ls) = (s.mark k).bind fun s' => run s' ls := by
  rw [run_cons, step_rests h hs]

theorem run_name {i : Ident} (h : identOf? t = some i) (hs : s.mode.awaits = true)
    (ls : List Lexeme) : run s (t :: ls) = run (s.name i) ls := by
  rw [run_cons, step_name h hs]
  rfl

section

variable {i q : Ident} {n : Nest} {o : List Nest} {cs : List Expr}

theorem run_due (h : identOf? t = some i) :
    run ⟨.due, n, o, cs⟩ (t :: ls) = run ⟨.named i, n, o, cs⟩ ls :=
  run_name h rfl ls

theorem run_behind (h : identOf? t = some i) :
    run ⟨.behind q, n, o, cs⟩ (t :: ls) = run ⟨.whole, n, o, cs ++ [.column (some q) i]⟩ ls :=
  run_name h rfl ls

theorem run_label (h : identOf? t = some i) :
    run ⟨.label, n, o, cs⟩ (t :: ls) = run ⟨.labelled, n, o, cs⟩ ls :=
  run_name h rfl ls

theorem run_source (h : identOf? t = some i) :
    run ⟨.source, n, o, cs⟩ (t :: ls) = run ⟨.sourced, n, o, cs⟩ ls :=
  run_name h rfl ls

end

/-! ## what phrases do -/

/-- Columns come behind those so far, and the parentheses around the innermost
ones stay. -/
structure Adds (s s' : State) (cs : List Expr) : Prop where
  outer : s'.outer = s.outer
  columns : s'.columns = s.columns ++ cs

theorem Adds.refl (s : State) : Adds s s [] := ⟨rfl, (List.append_nil _).symm⟩

theorem Adds.trans {s₁ : State} {cs ds : List Expr} (h : Adds s s₁ cs) (h' : Adds s₁ s' ds) :
    Adds s s' (cs ++ ds) :=
  ⟨h'.outer.trans h.outer, by rw [h'.columns, h.columns, List.append_assoc]⟩

/-- An operand, an alias or a table is complete, within the same parentheses. -/
structure Rests (s s' : State) (cs : List Expr) : Prop extends Adds s s' cs where
  rests : s'.mode.awaits = false
  nest : s'.nest = s.nest

/-- An operand is complete, within the same parentheses. -/
structure Passes (s s' : State) (cs : List Expr) : Prop extends Adds s s' cs where
  closed : s'.mode.closed = true
  nest : s'.nest = s.nest

theorem adds_turn {m : Mode} (hm : m.columns = []) : Adds s (s.turn m) [] :=
  ⟨rfl, congrArg (s.columns ++ ·) hm⟩

/-- A phrase behind a lexeme that makes an operand due. -/
theorem Adds.of_due {n : Nest} {cs : List Expr} (h : Adds ⟨.due, n, s.outer, s.columns⟩ s' cs) :
    Adds s s' cs :=
  ⟨h.outer, h.columns.trans (congrArg (· ++ cs) (List.append_nil s.columns))⟩

theorem Adds.of_turn {m : Mode} {cs : List Expr} (hm : m.columns = [])
    (h : Adds (s.turn m) s' cs) : Adds s s' cs :=
  (adds_turn hm).trans h

theorem Adds.rests {s₁ : State} {cs ds : List Expr} (h : Adds s s₁ cs) (hn : s₁.nest = s.nest)
    (h' : Rests s₁ s' ds) : Rests s s' (cs ++ ds) :=
  ⟨h.trans h'.toAdds, h'.rests, h'.nest.trans hn⟩

/-- A phrase behind another one. -/
theorem Rests.trans {s₁ : State} {cs ds : List Expr} (h : Rests s s₁ cs) (h' : Rests s₁ s' ds) :
    Rests s s' (cs ++ ds) :=
  h.toAdds.rests h.nest h'

/-- A phrase behind a lexeme that makes something due. -/
theorem Rests.of_turn {m : Mode} {cs : List Expr} (hm : m.columns = [])
    (h : Rests (s.turn m) s' cs) : Rests s s' cs :=
  (adds_turn hm).rests rfl h

theorem Passes.rests {cs : List Expr} (h : Passes s s' cs) : s'.mode.awaits = false :=
  Mode.awaits_of_closed h.closed

/-- An operand behind something else within the same parentheses. -/
theorem Adds.passes {s₁ : State} {cs ds : List Expr} (h : Adds s s₁ cs) (hn : s₁.nest = s.nest)
    (h' : Passes s₁ s' ds) : Passes s s' (cs ++ ds) :=
  ⟨h.trans h'.toAdds, h'.closed, h'.nest.trans hn⟩

/-- An operand behind a lexeme that makes it due. -/
theorem Passes.of_turn {m : Mode} {cs : List Expr} (hm : m.columns = [])
    (h : Passes (s.turn m) s' cs) : Passes s s' cs :=
  (adds_turn hm).passes rfl h

/-! ## parentheses and types -/

/-- The end of parentheses, behind what they hold. -/
theorem Adds.leave {n : Nest} {cs ds : List Expr} {s₁ : State}
    (h : Adds ⟨.due, n, s.nest :: s.outer, ds⟩ s₁ cs) (hds : ds = s.columns) :
    ∃ s', s₁.leave = some s' ∧ Passes s s' cs := by
  have hleave : s₁.leave = some ⟨.whole, s.nest, s.outer, s₁.columns⟩ := by
    rw [State.leave, h.outer]
  refine ⟨_, hleave, ⟨rfl, ?_⟩, rfl, rfl⟩
  have hcolumns := h.columns
  subst hds
  simpa [State.columns, Mode.columns] using hcolumns

/-- More words of a type. -/
theorem run_words {ws : List Lexeme} (hw : ∀ w ∈ ws, w.kind = .word) (hs : s.mode = .labelled) :
    run s ws = some s := by
  induction ws with
  | nil => rfl
  | cons w ws ih =>
    rw [List.forall_mem_cons] at hw
    have hmark : s.mark .word = some s := if_pos hs
    rw [run_rests hw.1 (by rw [hs]; rfl), hmark]
    exact ih hw.2

theorem run_params {texts : List String} {ps : List Lexeme} (hp : ParamsOf texts ps) {o : List Nest}
    {cs : List Expr} :
    ∃ s', run ⟨.due, .free, o, cs⟩ ps = some s' ∧ Adds ⟨.due, .free, o, cs⟩ s' [] := by
  induction hp generalizing cs with
  | one ht =>
    rw [run_to ht rfl rfl]
    exact ⟨_, rfl, adds_turn rfl⟩
  | more ht hu _ ih =>
    rw [run_to ht rfl rfl, run_to hu rfl rfl]
    obtain ⟨s', hrun, hadds⟩ := ih
    exact ⟨s', hrun, ⟨hadds.outer, hadds.columns.trans (by simp [State.columns, State.turn,
      Mode.columns])⟩⟩

/-- A type holds no columns. -/
theorem run_type {type : DataType} (hT : TypeOf type ls) {n : Nest} {o : List Nest}
    {cs : List Expr} :
    ∃ s', run ⟨.label, n, o, cs⟩ ls = some s' ∧ Rests ⟨.label, n, o, cs⟩ s' [] := by
  have hword {t : Lexeme} (ht : t.kind = .word) (ls : List Lexeme) :
      run ⟨.label, n, o, cs⟩ (t :: ls) = run ⟨.labelled, n, o, cs⟩ ls :=
    run_label (i := ⟨t.text, false⟩) (by rw [identOf?, ht])
  cases hT with
  | plain hw _ =>
    rw [List.forall_mem_cons] at hw
    rw [hword hw.1, run_words hw.2 rfl]
    exact ⟨_, rfl, ⟨rfl, (List.append_nil _).symm⟩, rfl, rfl⟩
  | @withParams _ u v ws ps _ hw hu hp hv _ =>
    rw [List.forall_mem_cons] at hw
    obtain ⟨s₁, hrun, hadds⟩ := @run_params _ _ hp (n :: o) cs
    obtain ⟨s', hleave, hpasses⟩ := @Adds.leave ⟨.labelled, n, o, cs⟩ _ _ _ _ hadds
      (List.append_nil _).symm
    refine ⟨s', ?_, ⟨hpasses.outer, hpasses.columns⟩, Mode.awaits_of_closed hpasses.closed,
      hpasses.nest⟩
    simp only [List.append_assoc, List.cons_append]
    rw [hword hw.1, run_append, run_words hw.2 rfl, Option.bind_some, run_to hu rfl rfl,
      run_append_eq_some]
    exact ⟨s₁, hrun, by rw [run_to hv rfl hleave, run_nil]⟩

end Watch

end SqlDialect
