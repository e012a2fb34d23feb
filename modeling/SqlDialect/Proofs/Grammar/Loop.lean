import SqlDialect.Proofs.Grammar.Statement

/-!
# SqlDialect.Proofs.Grammar.Loop

The loops of the grammar, turn by turn.

A part of the grammar that is repeated is a loop over what has been read so far
and the lexemes left.  The readers of the grammar recur on what is left instead;
here each of them is taken apart into its turns.

* `Turn`, `turns` -- one turn, and so many turns at most.
* `Takes` -- at least one lexeme is taken, and none that is not there.
* `turns_eq` -- a loop whose turns take something is left before its turns run
  out, and has read what the reader reads that repeats the turn.
* `Round` -- a turn that hangs on the next lexeme alone.  All loops but the one
  over the statements of a script are made of rounds.
* `wordRound`, `itemRound`, `operatorRound`, `testRound`, `branchRound`,
  `demandRound`, `semicolonRound` -- the rounds of the grammar, each with the
  reader that repeats it; and `statementTurn`.
-/

namespace SqlDialect.Grammar

/-! ## turns -/

/-- What a turn of a loop comes to: the loop is left, or the next turn goes on
from here. -/
inductive Turn (σ : Type) (n : Nat) where
  | leave (r : Read σ n)
  | again (r : Read σ n)

/-- A loop of so many turns at most; nothing if they are used up. -/
def turns {σ : Type} {n : Nat} (turn : Read σ n → Except ParseError (Turn σ n)) :
    Nat → Read σ n → Option (Reading σ n)
  | 0, _ => none
  | k + 1, r =>
    match turn r with
    | .error e => some (.error e)
    | .ok (.leave r') => some (.ok r')
    | .ok (.again r') => turns turn k r'

/-- At least one lexeme is taken, and all that are taken are there. -/
def Takes (ts rest : List Lexeme) : Prop := ∃ taken, taken ≠ [] ∧ ts = taken ++ rest

theorem Takes.length_lt {ts rest : List Lexeme} (h : Takes ts rest) : rest.length < ts.length := by
  obtain ⟨taken, hne, rfl⟩ := h
  have hpos := List.length_pos_iff.2 hne
  rw [List.length_append]
  omega

theorem Takes.cons {t : Lexeme} {ts ls rest : List Lexeme} (h : ts = ls ++ rest) :
    Takes (t :: ts) rest :=
  ⟨t :: ls, List.cons_ne_nil t ls, by rw [h, List.cons_append]⟩

theorem Takes.trans {ts us rest : List Lexeme} (h₁ : Takes ts us) (h₂ : Takes us rest) :
    Takes ts rest := by
  obtain ⟨ls, hne, rfl⟩ := h₁
  obtain ⟨ls', -, rfl⟩ := h₂
  exact ⟨ls ++ ls', List.append_ne_nil_of_left_ne_nil hne ls', (List.append_assoc ..).symm⟩

theorem Takes.append {ts rest : List Lexeme} (h : Takes ts rest) (ls : List Lexeme) :
    Takes (ls ++ ts) rest := by
  obtain ⟨ls', hne, rfl⟩ := h
  exact ⟨ls ++ ls', List.append_ne_nil_of_right_ne_nil ls hne, (List.append_assoc ..).symm⟩

/-- A reading that has to take something takes it from the lexemes there are. -/
theorem Sound.takes {α : Type} {ts : List Lexeme} {x : Reading α ts.length}
    {P : α → List Lexeme → Prop} (h : Sound ts x P) {r : Read α ts.length} (hr : x = .ok r) :
    Takes ts r.rest := by
  obtain ⟨taken, hts, -⟩ := h r hr
  have hlt := r.lt
  refine ⟨taken, fun hnil => ?_, hts⟩
  have hlen := congrArg List.length hts
  rw [hnil, List.nil_append] at hlen
  omega

/-- A reading takes only what is there. -/
def Bounded {α : Type} {n : Nat} (ts : List Lexeme) (x : Reading α n) : Prop :=
  Sound ts x fun _ _ => True

theorem Sound.bounded {α : Type} {n : Nat} {ts : List Lexeme} {x : Reading α n}
    {P : α → List Lexeme → Prop} (h : Sound ts x P) : Bounded ts x :=
  h.mono fun _ _ _ => trivial

/-- A reading of another value, behind which nothing more is taken. -/
theorem Bounded.map {α β : Type} {m n : Nat} {ts : List Lexeme} {x : Reading α m}
    (hx : Bounded ts x) (f : Read α m → Read β n) (hf : ∀ r, (f r).rest = r.rest) :
    Bounded ts (x.map f) := by
  intro r hr
  cases x with
  | error e => cases hr
  | ok r₁ =>
    cases hr
    obtain ⟨ls, hts, -⟩ := hx r₁ rfl
    exact ⟨ls, by rw [hf, hts], trivial⟩

section

variable {σ : Type} {n : Nat}

/-- Every turn after which there is another one takes something. -/
def Advances (turn : Read σ n → Except ParseError (Turn σ n)) : Prop :=
  ∀ r r', turn r = .ok (.again r') → Takes r.rest r'.rest

/-- A reader behind a turn, if the loop is not left. -/
def onward (reader : Read σ n → Reading σ n) : Except ParseError (Turn σ n) → Reading σ n
  | .error e => .error e
  | .ok (.leave r) => .ok r
  | .ok (.again r) => reader r

/-- A reader is the loop of a turn: it reads what one turn leaves it to read. -/
def Repeats (turn : Read σ n → Except ParseError (Turn σ n)) (reader : Read σ n → Reading σ n) :
    Prop :=
  ∀ r, reader r = onward reader (turn r)

/-- A loop whose turns take something is left after one turn more than there are
lexemes, at the latest. -/
theorem turns_eq {turn : Read σ n → Except ParseError (Turn σ n)}
    {reader : Read σ n → Reading σ n} (hadvances : Advances turn) (hrepeats : Repeats turn reader)
    (k : Nat) (r : Read σ n) (hk : r.rest.length < k) : turns turn k r = some (reader r) := by
  induction k generalizing r with
  | zero => exact absurd hk (Nat.not_lt_zero _)
  | succ k ih =>
    rw [turns, hrepeats r]
    cases hturn : turn r with
    | error e => rfl
    | ok next =>
      cases next with
      | leave r' => rfl
      | again r' =>
        -- what is left gets shorter with every turn, so one turn less is enough
        have hlt := (hadvances r r' hturn).length_lt
        exact ih r' (by omega)

/-! ## rounds -/

theorem tail_length_lt {t : Lexeme} {ts : List Lexeme} (h : (t :: ts).length < n) :
    ts.length < n :=
  Nat.lt_of_succ_lt h

theorem length_lt_trans {us ts : List Lexeme} (h₁ : us.length < ts.length) (h : ts.length < n) :
    us.length < n :=
  Nat.lt_trans h₁ h

/-- What the next lexeme has a loop do: nothing if it ends the loop, or else read
on behind it. -/
abbrev Round (σ : Type) (n : Nat) : Type :=
  σ → (t : Lexeme) → (ts : List Lexeme) → (t :: ts).length < n →
    Option (Reading σ (ts.length + 1))

/-- The turn of a loop made of rounds. -/
def Round.turn (round : Round σ n) : Read σ n → Except ParseError (Turn σ n)
  | ⟨s, [], h⟩ => .ok (.leave ⟨s, [], h⟩)
  | ⟨s, t :: ts, h⟩ =>
    match round s t ts h with
    | none => .ok (.leave ⟨s, t :: ts, h⟩)
    | some reading => do
      let r ← reading
      return .again (r.after h)

/-- A round takes the lexeme it hangs on, so it only has to read on properly. -/
theorem Round.advances {round : Round σ n}
    (hround : ∀ s t ts h reading, round s t ts h = some reading → Bounded ts reading) :
    Advances round.turn := by
  rintro ⟨s, ts, h⟩ r' hr
  cases ts with
  | nil => cases hr
  | cons t ts =>
    rw [Round.turn] at hr
    cases heq : round s t ts h with
    | none => rw [heq] at hr; cases hr
    | some reading =>
      rw [heq] at hr
      cases hreading : reading with
      | error e => rw [hreading] at hr; cases hr
      | ok r =>
        rw [hreading] at hr
        cases hr
        obtain ⟨ls, hts, -⟩ := hround s t ts h reading heq r hreading
        exact .cons hts

/-- A reader that stops at the end, and elsewhere does what the round says, is
the loop. -/
theorem Round.repeats {round : Round σ n} {reader : Read σ n → Reading σ n}
    (hnil : ∀ s h, reader ⟨s, [], h⟩ = .ok ⟨s, [], h⟩)
    (hcons : ∀ s t ts h, reader ⟨s, t :: ts, h⟩ = match round s t ts h with
      | none => .ok ⟨s, t :: ts, h⟩
      | some reading => reading >>= fun r => reader (r.after h)) :
    Repeats round.turn reader := by
  rintro ⟨s, ts, h⟩
  cases ts with
  | nil => exact hnil s h
  | cons t ts =>
    rw [hcons, Round.turn]
    cases round s t ts h with
    | none => rfl
    | some reading => cases reading <;> rfl

end

/-! ## words and semicolons -/

section

variable {n : Nat}

/-- One more word. -/
def wordRound : Round (List String) n := fun ws t ts _ =>
  if t.kind = .word then some (.ok (.stay (ws ++ [t.text]) ts)) else none

/-- Words behind those read so far. -/
def moreWords (r : Read (List String) n) : Reading (List String) n :=
  .ok (((words r.rest).map (r.value ++ ·)).widen r.lt)

theorem wordRound_advances : Advances (Round.turn (wordRound (n := n))) := by
  refine Round.advances fun ws t ts h reading hr => ?_
  unfold wordRound at hr
  split at hr <;> cases hr
  exact .pure trivial

theorem wordRound_repeats : Repeats (Round.turn (wordRound (n := n))) moreWords := by
  refine Round.repeats (fun ws h => ?_) fun ws t ts h => ?_
  · simp [moreWords, words, Front.stay, Front.map, Front.widen]
  · unfold wordRound moreWords
    by_cases ht : t.kind = .word
    · simp [ht, words, Front.stay, Front.after, Front.loosen, Front.map, Front.widen, bind,
        Except.bind]
    · simp [ht, words, Front.stay, Front.map, Front.widen]

/-- What is left behind the semicolons that come next. -/
def pastSemicolons (ts : List Lexeme) : List Lexeme := ts.dropWhile (·.kind = .semicolon)

theorem pastSemicolons_length (ts : List Lexeme) : (pastSemicolons ts).length ≤ ts.length :=
  (List.dropWhile_sublist _).length_le

/-- One more semicolon. -/
def semicolonRound : Round Unit n := fun _ t ts _ =>
  if t.kind = .semicolon then some (.ok (.stay () ts)) else none

/-- The semicolons that come next. -/
def moreSemicolons (r : Read Unit n) : Reading Unit n :=
  .ok ⟨(), pastSemicolons r.rest, Nat.lt_of_le_of_lt (pastSemicolons_length r.rest) r.lt⟩

theorem semicolonRound_advances : Advances (Round.turn (semicolonRound (n := n))) := by
  refine Round.advances fun _ t ts h reading hr => ?_
  unfold semicolonRound at hr
  split at hr <;> cases hr
  exact .pure trivial

theorem semicolonRound_repeats : Repeats (Round.turn (semicolonRound (n := n))) moreSemicolons := by
  refine Round.repeats (fun _ h => rfl) fun _ t ts h => ?_
  unfold semicolonRound moreSemicolons pastSemicolons
  by_cases ht : t.kind = .semicolon
  · simp only [ht, decide_true, List.dropWhile_cons_of_pos, if_true]
    rfl
  · simp [ht]

end

/-! ## items with commas between them -/

section

variable {α : Type} {n : Nat} (item : (ts : List Lexeme) → ts.length < n → Reading α ts.length)

/-- One more item, behind a comma. -/
def itemRound : Round (List α) n := fun items t ts h =>
  if t.kind = .comma then
    some ((item ts (tail_length_lt h)).map fun r => (r.map fun x => items ++ [x]).loosen)
  else none

/-- Items behind those read so far, each behind a comma. -/
def moreItems : Read (List α) n → Reading (List α) n
  | ⟨items, [], h⟩ => .ok ⟨items, [], h⟩
  | ⟨items, t :: ts, h⟩ =>
    if t.kind = .comma then
      (commaList item ts (tail_length_lt h)).map fun r =>
        (r.map fun p => items ++ p.1 :: p.2).after (tail_length_lt h)
    else .ok ⟨items, t :: ts, h⟩

/-- A list is its first item and what the loop finds behind it, whatever items
were read before. -/
theorem commaList_eq_moreItems (items : List α) (ts : List Lexeme) (h : ts.length < n) :
    ((commaList item ts h).map fun r => (r.map fun p => items ++ p.1 :: p.2).after h) =
      item ts h >>= fun r => moreItems item ((r.map fun x => items ++ [x]).after h) := by
  rw [commaList]
  cases item ts h with
  | error e => rfl
  | ok r =>
    obtain ⟨first, ts₁, h₁⟩ := r
    cases ts₁ with
    | nil => rfl
    | cons t ts₂ =>
      simp only [bind, Except.bind, Front.map, Front.after, Front.widen, moreItems]
      by_cases ht : t.kind = .comma
      · simp only [if_pos ht]
        cases commaList item ts₂ _ with
        | error e => rfl
        | ok r => simp [Except.map, pure, Except.pure]
      · simp only [if_neg ht]
        rfl

theorem itemRound_advances (hitem : ∀ ts h, Bounded ts (item ts h)) :
    Advances (itemRound item).turn := by
  refine Round.advances fun items t ts h reading hr => ?_
  unfold itemRound at hr
  split at hr <;> cases hr
  exact (hitem ts _).map _ fun _ => rfl

theorem itemRound_repeats : Repeats (itemRound item).turn (moreItems item) := by
  refine Round.repeats (fun items h => rfl) fun items t ts h => ?_
  unfold itemRound
  rw [moreItems]
  by_cases ht : t.kind = .comma
  · simp only [if_pos ht, commaList_eq_moreItems]
    cases item ts _ <;> rfl
  · simp only [if_neg ht]

end

/-! ## operators -/

section

variable {α : Type} {n : Nat} (item : (ts : List Lexeme) → ts.length ≤ n → Reading α ts.length)
  (operator? : LexemeKind → Option (α → α → α))

/-- One more operator with its right operand. -/
def operatorRound : Round α (n + 1) := fun left t ts h =>
  (operator? t.kind).map fun combine =>
    (item ts (Front.tail_le (Nat.le_of_lt_succ h))).map fun r => (r.map (combine left)).loosen

/-- Operators behind what has been read so far. -/
def moreOperators (r : Read α (n + 1)) : Reading α (n + 1) :=
  (operators item operator? r.value r.rest (Nat.le_of_lt_succ r.lt)).map fun q => q.widen r.lt

theorem operatorRound_advances (hitem : ∀ ts h, Bounded ts (item ts h)) :
    Advances (operatorRound item operator?).turn := by
  refine Round.advances fun left t ts h reading hr => ?_
  obtain ⟨combine, -, rfl⟩ := Option.map_eq_some_iff.1 hr
  exact (hitem ts _).map _ fun _ => rfl

theorem operatorRound_repeats :
    Repeats (operatorRound item operator?).turn (moreOperators item operator?) := by
  refine Round.repeats (fun left h => ?_) fun left t ts h => ?_
  · simp only [moreOperators, operators]
    rfl
  · unfold moreOperators operatorRound
    simp only
    rw [operators]
    cases operator? t.kind with
    | none => rfl
    | some combine =>
      simp only [Option.map_some]
      cases item ts _ with
      | error e => rfl
      | ok r =>
        simp only [bind, Except.bind, Except.map, Front.loosen, Front.map, Front.after, Front.widen]
        cases operators item operator? (combine left r.value) r.rest _ <;> rfl

end

/-! ## predicates and comparisons -/

section

variable (d : Dialect) {n : Nat} (sub : Below n)

/-- One more comparison or predicate, applied to all in front of it. -/
def testRound : Round Expr (n + 1) := fun left t ts h =>
  (test? d sub left t ts (Nat.lt_of_succ_lt_succ h)).map fun reading =>
    reading.map fun r => r.loosen

/-- Comparisons and predicates behind what has been read so far. -/
def moreTests (r : Read Expr (n + 1)) : Reading Expr (n + 1) :=
  (tests d sub r.value r.rest (Nat.le_of_lt_succ r.lt)).map fun q => q.widen r.lt

theorem testRound_advances (hsub : SoundBelow d sub) : Advances (testRound d sub).turn := by
  refine Round.advances fun left t ts h reading hr => ?_
  obtain ⟨x, hx, rfl⟩ := Option.map_eq_some_iff.1 hr
  exact (test?_sound hsub left t ts _ x hx).bounded.map _ fun _ => rfl

theorem testRound_repeats : Repeats (testRound d sub).turn (moreTests d sub) := by
  refine Round.repeats (fun left h => ?_) fun left t ts h => ?_
  · simp only [moreTests, tests]
    rfl
  · unfold moreTests testRound
    simp only
    rw [tests]
    cases test? d sub left t ts _ with
    | none => rfl
    | some reading =>
      simp only [Option.map_some]
      cases reading with
      | error e => rfl
      | ok r =>
        simp only [bind, Except.bind, Except.map, Front.loosen, Front.after, Front.widen]
        cases tests d sub r.value r.rest _ <;> rfl

/-! ## branches -/

/-- One more branch. -/
def branchRound : Round (List (Expr × Expr)) n := fun whens t ts h =>
  if t.kind = .keyword .WHEN then
    have hlt := tail_length_lt h
    some do
      let ⟨condition, ts₁, h₁⟩ ← sub .loose ts hlt
      let ⟨_, ts₂, h₂⟩ ← expectKeyword .THEN ts₁
      have h₂ := Front.lt_trans h₂ h₁
      let r ← sub .loose ts₂ (length_lt_trans h₂ hlt)
      return ((r.map fun result => whens ++ [(condition, result)]).after h₂).loosen
  else none

/-- Branches behind those read so far. -/
def moreBranches (r : Read (List (Expr × Expr)) n) : Reading (List (Expr × Expr)) n :=
  (whenBranches sub r.rest r.lt).map fun q => (q.map (r.value ++ ·)).widen r.lt

theorem branchRound_advances (hsub : SoundBelow d sub) : Advances (branchRound sub).turn := by
  refine Round.advances fun whens t ts h reading hr => ?_
  unfold branchRound at hr
  split at hr <;> cases hr
  refine (hsub .loose ts _).bind fun condition ls₁ ts₁ h₁ _ _ => ?_
  refine (expectKeyword_sound .THEN ts₁).bind fun _ ls₂ ts₂ h₂ _ _ => ?_
  exact (hsub .loose ts₂ _).bind fun result ls₃ ts₃ h₃ _ _ => .pure trivial

theorem branchRound_repeats : Repeats (branchRound sub).turn (moreBranches sub) := by
  refine Round.repeats (fun whens h => ?_) fun whens t ts h => ?_
  · simp [moreBranches, whenBranches, acceptKeyword, accept, Front.stay, Front.map, Front.widen,
      Except.map, pure, Except.pure]
  · unfold moreBranches branchRound
    simp only
    rw [whenBranches]
    by_cases ht : t.kind = .keyword .WHEN
    · simp only [acceptKeyword, accept, if_pos ht, Front.step, Front.loosen, Front.widen, bind,
        Except.bind, pure, Except.pure]
      cases sub .loose ts _ with
      | error e => rfl
      | ok r₁ =>
        simp only
        cases expectKeyword .THEN r₁.rest with
        | error e => rfl
        | ok r₂ =>
          simp only
          cases sub .loose r₂.rest _ with
          | error e => rfl
          | ok r₃ =>
            simp only [Front.map, Front.after, Front.widen]
            cases whenBranches sub r₃.rest _ with
            | error e => rfl
            | ok r₄ => simp [Except.map]
    · simp [acceptKeyword, accept, ht, Front.stay, Front.map, Front.widen, Except.map, pure,
        Except.pure]

/-! ## demands on a column -/

/-- One more demand. -/
def demandRound : Round (List (ColumnConstraint Expr)) n := fun ks t ts _ =>
  (constraint? d t ts).map fun reading => reading.map fun r => r.map fun k? => ks ++ k?.toList

/-- Demands behind those read so far. -/
def moreDemands (r : Read (List (ColumnConstraint Expr)) n) :
    Reading (List (ColumnConstraint Expr)) n :=
  (constraints d r.rest).map fun q => (q.map (r.value ++ ·)).widen r.lt

theorem demandRound_advances : Advances (Round.turn (demandRound d (n := n))) := by
  refine Round.advances fun ks t ts h reading hr => ?_
  obtain ⟨x, hx, rfl⟩ := Option.map_eq_some_iff.1 hr
  exact (constraint?_sound t ts x hx).bounded.map _ fun _ => rfl

theorem demandRound_repeats : Repeats (Round.turn (demandRound d (n := n))) (moreDemands d) := by
  refine Round.repeats (fun ks h => ?_) fun ks t ts h => ?_
  · simp [moreDemands, constraints, Front.stay, Front.map, Front.widen, Except.map]
  · unfold moreDemands demandRound
    simp only
    rw [constraints]
    cases constraint? d t ts with
    | none => simp [Front.stay, Front.map, Front.widen, Except.map]
    | some reading =>
      simp only [Option.map_some]
      cases reading with
      | error e => rfl
      | ok r =>
        simp only [bind, Except.bind, Except.map, Front.map, Front.loosen, Front.after, Front.widen]
        cases constraints d r.rest with
        | error e => rfl
        | ok q => simp [pure, Except.pure]

/-! ## statements -/

/-- One more statement: the end or a semicolon has to come behind it. -/
def nextStatement (es : List Expr) :
    (ts : List Lexeme) → ts.length < n → Except ParseError (Turn (List Expr) n)
  | [], h => .ok (.leave ⟨es, [], h⟩)
  | t :: ts, h => do
    let ⟨first, ts₁, h₁⟩ ← statement d (t :: ts)
    match ts₁, h₁ with
    | [], h₁ => return .again ⟨es ++ [first], [], Nat.lt_trans h₁ h⟩
    | u :: ts₂, h₁ =>
      if u.kind = .semicolon then
        return .again ⟨es ++ [first], ts₂, Nat.lt_trans (Nat.lt_of_succ_lt h₁) h⟩
      else throw (unexpected .semicolon (u :: ts₂))

/-- One more statement of a script, behind any semicolons. -/
def statementTurn (r : Read (List Expr) n) : Except ParseError (Turn (List Expr) n) :=
  nextStatement d r.value (pastSemicolons r.rest)
    (Nat.lt_of_le_of_lt (pastSemicolons_length r.rest) r.lt)

/-- Statements behind those read so far. -/
def moreStatements (r : Read (List Expr) n) : Reading (List Expr) n :=
  (script d r.rest).map fun es => ⟨r.value ++ es, [], Nat.zero_lt_of_lt r.lt⟩

theorem nextStatement_takes {es : List Expr} {ts : List Lexeme} {h : ts.length < n}
    {r : Read (List Expr) n} (hr : nextStatement d es ts h = .ok (.again r)) : Takes ts r.rest := by
  cases ts with
  | nil => cases hr
  | cons t ts =>
    rw [nextStatement] at hr
    cases hst : statement d (t :: ts) with
    | error e => rw [hst] at hr; cases hr
    | ok r₁ =>
      -- the statement alone takes something; the semicolon comes on top
      have htakes : Takes (t :: ts) r₁.rest := (statement_sound (t :: ts)).takes hst
      obtain ⟨first, ts₁, h₁⟩ := r₁
      rw [hst] at hr
      cases ts₁ with
      | nil => cases hr; exact htakes
      | cons u ts₂ =>
        simp only [bind, Except.bind] at hr
        split at hr <;> cases hr
        exact htakes.trans (.cons (List.nil_append ts₂).symm)

theorem statementTurn_advances : Advances (statementTurn d (n := n)) := by
  intro r r' hr
  have hts : r.rest = r.rest.takeWhile (·.kind = .semicolon) ++ pastSemicolons r.rest :=
    (List.takeWhile_append_dropWhile).symm
  rw [hts]
  exact (nextStatement_takes d hr).append _

theorem script_pastSemicolons (ts : List Lexeme) : script d ts = script d (pastSemicolons ts) := by
  induction ts with
  | nil => rfl
  | cons t ts ih =>
    by_cases ht : t.kind = .semicolon
    · rw [script, if_pos ht, ih, pastSemicolons, pastSemicolons,
        List.dropWhile_cons_of_pos (by simpa using ht)]
    · rw [pastSemicolons, List.dropWhile_cons_of_neg (by simpa using ht)]

theorem pastSemicolons_head (ts : List Lexeme) :
    ∀ t ∈ (pastSemicolons ts).head?, t.kind ≠ .semicolon := by
  intro t ht
  have hhead := List.head?_dropWhile_not (·.kind = .semicolon) ts
  unfold pastSemicolons at ht
  rw [Option.mem_def.1 ht] at hhead
  simpa using hhead

/-- Where no semicolon comes next, a script is its first statement and what the
loop finds behind it. -/
theorem moreStatements_eq_nextStatement {es : List Expr} {ts : List Lexeme} (h : ts.length < n)
    (hts : ∀ t ∈ ts.head?, t.kind ≠ .semicolon) :
    moreStatements d ⟨es, ts, h⟩ = onward (moreStatements d) (nextStatement d es ts h) := by
  unfold moreStatements
  cases ts with
  | nil => simp [script, nextStatement, onward, Except.map]
  | cons t ts =>
    simp only
    rw [script, if_neg (hts t rfl), nextStatement]
    cases statement d (t :: ts) with
    | error e => rfl
    | ok r₁ =>
      obtain ⟨first, ts₁, h₁⟩ := r₁
      cases ts₁ with
      | nil => simp [script, onward, bind, Except.bind, Except.map, pure, Except.pure]
      | cons u ts₂ =>
        simp only [bind, Except.bind]
        by_cases hu : u.kind = .semicolon
        · simp only [if_pos hu]
          cases hscript : script d ts₂ <;>
            simp [hscript, onward, pure, Except.pure, Except.map]
        · simp only [if_neg hu]
          rfl

theorem statementTurn_repeats : Repeats (statementTurn d (n := n)) (moreStatements d) := by
  intro r
  rw [statementTurn, ← moreStatements_eq_nextStatement d _ (pastSemicolons_head r.rest)]
  simp only [moreStatements]
  rw [script_pastSemicolons]

end

end SqlDialect.Grammar
