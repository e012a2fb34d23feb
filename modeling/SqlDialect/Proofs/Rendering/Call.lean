import SqlDialect.Proofs.Rendering.Arguments

/-!
# SqlDialect.Proofs.Rendering.Call

The texts of calls, casts and cases.

* `shown_call` -- a name and arguments that the name takes.
* `shown_function`, `shown_least`, `shown_groupConcat`, … -- one lemma for each
  kind of node.
-/

namespace SqlDialect

open Text Grammar

variable {b : Builtin} {i : Bool} {e e' a : Expr} {es : List Expr}

/-! ## calls -/

/-- The lexeme of a bare name is a word, and one for rows only if the name
is. -/
theorem Bare.kind {name : String} {t : Lexeme} (ht : t.kind = wordKind b.dialect name) :
    t.kind ≠ .star ∧ (Expr.isRowsWord name = false →
      t.kind ≠ .keyword .ROW ∧ t.kind ≠ .keyword .ROWS) := by
  rw [ht, wordKind]
  cases hk : b.dialect.keyword? name with
  | none => simp
  | some k =>
    refine ⟨by simp, fun hr => ?_⟩
    simp only [Expr.isRowsWord, Bool.or_eq_false_iff, decide_eq_false_iff_not] at hr
    rcases keyword?_eq_some hk with rfl | hspelling
    · simp
    · rw [hspelling] at hr
      simpa using hr

/-- A name and arguments that the name takes are read as a call. -/
theorem written_call {name : String} {ts : List Token} {args' : List Expr} (hname : Bare name)
    (hargs : Written b ts fun ls => Derives b.dialect (.args args') ls)
    (hcall : b.dialect.call name args' = .ok e') :
    Written b (.raw name :: .lparen :: (ts ++ [.rparen])) fun ls =>
      Derives b.dialect (.expr 0 e') ls ∧ ∀ t ∈ ls.head?, t.kind = wordKind b.dialect name := by
  refine .word hname.1 (by simp) fun t ht htext => ?_
  refine .lparen fun u hu => ?_
  refine hargs.append (by simp) fun ls h => ?_
  refine .rparen fun v hv => .nil ⟨?_, ?_⟩
  · exact .call (hname.identOf? ht htext) rfl hu h hv hcall
  · rintro w ⟨⟩
    exact ht

/-- A node that is printed as such a call. -/
theorem shown_call {name : String} {ts : List Token} {args' : List Expr} (hname : Bare name)
    (htokens : tokensOf b i e = .raw name :: .lparen :: (ts ++ [.rparen]))
    (hargs : Written b ts fun ls => Derives b.dialect (.args args') ls)
    (hcall : b.dialect.call name args' = .ok e') (htier : e.tier b = 0)
    (hrows : (e.core b).namesRows = false → Expr.isRowsWord name = false)
    (hf : e.All (Faithful b) → e' = e.settled b i) : Shown b i e := by
  refine ⟨⟨e', ?_, hf⟩, fun _ _ => ?_⟩
  · rw [htokens]
    refine (written_call hname hargs hcall).imp fun ls h => ⟨?_, ?_, ?_⟩
    · rw [htier]
      exact h.1
    · exact fun w hw hstar => absurd hstar (Bare.kind (h.2 w hw)).1
    · exact fun _ hr w hw => (Bare.kind (h.2 w hw)).2 (hrows hr)
  · rw [htokens]
    exact undashed_cons (undashed_word hname.1)

theorem tokens_call (name : String) (fs : List Fragment) :
    (Fragment.call name fs).tokens =
      .raw name :: .lparen :: (commas (fs.map Fragment.tokens) ++ [.rparen]) := by
  simp [Fragment.call, tokens_commaSeparated, Fragment.ofTokens]

theorem tokens_fragments (es : List Expr) :
    (es.map (style b i).fragment).map Fragment.tokens = es.map (tokensOf b i) := by
  rw [List.map_map]
  rfl

/-- The nodes of a call are read as its arguments. -/
theorem call_arguments (h : ∀ e ∈ es, e.All (Ready b i))
    (hslots : ∀ s ∈ Expr.arguments es, s.2.tier b ≤ s.1) :
    ∃ args', Written b (commas (es.map (tokensOf b i)))
        (fun ls => Derives b.dialect (.args args') ls) ∧ args'.length = Expr.callCount es ∧
      ((∀ e ∈ es, e.All (Faithful b)) → ¬GathersMore es →
        args' = es.map (Expr.settled b i)) := by
  cases es with
  | nil => exact ⟨[], .nil .noArgs, rfl, fun _ _ => rfl⟩
  | cons a es =>
    simp only [Expr.arguments, List.forall_mem_cons, List.forall_mem_map] at hslots
    rw [List.forall_mem_cons] at h
    obtain ⟨es', hs, hfs⟩ := listed_of_shown fun e he =>
      ⟨(h.2 e he).self.shown (hslots.2 e he), hslots.2 e he⟩
    obtain ⟨args', hw, hlength, hf⟩ := arguments_written h.1 hslots.1 hs
    refine ⟨args', hw, ?_, fun hfaith hmore => ?_⟩
    · rw [hlength, List.length_map]
      rfl
    · rw [List.forall_mem_cons] at hfaith
      rw [hf hfaith.1 fun hg => ?_, hfs hfaith.2, List.map_cons]
      by_contra hne
      refine hmore ⟨?_, a, rfl, hg⟩
      have : es ≠ [] := fun h => hne (by rw [h]; rfl)
      have := List.length_pos_iff.2 this
      simp only [List.length_cons]
      omega

/-! ## functions by name -/

theorem call_of_some {name : String} {k : CallKind} (h : b.function? name = some k)
    (args : List Expr) : b.dialect.call name args = k.build args := by
  rw [Builtin.call_dialect, h]

theorem call_of_none {name : String} (h : b.function? name = none) (args : List Expr) :
    b.dialect.call name args = .ok (.function name args) := by
  rw [Builtin.call_dialect, h]

/-- The functions with a kind of their own go by their usual names. -/
theorem function?_name (b : Builtin) (k : CallKind) : b.function? k.name = some k := by
  have hall : ∀ k ∈ CallKind.all, b.function? k.name = some k := by
    cases b <;> decide +kernel
  exact hall k k.mem_all

/-- SQLite knows one name more. -/
theorem function?_eq_some {name : String} {k : CallKind} (h : b.function? name = some k) :
    k = .levenshtein ∨ Builtin.generic.function? name = some k := by
  cases b with
  | generic => exact .inr h
  | sqlite =>
    unfold Builtin.function? at h
    dsimp only at h
    split at h
    · exact .inl (Option.some.inj h).symm
    · exact .inr h

/-- Functions that take two arguments or more. -/
theorem build_many {k : CallKind} (hk : k = .levenshtein ∨ k.extracts = true) (hes : 2 ≤ es.length) :
    ∃ e, k.build es = .ok e := by
  obtain ⟨a, c, rest, rfl⟩ : ∃ a c rest, es = a :: c :: rest := by
    match es, hes with
    | a :: c :: rest, _ => exact ⟨a, c, rest, rfl⟩
  rcases hk with rfl | hk
  · exact ⟨_, rfl⟩
  · cases k <;> cases hk <;> cases rest <;> exact ⟨_, rfl⟩

/-- An extraction along several paths stays a call. -/
theorem build_function {k : CallKind} (hk : k.extracts = true) (hes : 2 < es.length) :
    k.build es = .ok (.function k.name es) := by
  obtain ⟨a, c, d, rest, rfl⟩ : ∃ a c d rest, es = a :: c :: d :: rest := by
    match es, hes with
    | a :: c :: d :: rest, _ => exact ⟨a, c, d, rest, rfl⟩
  cases k <;> cases hk <;> rfl

theorem tokensOf_function (name : String) (es : List Expr) :
    tokensOf b i (.function name es) =
      .raw name :: .lparen :: (commas (es.map (tokensOf b i)) ++ [.rparen]) := by
  rw [tokensOf_base (by cases b <;> rfl), Style.base, tokens_call, tokens_fragments]

theorem Expr.settled_function (name : String) (es : List Expr) :
    (function name es).settled b i = function name (es.map (settled b i)) := by
  rw [settled_eq]
  cases b <;> rfl

theorem namesRows_function {name : String} {es : List Expr}
    (h : (Expr.function name es).namesRows = false) : Expr.isRowsWord name = false := h

/-- A node printed as a call of its arguments. -/
theorem shown_arguments {name : String} (hname : Bare name)
    (htokens : tokensOf b i e =
      .raw name :: .lparen :: (commas (es.map (tokensOf b i)) ++ [.rparen]))
    (hready : ∀ c ∈ es, c ∈ e.children ∧ c.All (Ready b i))
    (hslots : ∀ s ∈ Expr.arguments es, s.2.tier b ≤ s.1) (htier : e.tier b = 0)
    (hrows : (e.core b).namesRows = false → Expr.isRowsWord name = false)
    (hcall : ∀ args', args'.length = Expr.callCount es → ∃ e', b.dialect.call name args' = .ok e' ∧
      (Faithful b e → ¬GathersMore es ∧ (args' = es.map (Expr.settled b i) →
        e' = e.settled b i))) : Shown b i e := by
  obtain ⟨args', hw, hlength, hf⟩ := call_arguments (fun c hc => (hready c hc).2) hslots
  obtain ⟨e', he', hfaith⟩ := hcall args' hlength
  refine shown_call hname htokens hw he' htier hrows fun hall => ?_
  obtain ⟨hmore, heq⟩ := hfaith hall.self
  exact heq (hf (fun c hc => hall.child (hready c hc).1) hmore)

theorem shown_function {name : String} (h : Prepared b i (.function name es)) :
    Shown b i (.function name es) := by
  obtain ⟨hbare, hfunction⟩ := h.proper.2
  have hcore : (Expr.function name es).core b = .function name es := by cases b <;> rfl
  refine shown_arguments hbare (tokensOf_function name es) (fun c hc => ⟨hc, h.children c hc⟩)
    (by have := h.clear.1; cases b <;> exact this) (by cases b <;> rfl)
    (by rw [hcore]; exact namesRows_function) fun args' hlength => ?_
  cases hk : b.function? name with
  | none =>
    refine ⟨_, call_of_none hk args', fun hfaith => ⟨hfaith.1, fun heq => ?_⟩⟩
    rw [Expr.settled_function, heq]
  | some k =>
    have hkind : k = .levenshtein ∨ k.extracts = true :=
      (function?_eq_some hk).imp id fun hk => (hfunction k hk).1
    have hmany : 2 ≤ args'.length := by
      have hleast := h.clear.2 k hk
      rw [hlength]
      rcases hkind with rfl | hextracts
      · exact hleast
      · cases k <;> cases hextracts <;> exact hleast
    obtain ⟨e', he'⟩ := build_many hkind hmany
    refine ⟨e', (call_of_some hk args').trans he', fun hfaith => ⟨hfaith.1, fun heq => ?_⟩⟩
    have hextracts := hfaith.2 k hk
    obtain ⟨-, rfl, hes⟩ := hfunction k ((function?_eq_some hk).resolve_left (by
      rintro rfl
      cases hextracts))
    rw [heq, build_function hextracts (by rwa [List.length_map])] at he'
    cases he'
    exact (Expr.settled_function _ es).symm

/-! ## calls of their own kind -/

/-- A node printed as its only operand. -/
theorem shown_operand (ha : Shown b i a) (htokens : tokensOf b i e = tokensOf b i a)
    (hcore : e.core b = a.core b) (hstar : e.starred b = a.starred b)
    (hf : e.All (Faithful b) → a.All (Faithful b) ∧ e.settled b i = a.settled b i) :
    Shown b i e := by
  obtain ⟨⟨a', hw, hfa⟩, hstart⟩ := ha
  refine ⟨⟨a', ?_, fun h => ?_⟩, ?_⟩
  · rw [htokens]
    refine hw.imp fun ls h => ⟨?_, ?_, ?_⟩
    · rw [Expr.tier, hcore]
      exact h.derives
    · rw [hstar]
      exact h.star
    · rw [Expr.tier, hcore]
      exact h.rows
  · obtain ⟨hall, heq⟩ := hf h
    rw [heq]
    exact hfa hall
  · rw [htokens, Expr.tier, hcore]
    exact hstart

/-- The names that printing uses of itself. -/
theorem bare_of_mem {name : String} (h : name ∈ ["LEAST", "GREATEST", "MIN", "MAX", "LEVENSHTEIN",
    "EDITDIST3", "JSON_EXTRACT", "JSON_EXTRACT_SCALAR", "JSONB_EXTRACT", "JSONB_EXTRACT_SCALAR",
    "GROUP_CONCAT", "DATE_ADD", "DATE", "LOWER"]) :
    Bare name ∧ Expr.isRowsWord name = false := by
  revert name
  decide

theorem length_pos_of_callCount {args' : List Expr} (hne : es ≠ [])
    (h : args'.length = Expr.callCount es) : args' ≠ [] := by
  obtain ⟨a, es, rfl⟩ := List.exists_cons_of_ne_nil hne
  rintro rfl
  simp only [List.length_nil, Expr.callCount] at h
  split at h <;> omega

/-- The node of the least or the greatest of its arguments. -/
def Expr.extremum (greatest : Bool) (es : List Expr) : Expr :=
  if greatest then .greatest es else .least es

/-- The name of the least or the greatest of several arguments. -/
def extremumName (b : Builtin) (greatest : Bool) : String :=
  match b, greatest with
  | .generic, false => "LEAST"
  | .generic, true => "GREATEST"
  | .sqlite, false => "MIN"
  | .sqlite, true => "MAX"

theorem tokensOf_extremum (greatest : Bool) (es : List Expr) :
    tokensOf b i (.extremum greatest es) =
      if b = .generic ∨ 1 < es.length then
        .raw (extremumName b greatest) :: .lparen ::
          (commas (es.map (tokensOf b i)) ++ [.rparen])
      else commas (es.map (tokensOf b i)) := by
  cases b with
  | generic =>
    cases greatest <;>
      exact (tokensOf_base rfl).trans ((tokens_call _ _).trans (by rw [tokens_fragments]; rfl))
  | sqlite =>
    have hcall (name : String) : (Style.callOrOperand (style .sqlite i).fragment name es).tokens =
        if 1 < es.length then
          .raw name :: .lparen :: (commas (es.map (tokensOf .sqlite i)) ++ [.rparen])
        else commas (es.map (tokensOf .sqlite i)) := by
      unfold Style.callOrOperand
      split
      · rw [tokens_call, tokens_fragments]
      · rw [tokens_commaSeparated, tokens_fragments]
    cases greatest with
    | false =>
      simpa [extremumName, Expr.extremum] using
        (@tokensOf_custom .sqlite i (.least es) .least rfl).trans (hcall "MIN")
    | true =>
      simpa [extremumName, Expr.extremum] using
        (@tokensOf_custom .sqlite i (.greatest es) .greatest rfl).trans (hcall "MAX")

theorem call_extremum (greatest : Bool) {args' : List Expr} (hne : args' ≠ []) :
    Dialect.generic.call (extremumName .generic greatest) args' =
      .ok (.extremum greatest args') := by
  obtain ⟨a, rest, rfl⟩ := List.exists_cons_of_ne_nil hne
  cases greatest with
  | false => exact @call_of_some .generic _ _ (function?_name .generic .least) _
  | true => exact @call_of_some .generic _ _ (function?_name .generic .greatest) _

theorem shown_extremum {greatest : Bool} (h : Prepared b i (.extremum greatest es)) :
    Shown b i (.extremum greatest es) := by
  have hchildren : (Expr.extremum greatest es).children = es := by cases greatest <;> rfl
  have hne : es ≠ [] := by
    rintro rfl
    cases greatest <;> cases h.sound
  have hready : ∀ c ∈ es, c ∈ (Expr.extremum greatest es).children ∧ c.All (Ready b i) :=
    fun c hc => ⟨by rwa [hchildren], h.children c (by rwa [hchildren])⟩
  have hname : Bare (extremumName b greatest) ∧
      Expr.isRowsWord (extremumName b greatest) = false :=
    bare_of_mem (by cases b <;> cases greatest <;> decide)
  have hsettled : b = .generic →
      (Expr.extremum greatest es).settled b i = .extremum greatest (es.map (Expr.settled b i)) := by
    rintro rfl
    rw [Expr.settled_eq]
    cases greatest <;> rfl
  by_cases hcall : b = .generic ∨ 1 < es.length
  · have hslots : ∀ s ∈ Expr.arguments es, s.2.tier b ≤ s.1 := by
      have := h.clear.1
      match b, es, hcall with
      | .generic, es, _ => cases greatest <;> exact this
      | .sqlite, [], hcall => simp at hcall
      | .sqlite, [a], hcall => simp at hcall
      | .sqlite, a :: c :: es, _ => cases greatest <;> exact this
    have htier : (Expr.extremum greatest es).tier b = 0 := by
      match b, es, hcall with
      | .generic, es, _ => cases greatest <;> rfl
      | .sqlite, [], hcall => simp at hcall
      | .sqlite, [a], hcall => simp at hcall
      | .sqlite, a :: c :: es, _ => cases greatest <;> rfl
    refine shown_arguments hname.1 (by rw [tokensOf_extremum, if_pos hcall]) hready hslots htier
      (fun _ => hname.2) fun args' hlength => ?_
    cases b with
    | generic =>
      refine ⟨_, call_extremum greatest (length_pos_of_callCount hne hlength), fun hf => ⟨?_, ?_⟩⟩
      · cases greatest <;> exact hf
      · rintro rfl
        exact (hsettled rfl).symm
    | sqlite =>
      have hnone : Builtin.sqlite.function? (extremumName .sqlite greatest) = none := by
        cases greatest <;> decide
      refine ⟨_, @call_of_none .sqlite _ hnone args', fun hf => ?_⟩
      have hlength' : es.length = 1 := by cases greatest <;> exact hf
      rw [hlength'] at hcall
      simp at hcall
  · obtain ⟨rfl, a, rfl⟩ : b = .sqlite ∧ ∃ a, es = [a] := by
      match b, es, hcall, hne with
      | .generic, _, hcall, _ => simp at hcall
      | .sqlite, [a], _, _ => exact ⟨rfl, a, rfl⟩
      | .sqlite, a :: c :: es, hcall, _ => simp at hcall
    have hslot : a.tier .sqlite ≤ 8 := by
      have := h.clear.1
      cases greatest <;> exact this (8, a) (by simp [Expr.extremum, Expr.slots])
    refine shown_operand ((hready a (by simp)).2.self.shown hslot) ?_ ?_ ?_ fun hf => ⟨?_, ?_⟩
    · rw [tokensOf_extremum, if_neg hcall]
      rfl
    · cases greatest <;> rfl
    · cases greatest <;> simp [Expr.extremum, Expr.starred]
    · exact hf.child (hready a (by simp)).1
    · rw [Expr.settled_eq]
      cases greatest <;> rfl

/-- The name of the edit distance. -/
def distanceName : Builtin → String
  | .generic => "LEVENSHTEIN"
  | .sqlite => "EDITDIST3"

theorem tokensOf_levenshtein (es : List Expr) :
    tokensOf b i (.levenshtein es) =
      .raw (distanceName b) :: .lparen :: (commas (es.map (tokensOf b i)) ++ [.rparen]) := by
  have hcall (name : String) : (Fragment.call name (es.map (style b i).fragment)).tokens =
      .raw name :: .lparen :: (commas (es.map (tokensOf b i)) ++ [.rparen]) := by
    rw [tokens_call, tokens_fragments]
  cases b with
  | generic => exact (tokensOf_base rfl).trans (hcall _)
  | sqlite =>
    rw [tokensOf, Style.fragment_eq, Style.node]
    exact hcall _

theorem shown_levenshtein (h : Prepared b i (.levenshtein es)) :
    Shown b i (.levenshtein es) := by
  have hname : Bare (distanceName b) ∧ Expr.isRowsWord (distanceName b) = false :=
    bare_of_mem (by cases b <;> decide)
  have hfunction : b.function? (distanceName b) = some .levenshtein := by
    cases b <;> decide
  obtain ⟨a, c, rest, rfl⟩ : ∃ a c rest, es = a :: c :: rest := by
    have hsound := h.sound
    match es with
    | [] => cases hsound
    | [a] => cases hsound
    | a :: c :: rest => exact ⟨a, c, rest, rfl⟩
  have hslots : ∀ x ∈ a :: c :: rest, x.tier b ≤ 8 := by
    intro x hx
    refine h.clear.1 (8, x) ?_
    cases b <;> exact List.mem_map_of_mem hx
  obtain ⟨es', hs, hfs⟩ := listed_of_shown fun x hx =>
    ⟨(h.children x hx).self.shown (hslots x hx), hslots x hx⟩
  obtain _ | ⟨ha, _ | ⟨hc, hrest⟩⟩ := hs
  refine shown_call hname.1 (tokensOf_levenshtein _) (Listed.args (.cons ha (.cons hc hrest)))
    (call_of_some hfunction _) (by cases b <;> rfl) (fun _ => hname.2) fun hf => ?_
  rw [hfs fun x hx => hf.child hx, Expr.settled_eq]
  cases b <;> rfl

/-! ## extractions -/

/-- The node of a JSON extraction. -/
def Expr.extraction (binary scalar : Bool) (a path : Expr) : Expr :=
  match binary, scalar with
  | false, false => .jsonExtract a path
  | false, true => .jsonExtractScalar a path
  | true, false => .jsonbExtract a path
  | true, true => .jsonbExtractScalar a path

/-- The function of a JSON extraction. -/
def CallKind.extraction (binary scalar : Bool) : CallKind :=
  match binary, scalar with
  | false, false => .jsonExtract
  | false, true => .jsonExtractScalar
  | true, false => .jsonbExtract
  | true, true => .jsonbExtractScalar

theorem build_extraction (binary scalar : Bool) (a path : Expr) :
    (CallKind.extraction binary scalar).build [a, path] = .ok (.extraction binary scalar a path) := by
  cases binary <;> cases scalar <;> rfl

theorem tokensOf_extraction_generic (binary scalar : Bool) (a path : Expr) :
    tokensOf .generic i (.extraction binary scalar a path) =
      .raw (CallKind.extraction binary scalar).name :: .lparen ::
        (commas [tokensOf .generic i a, tokensOf .generic i path] ++ [.rparen]) := by
  have hname : (CallKind.extraction binary scalar).name = match binary, scalar with
      | false, false => "JSON_EXTRACT"
      | false, true => "JSON_EXTRACT_SCALAR"
      | true, false => "JSONB_EXTRACT"
      | true, true => "JSONB_EXTRACT_SCALAR" := by
    cases binary <;> cases scalar <;> decide
  rw [hname]
  cases binary <;> cases scalar <;> exact (tokensOf_base rfl).trans (tokens_call _ _)

/-- The arrow of a JSON extraction. -/
def arrowText (scalar : Bool) : String := if scalar then "->>" else "->"

theorem tokensOf_extraction_sqlite (binary scalar : Bool) (a path : Expr) :
    tokensOf .sqlite i (.extraction binary scalar a path) =
      tokensOf .sqlite i a ++ .space :: .raw (arrowText scalar) :: .space ::
        tokensOf .sqlite i path := by
  have harrow (op : String) {e : Expr} (h : (style .sqlite i).arrow (style .sqlite i).fragment op e =
      (style .sqlite i).fragment a ++ .ofTokens [.space, .raw op, .space] ++
        (style .sqlite i).fragment path) :
      ((style .sqlite i).arrow (style .sqlite i).fragment op e).tokens =
        tokensOf .sqlite i a ++ .space :: .raw op :: .space :: tokensOf .sqlite i path := by
    rw [h]
    simp [Fragment.ofTokens, tokensOf]
  cases scalar with
  | false => cases binary <;> exact (tokensOf_custom (r := .arrow) rfl).trans (harrow "->" rfl)
  | true => cases binary <;> exact (tokensOf_custom (r := .doubleArrow) rfl).trans (harrow "->>" rfl)

theorem Expr.settled_extraction (binary scalar : Bool) (a path : Expr) :
    (extraction binary scalar a path).settled b i =
      extraction binary scalar (a.settled b i) (path.settled b i) := by
  rw [settled_eq]
  cases b <;> cases binary <;> cases scalar <;> rfl

theorem shown_extraction {binary scalar : Bool} {path : Expr} (ha : a.All (Ready b i))
    (hp : path.All (Ready b i)) (hc : Clear b (.extraction binary scalar a path)) :
    Shown b i (.extraction binary scalar a path) := by
  have hchildren : (Expr.extraction binary scalar a path).children = [a, path] := by
    cases binary <;> cases scalar <;> rfl
  cases b with
  | generic =>
    have hslots : a.tier .generic ≤ 8 ∧ path.tier .generic ≤ 8 := by
      have := hc.1
      cases binary <;> cases scalar <;> simpa [Expr.extraction, Expr.slots] using this
    obtain ⟨a', ha, hfa⟩ := (ha.self.shown hslots.1).loose hslots.1
    obtain ⟨p', hp, hfp⟩ := (hp.self.shown hslots.2).loose hslots.2
    have hname : Bare (CallKind.extraction binary scalar).name ∧
        Expr.isRowsWord (CallKind.extraction binary scalar).name = false :=
      bare_of_mem (by cases binary <;> cases scalar <;> decide)
    refine shown_call hname.1 (tokensOf_extraction_generic ..) (Listed.args (.cons ha (.cons hp .nil)))
      (@call_of_some .generic _ _ (function?_name ..) _ |>.trans (build_extraction ..))
      (by cases binary <;> cases scalar <;> rfl) (fun _ => hname.2) fun hf => ?_
    rw [Expr.settled_extraction, hfa (hf.child (by simp [hchildren])),
      hfp (hf.child (by simp [hchildren]))]
  | sqlite =>
    have hslots : a.tier .sqlite ≤ 2 ∧ path.tier .sqlite ≤ 1 := by
      have := hc.1
      cases binary <;> cases scalar <;> simpa [Expr.extraction, Expr.slots] using this
    obtain ⟨⟨a', ha, hfa⟩, -⟩ := ha.self.shown (by omega)
    obtain ⟨⟨p', hp, hfp⟩, -⟩ := hp.self.shown (by omega)
    have htier : (Expr.extraction binary scalar a path).tier .sqlite = 2 := by
      cases binary <;> cases scalar <;> rfl
    have hstar : a.starred .sqlite = true →
        (Expr.extraction binary scalar a path).starred .sqlite = true := by
      cases binary <;> cases scalar <;> simp [Expr.extraction, Expr.starred]
    refine ⟨⟨.extraction false scalar a' p', ?_, fun hf => ?_⟩, fun h => absurd h (by omega)⟩
    · rw [tokensOf_extraction_sqlite]
      refine ha.append (by simp) fun ls₁ h₁ => ?_
      refine .space ?_
      have hnode {t : Lexeme} {ls₂ : List Lexeme} (ht : t.kind = if scalar then .doubleArrow else .arrow)
          (h₂ : ReadAs .sqlite path p' ls₂) :
          ReadAs .sqlite (.extraction binary scalar a path) (.extraction false scalar a' p')
            (ls₁ ++ t :: ls₂) := by
        refine h₁.behind ?_ hstar (by omega)
        rw [htier]
        refine .binary (h₁.derives.raise hslots.1 (by decide)) ?_
          (h₂.derives.raise hslots.2 (by decide))
        rw [ht]
        cases scalar <;> rfl
      cases scalar with
      | false => exact .arrow fun t ht => hp.imp fun ls₂ => hnode ht
      | true => exact .doubleArrow fun t ht => hp.imp fun ls₂ => hnode ht
    · have hbinary : binary = false := by
        have := hf.self
        cases binary with
        | false => rfl
        | true => cases scalar <;> cases this
      rw [Expr.settled_extraction, hbinary, hfa (hf.child (by simp [hchildren])),
        hfp (hf.child (by simp [hchildren]))]

/-! ## dates -/

/-- The argument that names a unit. -/
def unitTokens (unit : Option String) : List (List Token) :=
  unit.toList.map fun u => [.raw (upper u)]

theorem tokensOf_dateAdd_generic (a n : Expr) (unit : Option String) :
    tokensOf .generic i (.dateAdd a n unit) =
      .raw "DATE_ADD" :: .lparen ::
        (commas (tokensOf .generic i a :: tokensOf .generic i n :: unitTokens unit) ++ [.rparen]) := by
  rw [tokensOf_base rfl, Style.base]
  cases unit <;> simp [Style.optional, Fragment.ofTokens, Fragment.commaSeparated, tokensOf,
    unitTokens, commas, Fragment.raw]

/-- What a date is moved by, as the text in one string. -/
def movedText (i : Bool) (n : Expr) (unit : Option String) : String :=
  let text := ((style .sqlite i).amount (style .sqlite i).fragment n).1
  match unit with
  | some u => text ++ " " ++ u
  | none => text

theorem tokensOf_dateAdd_sqlite (a n : Expr) (unit : Option String) :
    tokensOf .sqlite i (.dateAdd a n unit) =
      .raw "DATE" :: .lparen ::
        (commas [tokensOf .sqlite i a, [.raw (quoteString (movedText i n unit))]] ++ [.rparen]) :=
  (tokensOf_custom (r := .dateAdd) rfl).trans (tokens_call _ _)

/-- The arguments of a call that moves a date, with a bare name for a unit. -/
theorem moved_arguments {n a' n' : Expr} {unit : Option String}
    (ha : Loose .generic (tokensOf .generic i a) a')
    (hn : Loose .generic (tokensOf .generic i n) n') (hunit : ∀ u, unit = some u → Bare (upper u)) :
    ∃ args', Written .generic
        (commas (tokensOf .generic i a :: tokensOf .generic i n :: unitTokens unit))
        (fun ls => Derives .generic (.args args') ls) ∧
      Dialect.generic.call "DATE_ADD" args' = .ok (.dateAdd a' n' (unit.map upper)) := by
  have hcall := @call_of_some .generic _ _ (function?_name .generic .dateAdd)
  cases unit with
  | none => exact ⟨_, Listed.args (.cons ha (.cons hn .nil)), hcall _⟩
  | some u =>
    have hbare := hunit u rfl
    have hword : Loose .generic [.raw (upper u)] (.column none ⟨upper u, false⟩) := by
      refine Written.word hbare.1 (by simp) fun t ht htext => .nil ?_
      exact (Derives.column (hbare.identOf? ht htext)).raise (Nat.zero_le 8) (Nat.le_refl 8)
    exact ⟨_, Listed.args (.cons ha (.cons hn (.cons hword .nil))), hcall _⟩

theorem shown_dateAdd {n : Expr} {unit : Option String} (h : Prepared b i (.dateAdd a n unit)) :
    Shown b i (.dateAdd a n unit) := by
  have hclear := h.clear
  have ha : a.All (Ready b i) := h.children a (by simp [Expr.children])
  cases b with
  | generic =>
    have hn : n.All (Ready .generic i) := h.children n (by simp [Expr.children])
    have hslots : a.tier .generic ≤ 8 ∧ n.tier .generic ≤ 8 := by
      simpa [Expr.slots] using hclear.1
    obtain ⟨a', ha, -⟩ := (ha.self.shown hslots.1).loose hslots.1
    obtain ⟨n', hn, -⟩ := (hn.self.shown hslots.2).loose hslots.2
    have hname := @bare_of_mem "DATE_ADD" (by decide)
    obtain ⟨args', hargs, hcall⟩ := moved_arguments ha hn (hclear.2 rfl)
    exact shown_call hname.1 (tokensOf_dateAdd_generic ..) hargs hcall rfl (fun _ => hname.2)
      fun hf => (hf.self : False).elim
  | sqlite =>
    have hslot : a.tier .sqlite ≤ 9 := by simpa [Expr.slots] using hclear.1
    have hmoved : Loose .sqlite [.raw (quoteString (movedText i n unit))]
        (.literal (.string (movedText i n unit))) := by
      refine Written.string (by simp) fun t ht => .nil ?_
      exact (Derives.literal (by rw [literalOf?, ht])).raise (Nat.zero_le 8) (Nat.le_refl 8)
    obtain ⟨args', hw, -⟩ := arguments_written ha hslot (.cons hmoved .nil)
    have hname := @bare_of_mem "DATE" (by decide)
    have hnone : Builtin.sqlite.function? "DATE" = none := by decide
    exact shown_call hname.1 (tokensOf_dateAdd_sqlite ..) hw (@call_of_none .sqlite _ hnone _) rfl
      (fun _ => hname.2) fun hf => (hf.self : False).elim

end SqlDialect
