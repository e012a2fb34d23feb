import Mathlib.Data.List.TakeWhile
import SqlDialect.Proofs.Grammar.Derivation
import SqlDialect.Proofs.Lexeme.Number
import SqlDialect.Proofs.Text.Case

/-!
# SqlDialect.Proofs.DataType.Spelling

Spellings of types, and what they are read as.

* `typeNames` -- the names that types go by.
* `ParamsText`, `TypeText` -- a name, perhaps with parameters in parentheses, and
  spaces between all of these.
* `TypeText.ofText?` -- such a text is read as the kind of the name with the
  parameters.
* `TypeText.scans`, `TypeText.scans_typeOf` -- and so are its lexemes, if no word of
  the name is a keyword.
-/

namespace SqlDialect

open Text Grammar

/-! ## names -/

/-- The names that types go by, in lower case. -/
def typeNames : List String :=
  ["bool", "boolean", "tinyint", "smallint", "int2", "int", "integer", "int4", "mediumint",
   "bigint", "int8", "float", "real", "float4", "double", "double precision", "float8", "decimal",
   "numeric", "number", "char", "character", "nchar", "native character", "varchar",
   "character varying", "varying character", "nvarchar", "text", "string", "clob", "binary",
   "varbinary", "blob", "bytea", "date", "time", "timestamp", "datetime", "timestamptz",
   "timestamp with time zone", "json", "jsonb", "uuid"]

theorem mem_typeNames {name : String} {kind : TypeKind}
    (h : DataType.kindOfAlias? name = some kind) : name ∈ typeNames := by
  unfold DataType.kindOfAlias? at h
  split at h <;> first
    | decide
    | cases h

/-- No name starts or ends with a blank or holds a parenthesis, in any case. -/
theorem typeName_chars {name : String} {kind : TypeKind}
    (h : DataType.kindOfAlias? (lower name) = some kind) :
    name.toList ≠ [] ∧ (∀ c ∈ name.toList, c.toLower ≠ '(') ∧
      (∀ c ∈ name.toList.head?, isBlank c = false) ∧
      ∀ c ∈ name.toList.getLast?, isBlank c = false := by
  have hall : ∀ n ∈ typeNames, n.toList ≠ [] ∧ (n.toList.all fun c => c ≠ '(') = true ∧
      (n.toList.head?.all fun c => !isBlank c) = true ∧
      (n.toList.getLast?.all fun c => !isBlank c) = true := by decide
  obtain ⟨hne, hparen, hhead, hlast⟩ := hall _ (mem_typeNames h)
  rw [toList_lower] at hne hparen hhead hlast
  simp only [List.all_map, List.all_eq_true, Function.comp_apply, decide_eq_true_eq] at hparen
  have hblank {o : Option Char} (ho : ((o.map Char.toLower).all fun c => !isBlank c) = true) :
      ∀ c ∈ o, isBlank c = false := by
    intro c hc
    cases hc
    rw [← (toLower_spec c).2]
    simpa using ho
  rw [List.head?_map] at hhead
  rw [List.getLast?_map] at hlast
  exact ⟨by simpa using hne, hparen, hblank hhead, hblank hlast⟩

/-! ## spellings -/

/-- Any number of spaces. -/
def Spaces (cs : List Char) : Prop := ∀ c ∈ cs, c = ' '

/-- A parameter: digits, with spaces around them. -/
inductive ParamText (p : UInt32) : List Char → Prop where
  | mk {pre ds post : List Char} (hpre : Spaces pre) (hne : ds ≠ []) (hd : Digits ds)
      (hp : decimalValue ds = p.toNat) (hpost : Spaces post) : ParamText p (pre ++ ds ++ post)

/-- One or more parameters with commas between them. -/
inductive ParamsText : List UInt32 → List Char → Prop where
  | one {p : UInt32} {cs : List Char} (h : ParamText p cs) : ParamsText [p] cs
  | more {p : UInt32} {ps : List UInt32} {cs ds : List Char} (h : ParamText p cs)
      (hs : ParamsText ps ds) : ParamsText (p :: ps) (cs ++ ',' :: ds)

/-- A type by a name: the name alone, or with parameters in parentheses. -/
inductive TypeText (name : String) : List UInt32 → String → Prop where
  | plain : TypeText name [] name
  | withParams {ps : List UInt32} {gap cs : List Char} (hgap : Spaces gap)
      (hs : ParamsText ps cs) :
      TypeText name ps (name ++ String.ofList (gap ++ '(' :: (cs ++ [')'])))

theorem Spaces.nil : Spaces [] := List.forall_mem_nil _

theorem Spaces.single : Spaces [' '] := fun _ hc => List.mem_singleton.1 hc

theorem ParamText.digits {p : UInt32} {ds : List Char} (hne : ds ≠ []) (hd : Digits ds)
    (hp : decimalValue ds = p.toNat) : ParamText p ds := by
  have h := ParamText.mk Spaces.nil hne hd hp Spaces.nil
  rwa [List.nil_append, List.append_nil] at h

/-- Spaces in front belong to the first parameter. -/
theorem ParamsText.spaced {ps : List UInt32} {cs gap : List Char} (h : ParamsText ps cs)
    (hgap : Spaces gap) : ParamsText ps (gap ++ cs) := by
  have hone {p : UInt32} {cs : List Char} (h : ParamText p cs) : ParamText p (gap ++ cs) := by
    cases h with
    | mk hpre hne hd hp hpost =>
      rw [← List.append_assoc, ← List.append_assoc]
      exact .mk (List.forall_mem_append.2 ⟨hgap, hpre⟩) hne hd hp hpost
  cases h with
  | one h => exact .one (hone h)
  | more h hs =>
    rw [← List.append_assoc]
    exact .more (hone h) hs

/-! ## reading -/

theorem Spaces.isBlank {cs : List Char} (h : Spaces cs) : ∀ c ∈ cs, isBlank c = true := by
  intro c hc
  rw [h c hc]
  decide

theorem isBlank_of_isDigit {c : Char} (h : c.isDigit = true) : isBlank c = false := by
  have hall : ∀ c ∈ delimiters, isBlank c = false := forall_mem_of_all (by decide)
  exact hall c (mem_delimiters_of_isDigit h)

/-- What stands in parameters has no case, and none of it is a parenthesis. -/
theorem ParamText.chars {p : UInt32} {cs : List Char} (h : ParamText p cs) :
    ∀ c ∈ cs, c.toLower = c ∧ c ≠ ',' := by
  cases h with
  | mk hpre _ hd _ hpost =>
    have hdigit {c : Char} (hc : c.isDigit = true) : c.toLower = c ∧ c ≠ ',' := by
      have hall : ∀ c ∈ delimiters, c.toLower = c ∧ c ≠ ',' := forall_mem_of_all (by decide)
      exact hall c (mem_delimiters_of_isDigit hc)
    have hspace {c : Char} (hc : c = ' ') : c.toLower = c ∧ c ≠ ',' := by
      rw [hc]
      decide
    intro c hc
    rcases List.mem_append.1 hc with hc | hc
    · rcases List.mem_append.1 hc with hc | hc
      · exact hspace (hpre c hc)
      · exact hdigit (hd c hc)
    · exact hspace (hpost c hc)

theorem ParamsText.chars {ps : List UInt32} {cs : List Char} (h : ParamsText ps cs) :
    ∀ c ∈ cs, c.toLower = c := by
  induction h with
  | one h => exact fun c hc => (h.chars c hc).1
  | more h _ ih =>
    rw [List.forall_mem_append, List.forall_mem_cons]
    exact ⟨fun c hc => (h.chars c hc).1, by decide, ih⟩

/-- Digits are read as their number, with spaces around them or not. -/
theorem ParamText.param? {p : UInt32} {cs : List Char} (h : ParamText p cs) :
    DataType.param? (trimChars cs) = some p := by
  cases h with
  | @mk pre ds post hpre hne hd hp hpost =>
    have htrim : trimChars (pre ++ ds ++ post) = ds :=
      trimChars_around hpre.isBlank hpost.isBlank hne
        (fun c hc => isBlank_of_isDigit (hd c (List.mem_of_mem_head? hc)))
        fun c hc => isBlank_of_isDigit (hd c (List.mem_of_mem_getLast? hc))
    have hsize : ¬ UInt32.size ≤ p.toNat := Nat.not_le.2 p.toNat_lt
    rw [htrim, DataType.param?]
    · simp only [hp, List.all_eq_true.2 hd, List.isEmpty_iff, hne, Bool.not_true,
        Bool.false_eq_true, hsize, or_false, if_false, UInt32.ofNat_toNat]
    · rintro es rfl
      have := hd '+' List.mem_cons_self
      revert this
      decide

theorem ParamsText.params {ps : List UInt32} {cs : List Char} (h : ParamsText ps cs) :
    (splitOn ',' cs).mapM (fun part => DataType.param? (trimChars part)) = some ps := by
  induction h with
  | one h =>
    rw [splitOn_of_notMem fun hc => (h.chars _ hc).2 rfl]
    simp [h.param?]
  | more h _ ih =>
    rw [splitOn_append fun hc => (h.chars _ hc).2 rfl]
    simp [h.param?, ih]

/-- A name alone is read as its kind. -/
theorem ofText?_name {name : String} {kind : TypeKind}
    (hname : DataType.kindOfAlias? (lower name) = some kind) :
    DataType.ofText? name = some ⟨kind, []⟩ := by
  obtain ⟨-, hparen, hhead, hlast⟩ := typeName_chars hname
  have hopen : ∀ c ∈ name.toList.map Char.toLower, decide (c ≠ '(') = true :=
    List.forall_mem_map.2 fun c hc => decide_eq_true (hparen c hc)
  rw [DataType.ofText?]
  simp only [trimChars_eq_self hhead hlast, List.takeWhile_eq_self_iff.2 hopen,
    List.dropWhile_eq_nil_iff.2 hopen]
  rw [← lower, hname, Option.map_some]

/-- A name with parameters in parentheses is read as its kind with these. -/
theorem ofText?_withParams {name : String} {kind : TypeKind} {ps : List UInt32}
    {gap cs : List Char} (hname : DataType.kindOfAlias? (lower name) = some kind)
    (hgap : Spaces gap) (hs : ParamsText ps cs) :
    DataType.ofText? (name ++ String.ofList (gap ++ '(' :: (cs ++ [')']))) = some ⟨kind, ps⟩ := by
  obtain ⟨hne, hparen, hhead, hlast⟩ := typeName_chars hname
  have htext : (name ++ String.ofList (gap ++ '(' :: (cs ++ [')']))).toList =
      name.toList ++ gap ++ '(' :: (cs ++ [')']) := by
    rw [String.toList_append, String.toList_ofList, List.append_assoc]
  have htrim : trimChars (name.toList ++ gap ++ '(' :: (cs ++ [')'])) =
      name.toList ++ gap ++ '(' :: (cs ++ [')']) := by
    refine trimChars_eq_self ?_ fun c hc => ?_
    · obtain ⟨c, ds, hcs⟩ := List.exists_cons_of_ne_nil hne
      rw [hcs] at hhead ⊢
      exact hhead
    · rw [← List.cons_append, ← List.append_assoc, List.getLast?_concat] at hc
      cases hc
      decide
  have hmap : (name.toList ++ gap ++ '(' :: (cs ++ [')'])).map Char.toLower =
      (name.toList ++ gap).map Char.toLower ++ '(' :: (cs ++ [')']) := by
    have hfixed : cs.map Char.toLower = cs :=
      (List.map_congr_left (g := id) hs.chars).trans (List.map_id _)
    simp only [List.map_append, List.map_cons, List.map_nil, hfixed]
    rfl
  have hopen : ∀ c ∈ (name.toList ++ gap).map Char.toLower, decide (c ≠ '(') = true := by
    rw [List.forall_mem_map, List.forall_mem_append]
    refine ⟨fun c hc => decide_eq_true (hparen c hc), fun c hc => ?_⟩
    rw [hgap c hc]
    decide
  have htake : ((name.toList ++ gap).map Char.toLower ++ '(' :: (cs ++ [')'])).takeWhile
      (fun c => decide (c ≠ '(')) = (name.toList ++ gap).map Char.toLower :=
    takeWhile_append hopen (by intro c hc; cases hc; rfl)
  have hdrop : ((name.toList ++ gap).map Char.toLower ++ '(' :: (cs ++ [')'])).dropWhile
      (fun c => decide (c ≠ '(')) = '(' :: (cs ++ [')']) := by
    rw [List.dropWhile_append_of_pos hopen]
    rfl
  have hparams : DataType.params? (cs ++ [')']) = some ps := by
    rw [DataType.params?, List.getLast?_concat, if_pos rfl, List.dropLast_concat, hs.params]
  have hself : trimChars (name.toList ++ gap) = name.toList :=
    trimChars_around (List.forall_mem_nil _) hgap.isBlank hne hhead hlast
  rw [DataType.ofText?, htext]
  simp only [htrim, hmap, htake, hdrop, hparams, Option.bind_some, trimChars_map_toLower, hself]
  rw [← lower, hname, Option.map_some]

/-- A spelling is read as the kind of the name with the parameters. -/
theorem TypeText.ofText? {name s : String} {kind : TypeKind} {ps : List UInt32}
    (h : TypeText name ps s) (hname : DataType.kindOfAlias? (lower name) = some kind) :
    DataType.ofText? s = some ⟨kind, ps⟩ := by
  cases h with
  | plain => exact ofText?_name hname
  | withParams hgap hs => exact ofText?_withParams hname hgap hs

/-! ## lexemes -/

variable {b : Builtin} {P : List Lexeme → Prop}

theorem Spaces.scans {F : List Char → Prop} {cs : List Char} (h : Spaces cs) (hP : P []) :
    Scans b.dialect F cs P := by
  induction cs with
  | nil => exact .nil hP
  | cons c cs ih =>
    obtain ⟨rfl, hcs⟩ := List.forall_mem_cons.1 h
    refine Scans.cons (P := fun ls => ls = []) (scans_space (F := fun _ => True) rfl)
      (fun _ _ => trivial) ?_
    rintro _ rfl
    exact ih hcs

/-- What may start with a space may start with any number of them. -/
theorem Spaces.before {F : List Char → Prop} {cs rest : List Char} (h : Spaces cs) (hr : F rest)
    (hF : ∀ ds, F (' ' :: ds)) : F (cs ++ rest) := by
  cases cs with
  | nil => exact hr
  | cons c cs =>
    rw [h c List.mem_cons_self]
    exact hF _

theorem ParamText.scans {p : UInt32} {cs : List Char} (h : ParamText p cs) :
    Scans b.dialect Ended cs fun ls =>
      ∃ t, ls = [t] ∧ t.kind = .number ∧ ParamText p t.text.toList := by
  cases h with
  | @mk pre ds post hpre hne hd hp hpost =>
    have hnumber : NumberText ds := by
      rw [← List.append_nil ds]
      exact .whole hne hd .none
    rw [List.append_assoc]
    refine Scans.append (P := fun ls => ls = []) (hpre.scans (F := fun _ => True) rfl)
      (fun _ _ => trivial) ?_
    rintro _ rfl
    refine (scans_number hnumber).append
      (fun _ hr => hpost.before hr fun _ => .cons (by decide) _) ?_
    rintro _ ⟨t, rfl, ht, htext⟩
    refine hpost.scans ⟨t, rfl, ht, ?_⟩
    rw [htext, String.toList_ofList]
    exact .digits hne hd hp

/-- The lexemes of parameters in parentheses, or none. -/
inductive ParensOf : List UInt32 → List Lexeme → Prop where
  | none : ParensOf [] []
  | some {ps : List UInt32} {u v : Lexeme} {texts : List String} {qs : List Lexeme}
      (hu : u.kind = .lparen) (hqs : ParamsOf texts qs)
      (hps : ParamsText ps (", ".intercalate texts).toList) (hv : v.kind = .rparen) :
      ParensOf ps (u :: qs ++ [v])

/-- The lexemes of parameters, and their texts, are parameters again. -/
theorem ParamsText.scans {ps : List UInt32} {cs : List Char} (h : ParamsText ps cs) :
    Scans b.dialect Ended cs fun ls =>
      ∃ texts, ParamsOf texts ls ∧ ParamsText ps (", ".intercalate texts).toList := by
  induction h with
  | one h =>
    refine h.scans.imp ?_
    rintro _ ⟨t, rfl, ht, htext⟩
    refine ⟨_, .one ht, ?_⟩
    rw [String.intercalate_singleton]
    exact .one htext
  | @more p ps cs ds h _ ih =>
    refine h.scans.append (fun _ _ => .cons (by decide) _) ?_
    rintro _ ⟨t, rfl, ht, htext⟩
    refine Scans.cons (scans_comma (F := fun _ => True)) (fun _ _ => trivial) ?_
    rintro _ ⟨u, rfl, hu, -⟩
    refine ih.imp ?_
    rintro ls ⟨texts, hls, htexts⟩
    refine ⟨_, .more ht hu hls, ?_⟩
    have hne : texts ≠ [] := by
      rintro rfl
      cases hls
    obtain ⟨text, others, rfl⟩ := List.exists_cons_of_ne_nil hne
    rw [String.intercalate_cons_cons, String.toList_append, String.toList_append,
      List.append_assoc]
    exact .more htext (htexts.spaced Spaces.single)

/-- The lexemes of a spelling are those of its name and of its parameters. -/
theorem TypeText.scans {name s word : String} {words : List String} {ps : List UInt32}
    (h : TypeText name ps s) (hwords : ∀ w ∈ word :: words, isWord w = true)
    (hjoin : " ".intercalate (word :: words) = name) :
    Scans b.dialect Ended s.toList fun ls => ∃ ws us, ls = ws ++ us ∧
      ws.map Lexeme.text = word :: words ∧
        ws.map Lexeme.kind = (word :: words).map (wordKind b.dialect) ∧ ParensOf ps us := by
  have hname := scans_words (b := b) hwords
  rw [hjoin] at hname
  cases h with
  | plain =>
    refine (hname.mono fun _ hr => hr.breaks).imp ?_
    rintro ws ⟨htexts, hkinds⟩
    exact ⟨ws, [], (List.append_nil ws).symm, htexts, hkinds, .none⟩
  | @withParams ps gap cs hgap hs =>
    rw [String.toList_append, String.toList_ofList]
    refine hname.append (fun rest _ => ?_) ?_
    · rw [List.append_assoc]
      exact hgap.before (.cons (by decide) _) fun _ => .cons (by decide) _
    rintro ws ⟨htexts, hkinds⟩
    refine Scans.append (P := fun ls => ls = []) (hgap.scans (F := fun _ => True) rfl)
      (fun _ _ => trivial) ?_
    rintro _ rfl
    refine Scans.cons (scans_lparen (F := fun _ => True)) (fun _ _ => trivial) ?_
    rintro _ ⟨u, rfl, hu, -⟩
    refine hs.scans.append (fun _ _ => .cons (by decide) _) ?_
    rintro qs ⟨texts, hqs, htexts'⟩
    refine (scans_rparen (F := Ended)).imp ?_
    rintro _ ⟨v, rfl, hv, -⟩
    exact ⟨ws, u :: qs ++ [v], by simp, htexts, hkinds, .some hu hqs htexts' hv⟩

/-- The lexemes of a spelling are a type if the words of its name are no
keywords. -/
theorem TypeText.scans_typeOf {name s word : String} {words : List String} {kind : TypeKind}
    {ps : List UInt32} (h : TypeText name ps s)
    (hname : DataType.kindOfAlias? (lower name) = some kind)
    (hwords : ∀ w ∈ word :: words, isWord w = true ∧ wordKind b.dialect w = .word)
    (hjoin : " ".intercalate (word :: words) = name) :
    Scans b.dialect Ended s.toList (TypeOf ⟨kind, ps⟩) := by
  refine (h.scans (fun w hw => (hwords w hw).1) hjoin).imp ?_
  rintro _ ⟨ws, us, rfl, htexts, hkinds, hus⟩
  have hkind := forall_kind_word hkinds fun w hw => (hwords w hw).2
  obtain ⟨t, ws, rfl⟩ : ∃ t ts, ws = t :: ts := by
    refine List.exists_cons_of_ne_nil ?_
    rintro rfl
    cases htexts
  have hread : typeName (t :: ws) = name := by rw [typeName, htexts, hjoin]
  cases hus with
  | none =>
    rw [List.append_nil]
    refine .plain hkind ?_
    rw [hread]
    exact ofText?_name hname
  | @some ps u v texts qs hu hqs hps hv =>
    have htype := ofText?_withParams hname Spaces.nil hps
    have htext : String.ofList ([] ++ '(' :: ((", ".intercalate texts).toList ++ [')'])) =
        "(" ++ ", ".intercalate texts ++ ")" := by
      rw [← String.toList_inj]
      simp
    rw [htext, ← String.append_assoc, ← String.append_assoc, ← hread] at htype
    simpa using TypeOf.withParams hkind hu hqs hv htype

end SqlDialect
