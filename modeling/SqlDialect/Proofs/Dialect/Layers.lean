import Mathlib.Data.List.Induction
import SqlDialect.Proofs.Lexeme.Name
import SqlDialect.Proofs.Outcome
import SqlDialect.Proofs.Settings.Enters

/-!
# SqlDialect.Proofs.Dialect.Layers

A dialect over another one is its parent with the last write to each slot.

* `Change.Slot`, `Change.slot` -- what a change writes to.
* `Dialect.View` -- what a change to one slot replaces and any other change
  leaves alone.
* `Dialect.View.read_applyAll` -- behind a list of changes, it is what the last
  of them put there.
* `Dialect.View.read_rewritten` -- the order of changes to different slots does
  not show in it.
* `Dialect.Sound.rewritten` -- nor in whether the tables are well formed.
* `last_write_wins` -- all look-ups of an extended dialect.
-/

namespace SqlDialect

namespace Text

/-- The letters that a lower-case word keeps in upper case. -/
theorem upper_lower (s : String) : upper (lower s) = upper s := by
  rw [← String.toList_inj]
  simp only [toList_upper, toList_lower, List.map_map]
  refine List.map_congr_left fun c _ => ?_
  rcases toLower_cases c with h | h
  · rw [Function.comp_apply, h]
  · have hall : ∀ c ∈ upperLetters, c.toLower.toUpper = c.toUpper :=
      forall_mem_of_all (by decide)
    exact hall c h

/-- Words are the same word where their upper cases are. -/
theorem sameWord_iff_upper {s t : String} : sameWord s t = true ↔ upper s = upper t := by
  rw [sameWord_iff]
  constructor
  · intro h
    rw [← upper_lower s, h, upper_lower]
  · intro h
    rw [← lower_upper s, h, lower_upper]

end Text

namespace Overrides

variable {κ ν : Type} [DecidableEq κ]

theorem mem_entries_set (t : Overrides κ ν) (k j : κ) (v w : ν) :
    (j, w) ∈ (t.set k v).entries ↔ if j = k then w = v else (j, w) ∈ t.entries := by
  unfold set erase
  rw [List.mem_cons, List.mem_filter, Prod.mk.injEq]
  by_cases h : j = k <;> simp [h]

theorem mem_keys_set (t : Overrides κ ν) (k j : κ) (v : ν) :
    j ∈ (t.set k v).keys ↔ j = k ∨ j ∈ t.keys := by
  unfold set erase keys
  rw [List.map_cons, List.mem_cons]
  by_cases h : j = k <;> simp [h]

end Overrides

open Text

namespace Change

/-! ## slots -/

/-- A slot of the tables of a dialect.  Words are looked up in upper case. -/
inductive Slot where
  | identifiers
  | hexStrings
  | keyword (word : String)
  | function (name : String)
  | type (k : TypeKind)
  | token (k : Keyword)
  | transform (k : NodeKind)
  deriving DecidableEq

/-- The slot that a change writes to. -/
def slot : Change → Slot
  | identifiers _ => .identifiers
  | hexStrings _ => .hexStrings
  | keyword word _ => .keyword (upper word)
  | function name _ => .function (upper name)
  | type k _ => .type k
  | token k _ => .token k
  | transform k _ => .transform k
  | clear k => .transform k

/-- Two lists of changes that write to each slot the same things in the same
order. -/
def Rewritten (cs cs' : List Change) : Prop :=
  ∀ s : Slot, (cs.filter fun c => c.slot = s) = cs'.filter fun c => c.slot = s

/-! ## what a change writes -/

/-- The keyword that a change makes of a word, in any case. -/
def keyword? (word : String) : Change → Option Keyword
  | keyword w k => if sameWord w word then some k else none
  | _ => none

/-- The function that a change puts under a name, in any case. -/
def function? (name : String) : Change → Option Constructor
  | function n f => if sameWord n name then some f else none
  | _ => none

/-- The spelling that a change gives to a kind of type. -/
def type? (k : TypeKind) : Change → Option String
  | type j spelling => if j = k then some spelling else none
  | _ => none

/-- The spelling that a change gives to a keyword. -/
def token? (k : Keyword) : Change → Option String
  | token j spelling => if j = k then some spelling else none
  | _ => none

/-- What a change makes of a kind of node; `some none` is the base form. -/
def transform? (k : NodeKind) : Change → Option (Option Transform)
  | transform j t => if j = k then some (some t) else none
  | clear j => if j = k then some none else none
  | _ => none

/-- The delimiters that a change puts around identifiers. -/
def identifiers? : Change → Option (List (Char × Char))
  | identifiers pairs => some pairs
  | _ => none

/-- The delimiters that a change puts around hexadecimal literals. -/
def hexStrings? : Change → Option (List (String × String))
  | hexStrings pairs => some pairs
  | _ => none

/-- The last thing that a list of changes writes, for one way of reading a
change. -/
def last? {α : Type} (written : Change → Option α) (cs : List Change) : Option α :=
  cs.reverse.findSome? written

section last

variable {α β : Type} {written : Change → Option α} {cs cs' : List Change}

@[simp] theorem last?_nil : last? written [] = none := rfl

@[simp] theorem last?_append_singleton (cs : List Change) (c : Change) :
    last? written (cs ++ [c]) = (written c).or (last? written cs) := by
  unfold last?
  rw [List.reverse_append, List.reverse_singleton, List.singleton_append, List.findSome?_cons]
  cases written c <;> rfl

theorem last?_map (f : α → β) (cs : List Change) :
    last? (fun c => (written c).map f) cs = (last? written cs).map f := by
  unfold last?
  rw [List.map_findSome?]
  rfl

/-- Changes to other slots do not matter. -/
theorem last?_filter {s : Slot} (h : ∀ c, c.slot ≠ s → written c = none) (cs : List Change) :
    last? written (cs.filter fun c => c.slot = s) = last? written cs := by
  induction cs using List.reverseRecOn with
  | nil => rfl
  | append_singleton cs c ih =>
    rw [List.filter_append, last?_append_singleton]
    by_cases hc : c.slot = s
    · rw [List.filter_cons_of_pos (by simpa using hc), List.filter_nil, last?_append_singleton, ih]
    · rw [List.filter_cons_of_neg (by simpa using hc), List.filter_nil, List.append_nil, ih, h c hc,
        Option.none_or]

theorem Rewritten.last? {s : Slot} (h : ∀ c, c.slot ≠ s → written c = none)
    (hr : Rewritten cs cs') : last? written cs = last? written cs' := by
  rw [← last?_filter h cs, hr s, last?_filter h]

end last

/-- Neighbours that write to different slots can change places. -/
theorem rewritten_swap {c c' : Change} (h : c.slot ≠ c'.slot) (cs cs' : List Change) :
    Rewritten (cs ++ c :: c' :: cs') (cs ++ c' :: c :: cs') := by
  intro s
  rw [List.filter_append, List.filter_append]
  congr 1
  by_cases hc : c.slot = s
  · have hc' : ¬c'.slot = s := fun hs => h (hc.trans hs.symm)
    simp only [List.filter_cons, hc, hc', decide_true, decide_false, if_true, Bool.false_eq_true,
      if_false]
  · simp only [List.filter_cons, hc, decide_false, Bool.false_eq_true, if_false]

end Change

open Change

namespace Dialect

/-! ## views -/

/-- A view of dialects that a change replaces or leaves alone, and that only
changes to one slot replace. -/
structure View (α : Type) where
  read : Dialect → α
  /-- What a change replaces it by. -/
  written : Change → Option α
  slot : Slot
  read_apply : ∀ d c, read (d.apply c) = (written c).getD (read d)
  written_of_ne : ∀ c, c.slot ≠ slot → written c = none

namespace View

variable {α : Type} (v : View α) (d : Dialect)

/-- Behind a list of changes, a view is as the last of them to replace it left
it. -/
theorem read_applyAll (cs : List Change) :
    v.read (d.applyAll cs) = (last? v.written cs).getD (v.read d) := by
  induction cs using List.reverseRecOn with
  | nil => rfl
  | append_singleton cs c ih =>
    rw [applyAll, List.foldl_append, List.foldl_cons, List.foldl_nil, v.read_apply,
      last?_append_singleton]
    change (v.written c).getD (v.read (d.applyAll cs)) = _
    rw [ih]
    cases v.written c <;> rfl

theorem read_rewritten {cs cs' : List Change} (h : Rewritten cs cs') :
    v.read (d.applyAll cs) = v.read (d.applyAll cs') := by
  rw [read_applyAll, read_applyAll, h.last? v.written_of_ne]

end View

/-! ## the views of a dialect -/

/-- The keyword that a word stands for. -/
def keywordView (word : String) : View (Option Keyword) where
  read d := d.keyword? word
  written c := (c.keyword? word).map some
  slot := .keyword (upper word)
  read_apply d c := by
    cases c with
    | keyword w k =>
      simp only [keyword?, apply, Overrides.get?_set, Change.keyword?, sameWord_iff_upper,
        eq_comm (a := upper word)]
      split <;> rfl
    | _ => rfl
  written_of_ne c h := by
    cases c with
    | keyword w k =>
      rw [Change.keyword?, if_neg fun hw => h (congrArg Slot.keyword (sameWord_iff_upper.1 hw))]
      rfl
    | _ => rfl

/-- The function that goes by a name. -/
def functionView (name : String) : View (Option Constructor) where
  read d := d.function? name
  written c := (c.function? name).map some
  slot := .function (upper name)
  read_apply d c := by
    cases c with
    | function n f =>
      simp only [function?, apply, Overrides.get?_set, Change.function?, sameWord_iff_upper,
        eq_comm (a := upper name)]
      split <;> rfl
    | _ => rfl
  written_of_ne c h := by
    cases c with
    | function n f =>
      rw [Change.function?, if_neg fun hn => h (congrArg Slot.function (sameWord_iff_upper.1 hn))]
      rfl
    | _ => rfl

/-- The entry of a kind of type. -/
def typeView (k : TypeKind) : View (Option String) where
  read d := d.types.get? k
  written c := (c.type? k).map some
  slot := .type k
  read_apply d c := by
    cases c with
    | type j s =>
      simp only [apply, Overrides.get?_set, Change.type?, eq_comm (a := k)]
      split <;> rfl
    | _ => rfl
  written_of_ne c h := by
    cases c with
    | type j s => rw [Change.type?, if_neg fun hj => h (congrArg Slot.type hj)]; rfl
    | _ => rfl

/-- The entry of a keyword. -/
def tokenView (k : Keyword) : View (Option String) where
  read d := d.tokens.get? k
  written c := (c.token? k).map some
  slot := .token k
  read_apply d c := by
    cases c with
    | token j s =>
      simp only [apply, Overrides.get?_set, Change.token?, eq_comm (a := k)]
      split <;> rfl
    | _ => rfl
  written_of_ne c h := by
    cases c with
    | token j s => rw [Change.token?, if_neg fun hj => h (congrArg Slot.token hj)]; rfl
    | _ => rfl

/-- What is done with a kind of node. -/
def transformView (k : NodeKind) : View (Option Transform) where
  read d := d.transform? k
  written := Change.transform? k
  slot := .transform k
  read_apply d c := by
    cases c with
    | transform j t =>
      simp only [transform?, apply, Overrides.get?_set, Change.transform?, eq_comm (a := k)]
      split <;> rfl
    | clear j =>
      simp only [transform?, apply, Overrides.get?_erase, Change.transform?, eq_comm (a := k)]
      split <;> rfl
    | _ => rfl
  written_of_ne c h := by
    cases c with
    | transform j t => rw [Change.transform?, if_neg fun hj => h (congrArg Slot.transform hj)]
    | clear j => rw [Change.transform?, if_neg fun hj => h (congrArg Slot.transform hj)]
    | _ => rfl

/-- The delimiters of identifiers. -/
def identifiersView : View (List (Char × Char)) where
  read d := d.lexis.identifiers
  written := Change.identifiers?
  slot := .identifiers
  read_apply d c := by cases c <;> rfl
  written_of_ne c h := by
    cases c with
    | identifiers pairs => exact absurd rfl h
    | _ => rfl

/-- The delimiters of hexadecimal literals. -/
def hexStringsView : View (List (String × String)) where
  read d := d.lexis.hexStrings
  written := Change.hexStrings?
  slot := .hexStrings
  read_apply d c := by cases c <;> rfl
  written_of_ne c h := by
    cases c with
    | hexStrings pairs => exact absurd rfl h
    | _ => rfl

/-- Whether there is an entry for a word. -/
def keywordEntry (word : String) : View Prop where
  read d := word ∈ d.lexis.keywords.keys
  written c := if c.slot = .keyword word then some True else none
  slot := .keyword word
  read_apply d c := by
    cases c with
    | keyword w k =>
      simp only [apply, Overrides.mem_keys_set, slot, Slot.keyword.injEq, eq_comm (a := word)]
      split
      case isTrue h => exact propext (iff_of_true (.inl h) trivial)
      case isFalse h => exact propext (or_iff_right h)
    | _ => rfl
  written_of_ne c h := if_neg h

/-- Whether there is an entry for a name. -/
def functionEntry (name : String) : View Prop where
  read d := name ∈ d.functions.keys
  written c := if c.slot = .function name then some True else none
  slot := .function name
  read_apply d c := by
    cases c with
    | function n f =>
      simp only [apply, Overrides.mem_keys_set, slot, Slot.function.injEq, eq_comm (a := name)]
      split
      case isTrue h => exact propext (iff_of_true (.inl h) trivial)
      case isFalse h => exact propext (or_iff_right h)
    | _ => rfl
  written_of_ne c h := if_neg h

/-- The spellings that have an entry for a keyword. -/
def tokenEntry (k : Keyword) : View (String → Prop) where
  read d s := (k, s) ∈ d.tokens.entries
  written c := (c.token? k).map fun spelling s => s = spelling
  slot := .token k
  read_apply d c := by
    cases c with
    | token j spelling =>
      funext s
      simp only [apply, Overrides.mem_entries_set, Change.token?, eq_comm (a := k)]
      split <;> rfl
    | _ => rfl
  written_of_ne c h := by
    cases c with
    | token j s => rw [Change.token?, if_neg fun hj => h (congrArg Slot.token hj)]; rfl
    | _ => rfl

/-! ## well-formed tables -/

/-- What makes the tables of a dialect well formed. -/
structure Sound (d : Dialect) : Prop where
  identifiers : d.lexis.identifiers ≠ []
  hexStrings : ∀ p ∈ d.lexis.hexStrings, p.1 ≠ ""
  keywords : ∀ word ∈ d.lexis.keywords.keys, isPlainWord word = true
  functions : ∀ name ∈ d.functions.keys, isPlainWord name = true
  types : ∀ k s, d.types.get? k = some s → checkTypeSpelling s = .ok ()
  tokens : ∀ s ∈ d.tokens.values, isPlainWord s = true
  transforms : ∀ k, d.checkTransform k = .ok ()

theorem checkWord_eq_ok_iff {what : Spelled} {s : String} :
    checkWord what s = .ok () ↔ isPlainWord s = true := by
  unfold checkWord
  split
  case isTrue h => exact iff_of_true rfl h
  case isFalse h => exact iff_of_false (fun h => by cases h) h

theorem check_eq_ok_iff (d : Dialect) : d.check = .ok () ↔ d.Sound := by
  unfold check
  by_cases hid : d.lexis.identifiers = []
  · simp only [List.isEmpty_iff, hid, if_true]
    exact iff_of_false (fun h => by cases h) fun h => h.identifiers hid
  · simp only [List.isEmpty_iff, hid, if_false, seq_eq_ok_iff, forM_eq_ok_iff, demand_eq_ok_iff,
      checkWord_eq_ok_iff, List.mem_filterMap, forall_exists_index, and_imp]
    constructor
    · rintro ⟨hhex, hkey, hfun, htyp, htok, htrans⟩
      exact ⟨hid, hhex, hkey, hfun, fun k s h => htyp s k k.mem_all h, htok,
        fun k => htrans k k.mem_all⟩
    · intro h
      exact ⟨h.hexStrings, h.keywords, h.functions, fun s k _ => h.types k s, h.tokens,
        fun k _ => h.transforms k⟩

/-- A dialect is accepted as it is, or not at all. -/
theorem checked_isOk_iff (d : Dialect) : d.checked.isOk = true ↔ d.Sound := by
  rw [← check_eq_ok_iff]
  unfold checked
  cases d.check with
  | error e => exact iff_of_false Bool.false_ne_true fun h => by cases h
  | ok u => exact iff_of_true rfl rfl

/-- Whether the tables are well formed does not depend on the order of changes
to different slots. -/
theorem Sound.rewritten {d : Dialect} {cs cs' : List Change} (hr : Rewritten cs cs')
    (h : (d.applyAll cs).Sound) : (d.applyAll cs').Sound where
  identifiers := by
    have hview := identifiersView.read_rewritten d hr
    exact fun hid => h.identifiers (hview.trans hid)
  hexStrings := by
    have hview : (d.applyAll cs).lexis.hexStrings = (d.applyAll cs').lexis.hexStrings :=
      hexStringsView.read_rewritten d hr
    rw [← hview]
    exact h.hexStrings
  keywords word hw := h.keywords word (((keywordEntry word).read_rewritten d hr).mpr hw)
  functions name hn := h.functions name (((functionEntry name).read_rewritten d hr).mpr hn)
  types k s hs := h.types k s (((typeView k).read_rewritten d hr).trans hs)
  tokens s hs := by
    obtain ⟨⟨k, t⟩, hmem, rfl⟩ := List.mem_map.1 hs
    have hview := congrFun ((tokenEntry k).read_rewritten d hr) t
    exact h.tokens t (List.mem_map.2 ⟨(k, t), hview.mpr hmem, rfl⟩)
  transforms k := by
    have hview : (d.applyAll cs).transform? k = (d.applyAll cs').transform? k :=
      (transformView k).read_rewritten d hr
    have hk := h.transforms k
    unfold checkTransform at hk ⊢
    rwa [← hview]

/-! ## the look-ups of an extended dialect -/

/-- All look-ups of a dialect give what a list of changes wrote last, and what
another dialect gives where they wrote nothing. -/
structure Layered (parent : Dialect) (cs : List Change) (d : Dialect) : Prop where
  keyword : ∀ word,
    d.keyword? word = (last? (Change.keyword? word) cs).or (parent.keyword? word)
  function : ∀ name,
    d.function? name = (last? (Change.function? name) cs).or (parent.function? name)
  type : ∀ k, d.typeSpelling k = (last? (Change.type? k) cs).getD (parent.typeSpelling k)
  token : ∀ k, d.spelling k = (last? (Change.token? k) cs).getD (parent.spelling k)
  transform : ∀ k, d.transform? k = (last? (Change.transform? k) cs).getD (parent.transform? k)
  identifiers :
    d.lexis.identifiers = (last? Change.identifiers? cs).getD parent.lexis.identifiers
  hexStrings : d.lexis.hexStrings = (last? Change.hexStrings? cs).getD parent.lexis.hexStrings

/-- All look-ups of two dialects give the same. -/
structure Alike (d d' : Dialect) : Prop where
  keyword : ∀ word, d.keyword? word = d'.keyword? word
  function : ∀ name, d.function? name = d'.function? name
  type : ∀ k, d.typeSpelling k = d'.typeSpelling k
  token : ∀ k, d.spelling k = d'.spelling k
  transform : ∀ k, d.transform? k = d'.transform? k
  identifiers : d.lexis.identifiers = d'.lexis.identifiers
  hexStrings : d.lexis.hexStrings = d'.lexis.hexStrings

theorem layered_applyAll (d : Dialect) (cs : List Change) : Layered d cs (d.applyAll cs) where
  keyword word := by
    have hview : (d.applyAll cs).keyword? word =
        ((last? (Change.keyword? word) cs).map some).getD (d.keyword? word) := by
      rw [← last?_map]
      exact (keywordView word).read_applyAll d cs
    rw [hview]
    cases last? (Change.keyword? word) cs <;> rfl
  function name := by
    have hview : (d.applyAll cs).function? name =
        ((last? (Change.function? name) cs).map some).getD (d.function? name) := by
      rw [← last?_map]
      exact (functionView name).read_applyAll d cs
    rw [hview]
    cases last? (Change.function? name) cs <;> rfl
  type k := by
    have hview : (d.applyAll cs).types.get? k =
        ((last? (Change.type? k) cs).map some).getD (d.types.get? k) := by
      rw [← last?_map]
      exact (typeView k).read_applyAll d cs
    rw [typeSpelling, hview]
    cases last? (Change.type? k) cs <;> rfl
  token k := by
    have hview : (d.applyAll cs).tokens.get? k =
        ((last? (Change.token? k) cs).map some).getD (d.tokens.get? k) := by
      rw [← last?_map]
      exact (tokenView k).read_applyAll d cs
    rw [spelling, hview]
    cases last? (Change.token? k) cs <;> rfl
  transform k := (transformView k).read_applyAll d cs
  identifiers := identifiersView.read_applyAll d cs
  hexStrings := hexStringsView.read_applyAll d cs

theorem alike_applyAll (d : Dialect) {cs cs' : List Change} (hr : Rewritten cs cs') :
    Alike (d.applyAll cs) (d.applyAll cs') where
  keyword word := (keywordView word).read_rewritten d hr
  function name := (functionView name).read_rewritten d hr
  type k := congrArg (Option.getD · k.spelling) ((typeView k).read_rewritten d hr)
  token k := congrArg (Option.getD · k.spelling) ((tokenView k).read_rewritten d hr)
  transform k := (transformView k).read_rewritten d hr
  identifiers := identifiersView.read_rewritten d hr
  hexStrings := hexStringsView.read_rewritten d hr

end Dialect

open Dialect

/-- An extended dialect gives what was last written to each slot, and what its
parent gives for the others.  The same changes in another order that keeps the
order of those to the same slot are accepted or refused alike, and come to the
same look-ups. -/
theorem last_write_wins (parent : Dialect) (name : String) (cs : List Change) :
    (∀ d, parent.extend name cs = .ok d → Layered parent cs d) ∧
      ∀ cs', Rewritten cs cs' →
        (parent.extend name cs).isOk = (parent.extend name cs').isOk ∧
          ∀ d d', parent.extend name cs = .ok d → parent.extend name cs' = .ok d' →
            Alike d d' := by
  refine ⟨fun d hd => ?_, fun cs' hr => ⟨?_, fun d d' hd hd' => ?_⟩⟩
  · rw [eq_of_checked hd]
    have h := layered_applyAll { parent with name } cs
    exact ⟨h.keyword, h.function, h.type, h.token, h.transform, h.identifiers, h.hexStrings⟩
  · have hr' : Rewritten cs' cs := fun s => (hr s).symm
    unfold extend
    rw [Bool.eq_iff_iff, checked_isOk_iff, checked_isOk_iff]
    exact ⟨Sound.rewritten hr, Sound.rewritten hr'⟩
  · rw [eq_of_checked hd, eq_of_checked hd']
    exact alike_applyAll { parent with name } hr

/-- A word that is written twice, and a kind of node that is cleared between
the two or behind them. -/
theorem last_write_wins_sqlite :
    ∃ d d', Dialect.sqlite.extend "lite"
        [.keyword "Pragma" .SELECT, .clear .least, .keyword "PRAGMA" .FROM] = .ok d ∧
      Dialect.sqlite.extend "lite"
        [.keyword "Pragma" .SELECT, .keyword "PRAGMA" .FROM, .clear .least] = .ok d' ∧
      d.keyword? "pragma" = some .FROM ∧ d.transform? .least = none ∧
      d.transform? .greatest = some (.custom .greatest) ∧ Alike d d' := by
  have hwins := last_write_wins .sqlite "lite"
    [.keyword "Pragma" .SELECT, .clear .least, .keyword "PRAGMA" .FROM]
  have hd : Dialect.sqlite.extend "lite"
      [.keyword "Pragma" .SELECT, .clear .least, .keyword "PRAGMA" .FROM] =
      .ok ({ Dialect.sqlite with name := "lite" }.applyAll
        [.keyword "Pragma" .SELECT, .clear .least, .keyword "PRAGMA" .FROM]) := by
    rfl
  have hd' : Dialect.sqlite.extend "lite"
      [.keyword "Pragma" .SELECT, .keyword "PRAGMA" .FROM, .clear .least] =
      .ok ({ Dialect.sqlite with name := "lite" }.applyAll
        [.keyword "Pragma" .SELECT, .keyword "PRAGMA" .FROM, .clear .least]) := by
    rfl
  have hlayered := hwins.1 _ hd
  refine ⟨_, _, hd, hd', hlayered.keyword "pragma", hlayered.transform .least,
    hlayered.transform .greatest, ?_⟩
  exact (hwins.2 _ (rewritten_swap (by decide) [.keyword "Pragma" .SELECT] [])).2 _ _ hd hd'

end SqlDialect
