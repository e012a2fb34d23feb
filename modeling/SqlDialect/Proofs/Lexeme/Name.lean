import SqlDialect.Grammar.Name
import SqlDialect.Proofs.Lexeme.Genuine

/-!
# SqlDialect.Proofs.Lexeme.Name

Words as keywords and as names.

* `keyword?_generic`, `keyword?_sqlite` -- the keywords of the built-in
  dialects.
* `Bare`, `Named` -- what may stand for a name without delimiters, and the
  identifiers that a text can hold.
* `identOf?_named` -- the identifiers of genuine lexemes.
-/

namespace SqlDialect

open Text Grammar

/-! ## keywords -/

theorem keyword?_generic (word : String) :
    Dialect.generic.keyword? word = Keyword.ofSpelling? word := rfl

theorem keyword?_sqlite (word : String) :
    Dialect.sqlite.keyword? word =
      if upper word = "AUTOINCREMENT" then some .AUTO_INCREMENT else Keyword.ofSpelling? word := by
  have hget : Dialect.sqlite.lexis.keywords = ⟨[("AUTOINCREMENT", .AUTO_INCREMENT)]⟩ := rfl
  rw [Dialect.keyword?, hget, Overrides.get?]
  by_cases h : upper word = "AUTOINCREMENT"
  · simp [h]
  · simp [h, Ne.symm h]

theorem sameWord_of_ofSpelling? {word : String} {k : Keyword}
    (h : Keyword.ofSpelling? word = some k) : sameWord k.spelling word = true := by
  have := List.find?_some h
  simpa using this

/-- A keyword of the base dialect is one of every built-in dialect: the word
that SQLite adds has thirteen letters, and no keyword has as many. -/
theorem keyword?_of_ofSpelling? {word : String} {k : Keyword} (h : Keyword.ofSpelling? word = some k)
    (b : Builtin) : b.dialect.keyword? word = some k := by
  cases b with
  | generic => exact h
  | sqlite =>
    change Dialect.sqlite.keyword? word = some k
    rw [keyword?_sqlite, if_neg, h]
    intro hup
    have hword : word.toList.length = 13 := by
      rw [← List.length_map (f := Char.toUpper), ← toList_upper, hup]
      rfl
    have hspelling : (lower k.spelling).toList.length = (lower word).toList.length :=
      congrArg (fun s => s.toList.length) (sameWord_iff.1 (sameWord_of_ofSpelling? h))
    rw [toList_lower, toList_lower, List.length_map, List.length_map, hword] at hspelling
    have hall : ∀ k ∈ Keyword.all, k.spelling.toList.length ≠ 13 := by decide
    exact hall k k.mem_all hspelling

/-- SQLite has one word more, and it is not reserved. -/
theorem keyword?_eq_some {b : Builtin} {word : String} {k : Keyword}
    (h : b.dialect.keyword? word = some k) :
    k = .AUTO_INCREMENT ∨ Keyword.ofSpelling? word = some k := by
  cases b with
  | generic => exact .inr h
  | sqlite =>
    change Dialect.sqlite.keyword? word = some k at h
    rw [keyword?_sqlite] at h
    split at h
    · cases h; exact .inl rfl
    · exact .inr h

/-- What a dialect writes for a keyword is that keyword to it. -/
theorem keyword?_spelling (b : Builtin) (k : Keyword) :
    b.dialect.keyword? (b.dialect.spelling k) = some k := by
  cases b with
  | generic => exact Keyword.ofSpelling?_spelling k
  | sqlite =>
    have hspelling : Dialect.sqlite.spelling k =
        if k = .AUTO_INCREMENT then "AUTOINCREMENT" else k.spelling := by
      cases k <;> rfl
    change Dialect.sqlite.keyword? (Dialect.sqlite.spelling k) = some k
    rw [hspelling]
    split
    case isTrue hk => rw [hk]; rfl
    case isFalse => exact keyword?_of_ofSpelling? (Keyword.ofSpelling?_spelling k) .sqlite

theorem isWord_spelling (b : Builtin) (k : Keyword) : isWord (b.dialect.spelling k) = true := by
  have hall : ∀ k ∈ Keyword.all, isWord (b.dialect.spelling k) = true := by
    cases b <;> decide
  exact hall k k.mem_all

theorem wordKind_spelling (b : Builtin) (k : Keyword) :
    wordKind b.dialect (b.dialect.spelling k) = .keyword k := by
  rw [wordKind, keyword?_spelling]

/-! ## upper case -/

/-- The letters that have an upper case. -/
def lowerLetters : List Char := "abcdefghijklmnopqrstuvwxyz".toList

theorem toUpper_cases (c : Char) : c.toUpper = c ∨ c ∈ lowerLetters := by
  unfold Char.toUpper
  split
  case isFalse => exact .inl rfl
  case isTrue h =>
    have hall : ∀ n < 26, Char.ofNat (97 + n) ∈ lowerLetters := by decide
    have hlow : 97 ≤ c.toNat := h.1
    have hhigh : c.toNat ≤ 122 := h.2
    have hmem := hall (c.toNat - 97) (by omega)
    rw [show 97 + (c.toNat - 97) = c.toNat by omega, Char.ofNat_toNat] at hmem
    exact .inr hmem

/-- Upper case is of the same word, and a word itself where this is one. -/
theorem toUpper_spec (c : Char) : c.toUpper.toUpper = c.toUpper ∧ c.toUpper.toLower = c.toLower ∧
    (startsWord c = true → startsWord c.toUpper = true) ∧
    (continuesWord c = true → continuesWord c.toUpper = true) := by
  rcases toUpper_cases c with h | h
  · simp only [h, imp_self, and_self]
  · have hall : ∀ c ∈ lowerLetters, c.toUpper.toUpper = c.toUpper ∧
        c.toUpper.toLower = c.toLower ∧ (startsWord c = true → startsWord c.toUpper = true) ∧
        (continuesWord c = true → continuesWord c.toUpper = true) :=
      forall_mem_of_all (by decide)
    exact hall c h

theorem upper_upper (s : String) : upper (upper s) = upper s := by
  rw [← String.toList_inj]
  simp only [toList_upper, List.map_map]
  exact List.map_congr_left fun c _ => (toUpper_spec c).1

theorem lower_upper (s : String) : lower (upper s) = lower s := by
  rw [← String.toList_inj]
  simp only [toList_upper, toList_lower, List.map_map]
  exact List.map_congr_left fun c _ => (toUpper_spec c).2.1

theorem isWord_upper {s : String} (h : isWord s = true) : isWord (upper s) = true := by
  unfold isWord at h ⊢
  rw [toList_upper]
  cases hs : s.toList with
  | nil => rw [hs] at h; cases h
  | cons c cs =>
    rw [hs] at h
    simp only [Bool.and_eq_true, List.all_eq_true, List.map_cons, List.mem_map,
      forall_exists_index, and_imp, forall_apply_eq_imp_iff₂] at h ⊢
    exact ⟨(toUpper_spec c).2.2.1 h.1, fun d hd => (toUpper_spec d).2.2.2 (h.2 d hd)⟩

theorem ofSpelling?_upper (s : String) : Keyword.ofSpelling? (upper s) = Keyword.ofSpelling? s := by
  unfold Keyword.ofSpelling?
  simp only [sameWord, lower_upper]

/-! ## names -/

/-- A word that may stand for a name in every built-in dialect. -/
def Bare (name : String) : Prop :=
  isWord name = true ∧ ∀ k, Keyword.ofSpelling? name = some k → k.isReserved = false

instance (name : String) : Decidable (Bare name) :=
  decidable_of_iff (isWord name = true ∧
      ((Keyword.ofSpelling? name).all fun k => !k.isReserved) = true) <| by
    refine and_congr_right fun _ => ?_
    cases Keyword.ofSpelling? name <;> simp

/-- An identifier that a text can hold: it is delimited, or its name needs no
delimiters. -/
def Named (i : Ident) : Prop := i.quoted = true ∨ Bare i.name

/-- The identifier that a genuine lexeme stands for can be written again. -/
theorem identOf?_named {b : Builtin} {t : Lexeme} {i : Ident} (hg : Genuine b.dialect t)
    (h : identOf? t = some i) : Named i := by
  unfold identOf? at h
  unfold Genuine at hg
  split at h
  case h_1 hk =>
    cases h
    rw [hk] at hg
    refine .inr ⟨hg.1, fun k hspelling => ?_⟩
    rw [keyword?_of_ofSpelling? hspelling b] at hg
    cases hg.2
  case h_2 => cases h; exact .inl rfl
  case h_3 k hk =>
    rw [hk] at hg
    split at h
    · cases h
    case isFalse hr =>
      cases h
      refine .inr ⟨hg.1, fun k' hspelling => ?_⟩
      rw [keyword?_of_ofSpelling? hspelling b] at hg
      cases hg.2
      exact Bool.eq_false_iff.2 hr
  case h_4 => cases h

/-- A bare name stands for itself in every built-in dialect. -/
theorem Bare.identOf? {name : String} (h : Bare name) {b : Builtin} {t : Lexeme}
    (hkind : t.kind = wordKind b.dialect name) (htext : t.text = name) :
    identOf? t = some ⟨name, false⟩ := by
  unfold Grammar.identOf?
  rw [hkind, wordKind]
  cases hk : b.dialect.keyword? name with
  | none => rw [htext]
  | some k =>
    have hr : k.isReserved = false := by
      rcases keyword?_eq_some hk with rfl | hspelling
      · rfl
      · exact h.2 k hspelling
    simp only [hr, htext, Bool.false_eq_true, if_false]

end SqlDialect
