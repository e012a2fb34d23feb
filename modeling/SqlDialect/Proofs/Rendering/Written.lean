import SqlDialect.Proofs.Lexeme.Name
import SqlDialect.Rendering

/-!
# SqlDialect.Proofs.Rendering.Written

Pieces of output and the lexemes that they are scanned as.

* `Written b ts P` -- the lexemes of the pieces `ts` have the property `P`.
* `Written.append`, `Written.keyword`, … -- pieces in a row, each handing its
  lexemes on to the rest.

A chain of these lemmas follows the pieces of a node from left to right, and
ends where the property is one of the rules of the grammar.
-/

namespace SqlDialect

open Text

/-- The pieces are scanned by themselves, into lexemes with a property. -/
def Written (b : Builtin) (ts : List Token) (P : List Lexeme → Prop) : Prop :=
  Scans b.dialect Ended (b.dialect.spell ts).toList P

/-- What may come behind an expression. -/
def Ends (ts : List Token) : Prop := ∀ t ∈ ts.head?, t ∈ [Token.space, .comma, .rparen]

/-- What may come behind a word. -/
def Splits (ts : List Token) : Prop := ∀ t ∈ ts.head?, t ∈ [Token.space, .comma, .lparen, .rparen]

@[simp] theorem ends_nil : Ends [] := fun _ h => nomatch h

@[simp] theorem ends_cons {t : Token} {ts : List Token} :
    Ends (t :: ts) ↔ t ∈ [Token.space, .comma, .rparen] := by
  simp [Ends]

@[simp] theorem splits_nil : Splits [] := fun _ h => nomatch h

@[simp] theorem splits_cons {t : Token} {ts : List Token} :
    Splits (t :: ts) ↔ t ∈ [Token.space, .comma, .lparen, .rparen] := by
  simp [Splits]

theorem Ends.splits {ts : List Token} (h : Ends ts) : Splits ts := by
  intro t ht
  have hmem := h t ht
  simp only [List.mem_cons, List.not_mem_nil, or_false] at hmem ⊢
  rcases hmem with rfl | rfl | rfl <;> simp

/-! ## what follows as text -/

variable {b : Builtin} {ts us : List Token} {P Q : List Lexeme → Prop} {rest : List Char}

theorem toList_spell_cons (d : Dialect) (t : Token) (ts : List Token) :
    (d.spell (t :: ts)).toList = (t.text d).toList ++ (d.spell ts).toList := by
  rw [Dialect.spell, String.toList_append]

theorem toList_spell_append (d : Dialect) (ts us : List Token) :
    (d.spell (ts ++ us)).toList = (d.spell ts).toList ++ (d.spell us).toList := by
  rw [Dialect.spell_append, String.toList_append]

theorem toList_text_space (d : Dialect) : (Token.space.text d).toList = [' '] := by
  simp [Token.text]

theorem toList_text_comma (d : Dialect) : (Token.comma.text d).toList = [','] := by
  simp [Token.text]

theorem toList_text_lparen (d : Dialect) : (Token.lparen.text d).toList = ['('] := by
  simp [Token.text]

theorem toList_text_rparen (d : Dialect) : (Token.rparen.text d).toList = [')'] := by
  simp [Token.text]

theorem Ends.ended (h : Ends us) (hr : Ended rest) :
    Ended ((b.dialect.spell us).toList ++ rest) := by
  cases us with
  | nil => exact hr
  | cons t us =>
    rw [toList_spell_cons]
    have := h t rfl
    simp only [List.mem_cons, List.not_mem_nil, or_false] at this
    rcases this with rfl | rfl | rfl
    · rw [toList_text_space]
      exact .cons (by decide) _
    · rw [toList_text_comma]
      exact .cons (by decide) _
    · rw [toList_text_rparen]
      exact .cons (by decide) _

theorem Splits.breaks (h : Splits us) (hr : Ended rest) :
    Breaks ((b.dialect.spell us).toList ++ rest) := by
  cases us with
  | nil => exact hr.breaks
  | cons t us =>
    rw [toList_spell_cons]
    have := h t rfl
    simp only [List.mem_cons, List.not_mem_nil, or_false] at this
    rcases this with rfl | rfl | rfl | rfl
    · rw [toList_text_space]
      exact .cons (by decide) _
    · rw [toList_text_comma]
      exact .cons (by decide) _
    · rw [toList_text_lparen]
      exact .cons (by decide) _
    · rw [toList_text_rparen]
      exact .cons (by decide) _

namespace Written

/-! ## pieces in a row -/

theorem imp (h : Written b ts P) (hP : ∀ ls, P ls → Q ls) : Written b ts Q := Scans.imp h hP

theorem nil (hP : P []) : Written b [] P := Scans.nil hP

/-- Pieces in front of others. -/
theorem append (h : Written b ts P) (hu : Ends us)
    (hk : ∀ ls, P ls → Written b us fun ls' => Q (ls ++ ls')) : Written b (ts ++ us) Q := by
  unfold Written
  rw [toList_spell_append]
  exact Scans.append h (fun rest hr => hu.ended hr) hk

/-- The lexemes of pieces in front of others. -/
theorem split {ls : List Lexeme} (h : Written b ts P) (hu : Ends us)
    (hscan : b.dialect.scan (b.dialect.spell (ts ++ us)) = .ok ls) :
    ∃ front behind offset, ls = front ++ behind ∧ P front ∧
      scanFrom b.dialect offset (b.dialect.spell us).toList = .ok behind := by
  rw [Dialect.scan, toList_spell_append] at hscan
  have hended := @Ends.ended b us [] hu .nil
  rw [List.append_nil] at hended
  obtain ⟨front, behind, hls, hfront, hbehind⟩ := Scans.split h hended hscan
  exact ⟨front, behind, _, hls, hfront, hbehind⟩

/-- A single piece in front of others. -/
theorem cons {F : List Char → Prop} {t : Token} (h : Scans b.dialect F (t.text b.dialect).toList P)
    (hF : ∀ rest, Ended rest → F ((b.dialect.spell us).toList ++ rest))
    (hk : ∀ ls, P ls → Written b us fun ls' => Q (ls ++ ls')) : Written b (t :: us) Q := by
  unfold Written
  rw [toList_spell_cons]
  exact Scans.append h hF hk

theorem space (h : Written b us Q) : Written b (.space :: us) Q := by
  refine cons (P := fun ls => ls = []) (F := fun _ => True) ?_ (fun _ _ => trivial) ?_
  · rw [toList_text_space]
    exact scans_space rfl
  · rintro _ rfl
    exact h

/-- A single piece that is one lexeme. -/
theorem one {F : List Char → Prop} {t : Token} {k : LexemeKind} (text : String)
    (h : Scans b.dialect F (t.text b.dialect).toList (One k text))
    (hF : ∀ rest, Ended rest → F ((b.dialect.spell us).toList ++ rest))
    (hk : ∀ t : Lexeme, t.kind = k → t.text = text → Written b us fun ls => Q (t :: ls)) :
    Written b (t :: us) Q := by
  refine cons h hF fun ls hls => ?_
  obtain ⟨t, rfl, hkind, htext⟩ := hls
  exact hk t hkind htext

theorem comma (hk : ∀ t : Lexeme, t.kind = .comma → Written b us fun ls => Q (t :: ls)) :
    Written b (.comma :: us) Q := by
  refine one (F := fun _ => True) "," ?_ (fun _ _ => trivial) fun t ht _ => hk t ht
  rw [toList_text_comma]
  exact scans_comma

theorem lparen (hk : ∀ t : Lexeme, t.kind = .lparen → Written b us fun ls => Q (t :: ls)) :
    Written b (.lparen :: us) Q := by
  refine one (F := fun _ => True) "(" ?_ (fun _ _ => trivial) fun t ht _ => hk t ht
  rw [toList_text_lparen]
  exact scans_lparen

theorem rparen (hk : ∀ t : Lexeme, t.kind = .rparen → Written b us fun ls => Q (t :: ls)) :
    Written b (.rparen :: us) Q := by
  refine one (F := fun _ => True) ")" ?_ (fun _ _ => trivial) fun t ht _ => hk t ht
  rw [toList_text_rparen]
  exact scans_rparen

/-! ## words -/

/-- A word written as it is. -/
theorem word {s : String} (hs : isWord s = true) (hu : Splits us)
    (hk : ∀ t : Lexeme, t.kind = wordKind b.dialect s → t.text = s →
      Written b us fun ls => Q (t :: ls)) : Written b (.raw s :: us) Q :=
  one s (scans_word hs) (fun _ hr => hu.breaks hr) hk

theorem keyword {k : Keyword} (hu : Splits us)
    (hk : ∀ t : Lexeme, t.kind = .keyword k → Written b us fun ls => Q (t :: ls)) :
    Written b (.keyword k :: us) Q := by
  refine one (t := .keyword k) _ (scans_word (isWord_spelling b k)) (fun _ hr => hu.breaks hr)
    fun t ht _ => hk t (ht.trans (wordKind_spelling b k))

/-- A keyword and the space behind it. -/
theorem spacedKeyword {k : Keyword}
    (hk : ∀ t : Lexeme, t.kind = .keyword k → Written b us fun ls => Q (t :: ls)) :
    Written b (.keyword k :: .space :: us) Q := by
  refine .keyword (by simp) fun t ht => ?_
  exact .space (hk t ht)

end Written

end SqlDialect
