import Mathlib.Data.List.Basic
import SqlDialect.Proofs.Lexeme.Scans

/-!
# SqlDialect.Proofs.Lexeme.Piece

The texts of single lexemes, as the built-in dialects scan them.

* `Breaks`, `Ended` -- what may follow a word, and what follows an expression.
* `scans_word`, `scans_string`, `scans_digits`, … -- one lemma for each sort of
  lexeme that is ever written.
* `readQuoted_doubled` -- what is quoted is read back.
-/

namespace SqlDialect

open Text

/-! ## what follows -/

/-- What may follow a word on output: a gap, a comma, a parenthesis, a point,
or nothing. -/
def Breaks (rest : List Char) : Prop := ∀ c ∈ rest.head?, c ∈ [' ', ',', ')', '(', '.']

/-- What may follow an expression on output: a gap, a comma, a closing
parenthesis, or nothing. -/
def Ended (rest : List Char) : Prop := ∀ c ∈ rest.head?, c ∈ [' ', ',', ')']

theorem Ended.nil : Ended [] := fun _ hc => nomatch hc

theorem Ended.cons {c : Char} (h : c ∈ [' ', ',', ')']) (cs : List Char) : Ended (c :: cs) := by
  intro d hd
  cases hd
  exact h

theorem Breaks.cons {c : Char} (h : c ∈ [' ', ',', ')', '(', '.']) (cs : List Char) :
    Breaks (c :: cs) := by
  intro d hd
  cases hd
  exact h

theorem Ended.breaks {rest : List Char} (h : Ended rest) : Breaks rest := by
  intro c hc
  have hmem := h c hc
  simp only [List.mem_cons, List.not_mem_nil, or_false] at hmem ⊢
  rcases hmem with rfl | rfl | rfl <;> simp

/-- A property that no separator has does not go on behind a text. -/
theorem takeWhile_append {p : Char → Bool} {cs rest : List Char} (hcs : ∀ c ∈ cs, p c = true)
    (hr : ∀ c ∈ rest.head?, p c = false) : (cs ++ rest).takeWhile p = cs := by
  induction cs with
  | nil =>
    cases rest with
    | nil => rfl
    | cons c rest => simp [hr c rfl]
  | cons c cs ih =>
    rw [List.cons_append, List.takeWhile_cons, if_pos (hcs c List.mem_cons_self),
      ih fun d hd => hcs d (List.mem_cons_of_mem _ hd)]

theorem Ended.not_of_list {p : Char → Bool} {rest : List Char} (h : Ended rest)
    (hp : [' ', ',', ')'].all (fun c => !p c) = true) : ∀ c ∈ rest.head?, p c = false := by
  intro c hc
  have := List.all_eq_true.1 hp c (h c hc)
  simpa using this

/-! ## the order of the rules -/

variable {b : Builtin} {offset : Nat}

theorem gap?_eq_none {c : Char} {cs : List Char} (hb : isBlank c = false)
    (hd : c = '-' → cs.head? ≠ some '-') (hs : c = '/' → cs.head? ≠ some '*') :
    gap? offset c cs = .ok none := by
  rw [gap?, hb, if_neg Bool.false_ne_true]
  unfold comment?
  split
  case h_1 heq => cases heq; exact absurd rfl (hd rfl)
  case h_2 heq => cases heq; exact absurd rfl (hs rfl)
  case h_3 => rfl

/-- No pair of marks starts here. -/
theorem hexLiteral?_eq_none {cs : List Char} {pairs : List (String × String)}
    (h : ∀ p ∈ pairs, p.1.toList.isPrefixOf? cs = none) :
    hexLiteral? offset cs pairs = .ok none := by
  induction pairs with
  | nil => rfl
  | cons p pairs ih =>
    obtain ⟨start, stop⟩ := p
    rw [hexLiteral?, h _ List.mem_cons_self]
    exact ih fun q hq => h q (List.mem_cons_of_mem _ hq)

/-- The first characters of the marks of hexadecimal literals, each with the
second one. -/
def hexStarts : Builtin → List (Char × Char)
  | .generic => [('X', '\x27'), ('x', '\x27')]
  | .sqlite => [('x', '\x27'), ('X', '\x27'), ('0', 'x'), ('0', 'X')]

theorem hexStrings_eq (b : Builtin) :
    b.dialect.lexis.hexStrings.map (fun p => p.1.toList) =
      (hexStarts b).map fun p => [p.1, p.2] := by
  cases b <;> rfl

/-- Whether no hexadecimal literal starts here. -/
def Unmarked (b : Builtin) (c : Char) (cs : List Char) : Prop :=
  ∀ p ∈ hexStarts b, c = p.1 → cs.head? ≠ some p.2

theorem Unmarked.of_ne {c : Char} (h : ∀ p ∈ hexStarts b, c ≠ p.1) (cs : List Char) :
    Unmarked b c cs := fun p hp hc => absurd hc (h p hp)

theorem Unmarked.hexLiteral? {c : Char} {cs : List Char} (h : Unmarked b c cs) :
    hexLiteral? offset (c :: cs) b.dialect.lexis.hexStrings = .ok none := by
  refine hexLiteral?_eq_none fun p hp => ?_
  have hmem : p.1.toList ∈ (hexStarts b).map fun p => [p.1, p.2] := by
    rw [← hexStrings_eq]
    exact List.mem_map_of_mem hp
  obtain ⟨q, hq, heq⟩ := List.mem_map.1 hmem
  rw [← heq]
  have hne := h q hq
  cases cs with
  | nil => simp [List.isPrefixOf?]
  | cons d cs =>
    have hne' : q.1 = c → q.2 ≠ d := fun hc hd => hne hc.symm (by rw [hd]; rfl)
    simp only [List.isPrefixOf?]
    grind

/-- Where neither a gap nor a hexadecimal literal starts. -/
theorem frontPiece_eq_plainLexeme {c : Char} {cs : List Char} (hb : isBlank c = false)
    (hd : c = '-' → cs.head? ≠ some '-') (hs : c = '/' → cs.head? ≠ some '*')
    (hx : Unmarked b c cs) :
    frontPiece b.dialect offset c cs = plainLexeme b.dialect offset c cs := by
  rw [frontPiece, gap?_eq_none hb hd hs, hx.hexLiteral?]
  rfl

/-- A property of all members of a list, tested one by one. -/
theorem forall_mem_of_all {α : Type} {l : List α} {P : α → Prop} [DecidablePred P]
    (h : (l.all fun a => decide (P a)) = true) : ∀ a ∈ l, P a := by
  simpa using h

/-- The opening delimiters of identifiers. -/
def openings : Builtin → List Char
  | .generic => ['"']
  | .sqlite => ['"', '[', '\x60']

theorem identifiers_find? {c : Char} (h : c ∉ openings b) :
    (b.dialect.lexis.identifiers.find? fun p => p.1 = c) = none := by
  have hmap : b.dialect.lexis.identifiers.map (·.1) = openings b := by cases b <;> rfl
  rw [List.find?_eq_none]
  intro p hp hc
  refine h ?_
  rw [← hmap]
  exact List.mem_map.2 ⟨p, hp, by simpa using hc⟩

/-! ## gaps and symbols -/

variable {F : List Char → Prop}

/-- Punctuation, which no word contains. -/
def punctuation : List Char := [' ', ',', ')', '(', '.'] ++ ['*', '-', '>', '\x27']

theorem not_continuesWord {c : Char} (h : c ∈ punctuation) :
    startsWord c = false ∧ continuesWord c = false := by
  have hall : ∀ c ∈ punctuation, startsWord c = false ∧ continuesWord c = false :=
    forall_mem_of_all (by decide)
  exact hall c h

/-- A space is a gap wherever it stands. -/
theorem scans_space {P : List Lexeme → Prop} (hP : P []) : Scans b.dialect F [' '] P :=
  Scans.gap (fun _ _ _ => ⟨.gap 0, rfl, rfl, rfl⟩) hP

/-- A symbol of one character that starts no other lexeme. -/
theorem scans_symbol {c : Char} {k : LexemeKind} (hc : c ∉ openings b)
    (hp : isBlank c = false ∧ c ≠ '-' ∧ c ≠ '/' ∧ c ≠ '\x27' ∧ c.isDigit = false ∧
      c ∈ punctuation)
    (hx : ∀ p ∈ hexStarts b, c ≠ p.1)
    (hn : ∀ rest, F rest → c = '.' → rest.head?.any Char.isDigit = false)
    (hk : ∀ rest, F rest → symbol? (c :: rest) = some (.ofKind k 0)) :
    Scans b.dialect F [c] (One k (String.ofList [c])) := by
  obtain ⟨hb, hd, hs, hq, hdigit, hmem⟩ := hp
  have hw : startsWord c = false := (not_continuesWord hmem).1
  refine .one fun offset rest hr => ⟨.ofKind k 0, ?_, rfl, rfl⟩
  have hstart : ¬ startsNumber c rest = true := by
    have := hn rest hr
    grind [startsNumber]
  rw [List.nil_append, frontPiece_eq_plainLexeme hb (fun h => absurd h hd) (fun h => absurd h hs)
    (.of_ne hx rest), plainLexeme, identifiers_find? hc]
  simp only [if_neg hq, hw, hk rest hr, Bool.false_eq_true, if_false]
  rw [dif_neg hstart]

theorem scans_comma : Scans b.dialect F [','] (One .comma ",") := by
  refine scans_symbol ?_ (by decide) ?_ (fun _ _ h => absurd h (by decide))
    fun _ _ => rfl <;> cases b <;> decide

theorem scans_lparen : Scans b.dialect F ['('] (One .lparen "(") := by
  refine scans_symbol ?_ (by decide) ?_ (fun _ _ h => absurd h (by decide))
    fun _ _ => rfl <;> cases b <;> decide

theorem scans_rparen : Scans b.dialect F [')'] (One .rparen ")") := by
  refine scans_symbol ?_ (by decide) ?_ (fun _ _ h => absurd h (by decide))
    fun _ _ => rfl <;> cases b <;> decide

theorem scans_star : Scans b.dialect F ['*'] (One .star "*") := by
  refine scans_symbol ?_ (by decide) ?_ (fun _ _ h => absurd h (by decide))
    fun _ _ => rfl <;> cases b <;> decide

/-- A point is a symbol unless a digit comes behind it. -/
theorem scans_dot (hF : ∀ rest, F rest → rest.head?.any Char.isDigit = false) :
    Scans b.dialect F ['.'] (One .dot ".") := by
  refine scans_symbol ?_ (by decide) ?_ (fun rest hr _ => hF rest hr)
    fun _ _ => rfl <;> cases b <;> decide

/-- A minus sign is a symbol unless it starts a comment or an arrow. -/
theorem scans_minus (hF : ∀ rest, F rest → rest.head? ≠ some '-' ∧ rest.head? ≠ some '>') :
    Scans b.dialect F ['-'] (One .minus "-") := by
  refine .one fun offset rest hr => ⟨.ofKind .minus 0, ?_, rfl, rfl⟩
  obtain ⟨hminus, harrow⟩ := hF rest hr
  have hx : Unmarked b '-' rest := .of_ne (by cases b <;> decide) rest
  rw [List.nil_append, frontPiece_eq_plainLexeme (by decide) (fun _ => hminus)
    (fun h => absurd h (by decide)) hx, plainLexeme, identifiers_find? (by cases b <;> decide)]
  have hstart : ¬ startsNumber '-' rest = true := by simp [startsNumber]
  have hsymbol : symbol? ('-' :: rest) = some (.ofKind .minus 0) := by
    have hne : ∀ tail, rest = '>' :: tail → False := by
      rintro tail rfl
      exact harrow rfl
    rw [symbol?] <;> exact fun tail h => hne _ h
  rw [dif_neg hstart]
  simp only [hsymbol, (@not_continuesWord '-' (by decide)).1, Bool.false_eq_true, if_false,
    show ('-' = '\x27') = False by decide]

/-- What follows a symbol between two operands. -/
def Spaced (rest : List Char) : Prop := rest.head? = some ' '

/-- A symbol in front of a space, by its piece there. -/
theorem scans_spaced {c : Char} {cs : List Char} {k : LexemeKind}
    (h : ∀ offset rest, frontPiece b.dialect offset c (cs ++ ' ' :: rest) =
      .ok (.ofKind k cs.length)) :
    Scans b.dialect Spaced (c :: cs) (One k (String.ofList (c :: cs))) := by
  refine .one fun offset rest hr => ?_
  cases rest with
  | nil => cases hr
  | cons d rest =>
    cases hr
    exact ⟨_, h offset rest, rfl, rfl⟩

/-! ## words -/

/-- The blanks, by code point. -/
def blanks : List Nat :=
  [0x09, 0x0A, 0x0B, 0x0C, 0x0D, 0x20, 0x85, 0xA0, 0x1680, 0x2000, 0x2001, 0x2002, 0x2003, 0x2004,
   0x2005, 0x2006, 0x2007, 0x2008, 0x2009, 0x200A, 0x2028, 0x2029, 0x202F, 0x205F, 0x3000]

theorem toNat_mem_blanks {c : Char} (h : isBlank c = true) : c.toNat ∈ blanks := by
  simp only [isBlank, Bool.or_eq_true, Bool.and_eq_true, decide_eq_true_eq, beq_iff_eq] at h
  simp only [blanks, List.mem_cons, List.not_mem_nil, or_false]
  omega

/-- Delimiters and digits, which no word starts with. -/
def delimiters : List Char :=
  ['-', '/', '\x27', '"', '[', '\x60', '.', '0', '1', '2', '3', '4', '5', '6', '7', '8', '9']

theorem startsWord_ofNat {n : Nat} (h : n ∈ blanks ++ delimiters.map Char.toNat) :
    startsWord (Char.ofNat n) = false := by
  revert n
  decide +kernel

theorem not_startsWord {c : Char} (h : c.toNat ∈ blanks ++ delimiters.map Char.toNat) :
    startsWord c = false := by
  rw [← Char.ofNat_toNat c]
  exact startsWord_ofNat h

/-- A word starts with no blank. -/
theorem isBlank_of_startsWord {c : Char} (h : startsWord c = true) : isBlank c = false := by
  cases hb : isBlank c
  · rfl
  · rw [not_startsWord (List.mem_append_left _ (toNat_mem_blanks hb))] at h
    cases h

/-- A word starts with no delimiter and no digit. -/
theorem ne_of_startsWord {c d : Char} (h : startsWord c = true) (hd : d ∈ delimiters) : c ≠ d := by
  rintro rfl
  rw [not_startsWord (List.mem_append_right _ (List.mem_map_of_mem hd))] at h
  cases h

theorem mem_delimiters_of_isDigit {c : Char} (h : c.isDigit = true) : c ∈ delimiters := by
  have hc : c.toNat ∈ List.range' 48 10 := by
    simp only [Char.isDigit, Bool.and_eq_true, decide_eq_true_eq, ge_iff_le,
      UInt32.le_iff_toNat_le] at h
    obtain ⟨h₁, h₂⟩ := h
    change 48 ≤ c.toNat at h₁
    change c.toNat ≤ 57 at h₂
    rw [List.mem_range'_1]
    omega
  have hall : ∀ n ∈ List.range' 48 10, Char.ofNat n ∈ delimiters := by decide
  rw [← Char.ofNat_toNat c]
  exact hall _ hc

theorem mem_delimiters_of_mem_openings {c : Char} (h : c ∈ openings b) : c ∈ delimiters := by
  have hall : ∀ d ∈ openings b, d ∈ delimiters := forall_mem_of_all (by cases b <;> decide)
  exact hall c h

/-- No word starts like a number. -/
theorem startsNumber_of_startsWord {c : Char} (h : startsWord c = true) (cs : List Char) :
    startsNumber c cs = false := by
  have hdot : c ≠ '.' := ne_of_startsWord h (by decide)
  have hdigit : c.isDigit = false := by
    cases hd : c.isDigit
    · rfl
    · exact absurd rfl (ne_of_startsWord h (mem_delimiters_of_isDigit hd))
  simp [startsNumber, hdigit, hdot]

/-- The text of a word. -/
def isWord (s : String) : Bool :=
  match s.toList with
  | [] => false
  | c :: cs => startsWord c && cs.all continuesWord

/-- The kind of a word, which depends on its text only. -/
def wordKind (d : Dialect) (s : String) : LexemeKind :=
  match d.keyword? s with
  | some k => .keyword k
  | none => .word

/-- A word in front of what may follow one. -/
theorem scans_word {s : String} (h : isWord s = true) :
    Scans b.dialect Breaks s.toList (One (wordKind b.dialect s) s) := by
  unfold isWord at h
  split at h
  case h_1 => cases h
  case h_2 c cs hs =>
    rw [Bool.and_eq_true, List.all_eq_true] at h
    obtain ⟨hc, hcs⟩ := h
    have hs' : s = String.ofList (c :: cs) := by rw [← hs, String.ofList_toList]
    rw [hs, hs']
    refine .one fun offset rest hr => ⟨.ofKind _ cs.length, ?_, rfl, rfl⟩
    have htake : (cs ++ rest).takeWhile continuesWord = cs :=
      takeWhile_append hcs fun d hd => (not_continuesWord (List.mem_append_left _ (hr d hd))).2
    have hx : Unmarked b c (cs ++ rest) := by
      intro p hp hcp hhead
      have hsecond : p.2 = '\x27' := by
        have := ne_of_startsWord hc (d := '0') (by decide)
        cases b <;> simp_all [hexStarts] <;> grind
      rw [hsecond] at hhead
      cases cs with
      | nil =>
        have := hr _ hhead
        simp at this
      | cons d cs =>
        cases hhead
        have := hcs '\x27' List.mem_cons_self
        rw [(not_continuesWord (by decide)).2] at this
        cases this
    rw [frontPiece_eq_plainLexeme (isBlank_of_startsWord hc)
      (fun h => absurd h (ne_of_startsWord hc (by decide)))
      (fun h => absurd h (ne_of_startsWord hc (by decide))) hx, plainLexeme,
      identifiers_find? fun hmem => ne_of_startsWord hc (mem_delimiters_of_mem_openings hmem) rfl]
    have hquote : ¬ c = '\x27' := ne_of_startsWord hc (by decide)
    have hnumber : ¬ startsNumber c (cs ++ rest) = true := by
      rw [startsNumber_of_startsWord hc]
      exact Bool.false_ne_true
    simp only [if_neg hquote]
    rw [dif_neg hnumber, if_pos hc, word, htake]
    rfl

/-- Words with spaces between them. -/
theorem scans_words {word : String} {words : List String}
    (h : ∀ w ∈ word :: words, isWord w = true) :
    Scans b.dialect Breaks (" ".intercalate (word :: words)).toList fun ls =>
      ls.map Lexeme.text = word :: words ∧
        ls.map Lexeme.kind = (word :: words).map (wordKind b.dialect) := by
  induction words generalizing word with
  | nil =>
    rw [String.intercalate_singleton]
    refine (scans_word (h word List.mem_cons_self)).imp ?_
    rintro _ ⟨t, rfl, ht, rfl⟩
    exact ⟨rfl, congrArg (fun k => [k]) ht⟩
  | cons next words ih =>
    obtain ⟨hword, hwords⟩ := List.forall_mem_cons.1 h
    rw [String.intercalate_cons_cons, String.toList_append, String.toList_append,
      List.append_assoc]
    refine (scans_word hword).append (fun _ _ => .cons (by decide) _) ?_
    rintro _ ⟨t, rfl, ht, rfl⟩
    refine Scans.cons (P := fun ls => ls = []) (scans_space (F := fun _ => True) rfl)
      (fun _ _ => trivial) ?_
    rintro _ rfl
    refine (ih hwords).imp ?_
    rintro ls ⟨htexts, hkinds⟩
    refine ⟨congrArg (t.text :: ·) htexts, ?_⟩
    rw [List.map_cons, ← ht, ← hkinds]
    rfl

/-- Words that are no keywords, by the kinds of their lexemes. -/
theorem forall_kind_word {d : Dialect} {ls : List Lexeme} {words : List String}
    (hkinds : ls.map Lexeme.kind = words.map (wordKind d))
    (h : ∀ w ∈ words, wordKind d w = .word) : ∀ t ∈ ls, t.kind = .word := by
  intro t ht
  have hmem := List.mem_map_of_mem (f := Lexeme.kind) ht
  rw [hkinds] at hmem
  obtain ⟨w, hw, heq⟩ := List.mem_map.1 hmem
  rw [← heq, h w hw]

/-! ## quotes -/

/-- What is quoted is read back, unless the delimiter follows once more. -/
theorem readQuoted_doubled {closing : Char} (v : List Char) {rest : List Char}
    (hr : rest.head? ≠ some closing) :
    readQuoted closing (doubled closing v ++ closing :: rest) =
      some (v, (doubled closing v).length + 1) := by
  induction v with
  | nil =>
    cases rest with
    | nil => simp [doubled, readQuoted]
    | cons c rest =>
      have hc : c ≠ closing := fun h => hr (by rw [h]; rfl)
      simp [doubled, readQuoted, hc]
  | cons c v ih =>
    by_cases hc : c = closing
    · subst hc
      simp [doubled, readQuoted, ih]
    · obtain ⟨d, ds, hds⟩ : ∃ d ds, doubled closing v ++ closing :: rest = d :: ds := by
        cases doubled closing v <;> exact ⟨_, _, rfl⟩
      rw [hds] at ih
      simp [doubled, hc, hds, readQuoted, ih]

/-- What does not start with a delimiter. -/
def Unquoted (closing : Char) (rest : List Char) : Prop := rest.head? ≠ some closing

/-- A string at the front of a text. -/
theorem frontPiece_string (offset : Nat) (v : List Char) {rest : List Char}
    (hr : Unquoted '\x27' rest) :
    frontPiece b.dialect offset '\x27' ((doubled '\x27' v ++ ['\x27']) ++ rest) =
      .ok (.ofKind (.string (String.ofList v)) ((doubled '\x27' v).length + 1)) := by
  rw [List.append_assoc, List.singleton_append, frontPiece_eq_plainLexeme (by decide)
    (fun h => absurd h (by decide)) (fun h => absurd h (by decide))
    (.of_ne (by cases b <;> decide) _), plainLexeme, identifiers_find? (by cases b <;> decide),
    readQuoted_doubled _ hr]
  rfl

/-- No other rule competes with the delimiters of identifiers, and each opening
one belongs to one pair. -/
theorem identifiers_spec {q : Char × Char} (hq : q ∈ b.dialect.lexis.identifiers) :
    isBlank q.1 = false ∧ q.1 ≠ '-' ∧ q.1 ≠ '/' ∧ (∀ h ∈ hexStarts b, q.1 ≠ h.1) ∧
      (b.dialect.lexis.identifiers.find? fun r => r.1 = q.1) = some q := by
  have hall : ∀ q ∈ b.dialect.lexis.identifiers, isBlank q.1 = false ∧ q.1 ≠ '-' ∧ q.1 ≠ '/' ∧
      (∀ h ∈ hexStarts b, q.1 ≠ h.1) ∧
      (b.dialect.lexis.identifiers.find? fun r => r.1 = q.1) = some q := by
    cases b <;> decide
  exact hall q hq

/-- A delimited identifier at the front of a text. -/
theorem frontPiece_identifier {q : Char × Char} (hq : q ∈ b.dialect.lexis.identifiers)
    (offset : Nat) (name : List Char) {rest : List Char} (hr : Unquoted q.2 rest) :
    frontPiece b.dialect offset q.1 ((doubled q.2 name ++ [q.2]) ++ rest) =
      .ok (.ofKind (.quotedIdent (String.ofList name)) ((doubled q.2 name).length + 1)) := by
  obtain ⟨hblank, hdash, hslash, hhex, hfind⟩ := identifiers_spec hq
  rw [List.append_assoc, List.singleton_append, frontPiece_eq_plainLexeme hblank
    (fun h => absurd h hdash) (fun h => absurd h hslash) (.of_ne hhex _), plainLexeme, hfind]
  simp only [readQuoted_doubled _ hr]

/-- A string between single quotes. -/
theorem scans_string (v : String) :
    Scans b.dialect (Unquoted '\x27') (quoteString v).toList (One (.string v) (quoteString v)) := by
  have heq : quoteString v = String.ofList ('\x27' :: (doubled '\x27' v.toList ++ ['\x27'])) := rfl
  rw [heq, String.toList_ofList]
  refine .one fun offset rest hr => ⟨_, frontPiece_string offset v.toList hr, ?_, ?_⟩
  · rw [String.ofList_toList]
    rfl
  · simp [Piece.ofKind]

/-- Both dialects write the same delimiters around identifiers. -/
theorem identifierPair_eq (b : Builtin) : b.dialect.identifierPair = ('"', '"') := by
  cases b <;> rfl

/-- A delimited identifier. -/
theorem scans_quotedIdent (name : String) :
    Scans b.dialect (Unquoted '"') (quoteWith '"' '"' name).toList
      (One (.quotedIdent name) (quoteWith '"' '"' name)) := by
  have heq : quoteWith '"' '"' name =
      String.ofList ('"' :: (doubled '"' name.toList ++ ['"'])) := rfl
  have hpair : ('"', '"') ∈ b.dialect.lexis.identifiers := by cases b <;> decide
  rw [heq, String.toList_ofList]
  refine .one fun offset rest hr => ⟨_, frontPiece_identifier hpair offset name.toList hr, ?_, ?_⟩
  · rw [String.ofList_toList]
    rfl
  · simp [Piece.ofKind]

end SqlDialect
