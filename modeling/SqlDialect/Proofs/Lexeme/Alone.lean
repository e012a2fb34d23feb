import Mathlib.Data.List.TakeWhile
import SqlDialect.Proofs.Lexeme.Genuine

/-!
# SqlDialect.Proofs.Lexeme.Alone

Words that are scanned without the text around them.

* `hexLiteral?_eq_none_iff` -- where no hexadecimal literal starts: every mark
  that is there is an open one, with no digit behind it.
* `plainLexeme_bare`, `plainLexeme_word` -- where a word stands.
* `frontPiece_alone` -- the piece of a word is the same without what follows
  the word.
* `scan_alone` -- so a word of a scan, scanned by itself, is the same word.

A dialect is free to open hexadecimal literals and delimited identifiers with
letters.  Such a mark takes the front of a word away wherever the word stands,
or nowhere.
-/

namespace SqlDialect

open Text

variable {d : Dialect} {offset : Nat} {c : Char} {cs : List Char} {p : Piece} {k : LexemeKind}

/-- The kinds of bare words. -/
def LexemeKind.isBare : LexemeKind → Bool
  | .word | .keyword _ => true
  | _ => false

/-! ## where no literal starts -/

/-- Nothing is taken from a text whose first character is not wanted. -/
theorem takeWhile_eq_nil {q : Char → Bool} :
    cs.takeWhile q = [] ↔ ∀ c ∈ cs.head?, q c = false := by
  cases cs with
  | nil => simp
  | cons c cs => cases h : q c <;> simp [h]

/-- No hexadecimal literal starts here if every mark that is here is an open
one, with no digit behind it. -/
theorem hexLiteral?_eq_none_iff {pairs : List (String × String)} :
    hexLiteral? offset cs pairs = .ok none ↔
      ∀ q ∈ pairs, ∀ body, q.1.toList ++ body = cs →
        q.2.toList = [] ∧ ∀ b ∈ body.head?, isHexDigit b = false := by
  induction pairs with
  | nil => simp [hexLiteral?]
  | cons q pairs ih =>
    obtain ⟨start, stop⟩ := q
    rw [hexLiteral?, List.forall_mem_cons]
    cases hbody : start.toList.isPrefixOf? cs with
    | none =>
      have hno (body : List Char) : start.toList ++ body ≠ cs := by
        rw [ne_eq, ← List.isPrefixOf?_eq_some_iff_append_eq, hbody]
        simp
      simpa [hno] using ih
    | some body =>
      have hbody' (body' : List Char) : start.toList ++ body' = cs ↔ body' = body := by
        rw [← List.isPrefixOf?_eq_some_iff_append_eq, hbody, Option.some.injEq, eq_comm]
      simp only [hbody', forall_eq]
      by_cases hstop : stop.toList = []
      · rw [dif_pos hstop]
        by_cases hdigits : body.takeWhile isHexDigit = []
        · rw [dif_pos hdigits, ih, and_iff_right ⟨hstop, takeWhile_eq_nil.1 hdigits⟩]
        · rw [dif_neg hdigits]
          exact iff_of_false (by simp) fun h => hdigits (takeWhile_eq_nil.2 h.1.2)
      · rw [dif_neg hstop]
        refine iff_of_false (fun h => ?_) fun h => hstop h.1.1
        split at h
        · cases h
        · split at h <;> cases h

/-- Where no hexadecimal literal starts, none starts without what follows. -/
theorem hexLiteral?_front {rest : List Char} {pairs : List (String × String)} (offset' : Nat)
    (h : hexLiteral? offset (cs ++ rest) pairs = .ok none) :
    hexLiteral? offset' cs pairs = .ok none := by
  rw [hexLiteral?_eq_none_iff] at h ⊢
  rintro q hq body rfl
  obtain ⟨hstop, hbody⟩ := h q hq (body ++ rest) (List.append_assoc ..).symm
  refine ⟨hstop, fun b hb => hbody b ?_⟩
  rw [Option.mem_def] at hb ⊢
  rw [List.head?_append, hb, Option.some_or]

/-! ## where a word stands -/

/-- A hexadecimal literal is no bare word. -/
theorem hexLiteral?_isBare {pairs : List (String × String)}
    (h : hexLiteral? offset cs pairs = .ok (some p)) (hk : p.kind? = some k) :
    k.isBare = false := by
  rcases hexLiteral?_kind h with ⟨ds, hk', -⟩ | ⟨ds, hk', -⟩ <;>
    rw [hk] at hk' <;> cases hk' <;> rfl

/-- A bare word is a word where no delimited identifier starts. -/
theorem plainLexeme_bare (h : plainLexeme d offset c cs = .ok p) (hk : p.kind? = some k)
    (hbare : k.isBare = true) :
    (d.lexis.identifiers.find? fun q => q.1 = c) = none ∧ startsWord c = true ∧
      p = word d c cs := by
  cases hfind : d.lexis.identifiers.find? fun q => q.1 = c with
  | some q =>
    unfold plainLexeme at h
    rw [hfind] at h
    dsimp only at h
    split at h <;> cases h
    cases hk
    cases hbare
  | none =>
    cases plainLexeme_cases h with
    | identifier hfind' => rw [hfind] at hfind'; cases hfind'
    | string _ _ hp => subst hp; cases hk; cases hbare
    | number _ hnumber =>
      rw [(number_genuine (d := d) hnumber).1] at hk
      cases hk
      cases hbare
    | word hstart hp => exact ⟨rfl, hstart, hp⟩
    | symbol hsymbol =>
      unfold symbol? at hsymbol
      split at hsymbol <;> cases hsymbol <;> cases hk <;> cases hbare

/-- Where no delimited identifier starts, a word is a lexeme. -/
theorem plainLexeme_word (hfind : (d.lexis.identifiers.find? fun q => q.1 = c) = none)
    (hstart : startsWord c = true) : plainLexeme d offset c cs = .ok (word d c cs) := by
  have hquote : ¬ c = '\x27' := ne_of_startsWord hstart (by decide)
  have hnumber : ¬ startsNumber c cs = true := by
    rw [startsNumber_of_startsWord hstart]
    exact Bool.false_ne_true
  rw [plainLexeme, hfind]
  dsimp only
  rw [if_neg hquote, dif_neg hnumber, if_pos hstart]

/-- A piece that is a bare word is taken by the last rule. -/
theorem frontPiece_bare (h : frontPiece d offset c cs = .ok p) (hk : p.kind? = some k)
    (hbare : k.isBare = true) :
    gap? offset c cs = .ok none ∧ hexLiteral? offset (c :: cs) d.lexis.hexStrings = .ok none ∧
      plainLexeme d offset c cs = .ok p := by
  rw [frontPiece] at h
  simp only [bind, Except.bind] at h
  cases hgap : gap? offset c cs with
  | error => rw [hgap] at h; cases h
  | ok g =>
    rw [hgap] at h
    cases g with
    | some q =>
      cases h
      rw [gap?_kind hgap] at hk
      cases hk
    | none =>
      dsimp only at h
      cases hhex : hexLiteral? offset (c :: cs) d.lexis.hexStrings with
      | error => rw [hhex] at h; cases h
      | ok x =>
        rw [hhex] at h
        cases x with
        | some q =>
          cases h
          rw [hexLiteral?_isBare hhex hk] at hbare
          cases hbare
        | none => exact ⟨rfl, rfl, h⟩

/-- The piece of a word is the same without what follows the word. -/
theorem frontPiece_alone (offset' : Nat) (h : frontPiece d offset c cs = .ok p)
    (hk : p.kind? = some k) (hbare : k.isBare = true) :
    p = word d c cs ∧ frontPiece d offset' c (cs.takeWhile continuesWord) = .ok p := by
  obtain ⟨-, hhex, hplain⟩ := frontPiece_bare h hk hbare
  obtain ⟨hfind, hstart, rfl⟩ := plainLexeme_bare hplain hk hbare
  refine ⟨rfl, ?_⟩
  have hgap : gap? offset' c (cs.takeWhile continuesWord) = .ok none :=
    gap?_eq_none (isBlank_of_startsWord hstart)
      (fun h => absurd h (ne_of_startsWord hstart (by decide)))
      fun h => absurd h (ne_of_startsWord hstart (by decide))
  have hhex' : hexLiteral? offset' (c :: cs.takeWhile continuesWord) d.lexis.hexStrings =
      .ok none := by
    rw [← List.takeWhile_append_dropWhile (p := continuesWord) (l := cs)] at hhex
    exact hexLiteral?_front offset' hhex
  have hword : word d c (cs.takeWhile continuesWord) = word d c cs := by
    rw [word, word, List.takeWhile_idem]
  rw [frontPiece, hgap, hhex', ← hword]
  exact plainLexeme_word hfind hstart

/-! ## whole texts -/

/-- A word of a scan, scanned by itself, is the same word. -/
theorem scan_alone {sql : String} {ls : List Lexeme} (h : d.scan sql = .ok ls) :
    ∀ t ∈ ls, t.kind.isBare = true → d.scan t.text = .ok [⟨t.kind, t.text, 0⟩] := by
  refine scanBy_forall (fun offset c cs p hp t ht hbare => ?_) 0 sql.toList ls h
  obtain ⟨k, hk, rfl⟩ := Piece.mem_lexemes ht
  obtain ⟨rfl, halone⟩ := frontPiece_alone 0 hp hk hbare
  have hlength : (word d c cs).length = (cs.takeWhile continuesWord).length + 1 := rfl
  have htake : (c :: cs).take (word d c cs).length = c :: cs.takeWhile continuesWord := by
    rw [hlength, List.take_succ_cons, ← List.prefix_iff_eq_take.1 (List.takeWhile_prefix _)]
  rw [← List.append_nil (cs.takeWhile continuesWord)] at halone
  have hscan := scanFrom_piece halone hlength
  rw [List.append_nil, scanFrom.eq_def d _ [], scanBy, Piece.lexemes, hk] at hscan
  rw [htake, Dialect.scan, String.toList_ofList, hscan]
  rfl

end SqlDialect
