import Mathlib.Data.List.Infix
import SqlDialect.Proofs.Lexeme.Layout
import SqlDialect.Proofs.Lexeme.Piece

/-!
# SqlDialect.Proofs.Lexeme.Line

The end of a line ends whatever stands before it, as the end of a text does:
no comment, literal, word or symbol that is complete goes on behind it.

* `takeWhile_line`, `indexOf?_append`, `readQuoted_line` -- how the rules look
  ahead.
* `frontPiece_line` -- a piece is the same in front of a line break.
* `scanFrom_line` -- so are all lexemes of a text.
-/

namespace SqlDialect

open Text

/-! ## looking ahead -/

theorem takeWhile_line {q : Char → Bool} (hq : q '\n' = false) (cs rest : List Char) :
    (cs ++ '\n' :: rest).takeWhile q = cs.takeWhile q := by
  induction cs with
  | nil => rw [List.nil_append, List.takeWhile_cons, hq]; rfl
  | cons c cs ih => rw [List.cons_append, List.takeWhile_cons, List.takeWhile_cons, ih]

/-- What does not start with a character does not in front of a line break. -/
theorem not_cons_line {d : Char} (hd : d ≠ '\n') {cs : List Char}
    (h : ∀ tail, cs = d :: tail → False) (rest tail : List Char) :
    cs ++ '\n' :: rest = d :: tail → False := by
  cases cs with
  | nil => exact fun heq => hd (List.cons.inj heq).1.symm
  | cons c cs => exact fun heq => h cs (by rw [(List.cons.inj heq).1])

/-- A mark without a line break in it is in front of a text or not, whatever
follows the line. -/
theorem isPrefixOf?_line {mark : List Char} (hm : '\n' ∉ mark) (cs rest : List Char) :
    mark.isPrefixOf? (cs ++ '\n' :: rest) =
      (mark.isPrefixOf? cs).map fun body => body ++ '\n' :: rest := by
  induction mark generalizing cs with
  | nil => rfl
  | cons m mark ih =>
    rw [List.mem_cons, not_or] at hm
    cases cs with
    | nil =>
      have hne : (m == '\n') = false := beq_eq_false_iff_ne.2 (Ne.symm hm.1)
      simp only [List.nil_append, List.isPrefixOf?, hne, Bool.false_eq_true, if_false,
        Option.map_none]
    | cons c cs =>
      rw [List.cons_append, List.isPrefixOf?, List.isPrefixOf?, ih hm.2]
      split <;> rfl

/-- What is found is found in a longer text, at the same place: it stands in
the shorter one as a whole. -/
theorem indexOf?_append {stop cs : List Char} {n : Nat} (h : indexOf? stop cs = some n)
    (rest : List Char) :
    indexOf? stop (cs ++ rest) = some n ∧ n + stop.length ≤ cs.length := by
  induction cs generalizing n with
  | nil =>
    rw [indexOf?] at h
    split at h
    case isTrue hempty =>
      cases h
      obtain rfl := List.isEmpty_iff.1 hempty
      refine ⟨?_, Nat.le_refl _⟩
      cases rest <;> rfl
    case isFalse => cases h
  | cons c cs ih =>
    rw [indexOf?] at h
    split at h
    case isTrue hfront =>
      cases h
      have hstands := List.isPrefixOf_iff_prefix.1 hfront
      refine ⟨?_, by simpa using hstands.length_le⟩
      have hlonger : stop.isPrefixOf (c :: (cs ++ rest)) = true :=
        List.isPrefixOf_iff_prefix.2 (hstands.trans (List.prefix_append (c :: cs) rest))
      rw [List.cons_append, indexOf?, if_pos hlonger]
    case isFalse hfront =>
      obtain ⟨n, hn, rfl⟩ := Option.map_eq_some_iff.1 h
      obtain ⟨hlater, hle⟩ := ih hn
      refine ⟨?_, by rw [List.length_cons]; omega⟩
      have hlonger : ¬stop.isPrefixOf (c :: (cs ++ rest)) = true := by
        intro hp
        refine hfront (List.isPrefixOf_iff_prefix.2 ?_)
        refine List.prefix_of_prefix_length_le (List.isPrefixOf_iff_prefix.1 hp)
          (List.prefix_append (c :: cs) rest) ?_
        rw [List.length_cons]
        omega
      rw [List.cons_append, indexOf?, if_neg hlonger, hlater]
      rfl

/-- Text that is closed is closed in front of a line break, which is no
closing delimiter. -/
theorem readQuoted_line {closing : Char} (hc : closing ≠ '\n') {cs value : List Char} {n : Nat}
    (h : readQuoted closing cs = some (value, n)) (rest : List Char) :
    readQuoted closing (cs ++ '\n' :: rest) = some (value, n) ∧ n ≤ cs.length := by
  induction cs using readQuoted.induct closing generalizing value n with
  | case1 => cases h
  | case2 =>
    simp only [readQuoted, if_true] at h
    cases h
    refine ⟨?_, Nat.le_refl _⟩
    rw [List.singleton_append, readQuoted, if_pos rfl, if_neg hc.symm]
  | case3 c hne => simp only [readQuoted, if_neg hne] at h; cases h
  | case4 cs ih =>
    simp only [readQuoted, if_true] at h
    obtain ⟨⟨value', n'⟩, hread, heq⟩ := Option.map_eq_some_iff.1 h
    cases heq
    obtain ⟨hlonger, hle⟩ := ih hread
    refine ⟨?_, Nat.add_le_add_right hle 2⟩
    rw [List.cons_append, List.cons_append, readQuoted, if_pos rfl, if_pos rfl, hlonger]
    rfl
  | case5 d cs hd =>
    simp only [readQuoted, if_true, if_neg hd] at h
    cases h
    refine ⟨?_, by simp⟩
    rw [List.cons_append, List.cons_append, readQuoted, if_pos rfl, if_neg hd]
  | case6 c d cs hne ih =>
    simp only [readQuoted, if_neg hne] at h
    obtain ⟨⟨value', n'⟩, hread, heq⟩ := Option.map_eq_some_iff.1 h
    cases heq
    obtain ⟨hlonger, hle⟩ := ih hread
    refine ⟨?_, Nat.succ_le_succ hle⟩
    rw [List.cons_append] at hlonger
    rw [List.cons_append, List.cons_append, readQuoted, if_neg hne, hlonger]
    rfl

theorem digitsLength_line (cs rest : List Char) :
    digitsLength (cs ++ '\n' :: rest) = digitsLength cs ∧ digitsLength cs ≤ cs.length :=
  ⟨congrArg List.length (takeWhile_line rfl cs rest), (List.takeWhile_sublist _).length_le⟩

/-! ## numbers -/

theorem startsNumber_line (c : Char) (cs rest : List Char) :
    startsNumber c (cs ++ '\n' :: rest) = startsNumber c cs := by
  cases cs <;> rfl

theorem mantissaLength_line (cs rest : List Char) :
    mantissaLength (cs ++ '\n' :: rest) = mantissaLength cs ∧ mantissaLength cs ≤ cs.length := by
  obtain ⟨hdigits, hle⟩ := digitsLength_line cs rest
  unfold mantissaLength
  dsimp only
  rw [hdigits, List.drop_append_of_le_length hle]
  cases hpart : cs.drop (digitsLength cs) with
  | nil => exact ⟨rfl, hle⟩
  | cons c part =>
    have hlength := congrArg List.length hpart
    rw [List.length_drop, List.length_cons] at hlength
    obtain ⟨hdigits', hle'⟩ := digitsLength_line part rest
    by_cases hc : c = '.'
    · subst hc
      simp only [List.cons_append, hdigits']
      exact ⟨trivial, by omega⟩
    · simp only [List.cons_append, List.cons.injEq, hc, false_and, imp_self, implies_true]
      exact ⟨trivial, hle⟩

/-- The mark of an exponent is told by two characters, if there are as many. -/
theorem exponentMarkLength_two (c d : Char) (cs : List Char) :
    exponentMarkLength (c :: d :: cs) =
      if c = 'e' ∨ c = 'E' then if d = '+' ∨ d = '-' then 2 else 1 else 0 := by
  by_cases he : c = 'e'
  · subst he
    by_cases hplus : d = '+'
    · subst hplus; rfl
    · by_cases hminus : d = '-'
      · subst hminus; rfl
      · simp [exponentMarkLength, hplus, hminus]
  · by_cases hE : c = 'E'
    · subst hE
      by_cases hplus : d = '+'
      · subst hplus; rfl
      · by_cases hminus : d = '-'
        · subst hminus; rfl
        · simp [exponentMarkLength, hplus, hminus]
    · simp [exponentMarkLength, he, hE]

theorem exponentMarkLength_one (c : Char) :
    exponentMarkLength [c] = if c = 'e' ∨ c = 'E' then 1 else 0 := by
  by_cases he : c = 'e'
  · subst he; rfl
  · by_cases hE : c = 'E'
    · subst hE; rfl
    · simp [exponentMarkLength, he, hE]

theorem exponentMarkLength_line (cs rest : List Char) :
    exponentMarkLength (cs ++ '\n' :: rest) = exponentMarkLength cs ∧
      exponentMarkLength cs ≤ cs.length := by
  match cs with
  | [] => exact ⟨rfl, Nat.zero_le _⟩
  | [c] =>
    rw [List.singleton_append, exponentMarkLength_two, exponentMarkLength_one]
    exact ⟨rfl, by split <;> simp⟩
  | c :: d :: cs =>
    rw [List.cons_append, List.cons_append, exponentMarkLength_two, exponentMarkLength_two]
    exact ⟨rfl, by split <;> [split; skip] <;> simp⟩

theorem number_line {offset : Nat} {c : Char} {cs : List Char} {p : Piece}
    {h : startsNumber c cs = true} (hp : number offset c cs h = .ok p) (rest : List Char)
    (h' : startsNumber c (cs ++ '\n' :: rest) = true) :
    number offset c (cs ++ '\n' :: rest) h' = .ok p ∧ p.length ≤ cs.length + 1 := by
  have hm := mantissaLength_line (c :: cs) rest
  have hx := exponentMarkLength_line ((c :: cs).drop (mantissaLength (c :: cs))) rest
  have hd := digitsLength_line ((c :: cs).drop (mantissaLength (c :: cs) +
    exponentMarkLength ((c :: cs).drop (mantissaLength (c :: cs))))) rest
  rw [List.length_drop, List.length_cons] at hx hd
  rw [List.length_cons, List.cons_append] at hm
  have hdrop (n : Nat) (hn : n ≤ cs.length + 1) :
      (c :: (cs ++ '\n' :: rest)).drop n = (c :: cs).drop n ++ '\n' :: rest := by
    rw [← List.cons_append]
    exact List.drop_append_of_le_length hn
  have hmark := hdrop _ hm.2
  have hdigits := hdrop (mantissaLength (c :: cs) +
    exponentMarkLength ((c :: cs).drop (mantissaLength (c :: cs)))) (by omega)
  unfold number at hp ⊢
  simp only [hm.1, hmark, hx.1, hdigits, hd.1]
  dsimp only at hp
  split at hp
  case isTrue => cases hp
  case isFalse hne =>
    cases hp
    rw [if_neg hne]
    exact ⟨rfl, by dsimp only; omega⟩

/-! ## pieces -/

/-- A piece that a text is read as is within the text. -/
def Within (cs : List Char) (x : Option Piece) : Prop := ∀ p ∈ x, p.length ≤ cs.length

theorem within_none (cs : List Char) : Within cs none := fun _ hp => nomatch hp

theorem within_some {cs : List Char} {p : Piece} (h : p.length ≤ cs.length) :
    Within cs (some p) := by
  intro q hq
  cases hq
  exact h

theorem comment?_line {offset : Nat} {cs : List Char} {x : Option Piece}
    (h : comment? offset cs = .ok x) (rest : List Char) :
    comment? offset (cs ++ '\n' :: rest) = .ok x ∧ Within cs x := by
  unfold comment? at h
  split at h
  case h_1 body =>
    cases h
    have hle := (List.takeWhile_sublist (· ≠ '\n') (l := body)).length_le
    refine ⟨?_, within_some (by simp only [Piece.gap, List.length_cons]; omega)⟩
    rw [List.cons_append, List.cons_append, comment?, takeWhile_line (by decide)]
  case h_2 body =>
    split at h
    case h_1 n hn =>
      cases h
      obtain ⟨hlonger, hle⟩ := indexOf?_append hn ('\n' :: rest)
      rw [List.length_cons, List.length_cons, List.length_nil] at hle
      refine ⟨?_, within_some (by simp only [Piece.gap, List.length_cons]; omega)⟩
      rw [List.cons_append, List.cons_append, comment?, hlonger]
    case h_2 => cases h
  case h_3 hline hblock =>
    cases h
    refine ⟨?_, within_none cs⟩
    unfold comment?
    split
    case h_1 body heq =>
      cases cs with
      | nil => cases (List.cons.inj heq).1
      | cons c cs =>
        obtain ⟨rfl, -⟩ := List.cons.inj heq
        refine absurd (List.cons.inj heq).2 (not_cons_line (by decide) (fun tail ht => ?_) rest _)
        exact hline tail (by rw [ht])
    case h_2 body heq =>
      cases cs with
      | nil => cases (List.cons.inj heq).1
      | cons c cs =>
        obtain ⟨rfl, -⟩ := List.cons.inj heq
        refine absurd (List.cons.inj heq).2 (not_cons_line (by decide) (fun tail ht => ?_) rest _)
        exact hblock tail (by rw [ht])
    case h_3 => rfl

theorem gap?_line {offset : Nat} {c : Char} {cs : List Char} {x : Option Piece}
    (h : gap? offset c cs = .ok x) (rest : List Char) :
    gap? offset c (cs ++ '\n' :: rest) = .ok x ∧ Within (c :: cs) x := by
  unfold gap? at h ⊢
  split at h
  case isTrue hblank =>
    cases h
    rw [if_pos hblank]
    exact ⟨rfl, within_some (Nat.le_add_left 1 _)⟩
  case isFalse hblank =>
    rw [if_neg hblank]
    exact comment?_line h rest

theorem hexLiteral?_line {offset : Nat} {cs : List Char} {pairs : List (String × String)}
    {x : Option Piece} (hpairs : ∀ q ∈ pairs, '\n' ∉ q.1.toList)
    (h : hexLiteral? offset cs pairs = .ok x) (rest : List Char) :
    hexLiteral? offset (cs ++ '\n' :: rest) pairs = .ok x ∧ Within cs x := by
  induction pairs with
  | nil => cases h; exact ⟨rfl, within_none cs⟩
  | cons q pairs ih =>
    obtain ⟨start, stop⟩ := q
    rw [List.forall_mem_cons] at hpairs
    rw [hexLiteral?] at h ⊢
    rw [isPrefixOf?_line hpairs.1]
    split at h
    case h_1 hstart =>
      rw [hstart]
      exact ih hpairs.2 h
    case h_2 body hstart =>
      have hcs := (List.isPrefixOf?_eq_some_iff_append_eq.1 hstart).symm
      rw [hstart]
      dsimp only [Option.map_some] at h ⊢
      split at h
      case isTrue hstop =>
        have hdigits : (body ++ '\n' :: rest).takeWhile isHexDigit = body.takeWhile isHexDigit :=
          takeWhile_line (by decide) body rest
        simp only [hdigits]
        rw [dif_pos hstop]
        split at h
        case isTrue hnone => rw [dif_pos hnone]; exact ih hpairs.2 h
        case isFalse hsome =>
          cases h
          rw [dif_neg hsome]
          refine ⟨rfl, within_some ?_⟩
          have := (List.takeWhile_sublist isHexDigit (l := body)).length_le
          rw [hcs, List.length_append]
          dsimp only
          omega
      case isFalse hstop =>
        rw [dif_neg hstop]
        split at h
        case h_1 => cases h
        case h_2 n hn =>
          obtain ⟨hlater, hle⟩ := indexOf?_append hn ('\n' :: rest)
          rw [hlater]
          have htake : (body ++ '\n' :: rest).take n = body.take n :=
            List.take_append_of_le_length (by omega)
          simp only [htake]
          split at h
          case isTrue hall =>
            cases h
            rw [if_pos hall]
            refine ⟨rfl, within_some ?_⟩
            rw [hcs, List.length_append]
            dsimp only
            omega
          case isFalse => cases h

theorem word_line (d : Dialect) (c : Char) (cs rest : List Char) :
    word d c (cs ++ '\n' :: rest) = word d c cs ∧ (word d c cs).length ≤ cs.length + 1 := by
  unfold word
  rw [takeWhile_line (by decide)]
  exact ⟨rfl, Nat.succ_le_succ (List.takeWhile_sublist _).length_le⟩

theorem symbol?_line {cs : List Char} {p : Piece} (h : symbol? cs = some p) (rest : List Char) :
    symbol? (cs ++ '\n' :: rest) = some p ∧ p.length ≤ cs.length := by
  unfold symbol? at h
  split at h <;> cases h
  -- Other symbols start with these, and none of the others goes on with a line break.
  case h_2 tail hdouble =>
    have hline := not_cons_line (by decide) hdouble rest
    exact ⟨symbol?.eq_2 _ hline, by simp [Piece.ofKind]⟩
  case h_9 tail heq =>
    have hline := not_cons_line (by decide) heq rest
    exact ⟨symbol?.eq_9 _ hline, by simp [Piece.ofKind]⟩
  case h_10 tail hne hle =>
    have hline := not_cons_line (by decide) hne rest
    have hline' := not_cons_line (by decide) hle rest
    exact ⟨symbol?.eq_10 _ hline hline', by simp [Piece.ofKind]⟩
  case h_11 tail hge =>
    have hline := not_cons_line (by decide) hge rest
    exact ⟨symbol?.eq_11 _ hline, by simp [Piece.ofKind]⟩
  case h_19 tail _ harrow =>
    have hline := not_cons_line (by decide) harrow rest
    exact ⟨symbol?.eq_19 _ (fun tail => hline ('>' :: tail)) hline, by simp [Piece.ofKind]⟩
  all_goals exact ⟨rfl, by simp [Piece.ofKind]⟩

section

variable {b : Builtin} {offset : Nat} {c : Char} {cs : List Char}

theorem plainLexeme_line {p : Piece} (h : plainLexeme b.dialect offset c cs = .ok p)
    (rest : List Char) :
    plainLexeme b.dialect offset c (cs ++ '\n' :: rest) = .ok p ∧ p.length ≤ cs.length + 1 := by
  unfold plainLexeme at h ⊢
  split at h
  case h_1 opening closing hfind =>
    have hclosing : ∀ q ∈ b.dialect.lexis.identifiers, q.2 ≠ '\n' := by cases b <;> decide
    split at h
    case h_1 name n hread =>
      cases h
      obtain ⟨hlonger, hle⟩ :=
        readQuoted_line (hclosing _ (List.mem_of_find?_eq_some hfind)) hread rest
      rw [hlonger]
      exact ⟨rfl, Nat.succ_le_succ hle⟩
    case h_2 => cases h
  case h_2 hfind =>
    split at h
    case isTrue hquote =>
      rw [if_pos hquote]
      split at h
      case h_1 value n hread =>
        cases h
        obtain ⟨hlonger, hle⟩ := readQuoted_line (by decide) hread rest
        rw [hlonger]
        exact ⟨rfl, Nat.succ_le_succ hle⟩
      case h_2 => cases h
    case isFalse hquote =>
      rw [if_neg hquote]
      split at h
      case isTrue hstart =>
        have hstart' : startsNumber c (cs ++ '\n' :: rest) = true := by
          rw [startsNumber_line, hstart]
        rw [dif_pos hstart']
        exact number_line h rest hstart'
      case isFalse hstart =>
        rw [dif_neg (by rwa [startsNumber_line])]
        split at h
        case isTrue hword =>
          cases h
          obtain ⟨hlonger, hle⟩ := word_line b.dialect c cs rest
          rw [if_pos hword, hlonger]
          exact ⟨rfl, hle⟩
        case isFalse hword =>
          rw [if_neg hword]
          split at h
          case h_1 p hsymbol =>
            cases h
            obtain ⟨hlonger, hle⟩ := symbol?_line hsymbol rest
            rw [List.cons_append] at hlonger
            rw [hlonger]
            exact ⟨rfl, hle⟩
          case h_2 => cases h

/-- The piece at the front of a text is the same in front of a line break. -/
theorem frontPiece_line {p : Piece} (h : frontPiece b.dialect offset c cs = .ok p)
    (rest : List Char) :
    frontPiece b.dialect offset c (cs ++ '\n' :: rest) = .ok p ∧ p.length ≤ cs.length + 1 := by
  have hmarks : ∀ q ∈ b.dialect.lexis.hexStrings, '\n' ∉ q.1.toList := by cases b <;> decide
  rw [frontPiece] at h ⊢
  simp only [bind, Except.bind] at h ⊢
  cases hg : gap? offset c cs with
  | error => rw [hg] at h; cases h
  | ok g =>
    obtain ⟨hgap, hwithin⟩ := gap?_line hg rest
    rw [hg] at h
    rw [hgap]
    cases g with
    | some q => cases h; exact ⟨rfl, hwithin _ rfl⟩
    | none =>
      dsimp only at h ⊢
      cases hx : hexLiteral? offset (c :: cs) b.dialect.lexis.hexStrings with
      | error => rw [hx] at h; cases h
      | ok x =>
        obtain ⟨hhex, hwithin⟩ := hexLiteral?_line hmarks hx rest
        rw [List.cons_append] at hhex
        rw [hx] at h
        rw [hhex]
        cases x with
        | some q => cases h; exact ⟨rfl, hwithin _ rfl⟩
        | none => exact plainLexeme_line h rest

/-! ## whole texts -/

/-- A text is scanned in front of a line break as it is alone. -/
theorem scanFrom_line {ls : List Lexeme} (h : scanFrom b.dialect offset cs = .ok ls)
    (rest : List Char) :
    scanFrom b.dialect offset (cs ++ '\n' :: rest) =
      (scanFrom b.dialect (offset + byteLength cs) ('\n' :: rest)).map fun ls' => ls ++ ls' := by
  unfold scanFrom at h
  induction offset, cs using scanBy.induct generalizing ls with
  | case1 offset =>
    rw [scanBy] at h
    cases h
    generalize hx : scanFrom b.dialect offset ('\n' :: rest) = x
    cases x <;> simp [byteLength, Except.map, hx]
  | case2 offset c cs ih =>
    rw [scanBy] at h
    cases hp : frontPiece b.dialect offset c cs with
    | error => rw [hp] at h; cases h
    | ok p =>
      rw [hp] at h
      simp only [bind, Except.bind] at h
      cases hrest : scanBy (frontPiece b.dialect) (offset + byteLength ((c :: cs).take p.length))
          ((c :: cs).drop p.length) with
      | error => rw [hrest] at h; cases h
      | ok others =>
        rw [hrest] at h
        cases h
        obtain ⟨hline, hle⟩ := frontPiece_line hp rest
        have hbytes : byteLength (c :: cs) =
            byteLength ((c :: cs).take p.length) + byteLength ((c :: cs).drop p.length) := by
          rw [← byteLength_append, List.take_append_drop]
        rw [hbytes, ← Nat.add_assoc, ← map_append_map, ← ih p hrest, List.cons_append, scanFrom,
          scanBy, hline]
        simp only [bind, Except.bind]
        rw [← List.cons_append, List.take_append_of_le_length hle,
          List.drop_append_of_le_length hle]
        rfl

end

end SqlDialect
