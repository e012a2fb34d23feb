import Mathlib.Data.List.TakeWhile
import SqlDialect.Proofs.Lexeme.Layout
import SqlDialect.Proofs.Lexeme.Quoting

/-!
# SqlDialect.Proofs.Lexeme.Extent

How many bytes a lexeme takes up.

* `Extent` -- the bytes that each rule of the scan takes from the front of a text.
* `gap?_extent`, `hexLiteral?_extent`, `number_extent`, … -- one lemma for each
  rule.
* `scan_extent` -- every lexeme of a scan takes up what its rule takes.

The rules count characters.  Where a text is searched, the bytes depend on the
characters that are passed; digits, signs and marks take one byte each.
-/

namespace SqlDialect

open Text

/-- What the rule that applies at the front of a text takes, in bytes. -/
inductive Extent (d : Dialect) : List Char → Nat → Prop where
  | blank {c : Char} {cs : List Char} (hc : isBlank c = true) : Extent d (c :: cs) c.utf8Size
  /-- Everything in front of the end of the line. -/
  | line {cs : List Char} :
      Extent d ('-' :: '-' :: cs) (bytesBefore (· == '\n') ('-' :: '-' :: cs))
  /-- What stands in front of the closing mark, and four bytes for both marks. -/
  | block {cs : List Char} {n : Nat} (hn : indexOf? ['*', '/'] cs = some n) :
      Extent d ('/' :: '*' :: cs) (byteLength (cs.take n) + 4)
  /-- A mark and the digits behind it. -/
  | hexNumber {start stop : String} {body : List Char} (hq : (start, stop) ∈ d.lexis.hexStrings)
      (hstop : stop.toList = []) :
      Extent d (start.toList ++ body)
        (start.utf8ByteSize + bytesBefore (fun c => !isHexDigit c) body)
  /-- Two marks and what stands between them. -/
  | hexString {start stop : String} {body : List Char} {n : Nat}
      (hq : (start, stop) ∈ d.lexis.hexStrings) (hn : indexOf? stop.toList body = some n) :
      Extent d (start.toList ++ body)
        (start.utf8ByteSize + byteLength (body.take n) + stop.utf8ByteSize)
  /-- What stands in front of the closing delimiter, and that one. -/
  | delimited {opening closing : Char} {value rest : List Char} :
      Extent d (opening :: (doubled closing value ++ closing :: rest))
        (byteLength (opening :: doubled closing value) + closing.utf8Size)
  /-- The digits with their point, the mark of an exponent and its digits. -/
  | number {cs : List Char} : Extent d cs
      (mantissaLength cs + exponentMarkLength (cs.drop (mantissaLength cs)) +
        digitsLength (cs.drop (mantissaLength cs + exponentMarkLength (cs.drop (mantissaLength cs)))))
  /-- Everything in front of what continues no word, behind the first character. -/
  | word {c : Char} {cs : List Char} (hc : startsWord c = true) :
      Extent d (c :: cs) (c.utf8Size + bytesBefore (fun c => !continuesWord c) cs)
  | symbol {cs : List Char} {p : Piece} (hp : symbol? cs = some p) : Extent d cs p.length

variable {d : Dialect} {offset : Nat} {c : Char} {cs : List Char} {p : Piece}

/-! ## gaps -/

theorem byteLength_take_takeWhile (q : Char → Bool) (cs : List Char) :
    byteLength (cs.take (cs.takeWhile q).length) = bytesBefore (fun c => !q c) cs := by
  rw [← List.prefix_iff_eq_take.1 (List.takeWhile_prefix q), byteLength_takeWhile]

theorem gap?_extent (h : gap? offset c cs = .ok (some p)) :
    Extent d (c :: cs) (byteLength ((c :: cs).take p.length)) := by
  unfold gap? at h
  split at h
  case isTrue hc =>
    cases h
    exact .blank hc
  case isFalse =>
    unfold comment? at h
    split at h
    case h_1 rest heq =>
      cases h
      cases heq
      have hbytes : byteLength (('-' :: '-' :: rest).take (Piece.gap
          (1 + (rest.takeWhile (· ≠ '\n')).length)).length) =
            bytesBefore (· == '\n') ('-' :: '-' :: rest) := by
        rw [Piece.gap, Nat.add_comm 1, List.take_succ_cons, List.take_succ_cons, byteLength_cons,
          byteLength_cons, byteLength_take_takeWhile]
        simp [bytesBefore, beq_eq_decide]
      rw [hbytes]
      exact .line
    case h_2 rest heq =>
      cases heq
      split at h <;> cases h
      case h_1 n hn =>
        obtain ⟨body, rest', rfl, rfl, -⟩ := block_of_indexOf? hn
        have hbytes : byteLength (('/' :: '*' :: (body ++ ['*', '/'] ++ rest')).take
            (Piece.gap (body.length + 3)).length) =
              byteLength ((body ++ ['*', '/'] ++ rest').take body.length) + 4 := by
          have hsplit : '/' :: '*' :: (body ++ ['*', '/'] ++ rest') =
              ('/' :: '*' :: (body ++ ['*', '/'])) ++ rest' := by simp
          have hlength : (Piece.gap (body.length + 3)).length =
              ('/' :: '*' :: (body ++ ['*', '/'])).length := by simp [Piece.gap]
          rw [hsplit, hlength, List.take_left, List.append_assoc, List.take_left]
          simp only [byteLength_cons, byteLength_append, byteLength_nil]
          have hslash : '/'.utf8Size = 1 := rfl
          have hstar : '*'.utf8Size = 1 := rfl
          omega
        rw [hbytes]
        exact .block hn
    case h_3 => cases h

/-! ## hexadecimal literals -/

theorem hexLiteral?_extent {pairs : List (String × String)}
    (hpairs : ∀ q ∈ pairs, q ∈ d.lexis.hexStrings)
    (h : hexLiteral? offset cs pairs = .ok (some p)) :
    Extent d cs (byteLength (cs.take p.length)) := by
  induction pairs with
  | nil => cases h
  | cons q pairs ih =>
    obtain ⟨start, stop⟩ := q
    rw [List.forall_mem_cons] at hpairs
    rw [hexLiteral?] at h
    split at h
    case h_1 => exact ih hpairs.2 h
    case h_2 body hbody =>
      obtain rfl := List.isPrefixOf?_eq_some_iff_append_eq.1 hbody
      split at h
      case isTrue hstop =>
        dsimp only at h
        split at h
        case isTrue => exact ih hpairs.2 h
        case isFalse =>
          cases h
          have hbytes : byteLength ((start.toList ++ body).take
              (start.toList.length + (body.takeWhile isHexDigit).length)) =
                start.utf8ByteSize + bytesBefore (fun c => !isHexDigit c) body := by
            rw [List.take_length_add_append, byteLength_append, byteLength_toList,
              byteLength_take_takeWhile]
          rw [hbytes]
          exact .hexNumber hpairs.1 hstop
      case isFalse =>
        split at h
        case h_1 => cases h
        case h_2 n hn =>
          dsimp only at h
          split at h <;> cases h
          have hbytes : byteLength ((start.toList ++ body).take
              (start.toList.length + n + stop.toList.length)) =
                start.utf8ByteSize + byteLength (body.take n) + stop.utf8ByteSize := by
            obtain ⟨rest, hrest⟩ := (indexOf?_spec hn).1
            rw [Nat.add_assoc, List.take_length_add_append, List.take_add, ← hrest, List.take_left,
              byteLength_append, byteLength_append, byteLength_toList, byteLength_toList,
              Nat.add_assoc]
          rw [hbytes]
          exact .hexString hpairs.1 hn

/-! ## delimited texts -/

theorem delimited_extent {closing : Char} {value : List Char} {n : Nat} (c : Char)
    (kind : LexemeKind) (h : readQuoted closing cs = some (value, n)) :
    Extent d (c :: cs) (byteLength ((c :: cs).take (Piece.ofKind kind n).length)) := by
  have htake := doubled_of_readQuoted h
  have hcs : cs = doubled closing value ++ closing :: cs.drop n := by
    calc cs = cs.take n ++ cs.drop n := (List.take_append_drop n cs).symm
      _ = doubled closing value ++ closing :: cs.drop n := by rw [htake, List.append_assoc]; rfl
  have hbytes : byteLength ((c :: cs).take (Piece.ofKind kind n).length) =
      byteLength (c :: doubled closing value) + closing.utf8Size := by
    rw [Piece.ofKind, List.take_succ_cons, htake, byteLength_cons, byteLength_append,
      byteLength_cons, byteLength_cons, byteLength_nil, Nat.add_zero, Nat.add_assoc]
  rw [hbytes, hcs]
  exact .delimited

/-! ## numbers -/

theorem byteLength_digits (cs : List Char) :
    byteLength (cs.take (digitsLength cs)) = digitsLength cs := by
  rw [digitsLength, ← List.prefix_iff_eq_take.1 (List.takeWhile_prefix _)]
  exact byteLength_eq_length fun x hx => utf8Size_of_isDigit (List.mem_takeWhile_imp hx)

theorem byteLength_mantissa (cs : List Char) :
    byteLength (cs.take (mantissaLength cs)) = mantissaLength cs := by
  unfold mantissaLength
  dsimp only
  split
  case h_1 part heq =>
    rw [Nat.add_assoc, List.take_add, heq, Nat.add_comm 1, List.take_succ_cons, byteLength_append,
      byteLength_cons, byteLength_digits, byteLength_digits, Nat.add_comm (digitsLength part)]
    rfl
  case h_2 => exact byteLength_digits cs

theorem byteLength_exponentMark (cs : List Char) :
    byteLength (cs.take (exponentMarkLength cs)) = exponentMarkLength cs := by
  unfold exponentMarkLength
  split <;> rfl

theorem number_extent {hstart : startsNumber c cs = true} (h : number offset c cs hstart = .ok p) :
    Extent d (c :: cs) (byteLength ((c :: cs).take p.length)) := by
  unfold number at h
  dsimp only at h
  split at h
  · cases h
  · obtain rfl := Except.ok.inj h
    dsimp only
    rw [List.take_add, List.take_add, byteLength_append, byteLength_append, byteLength_mantissa,
      byteLength_exponentMark, byteLength_digits]
    exact .number

/-! ## words and symbols -/

theorem word_extent (cs : List Char) (hc : startsWord c = true) :
    Extent d (c :: cs) (byteLength ((c :: cs).take (word d c cs).length)) := by
  have hbytes : byteLength ((c :: cs).take (word d c cs).length) =
      c.utf8Size + bytesBefore (fun c => !continuesWord c) cs := by
    rw [word, Piece.ofKind, List.take_succ_cons, byteLength_cons, byteLength_take_takeWhile]
  rw [hbytes]
  exact .word hc

theorem symbol?_extent (h : symbol? cs = some p) :
    Extent d cs (byteLength (cs.take p.length)) := by
  have hbytes : byteLength (cs.take p.length) = p.length := by
    unfold symbol? at h
    split at h <;> cases h <;> rfl
  rw [hbytes]
  exact .symbol h

/-! ## whole texts -/

/-- A piece takes up what its rule takes. -/
theorem frontPiece_extent (h : frontPiece d offset c cs = .ok p) :
    Extent d (c :: cs) (byteLength ((c :: cs).take p.length)) := by
  rcases frontPiece_cases h with hgap | hhex | hplain
  · exact gap?_extent hgap
  · exact hexLiteral?_extent (fun _ hq => hq) hhex
  · cases plainLexeme_cases hplain with
    | identifier _ hread hp => subst hp; exact delimited_extent c _ hread
    | string _ hread hp => subst hp; exact delimited_extent c _ hread
    | number _ hnumber => exact number_extent hnumber
    | word hstart hp => subst hp; exact word_extent cs hstart
    | symbol hsymbol => exact symbol?_extent hsymbol

/-- Every lexeme of a scan takes up as many bytes as the rule for its place
takes. -/
theorem scan_extent {sql : String} {ls : List Lexeme} (h : d.scan sql = .ok ls) :
    ∀ t ∈ ls, ∃ pre post, sql.toList = pre ++ post ∧ t.offset = byteLength pre ∧
      Extent d post t.text.utf8ByteSize := by
  intro t ht
  obtain ⟨pre, c, post, p, hsplit, hp, hmem⟩ := scanBy_place h t ht
  obtain ⟨k, -, rfl⟩ := Piece.mem_lexemes hmem
  refine ⟨pre, c :: post, hsplit, Nat.zero_add _, ?_⟩
  rw [byteLength_ofList]
  exact frontPiece_extent hp

end SqlDialect
