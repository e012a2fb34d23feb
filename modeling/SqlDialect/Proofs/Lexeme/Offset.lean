import Mathlib.Data.List.Basic
import SqlDialect.Proofs.Lexeme.Front
import SqlDialect.Proofs.Lexeme.Scans

/-!
# SqlDialect.Proofs.Lexeme.Offset

Where lexemes and complaints stand in a text.

* `scanFrom_shift` -- the scan of a text depends on where the text starts
  through its offsets only.
* `ParseError.Marks` -- what a complaint says about the text behind its place.
* `scanFrom_complaint`, `scanFrom_error` -- a complaint about a text carries the
  offset of a place in it, and what it says stands there.
-/

namespace SqlDialect

open Text

/-! ## offsets -/

/-- A lexeme of a text that stands so many bytes further on. -/
def Lexeme.shift (n : Nat) (t : Lexeme) : Lexeme := { t with offset := n + t.offset }

/-- The offset that a complaint carries, if it is about a place. -/
def ParseError.offset? : ParseError → Option Nat
  | .unexpectedChar _ offset | .unterminatedString offset | .unterminatedIdentifier offset
  | .unterminatedComment offset | .invalidHexString _ offset | .invalidNumber _ offset
  | .unexpectedToken _ _ offset => some offset
  | .unexpectedEnd _ | .unknownType _ | .wrongArgumentCount .. | .invalidUnit _
  | .notSingleStatement _ => none

/-- What a complaint says about the text behind the place that it is about: the
text starts with the character, number or lexeme that it names, or with the mark
that opens what is not closed. -/
def ParseError.Marks (d : Dialect) (post : List Char) : ParseError → Prop
  | .unexpectedChar c _ => [c] <+: post
  | .unterminatedString _ =>
    ['\x27'] <+: post ∨ ∃ q ∈ d.lexis.hexStrings, q.1.toList <+: post
  | .unterminatedIdentifier _ => ∃ q ∈ d.lexis.identifiers, [q.1] <+: post
  | .unterminatedComment _ => ['/', '*'] <+: post
  | .invalidHexString text _ => ∃ q ∈ d.lexis.hexStrings, q.1.toList ++ text.toList <+: post
  | .invalidNumber text _ => text.toList <+: post
  | .unexpectedToken found _ _ => found.toList <+: post
  | .unexpectedEnd _ | .unknownType _ | .wrongArgumentCount .. | .invalidUnit _
  | .notSingleStatement _ => True

/-- A complaint about a text that stands so many bytes further on. -/
def ParseError.shift (n : Nat) : ParseError → ParseError
  | .unexpectedChar c offset => .unexpectedChar c (n + offset)
  | .unterminatedString offset => .unterminatedString (n + offset)
  | .unterminatedIdentifier offset => .unterminatedIdentifier (n + offset)
  | .unterminatedComment offset => .unterminatedComment (n + offset)
  | .invalidHexString text offset => .invalidHexString text (n + offset)
  | .invalidNumber text offset => .invalidNumber text (n + offset)
  | .unexpectedToken found expected offset => .unexpectedToken found expected (n + offset)
  | e => e

/-- The result of a scan of a text that stands so many bytes further on. -/
def shifted (n : Nat) (x : Except ParseError (List Lexeme)) : Except ParseError (List Lexeme) :=
  (x.map (List.map (Lexeme.shift n))).mapError (ParseError.shift n)

variable {d : Dialect} {offset : Nat} {c : Char} {cs : List Char}

/-! ## one piece -/

theorem gap?_shift (n : Nat) (c : Char) (cs : List Char) :
    gap? (n + offset) c cs = (gap? offset c cs).mapError (ParseError.shift n) := by
  unfold gap?
  split
  · rfl
  · unfold comment?
    split
    · rfl
    · split <;> rfl
    · rfl

theorem hexLiteral?_shift (n : Nat) (cs : List Char) (pairs : List (String × String)) :
    hexLiteral? (n + offset) cs pairs =
      (hexLiteral? offset cs pairs).mapError (ParseError.shift n) := by
  induction pairs with
  | nil => rfl
  | cons q pairs ih =>
    obtain ⟨start, stop⟩ := q
    rw [hexLiteral?, hexLiteral?]
    split
    · exact ih
    · split
      · dsimp only
        split
        · exact ih
        · rfl
      · split
        · rfl
        · dsimp only
          split <;> rfl

theorem number_shift (n : Nat) (h : startsNumber c cs = true) :
    number (n + offset) c cs h = (number offset c cs h).mapError (ParseError.shift n) := by
  unfold number
  dsimp only
  split <;> rfl

theorem plainLexeme_shift (n : Nat) :
    plainLexeme d (n + offset) c cs = (plainLexeme d offset c cs).mapError (ParseError.shift n) := by
  unfold plainLexeme
  split
  · split <;> rfl
  · split
    · split <;> rfl
    · split
      · exact number_shift n _
      · split
        · rfl
        · split <;> rfl

/-- The piece at the front of a text is the same wherever the text stands. -/
theorem frontPiece_shift (n : Nat) :
    frontPiece d (n + offset) c cs = (frontPiece d offset c cs).mapError (ParseError.shift n) := by
  unfold frontPiece
  rw [gap?_shift, hexLiteral?_shift, plainLexeme_shift]
  simp only [bind, Except.bind]
  cases gap? offset c cs with
  | error => rfl
  | ok g =>
    cases g with
    | some => rfl
    | none =>
      cases hexLiteral? offset (c :: cs) d.lexis.hexStrings with
      | error => rfl
      | ok x => cases x <;> rfl

/-- A character in front of a text is what the text starts with. -/
theorem head_prefixed (c : Char) (cs : List Char) : [c] <+: c :: cs :=
  List.prefix_append [c] cs

theorem gap?_error {e : ParseError} (h : gap? offset c cs = .error e) :
    e.offset? = some offset ∧ e.Marks d (c :: cs) := by
  unfold gap? at h
  split at h
  · cases h
  · unfold comment? at h
    split at h
    · cases h
    case h_2 rest heq =>
      split at h <;> cases h
      rw [heq]
      exact ⟨rfl, rest, rfl⟩
    · cases h

/-- A hexadecimal literal that is not closed, or not of digits, starts with one
of the marks. -/
theorem hexLiteral?_error {pairs : List (String × String)} {e : ParseError}
    (hpairs : ∀ q ∈ pairs, q ∈ d.lexis.hexStrings)
    (h : hexLiteral? offset cs pairs = .error e) :
    e.offset? = some offset ∧ e.Marks d cs := by
  induction pairs with
  | nil => cases h
  | cons q pairs ih =>
    obtain ⟨start, stop⟩ := q
    rw [List.forall_mem_cons] at hpairs
    rw [hexLiteral?] at h
    split at h
    · exact ih hpairs.2 h
    case h_2 body hbody =>
      obtain rfl := List.isPrefixOf?_eq_some_iff_append_eq.1 hbody
      split at h
      · dsimp only at h
        split at h
        · exact ih hpairs.2 h
        · cases h
      · split at h
        · cases h
          exact ⟨rfl, .inr ⟨_, hpairs.1, List.prefix_append _ _⟩⟩
        case h_2 n _ =>
          dsimp only at h
          split at h <;> cases h
          refine ⟨rfl, _, hpairs.1, ?_⟩
          rw [String.toList_ofList, List.prefix_append_right_inj]
          exact List.take_prefix n body

theorem number_error {e : ParseError} {hstart : startsNumber c cs = true}
    (h : number offset c cs hstart = .error e) :
    e.offset? = some offset ∧ e.Marks d (c :: cs) := by
  unfold number at h
  dsimp only at h
  split at h <;> cases h
  refine ⟨rfl, ?_⟩
  rw [ParseError.Marks, String.toList_ofList]
  exact List.take_prefix _ _

theorem plainLexeme_error {e : ParseError} (h : plainLexeme d offset c cs = .error e) :
    e.offset? = some offset ∧ e.Marks d (c :: cs) := by
  unfold plainLexeme at h
  split at h
  case h_1 o closing hfind =>
    split at h <;> cases h
    obtain rfl : o = c := by simpa using List.find?_some hfind
    exact ⟨rfl, _, List.mem_of_find?_eq_some hfind, head_prefixed o cs⟩
  case h_2 =>
    split at h
    case isTrue hc =>
      split at h <;> cases h
      subst hc
      exact ⟨rfl, .inl (head_prefixed _ cs)⟩
    case isFalse =>
      split at h
      · exact number_error h
      · split at h
        · cases h
        · split at h <;> cases h
          exact ⟨rfl, head_prefixed c cs⟩

/-- A complaint about the front of a text carries the offset of the text. -/
theorem frontPiece_error {e : ParseError} (h : frontPiece d offset c cs = .error e) :
    e.offset? = some offset ∧ e.Marks d (c :: cs) := by
  rw [frontPiece] at h
  simp only [bind, Except.bind] at h
  cases hg : gap? offset c cs with
  | error => rw [hg] at h; cases h; exact gap?_error hg
  | ok g =>
    rw [hg] at h
    cases g with
    | some q => cases h
    | none =>
      dsimp only at h
      cases hx : hexLiteral? offset (c :: cs) d.lexis.hexStrings with
      | error => rw [hx] at h; cases h; exact hexLiteral?_error (fun _ hq => hq) hx
      | ok x =>
        rw [hx] at h
        cases x with
        | some q => cases h
        | none => exact plainLexeme_error h

/-! ## whole texts -/

theorem Piece.lexemes_shift (n : Nat) (p : Piece) (text : List Char) (offset : Nat) :
    p.lexemes text (n + offset) = (p.lexemes text offset).map (Lexeme.shift n) := by
  unfold lexemes
  split <;> rfl

/-- The lexemes of a text are the same wherever the text stands. -/
theorem scanFrom_shift (d : Dialect) (n offset : Nat) (cs : List Char) :
    scanFrom d (n + offset) cs = shifted n (scanFrom d offset cs) := by
  unfold scanFrom
  induction offset, cs using scanBy.induct with
  | case1 => rw [scanBy, scanBy]; rfl
  | case2 offset c cs ih =>
    rw [scanBy, scanBy, frontPiece_shift]
    cases frontPiece d offset c cs with
    | error => rfl
    | ok p =>
      simp only [Except.mapError, bind, Except.bind, Nat.add_assoc, ih p]
      cases scanBy (frontPiece d) (offset + byteLength ((c :: cs).take p.length))
          ((c :: cs).drop p.length) with
      | error => rfl
      | ok others => simp [shifted, Except.map, Except.mapError, Piece.lexemes_shift, pure, Except.pure]

/-- A complaint about a text carries the offset of a place in it, and what it
says stands there. -/
theorem scanFrom_complaint {e : ParseError} (h : scanFrom d offset cs = .error e) :
    ∃ pre post, cs = pre ++ post ∧ post ≠ [] ∧ e.offset? = some (offset + byteLength pre) ∧
      e.Marks d post := by
  unfold scanFrom at h
  induction offset, cs using scanBy.induct with
  | case1 => rw [scanBy] at h; cases h
  | case2 offset c cs ih =>
    rw [scanBy] at h
    cases hp : frontPiece d offset c cs with
    | error =>
      rw [hp] at h
      cases h
      exact ⟨[], c :: cs, rfl, List.cons_ne_nil c cs, frontPiece_error hp⟩
    | ok p =>
      rw [hp] at h
      simp only [bind, Except.bind] at h
      cases hrest : scanBy (frontPiece d) (offset + byteLength ((c :: cs).take p.length))
          ((c :: cs).drop p.length) with
      | ok => rw [hrest] at h; cases h
      | error =>
        rw [hrest] at h
        cases h
        obtain ⟨pre, post, hsplit, hne, hoffset, hmarks⟩ := ih p hrest
        refine ⟨(c :: cs).take p.length ++ pre, post, ?_, hne, ?_, hmarks⟩
        · rw [List.append_assoc, ← hsplit, List.take_append_drop]
        · rw [byteLength_append, ← Nat.add_assoc, hoffset]

/-- A complaint about a text carries the offset of a place in it. -/
theorem scanFrom_error {e : ParseError} (h : scanFrom d offset cs = .error e) :
    ∃ pre post, cs = pre ++ post ∧ post ≠ [] ∧ e.offset? = some (offset + byteLength pre) := by
  obtain ⟨pre, post, hsplit, hne, hoffset, -⟩ := scanFrom_complaint h
  exact ⟨pre, post, hsplit, hne, hoffset⟩

end SqlDialect
