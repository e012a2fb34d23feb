import SqlDialect.Dialect.Builtin
import SqlDialect.Proofs.Text.Bytes

/-!
# SqlDialect.Proofs.Lexeme.Scans

Texts that fall into the same lexemes wherever they stand.

* `Scans d F cs P` -- in front of any rest that `F` admits, the text `cs` is
  scanned by itself, and the lexemes it gives have the property `P`.
* `Scans.append` -- two such texts in a row.
* `Scans.split` -- the lexemes of such a text in front of a rest.
* `Scans.scan` -- the lexemes of a whole text.

The lexemes of a text depend on where it starts through their offsets only, so
`P` says what holds of them at any offset.
-/

namespace SqlDialect

open Text

/-- In front of any rest that `F` admits, the text is scanned by itself, into
lexemes with the property `P`. -/
def Scans (d : Dialect) (F : List Char → Prop) (cs : List Char) (P : List Lexeme → Prop) : Prop :=
  ∀ offset rest, F rest → ∃ ls, P ls ∧
    scanFrom d offset (cs ++ rest) =
      (scanFrom d (offset + byteLength cs) rest).map fun ls' => ls ++ ls'

/-- One lexeme of a kind, with its text. -/
def One (kind : LexemeKind) (text : String) (ls : List Lexeme) : Prop :=
  ∃ t, ls = [t] ∧ t.kind = kind ∧ t.text = text

/-! ## one piece -/

/-- Mapping the same value twice over a result. -/
theorem map_append_map (x : Except ParseError (List Lexeme)) (ls ls' : List Lexeme) :
    (x.map fun us => ls' ++ us).map (fun us => ls ++ us) = x.map fun us => ls ++ ls' ++ us := by
  cases x <;> simp [Except.map]

/-- What a piece at the front of a text makes of the scan. -/
theorem scanFrom_piece {d : Dialect} {offset : Nat} {c : Char} {cs rest : List Char} {p : Piece}
    (hp : frontPiece d offset c (cs ++ rest) = .ok p) (hlength : p.length = cs.length + 1) :
    scanFrom d offset (c :: (cs ++ rest)) =
      (scanFrom d (offset + byteLength (c :: cs)) rest).map fun ls =>
        p.lexemes (c :: cs) offset ++ ls := by
  have htake : (c :: (cs ++ rest)).take p.length = c :: cs := by
    rw [hlength, List.take_succ_cons, List.take_left]
  have hdrop : (c :: (cs ++ rest)).drop p.length = rest := by
    rw [hlength, List.drop_succ_cons, List.drop_left]
  rw [scanFrom, scanBy, hp]
  simp only [bind, Except.bind, htake, hdrop]
  rfl

namespace Scans

variable {d : Dialect} {F G : List Char → Prop} {P Q : List Lexeme → Prop} {cs ds : List Char}

theorem mono (h : Scans d F cs P) (hF : ∀ rest, G rest → F rest) : Scans d G cs P :=
  fun offset rest hr => h offset rest (hF rest hr)

theorem imp (h : Scans d F cs P) (hP : ∀ ls, P ls → Q ls) : Scans d F cs Q := by
  intro offset rest hr
  obtain ⟨ls, hls, heq⟩ := h offset rest hr
  exact ⟨ls, hP ls hls, heq⟩

/-- No text at all. -/
theorem nil (hP : P []) : Scans d F [] P := by
  intro offset rest _
  refine ⟨[], hP, ?_⟩
  generalize hx : scanFrom d offset rest = x
  cases x <;> simp [byteLength, Except.map, hx]

/-- One text behind another one. -/
theorem append (h : Scans d F cs P) (hF : ∀ rest, G rest → F (ds ++ rest))
    (hk : ∀ ls, P ls → Scans d G ds fun ls' => Q (ls ++ ls')) : Scans d G (cs ++ ds) Q := by
  intro offset rest hr
  obtain ⟨ls, hls, heq⟩ := h offset (ds ++ rest) (hF rest hr)
  obtain ⟨ls', hls', heq'⟩ := hk ls hls (offset + byteLength cs) rest hr
  refine ⟨ls ++ ls', hls', ?_⟩
  rw [List.append_assoc, heq, heq', byteLength_append, Nat.add_assoc, map_append_map]

/-- One character in front of a text. -/
theorem cons {c : Char} (h : Scans d F [c] P) (hF : ∀ rest, G rest → F (ds ++ rest))
    (hk : ∀ ls, P ls → Scans d G ds fun ls' => Q (ls ++ ls')) : Scans d G (c :: ds) Q :=
  append h hF hk

/-- A text that is one lexeme. -/
theorem one {c : Char} {k : LexemeKind} (h : ∀ offset rest, F rest →
    ∃ p, frontPiece d offset c (cs ++ rest) = .ok p ∧ p.kind? = some k ∧
      p.length = cs.length + 1) : Scans d F (c :: cs) (One k (String.ofList (c :: cs))) := by
  intro offset rest hr
  obtain ⟨p, hp, hkind, hlength⟩ := h offset rest hr
  refine ⟨p.lexemes (c :: cs) offset, ?_, scanFrom_piece hp hlength⟩
  exact ⟨_, by rw [Piece.lexemes, hkind], rfl, rfl⟩

/-- A text that is a gap. -/
theorem gap {c : Char} (h : ∀ offset rest, F rest →
    ∃ p, frontPiece d offset c (cs ++ rest) = .ok p ∧ p.kind? = none ∧
      p.length = cs.length + 1) (hP : P []) : Scans d F (c :: cs) P := by
  intro offset rest hr
  obtain ⟨p, hp, hkind, hlength⟩ := h offset rest hr
  refine ⟨p.lexemes (c :: cs) offset, ?_, scanFrom_piece hp hlength⟩
  rw [Piece.lexemes, hkind]
  exact hP

/-- The lexemes of a text with such a text in front. -/
theorem split {offset : Nat} {rest : List Char} {ls : List Lexeme} (h : Scans d F cs P)
    (hr : F rest) (hscan : scanFrom d offset (cs ++ rest) = .ok ls) :
    ∃ front behind, ls = front ++ behind ∧ P front ∧
      scanFrom d (offset + byteLength cs) rest = .ok behind := by
  obtain ⟨front, hfront, heq⟩ := h offset rest hr
  rw [hscan] at heq
  cases hrest : scanFrom d (offset + byteLength cs) rest with
  | error => rw [hrest] at heq; cases heq
  | ok behind =>
    rw [hrest] at heq
    cases heq
    exact ⟨front, behind, rfl, hfront, rfl⟩

/-- The lexemes of a whole text. -/
theorem scan {s : String} (h : Scans d F s.toList P) (hF : F []) :
    ∃ ls, P ls ∧ d.scan s = .ok ls := by
  obtain ⟨ls, hls, heq⟩ := h 0 [] hF
  refine ⟨ls, hls, ?_⟩
  rw [List.append_nil, scanFrom.eq_def d _ [], scanBy] at heq
  rw [Dialect.scan, heq]
  simp [Except.map]

end Scans

end SqlDialect
