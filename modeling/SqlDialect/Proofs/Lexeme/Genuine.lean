import Mathlib.Data.List.TakeWhile
import SqlDialect.Proofs.Lexeme.Front
import SqlDialect.Proofs.Lexeme.Piece

/-!
# SqlDialect.Proofs.Lexeme.Genuine

What the kind of a lexeme says about its text.

* `Genuine d t` -- the text of a lexeme is one that its kind can have.
* `scan_genuine` -- all lexemes of a scan are genuine.
-/

namespace SqlDialect

open Text

/-- Digits of base 16 only. -/
def HexDigits (s : String) : Prop := ∀ c ∈ s.toList, isHexDigit c = true

/-- The text of a lexeme is one that its kind can have. -/
def Genuine (d : Dialect) (t : Lexeme) : Prop :=
  match t.kind with
  | .word => isWord t.text = true ∧ d.keyword? t.text = none
  | .keyword k => isWord t.text = true ∧ d.keyword? t.text = some k
  | .number => ∀ c ∈ t.text.toList.head?, c ≠ '-' ∧ c ≠ '+'
  | .hexString digits => HexDigits digits
  | .hexNumber digits => digits ≠ "" ∧ HexDigits digits
  | _ => True

/-! ## one piece -/

variable {d : Dialect} {offset : Nat} {c : Char} {cs : List Char} {p : Piece}

/-- A hexadecimal literal holds digits of base 16, and an integer holds at
least one. -/
theorem hexLiteral?_kind {pairs : List (String × String)}
    (h : hexLiteral? offset cs pairs = .ok (some p)) :
    (∃ digits, p.kind? = some (.hexString digits) ∧ HexDigits digits) ∨
      ∃ digits, p.kind? = some (.hexNumber digits) ∧ digits ≠ "" ∧ HexDigits digits := by
  induction pairs with
  | nil => cases h
  | cons q pairs ih =>
    obtain ⟨start, stop⟩ := q
    rw [hexLiteral?] at h
    split at h
    · exact ih h
    case h_2 body _ =>
      split at h
      case isTrue =>
        dsimp only at h
        split at h
        · exact ih h
        case isFalse hne =>
          cases h
          refine .inr ⟨_, rfl, fun heq => hne ?_, fun c hc => ?_⟩
          · rw [← String.toList_ofList (l := body.takeWhile isHexDigit), heq]
            rfl
          · rw [String.toList_ofList] at hc
            exact List.mem_takeWhile_imp hc
      case isFalse =>
        split at h
        · cases h
        · dsimp only at h
          split at h
          case isTrue hall =>
            cases h
            refine .inl ⟨_, rfl, fun c hc => ?_⟩
            rw [String.toList_ofList] at hc
            exact List.all_eq_true.1 hall c hc
          case isFalse => cases h

theorem word_genuine (offset : Nat) (cs : List Char) (hc : startsWord c = true) :
    ∃ k, (word d c cs).kind? = some k ∧
      Genuine d ⟨k, String.ofList ((c :: cs).take (word d c cs).length), offset⟩ := by
  have htake : (c :: cs).take (word d c cs).length = c :: cs.takeWhile continuesWord := by
    rw [word, Piece.ofKind, List.take_succ_cons,
      List.prefix_iff_eq_take.1 (List.takeWhile_prefix continuesWord)]
    simp
  have hword : isWord (String.ofList (c :: cs.takeWhile continuesWord)) = true := by
    simp only [isWord, String.toList_ofList, hc, Bool.true_and, List.all_eq_true]
    exact fun d hd => List.mem_takeWhile_imp hd
  rw [htake]
  cases hk : d.keyword? (String.ofList (c :: cs.takeWhile continuesWord)) with
  | none => exact ⟨.word, by rw [word, hk]; rfl, hword, hk⟩
  | some k => exact ⟨.keyword k, by rw [word, hk]; rfl, hword, hk⟩

theorem symbol?_genuine (d : Dialect) (offset : Nat) (h : symbol? cs = some p) :
    ∃ k, p.kind? = some k ∧ ∀ text, Genuine d ⟨k, text, offset⟩ := by
  unfold symbol? at h
  split at h <;> first
    | (cases h; exact ⟨_, rfl, fun _ => trivial⟩)
    | cases h

/-- A number has no sign. -/
theorem number_genuine {hstart : startsNumber c cs = true} (h : number offset c cs hstart = .ok p) :
    p.kind? = some .number ∧
      Genuine d ⟨.number, String.ofList ((c :: cs).take p.length), offset⟩ := by
  unfold number at h
  dsimp only at h
  split at h
  · cases h
  · cases h
    refine ⟨rfl, fun d hd => ?_⟩
    rw [String.toList_ofList, List.head?_take, if_neg (Nat.ne_of_gt (Piece.length_pos _))] at hd
    cases hd
    constructor <;> rintro rfl <;> simp [startsNumber] at hstart

/-- The lexeme of a piece is genuine. -/
theorem frontPiece_genuine (h : frontPiece d offset c cs = .ok p) :
    ∀ t ∈ p.lexemes ((c :: cs).take p.length) offset, Genuine d t := by
  intro t ht
  obtain ⟨k, hk, rfl⟩ := Piece.mem_lexemes ht
  rcases frontPiece_cases h with hgap | hhex | hplain
  · rw [gap?_kind hgap] at hk
    cases hk
  · rcases hexLiteral?_kind hhex with ⟨ds, hk', hd⟩ | ⟨ds, hk', hne, hd⟩
    · rw [hk] at hk'
      cases hk'
      exact hd
    · rw [hk] at hk'
      cases hk'
      exact ⟨hne, hd⟩
  · cases plainLexeme_cases hplain with
    | identifier _ _ hp => subst hp; cases hk; trivial
    | string _ _ hp => subst hp; cases hk; trivial
    | number _ hnumber =>
      obtain ⟨hk', hgenuine⟩ := number_genuine (d := d) hnumber
      rw [hk] at hk'
      cases hk'
      exact hgenuine
    | word hstart hp =>
      subst hp
      obtain ⟨k', hk', hgenuine⟩ := word_genuine (d := d) offset cs hstart
      rw [hk] at hk'
      cases hk'
      exact hgenuine
    | symbol hsymbol =>
      obtain ⟨k', hk', hgenuine⟩ := symbol?_genuine d offset hsymbol
      rw [hk] at hk'
      cases hk'
      exact hgenuine _

/-- All lexemes of a scan are genuine. -/
theorem scan_genuine {sql : String} {ls : List Lexeme} (h : d.scan sql = .ok ls) :
    ∀ t ∈ ls, Genuine d t :=
  scanBy_forall (fun _ _ _ _ hp => frontPiece_genuine hp) 0 sql.toList ls h

end SqlDialect
