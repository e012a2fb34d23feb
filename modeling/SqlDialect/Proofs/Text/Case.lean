import Mathlib.Data.List.Basic
import Mathlib.Data.String.Basic
import SqlDialect.Text.Ascii
import SqlDialect.Text.Blank
import SqlDialect.Text.Split

/-!
# SqlDialect.Proofs.Text.Case

Case, blanks and separators of a text.

* `trim_lower`, `trim_eq_self_of_lower` -- the case of a name and the blanks
  around it are independent of each other.
* `trimChars_around` -- blanks around a text are taken off, and nothing else.
* `splitAround_flatMap`, `splitOn_append`, `splitOn_map_toLower` -- the parts of a
  text, put together, taken off and in lower case.
-/

namespace SqlDialect.Text

/-! ## case -/

/-- The letters that have a lower case. -/
def upperLetters : List Char := "ABCDEFGHIJKLMNOPQRSTUVWXYZ".toList

theorem toLower_cases (c : Char) : c.toLower = c ∨ c ∈ upperLetters := by
  unfold Char.toLower
  split
  case isFalse => exact .inl rfl
  case isTrue h =>
    have hall : ∀ n < 26, Char.ofNat (65 + n) ∈ upperLetters := by decide
    have hlow : 65 ≤ c.toNat := h.1
    have hhigh : c.toNat ≤ 90 := h.2
    have hmem := hall (c.toNat - 65) (by omega)
    rw [show 65 + (c.toNat - 65) = c.toNat by omega, Char.ofNat_toNat] at hmem
    exact .inr hmem

/-- Lower case is lower case already, and a letter is no blank in either
case. -/
theorem toLower_spec (c : Char) :
    c.toLower.toLower = c.toLower ∧ isBlank c.toLower = isBlank c := by
  rcases toLower_cases c with h | h
  · simp only [h, and_self]
  · have hall : (upperLetters.all fun c => c.toLower.toLower == c.toLower &&
        isBlank c.toLower == isBlank c) = true := by decide
    simpa using List.all_eq_true.1 hall c h

/-- A character that is no letter is the lower case of itself only. -/
theorem toLower_eq_iff {c d : Char} (hd : ∀ u ∈ upperLetters, u ≠ d ∧ u.toLower ≠ d) :
    c.toLower = d ↔ c = d := by
  rcases toLower_cases c with h | h
  · rw [h]
  · exact iff_of_false (hd c h).2 (hd c h).1

theorem lower_lower (s : String) : lower (lower s) = lower s := by
  rw [← String.toList_inj]
  simp only [toList_lower, List.map_map]
  exact List.map_congr_left fun c _ => (toLower_spec c).1

/-! ## blanks -/

theorem trimChars_map_toLower (cs : List Char) :
    trimChars (cs.map Char.toLower) = (trimChars cs).map Char.toLower := by
  have hdrop (cs : List Char) :
      (cs.map Char.toLower).dropWhile isBlank = (cs.dropWhile isBlank).map Char.toLower := by
    rw [List.dropWhile_map]
    congr 2
    funext c
    exact (toLower_spec c).2
  rw [trimChars, hdrop, ← List.map_reverse, hdrop, ← List.map_reverse, trimChars]

/-- Blanks can be taken off before or after the change of case. -/
theorem trim_lower (s : String) : trim (lower s) = lower (trim s) := by
  rw [← String.toList_inj]
  simp only [toList_trim, toList_lower, trimChars_map_toLower]

theorem trimChars_sublist (cs : List Char) : (trimChars cs).Sublist cs := by
  have h := (List.dropWhile_sublist isBlank (l := (cs.dropWhile isBlank).reverse)).reverse
  rw [List.reverse_reverse] at h
  exact h.trans (List.dropWhile_sublist isBlank)

/-- A name that has no blanks around it in lower case has none. -/
theorem trim_eq_self_of_lower {s : String} (h : lower (trim s) = lower s) : trim s = s := by
  rw [← String.toList_inj] at h ⊢
  simp only [toList_lower, toList_trim] at h ⊢
  refine (trimChars_sublist s.toList).eq_of_length ?_
  simpa using congrArg List.length h

/-- A text without blanks keeps its ends. -/
theorem trimChars_eq_self {cs : List Char} (h : ∀ c ∈ cs.head?, isBlank c = false)
    (hl : ∀ c ∈ cs.getLast?, isBlank c = false) : trimChars cs = cs := by
  have hdrop {cs : List Char} (h : ∀ c ∈ cs.head?, isBlank c = false) : cs.dropWhile isBlank = cs := by
    cases cs with
    | nil => rfl
    | cons c cs => simp [h c rfl]
  rw [trimChars, hdrop h, hdrop (by simpa [List.head?_reverse] using hl), List.reverse_reverse]

/-- Blanks around a text are taken off. -/
theorem trimChars_around {pre cs post : List Char} (hpre : ∀ c ∈ pre, isBlank c = true)
    (hpost : ∀ c ∈ post, isBlank c = true) (hne : cs ≠ [])
    (h : ∀ c ∈ cs.head?, isBlank c = false) (hl : ∀ c ∈ cs.getLast?, isBlank c = false) :
    trimChars (pre ++ cs ++ post) = cs := by
  have hfront {cs post : List Char} (hne : cs ≠ []) (h : ∀ c ∈ cs.head?, isBlank c = false) :
      (cs ++ post).dropWhile isBlank = cs ++ post := by
    obtain ⟨c, cs, rfl⟩ := List.exists_cons_of_ne_nil hne
    rw [List.cons_append, List.dropWhile_cons_of_neg (by simp [h c rfl])]
  have hpost' : ∀ c ∈ post.reverse, isBlank c = true := fun c hc => hpost c (List.mem_reverse.1 hc)
  have hlast := @hfront cs.reverse [] (by simpa using hne) (by simpa [List.head?_reverse] using hl)
  rw [List.append_nil] at hlast
  rw [trimChars, List.append_assoc, List.dropWhile_append_of_pos hpre, hfront hne h,
    List.reverse_append, List.dropWhile_append_of_pos hpost', hlast, List.reverse_reverse]

/-! ## separators -/

/-- The parts of a text, with the separator in front of all but the first. -/
theorem splitAround_flatMap (separator : Char) (cs : List Char) :
    (splitAround separator cs).1 ++ (splitAround separator cs).2.flatMap (separator :: ·) = cs := by
  induction cs with
  | nil => rfl
  | cons c cs ih =>
    rw [splitAround]
    dsimp only
    split
    case isTrue hc =>
      rw [List.nil_append, List.flatMap_cons, List.cons_append, ih, hc]
    case isFalse => exact congrArg (c :: ·) ih

/-- The parts of a text in lower case, where the separator is no letter. -/
theorem splitOn_map_toLower {separator : Char}
    (hs : ∀ u ∈ upperLetters, u ≠ separator ∧ u.toLower ≠ separator) (cs : List Char) :
    splitOn separator (cs.map Char.toLower) =
      (splitOn separator cs).map (List.map Char.toLower) := by
  have hsplit : splitAround separator (cs.map Char.toLower) =
      ((splitAround separator cs).1.map Char.toLower,
        (splitAround separator cs).2.map (List.map Char.toLower)) := by
    induction cs with
    | nil => rfl
    | cons c cs ih =>
      rw [List.map_cons, splitAround, splitAround, ih]
      simp only [toLower_eq_iff hs]
      split <;> rfl
  rw [splitOn, hsplit]
  rfl

theorem splitOn_of_notMem {c : Char} {cs : List Char} (h : c ∉ cs) : splitOn c cs = [cs] := by
  have hsplit : splitAround c cs = (cs, []) := by
    induction cs with
    | nil => rfl
    | cons d cs ih =>
      rw [splitAround, ih fun hc => h (List.mem_cons_of_mem _ hc)]
      simp [show d ≠ c by rintro rfl; exact h List.mem_cons_self]
  rw [splitOn, hsplit]

theorem splitOn_append {c : Char} {cs ds : List Char} (h : c ∉ cs) :
    splitOn c (cs ++ c :: ds) = cs :: splitOn c ds := by
  have hsplit : splitAround c (cs ++ c :: ds) = (cs, splitOn c ds) := by
    induction cs with
    | nil => simp [splitAround, splitOn]
    | cons d cs ih =>
      rw [List.cons_append, splitAround, ih fun hc => h (List.mem_cons_of_mem _ hc)]
      simp [show d ≠ c by rintro rfl; exact h List.mem_cons_self]
  rw [splitOn, hsplit]

end SqlDialect.Text
