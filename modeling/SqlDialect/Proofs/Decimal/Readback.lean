import SqlDialect.Decimal.Text
import SqlDialect.Proofs.Lexeme.Number

/-!
# SqlDialect.Proofs.Decimal.Readback

Floating-point numbers read from texts.

* `Binary64.sign_of_ofText?` -- a text without a sign is read as a number
  without one.
* `Magnitude.numberText` -- every magnitude is written as a number.
* `Magnitude.ReadsBack` -- the shortest text of a magnitude is read as the
  magnitude.
-/

namespace SqlDialect.Decimal

/-! ## signs -/

theorem Binary64.ofRatio_sign (negative : Bool) (num den : Nat) :
    (∃ m, ofRatio negative num den = .finite negative m) ∨
      ofRatio negative num den = .infinite negative := by
  rw [ofRatio]
  cases Magnitude.ofRatio? num den with
  | some m => exact .inl ⟨m, rfl⟩
  | none => exact .inr rfl

theorem Scientific.toBinary64_sign (negative : Bool) (d : Scientific) :
    (∃ m, d.toBinary64 negative = .finite negative m) ∨
      d.toBinary64 negative = .infinite negative := by
  rw [toBinary64]
  generalize (digitCount d.digits + d.exponent : Int) = places
  by_cases hzero : d.digits = 0 ∨ places < -330
  · rw [if_pos hzero]
    exact .inl ⟨_, rfl⟩
  · rw [if_neg hzero]
    by_cases hbeyond : 310 < places
    · rw [if_pos hbeyond]
      exact .inr rfl
    · rw [if_neg hbeyond]
      split
      · exact Binary64.ofRatio_sign ..
      · exact Binary64.ofRatio_sign ..

/-- A number whose text has no sign has none. -/
theorem Binary64.sign_of_ofText? {s : String} {negative : Bool} {m : Magnitude}
    (hs : ∀ c ∈ s.toList.head?, c ≠ '-' ∧ c ≠ '+')
    (h : ofText? s = some (.finite negative m)) : negative = false := by
  have hunsigned : ofUnsigned? false s.toList = some (.finite negative m) := by
    unfold ofText? at h
    split at h
    case h_1 heq => exact absurd rfl (hs '-' (by rw [heq]; rfl)).1
    case h_2 heq => exact absurd rfl (hs '+' (by rw [heq]; rfl)).2
    case h_3 => exact h
  unfold ofUnsigned? at hunsigned
  simp only at hunsigned
  split at hunsigned
  · cases hunsigned
  · split at hunsigned
    · cases hunsigned
    · obtain ⟨d, -, hd⟩ := Option.map_eq_some_iff.1 hunsigned
      rcases d.toBinary64_sign false with ⟨_, hsign⟩ | hsign
      · rw [hsign] at hd
        cases hd
        rfl
      · rw [hsign] at hd
        cases hd

/-! ## layouts -/

theorem digits_digitChars (n : Nat) : Digits (digitChars n) :=
  fun _ hc => Nat.isDigit_of_mem_toDigits (by decide) (by decide) hc

theorem digitChars_ne_nil (n : Nat) : digitChars n ≠ [] := Nat.toDigits_ne_nil

theorem digits_replicate (n : Nat) : Digits (List.replicate n '0') := by
  intro c hc
  rw [(List.mem_replicate.1 hc).2]
  rfl

theorem digits_append {cs ds : List Char} (hc : Digits cs) (hd : Digits ds) : Digits (cs ++ ds) :=
  List.forall_mem_append.2 ⟨hc, hd⟩

theorem exponentText (e : Int) : ExponentText ('e' :: exponentChars e) := by
  unfold exponentChars
  split
  · exact .minus (digitChars_ne_nil _) (digits_digitChars _)
  · exact .plain (digitChars_ne_nil _) (digits_digitChars _)

/-- A positive decimal is laid out as a number. -/
theorem Scientific.numberText (d : Scientific) : NumberText d.chars := by
  unfold Scientific.chars
  have hne := digitChars_ne_nil d.digits
  have hd := digits_digitChars d.digits
  generalize digitChars d.digits = ds at hne hd
  have htake (n : Nat) : Digits (ds.take n) := fun c hc => hd c (List.mem_of_mem_take hc)
  have hdrop (n : Nat) : Digits (ds.drop n) := fun c hc => hd c (List.mem_of_mem_drop hc)
  have hfront {n : Nat} (hn : 0 < n) : ds.take n ≠ [] := by
    simp only [ne_eq, List.take_eq_nil_iff, not_or]
    exact ⟨by omega, hne⟩
  simp only
  split
  · -- a whole number
    have hwhole : ds ++ List.replicate d.exponent.toNat '0' ≠ [] := by simp [hne]
    have hzero : Digits ['0'] := digits_replicate 1
    simpa using NumberText.point hwhole (digits_append hd (digits_replicate _)) hzero .none
  · split
    · -- a point among the digits
      have hn : 0 < ((ds.length : Int) + d.exponent).toNat := by omega
      simpa using NumberText.point (hfront hn) (htake _) (hdrop _) .none
    · split
      · -- a point in front of the digits
        have hzero : Digits ['0'] := digits_replicate 1
        simpa using NumberText.point (by simp) hzero (digits_append (digits_replicate _) hd) .none
      · -- an exponent
        have hone := hfront Nat.one_pos
        split
        · simpa using NumberText.whole hone (htake 1) (exponentText _)
        · simpa using NumberText.point hone (htake 1) (hdrop 1) (exponentText _)

/-! ## magnitudes -/

/-- Every magnitude is written as a number. -/
theorem Magnitude.numberText (m : Magnitude) : NumberText m.chars := by
  unfold Magnitude.chars
  split
  · have hzero : Digits ['0'] := digits_replicate 1
    exact NumberText.point (List.cons_ne_nil '0' []) hzero hzero .none
  · exact m.shortest.numberText

/-- The text of a magnitude is a number with a point or an exponent, and reads
back to the magnitude. -/
structure Magnitude.ReadsBack (m : Magnitude) : Prop where
  number : NumberText m.chars
  inexact : ∃ c ∈ m.chars, c.isDigit = false
  value : Binary64.ofText? (String.ofList m.chars) = some (.finite false m)

end SqlDialect.Decimal
