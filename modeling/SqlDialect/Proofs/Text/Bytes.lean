import Mathlib.Data.String.Basic
import SqlDialect.Lexeme.Scan

/-!
# SqlDialect.Proofs.Text.Bytes

Texts measured in bytes.

* `byteLength_append`, `byteLength_toList` -- the bytes of texts put together, and
  those of a string.
* `append_inj_of_byteLength` -- a place in a text is known by its offset.
* `bytesBefore` -- how far a search comes.
-/

namespace SqlDialect

open Text

/-! ## the bytes of a text -/

theorem byteLength_nil : byteLength [] = 0 := rfl

theorem byteLength_cons (c : Char) (cs : List Char) :
    byteLength (c :: cs) = c.utf8Size + byteLength cs := rfl

theorem byteLength_append (cs ds : List Char) :
    byteLength (cs ++ ds) = byteLength cs + byteLength ds := by
  induction cs with
  | nil => rw [List.nil_append, byteLength_nil, Nat.zero_add]
  | cons c cs ih => rw [List.cons_append, byteLength_cons, byteLength_cons, ih, Nat.add_assoc]

/-- A character more is a byte more, or several. -/
theorem byteLength_cons_pos (c : Char) (cs : List Char) : 0 < byteLength (c :: cs) :=
  Nat.add_pos_left c.utf8Size_pos _

theorem byteLength_ofList (cs : List Char) : (String.ofList cs).utf8ByteSize = byteLength cs := by
  rw [String.utf8ByteSize_ofList]
  induction cs with
  | nil => rfl
  | cons c cs ih => rw [String.utf8Len_cons, ih, byteLength_cons, Nat.add_comm]

theorem byteLength_toList (s : String) : byteLength s.toList = s.utf8ByteSize := by
  rw [← byteLength_ofList, String.ofList_toList]

/-- Characters of one byte each. -/
theorem byteLength_eq_length {cs : List Char} (h : ∀ c ∈ cs, c.utf8Size = 1) :
    byteLength cs = cs.length := by
  induction cs with
  | nil => rfl
  | cons c cs ih =>
    rw [List.forall_mem_cons] at h
    rw [byteLength_cons, h.1, ih h.2, List.length_cons, Nat.add_comm]

/-! ## places -/

/-- Where a text is cut between two characters. -/
theorem isValid_of_append {sql : String} {pre post : List Char} (h : sql.toList = pre ++ post) :
    String.Pos.Raw.IsValid sql ⟨byteLength pre⟩ := by
  rw [String.Pos.Raw.isValid_iff_exists_append]
  refine ⟨String.ofList pre, String.ofList post, ?_, ?_⟩
  · rw [← String.ofList_append, ← h, String.ofList_toList]
  · rw [String.Pos.Raw.ext_iff, String.byteIdx_rawEndPos, byteLength_ofList]

/-- A place in a text is known by its offset. -/
theorem append_inj_of_byteLength {pre pre' post post' : List Char}
    (h : pre ++ post = pre' ++ post') (hb : byteLength pre = byteLength pre') :
    pre = pre' ∧ post = post' := by
  induction pre generalizing pre' with
  | nil =>
    cases pre' with
    | nil => exact ⟨rfl, h⟩
    | cons c' pre' => exact absurd hb (Nat.ne_of_lt (byteLength_cons_pos c' pre'))
  | cons c pre ih =>
    cases pre' with
    | nil => exact absurd hb (Nat.ne_of_gt (byteLength_cons_pos c pre))
    | cons c' pre' =>
      obtain ⟨rfl, hrest⟩ := List.cons.inj h
      rw [byteLength_cons, byteLength_cons] at hb
      obtain ⟨rfl, hpost⟩ := ih hrest (Nat.add_left_cancel hb)
      exact ⟨rfl, hpost⟩

/-! ## searches -/

/-- The number of bytes in front of the first character with a property, or all of
them where there is none. -/
def bytesBefore (q : Char → Bool) : List Char → Nat
  | [] => 0
  | c :: cs => if q c then 0 else c.utf8Size + bytesBefore q cs

/-- What a search passes is what has not the property. -/
theorem byteLength_takeWhile (q : Char → Bool) (cs : List Char) :
    byteLength (cs.takeWhile q) = bytesBefore (fun c => !q c) cs := by
  induction cs with
  | nil => rfl
  | cons c cs ih =>
    rw [List.takeWhile_cons, bytesBefore]
    cases q c with
    | true => simp [byteLength_cons, ih]
    | false => rfl

/-! ## characters of one byte -/

/-- The characters of ASCII take one byte. -/
theorem utf8Size_of_toNat_lt {c : Char} (h : c.toNat < 128) : c.utf8Size = 1 := by
  rw [Char.utf8Size_eq_one_iff, UInt32.le_iff_toNat_le]
  exact Nat.le_of_lt_succ h

theorem utf8Size_of_isDigit {c : Char} (h : c.isDigit = true) : c.utf8Size = 1 := by
  simp only [Char.isDigit, Bool.and_eq_true, decide_eq_true_eq, UInt32.le_iff_toNat_le] at h
  have hle : c.toNat ≤ 57 := h.2
  exact utf8Size_of_toNat_lt (by omega)

end SqlDialect
