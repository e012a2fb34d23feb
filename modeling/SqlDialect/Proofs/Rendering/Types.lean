import SqlDialect.Proofs.DataType.Spelling
import SqlDialect.Proofs.Rendering.Leaf

/-!
# SqlDialect.Proofs.Rendering.Types

Types as they are written and read back.

* `retyped` -- the kind that the spelling of a kind is read as.
* `typeText_spelling`, `scans_type` -- a type is written by a name that it goes by, so
  it reads back, parameters included.
* `Written.dataType` -- the lexemes of a type.
* `type_text_read_back` -- a type is read back from its own text.
-/

namespace SqlDialect

open Text Grammar

variable {b : Builtin} {i : Bool} {us : List Token} {P Q : List Lexeme → Prop}

/-! ## spellings -/

/-- The kind that the spelling of a kind is read as: SQLite has one kind for
each family. -/
def retypedKind (b : Builtin) (k : TypeKind) : TypeKind :=
  (DataType.kindOfAlias? (lower (b.dialect.typeSpelling k))).getD k

/-- The type that a spelled type is read as. -/
def retyped (b : Builtin) (t : DataType) : DataType := ⟨retypedKind b t.kind, t.params⟩

theorem retyped_generic (t : DataType) : retyped .generic t = t := by
  have hall : ∀ k ∈ TypeKind.all, retypedKind .generic k = k := by decide
  rw [retyped, hall _ t.kind.mem_all]

/-- The spelling of a kind is a word of letters that no keyword has. -/
theorem typeSpelling_spec (b : Builtin) (k : TypeKind) :
    isWord (b.dialect.typeSpelling k) = true ∧
      wordKind b.dialect (b.dialect.typeSpelling k) = .word ∧
      DataType.kindOfAlias? (lower (b.dialect.typeSpelling k)) = some (retypedKind b k) := by
  have hall : ∀ k ∈ TypeKind.all, isWord (b.dialect.typeSpelling k) = true ∧
      wordKind b.dialect (b.dialect.typeSpelling k) = .word ∧
      DataType.kindOfAlias? (lower (b.dialect.typeSpelling k)) = some (retypedKind b k) := by
    cases b <;> decide
  exact hall k k.mem_all

/-! ## parameters -/

/-- The parameters of a type with commas between them. -/
def paramChars : List UInt32 → List Char
  | [] => []
  | [p] => Nat.toDigits 10 p.toNat
  | p :: q :: ps => Nat.toDigits 10 p.toNat ++ ',' :: ' ' :: paramChars (q :: ps)

theorem toList_intercalate_params (ps : List UInt32) :
    (", ".intercalate (ps.map fun p => toString p.toNat)).toList = paramChars ps := by
  induction ps using paramChars.induct with
  | case1 => simp [paramChars]
  | case2 p => simp [paramChars, String.intercalate_singleton]
  | case3 p q ps ih =>
    rw [List.map_cons, List.map_cons, String.intercalate_cons_cons, ← List.map_cons (f := fun p : UInt32 => toString p.toNat),
      String.toList_append, String.toList_append, ih, paramChars, Nat.toString_eq_ofList_toDigits,
      String.toList_ofList]
    simp

theorem toList_paramsText {ps : List UInt32} (h : ps ≠ []) :
    (DataType.paramsText ps).toList = '(' :: (paramChars ps ++ [')']) := by
  rw [DataType.paramsText, if_neg (by simpa using h), String.toList_append, String.toList_append,
    toList_intercalate_params]
  simp

theorem paramsText_paramChars (p : UInt32) (ps : List UInt32) :
    ParamsText (p :: ps) (paramChars (p :: ps)) := by
  have hone (p : UInt32) : ParamText p (Nat.toDigits 10 p.toNat) :=
    .digits Nat.toDigits_ne_nil
      (fun _ hc => Nat.isDigit_of_mem_toDigits (by decide) (by decide) hc) (decimalValue_toDigits _)
  induction ps generalizing p with
  | nil => exact .one (hone p)
  | cons q ps ih => exact .more (hone p) ((ih q).spaced Spaces.single)

/-! ## types -/

/-- The text of a type. -/
def typeText (b : Builtin) (t : DataType) : String :=
  b.dialect.typeSpelling t.kind ++ DataType.paramsText t.params

theorem tokens_dataType (b : Builtin) (identify : Bool) (t : DataType) :
    ((style b identify).dataType t).tokens = [.raw (typeText b t)] := rfl

theorem typeText_spelling (b : Builtin) (t : DataType) :
    TypeText (b.dialect.typeSpelling t.kind) t.params (typeText b t) := by
  rw [typeText]
  cases t.params with
  | nil =>
    rw [show DataType.paramsText [] = "" by simp [DataType.paramsText], String.append_empty]
    exact .plain
  | cons p ps =>
    have htext : DataType.paramsText (p :: ps) =
        String.ofList ([] ++ '(' :: (paramChars (p :: ps) ++ [')'])) := by
      rw [← String.toList_inj, toList_paramsText (List.cons_ne_nil p ps), String.toList_ofList,
        List.nil_append]
    rw [htext]
    exact .withParams Spaces.nil (paramsText_paramChars p ps)

theorem scans_type (t : DataType) :
    Scans b.dialect Ended (typeText b t).toList (TypeOf (retyped b t)) := by
  obtain ⟨hword, hkind, hname⟩ := typeSpelling_spec b t.kind
  have hwords : ∀ w ∈ [b.dialect.typeSpelling t.kind],
      isWord w = true ∧ wordKind b.dialect w = .word := by simp [hword, hkind]
  exact (typeText_spelling b t).scans_typeOf hname hwords String.intercalate_singleton

/-- A type in front of what may follow one. -/
theorem Written.dataType {t : DataType} (hu : Ends us)
    (hk : ∀ ls, TypeOf (retyped b t) ls → Written b us fun ls' => Q (ls ++ ls')) :
    Written b (.raw (typeText b t) :: us) Q :=
  .cons (t := .raw (typeText b t)) (scans_type t) (fun _ hr => hu.ended hr) hk

/-! ## the base dialect -/

/-- The own text of a type is the one that the base dialect writes. -/
theorem typeText_generic (t : DataType) : typeText .generic t = t.text := rfl

/-- A type is read back from its own text. -/
theorem ofText?_text (t : DataType) : DataType.ofText? t.text = some t := by
  have hname := (typeSpelling_spec .generic t.kind).2.2
  have hread := (typeText_spelling .generic t).ofText? hname
  rw [typeText_generic] at hread
  exact hread.trans (congrArg some (retyped_generic t))

/-- A type is read back from its own text, whatever its kind and however many its
parameters; so reading a text and writing what it means changes nothing for the
next reader. -/
theorem type_text_read_back (kind : TypeKind) (params : List UInt32) :
    DataType.ofText? (DataType.text ⟨kind, params⟩) = some ⟨kind, params⟩ ∧
      ∀ s : String, (DataType.ofText? s).bind (fun t => DataType.ofText? t.text) =
        DataType.ofText? s := by
  refine ⟨ofText?_text ⟨kind, params⟩, fun s => ?_⟩
  cases DataType.ofText? s with
  | none => rfl
  | some t => exact ofText?_text t

end SqlDialect
