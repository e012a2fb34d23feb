import SqlDialect.Settings

/-!
# SqlDialect.Settings.Registry

Building the configured dialects and registering them.  The base of a dialect
may be configured too and is built first.  A way of bases that comes back to a
dialect on it is an error; as no name is entered twice, every way ends.
-/

namespace SqlDialect

namespace DialectSettings

/-! ## one dialect -/

/-- The change for a type. -/
def typeChange (name spelling : String) : Except DialectError Change :=
  match TypeKind.ofName? name with
  | some k => .ok (.type k spelling)
  | none => .error (.unknownType name)

/-- The change for a keyword. -/
def tokenChange (name spelling : String) : Except DialectError Change :=
  match Keyword.ofName? name with
  | some k => .ok (.token k spelling)
  | none => .error (.unknownKeyword name)

/-- The kind of nodes of a name, with an unknown name an error. -/
def nodeKind (name : String) : Except DialectError NodeKind :=
  match NodeKind.ofName? name with
  | some k => .ok k
  | none => .error (.unknownNodeKind name)

/-- The change for a function. -/
def functionChange (name target : String) : Except DialectError Change := do
  let k ← nodeKind target
  match CallKind.ofKind? k with
  | some f => .ok (.function name f)
  | none => .error (.notConstructible k)

/-- The change for the transform of a kind of nodes.  The words for transforms
count in any case. -/
def transformChange (name : String) (t : TransformSetting) : Except DialectError Change := do
  let k ← nodeKind name
  match t with
  | .rename name => .ok (.transform k (.rename name))
  | .named word =>
    if Text.lower word = "unsupported" then .ok (.transform k .unsupported)
    else if Text.lower word = "inner" then .ok (.transform k .inner)
    else if Text.lower word = "default" then .ok (.clear k)
    else .error (.unknownTransform word)

/-- All changes to the base: types, keywords, functions, then transforms. -/
def changes (c : DialectSettings) : Except DialectError (List Change) := do
  let types ← c.types.mapM fun p => typeChange p.1 p.2
  let tokens ← c.tokens.mapM fun p => tokenChange p.1 p.2
  let functions ← c.functions.mapM fun p => functionChange p.1 p.2
  let transforms ← c.transforms.mapM fun p => transformChange p.1 p.2
  return types ++ tokens ++ functions ++ transforms

/-- The configured dialect of that name over a given one. -/
def build (c : DialectSettings) (name : String) (parent : Dialect) :
    Except DialectError Dialect := do
  parent.extend name (← c.changes)

end DialectSettings

namespace Settings

/-! ## all dialects -/

/-- The settings of a dialect. -/
def dialect? (s : Settings) (name : String) : Option DialectSettings := s.dialects.lookup name

/-- The configured dialects without those of the given names. -/
def without (s : Settings) (names : List String) : List (String × DialectSettings) :=
  s.dialects.filter fun p => p.1 ∉ names

/-- Leaving out one more configured dialect leaves fewer. -/
theorem length_without_cons_lt {s : Settings} {names : List String} {name : String}
    {c : DialectSettings} (h : s.dialect? name = some c) (hn : name ∉ names) :
    (s.without (name :: names)).length < (s.without names).length := by
  have hmem : ∃ p ∈ s.dialects, p.1 = name := by
    obtain ⟨l, r, hs, _⟩ := List.lookup_eq_some_iff.1 h
    exact ⟨(name, c), by rw [hs]; simp, rfl⟩
  obtain ⟨p, hp, rfl⟩ := hmem
  have heq : s.without (p.1 :: names) = (s.without names).filter fun q => q.1 ≠ p.1 := by
    simp only [without, List.filter_filter, List.mem_cons, not_or]
    congr 1
    funext q
    simp
  rw [heq]
  refine List.length_filter_lt_length_iff_exists.2 ⟨p, ?_, by simp⟩
  simp [without, hp, hn]

/-- What is wrong with a dialect, as an error of the settings. -/
def invalid {α : Type} (name : String) (r : Except DialectError α) : Except SettingsError α :=
  r.mapError (.invalidDialect name)

/-- The dialect of a name, and the registry with it and with whatever it is
based on.  The names on the way to it are given. -/
def enter (s : Settings) (way : List String) (name : String) (r : Registry) :
    Except SettingsError (Dialect × Registry) :=
  match h : s.dialect? name with
  | none => do return (← invalid name (r.resolve name), r)
  | some c =>
    if (Builtin.ofName? name).isSome then invalid name (.error (.duplicateName name))
    else
      let new : Except SettingsError (Dialect × Registry) :=
        if hw : name ∈ way then invalid name (.error (.inheritanceCycle name))
        else do
          have := length_without_cons_lt h hw
          let (parent, r) ← s.enter (name :: way) c.base r
          let d ← invalid name (c.build name parent)
          let r ← invalid name (r.register d)
          return (d, r)
      (r.get? name).elim new fun d => .ok (d, r)
termination_by (s.without way).length

/-- Every configured dialect, built and registered. -/
def registry (s : Settings) : Except SettingsError Registry :=
  s.dialects.foldlM (fun r p => do return (← s.enter [] p.1 r).2) .empty

end Settings

end SqlDialect
