/-!
# SqlDialect.Overrides

A table of exceptions over a base: what has an entry is overridden, anything
else keeps its default.  The view of a table is `get?`; `get?_set` and
`get?_erase` say that the last write to a key wins and that no other key
notices.
-/

namespace SqlDialect

/-- A table with at most one live entry for a key. -/
structure Overrides (κ ν : Type) where
  entries : List (κ × ν) := []

namespace Overrides

variable {κ ν : Type} [DecidableEq κ]

/-- The value of a key, if it is overridden. -/
def get? (t : Overrides κ ν) (k : κ) : Option ν :=
  (t.entries.find? fun e => e.1 = k).map (·.2)

/-- Drops the entry of a key. -/
def erase (t : Overrides κ ν) (k : κ) : Overrides κ ν :=
  ⟨t.entries.filter fun e => e.1 ≠ k⟩

/-- Overrides a key, in place of any earlier entry. -/
def set (t : Overrides κ ν) (k : κ) (v : ν) : Overrides κ ν :=
  ⟨(k, v) :: (t.erase k).entries⟩

/-- The overridden keys, the one written last first. -/
def keys (t : Overrides κ ν) : List κ := t.entries.map (·.1)

/-- The overriding values, in the order of their keys. -/
def values (t : Overrides κ ν) : List ν := t.entries.map (·.2)

/-! ## lemmas -/

@[simp] theorem get?_empty (k : κ) : (⟨[]⟩ : Overrides κ ν).get? k = none := rfl

/-- An erased key has no entry; the others keep theirs. -/
theorem get?_erase (t : Overrides κ ν) (k j : κ) :
    (t.erase k).get? j = if j = k then none else t.get? j := by
  simp only [get?, erase, List.find?_filter]
  by_cases h : j = k
  · subst h
    simp only [if_true, Option.map_eq_none_iff, List.find?_eq_none]
    grind
  · simp only [h, if_false]
    congr 2
    funext e
    grind

/-- A written key has the value written; the others keep theirs. -/
theorem get?_set (t : Overrides κ ν) (k j : κ) (v : ν) :
    (t.set k v).get? j = if j = k then some v else t.get? j := by
  have h := get?_erase t k j
  by_cases hj : j = k
  · subst hj; simp [set, get?]
  · have hk : ¬ k = j := fun h => hj h.symm
    simp only [hj, if_false] at h ⊢
    simpa [set, get?, hk] using h

end Overrides

end SqlDialect
