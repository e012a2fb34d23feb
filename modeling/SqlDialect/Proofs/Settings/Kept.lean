import Mathlib.Data.List.Nodup
import SqlDialect.Proofs.Settings.Enters

/-!
# SqlDialect.Proofs.Settings.Kept

Which configured dialects can be found by their names once all are built.

* `Settings.Separate` -- configured names that can be told apart when they are
  looked up.
* `Settings.Separate.found` -- a dialect with such names around it is found, as
  its settings say.
* `dialects_kept_iff` -- all of them are just if the names can be told apart.
-/

namespace SqlDialect

open Text Registry Settings

namespace Settings

variable {s : Settings} {name : String} {c : DialectSettings} {r : Registry}
  {p : String × DialectSettings}

/-! ## configured names -/

/-- Names are looked up without the blanks around them and in any case, so
there are none around the configured ones, and no two differ in case only. -/
structure Separate (s : Settings) : Prop where
  trimmed : ∀ p ∈ s.dialects, trim p.1 = p.1
  distinct : (s.dialects.map fun p => lower p.1).Nodup

theorem mem_of_dialect? (h : s.dialect? name = some c) : (name, c) ∈ s.dialects := by
  obtain ⟨before, after, hs, -⟩ := List.lookup_eq_some_iff.1 h
  rw [hs]
  exact List.mem_append_right _ List.mem_cons_self

theorem dialect?_of_mem (hnodup : (s.dialects.map (·.1)).Nodup) (hp : p ∈ s.dialects) :
    s.dialect? p.1 = some p.2 := by
  obtain ⟨before, after, hs⟩ := List.append_of_mem hp
  refine List.lookup_eq_some_iff.2 ⟨before, after, hs, fun q hq => ?_⟩
  rw [hs, List.map_append, List.nodup_append] at hnodup
  simpa using (hnodup.2.2 q.1 (List.mem_map_of_mem hq) p.1 (by simp)).symm

theorem Separate.nodup (hs : s.Separate) : (s.dialects.map (·.1)).Nodup := by
  refine hs.distinct.of_map.map_on fun p hp q hq heq => ?_
  exact List.inj_on_of_nodup_map hs.distinct hp hq (congrArg lower heq)

theorem Separate.trim_of_dialect? (hs : s.Separate) (h : s.dialect? name = some c) :
    trim name = name :=
  hs.trimmed (name, c) (mem_of_dialect? h)

/-- One word is one configured name at most. -/
theorem Separate.eq_of_lower {m n : String} {c c' : DialectSettings} (hs : s.Separate)
    (hm : s.dialect? m = some c) (hn : s.dialect? n = some c') (h : lower m = lower n) : m = n :=
  congrArg Prod.fst
    (List.inj_on_of_nodup_map hs.distinct (mem_of_dialect? hm) (mem_of_dialect? hn) h)

/-! ## found dialects -/

/-- Building all dialects leaves something under each of their names. -/
theorem Separate.grown (hs : s.Separate) (h : s.registry = .ok r) :
    s.Grown r ∧ ∀ p ∈ s.dialects, ∃ d, r.get? p.1 = some d := by
  obtain ⟨hgrown, -, hfound⟩ :=
    (entersAll_iff.2 h).grown (fun n c => hs.trim_of_dialect?) rfl .empty
  exact ⟨hgrown, hfound⟩

/-- The dialect that is found under a configured name was built from the
settings of that name, over what its base is found to be. -/
theorem Separate.found (hs : s.Separate) (h : s.registry = .ok r) (hp : p ∈ s.dialects) :
    ∃ parent d, r.get? p.2.base = some parent ∧ p.2.build p.1 parent = .ok d ∧
      r.get? p.1 = some d := by
  have hc := dialect?_of_mem hs.nodup hp
  obtain ⟨hgrown, hfound⟩ := hs.grown h
  obtain ⟨d, hd⟩ := hfound p hp
  have hbuiltin := (entersAll_iff.2 h).notBuiltin rfl p hp (by simp [hc])
  have hentry := mem_entries_of_eq_some ((get?_of_ofName?_eq_none hbuiltin).symm.trans hd)
  obtain ⟨c, parent, hc', hbase, hbuild⟩ := hgrown.entry hentry
  have hname : d.name = p.1 := by
    refine hs.eq_of_lower hc' hc ?_
    rw [hgrown.wellKeyed.lower_name hbuiltin hd, hs.trimmed p hp]
  rw [hname] at hc' hbuild
  obtain rfl := Option.some.inj (hc'.symm.trans hc)
  exact ⟨parent, d, hbase, hbuild, hd⟩

end Settings

/-- No configured dialect is dropped or replaced just if the configured names
can be told apart: then, and only then, is each dialect found under its own
name, as it is built from its settings over what its base is found to be.
Names that differ in case only share one entry, which is that of the first one
built, and a name with blanks around it is not looked up as it was entered. -/
theorem dialects_kept_iff (s : Settings) (r : Registry) (h : s.registry = .ok r)
    (hnodup : (s.dialects.map (·.1)).Nodup) :
    (∀ p ∈ s.dialects, ∃ parent d, r.resolve p.2.base = .ok parent ∧
      p.2.build p.1 parent = .ok d ∧ r.resolve p.1 = .ok d ∧ d.name = p.1) ↔ s.Separate := by
  have hall := entersAll_iff.2 h
  constructor
  · intro hkept
    have hwell := hall.wellKeyed rfl wellKeyed_empty
    have hbuiltin (p) (hp : p ∈ s.dialects) : Builtin.ofName? p.1 = none :=
      hall.notBuiltin rfl p hp (by simp [dialect?_of_mem hnodup hp])
    have htrim (p) (hp : p ∈ s.dialects) : trim p.1 = p.1 := by
      obtain ⟨-, d, -, -, hd, hname⟩ := hkept p hp
      refine trim_eq_self_of_lower ?_
      rw [← hwell.lower_name (hbuiltin p hp) (resolve_eq_ok_iff.1 hd), hname]
    refine ⟨htrim, hnodup.of_map.map_on fun p hp q hq hlower => ?_⟩
    -- both names are looked up as the same word, so they find the same dialect
    obtain ⟨-, d, -, -, hd, hname⟩ := hkept p hp
    obtain ⟨-, d', -, -, hd', hname'⟩ := hkept q hq
    rw [resolve_eq_ok_iff, get?_of_ofName?_eq_none (hbuiltin p hp), htrim p hp] at hd
    rw [resolve_eq_ok_iff, get?_of_ofName?_eq_none (hbuiltin q hq), htrim q hq, ← hlower, hd] at hd'
    refine List.inj_on_of_nodup_map hnodup hp hq ?_
    rw [← hname, ← hname', Option.some.inj hd']
  · intro hs p hp
    obtain ⟨parent, d, hbase, hbuild, hd⟩ := hs.found h hp
    exact ⟨parent, d, resolve_eq_ok_iff.2 hbase, hbuild, resolve_eq_ok_iff.2 hd,
      DialectSettings.name_of_build hbuild⟩

/-- A dialect that is based on one further down the list. -/
def nestedSettings : Settings where
  dialects := [("Alpha", { base := "beta", types := [("text", "CLOB")] }),
    ("beta", { types := [("boolean", "BIT")] })]

/-- What it is built over. -/
def bitDialect : Dialect := { name := "beta", types := ⟨[(.boolean, "BIT")]⟩ }

/-- What it is built as. -/
def clobDialect : Dialect := { name := "Alpha", types := ⟨[(.text, "CLOB"), (.boolean, "BIT")]⟩ }

/-- Both in the registry, the base first. -/
def nestedRegistry : Registry := ⟨[("beta", bitDialect), ("alpha", clobDialect)]⟩

theorem registry_nestedSettings : nestedSettings.registry = .ok nestedRegistry := by
  have hbeta : nestedSettings.Enters ["Alpha"] "beta" .empty
      (.ok (bitDialect, ⟨[("beta", bitDialect)]⟩)) :=
    .new (c := { types := [("boolean", "BIT")] }) ⟨rfl, rfl, rfl⟩ (by decide)
      (.found rfl rfl) rfl rfl
  have halpha : nestedSettings.Enters [] "Alpha" .empty
      (.ok (clobDialect, nestedRegistry)) :=
    .new (c := { base := "beta", types := [("text", "CLOB")] }) ⟨rfl, rfl, rfl⟩ (by decide)
      hbeta rfl rfl
  exact entersAll_iff.1 (.cons halpha (.cons (.entered rfl rfl rfl) .nil))

theorem dialects_kept_iff_nested :
    nestedSettings.registry = .ok nestedRegistry ∧
      (nestedSettings.dialects.map (·.1)).Nodup ∧ nestedSettings.Separate ∧
      ∀ p ∈ nestedSettings.dialects, ∃ parent d, nestedRegistry.resolve p.2.base = .ok parent ∧
        p.2.build p.1 parent = .ok d ∧ nestedRegistry.resolve p.1 = .ok d ∧ d.name = p.1 := by
  have hnodup : (nestedSettings.dialects.map (·.1)).Nodup := by decide
  have hs : nestedSettings.Separate := ⟨by decide, by decide⟩
  exact ⟨registry_nestedSettings, hnodup, hs,
    (dialects_kept_iff _ _ registry_nestedSettings hnodup).2 hs⟩

end SqlDialect
