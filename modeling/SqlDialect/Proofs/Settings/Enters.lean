import SqlDialect.Proofs.Dialect.Registry
import SqlDialect.Settings.Registry

/-!
# SqlDialect.Proofs.Settings.Enters

Building configured dialects, step by step: one case for each thing that may
happen when a dialect is entered.

* `Settings.Enters` -- what entering a dialect comes to, as a relation that
  does not say that it comes to an end.
* `Settings.enters` -- it does, with the result of `Settings.enter`.
* `Settings.Grown` -- registries to which configured dialects were added, each
  over a base that was there before.
* `Settings.Enters.grown` -- entering a dialect leads from one to another.
-/

namespace SqlDialect

open Text

namespace Settings

/-! ## entering a dialect -/

/-- A configured dialect that is still to be built. -/
structure Due (s : Settings) (name : String) (r : Registry) (c : DialectSettings) : Prop where
  configured : s.dialect? name = some c
  notBuiltin : Builtin.ofName? name = none
  missing : r.get? name = none

/-- What entering a dialect comes to, on a way of names and in a registry. -/
inductive Enters (s : Settings) :
    List String → String → Registry → Except SettingsError (Dialect × Registry) → Prop
  | found {way name r d} : s.dialect? name = none → r.resolve name = .ok d →
      Enters s way name r (.ok (d, r))
  | unknown {way name r e} : s.dialect? name = none → r.resolve name = .error e →
      Enters s way name r (.error (.invalidDialect name e))
  | clash {way name r c} : s.dialect? name = some c → (Builtin.ofName? name).isSome = true →
      Enters s way name r (.error (.invalidDialect name (.duplicateName name)))
  | entered {way name r c d} : s.dialect? name = some c → Builtin.ofName? name = none →
      r.get? name = some d → Enters s way name r (.ok (d, r))
  | cycle {way name r c} : s.Due name r c → name ∈ way →
      Enters s way name r (.error (.invalidDialect name (.inheritanceCycle name)))
  | base {way name r c e} : s.Due name r c → name ∉ way →
      Enters s (name :: way) c.base r (.error e) → Enters s way name r (.error e)
  | build {way name r c parent r₁ e} : s.Due name r c → name ∉ way →
      Enters s (name :: way) c.base r (.ok (parent, r₁)) → c.build name parent = .error e →
      Enters s way name r (.error (.invalidDialect name e))
  | register {way name r c parent r₁ d e} : s.Due name r c → name ∉ way →
      Enters s (name :: way) c.base r (.ok (parent, r₁)) → c.build name parent = .ok d →
      r₁.register d = .error e → Enters s way name r (.error (.invalidDialect name e))
  | new {way name r c parent r₁ d r₂} : s.Due name r c → name ∉ way →
      Enters s (name :: way) c.base r (.ok (parent, r₁)) → c.build name parent = .ok d →
      r₁.register d = .ok r₂ → Enters s way name r (.ok (d, r₂))

/-- What entering a list of dialects comes to, one after the other. -/
inductive EntersAll (s : Settings) :
    List (String × DialectSettings) → Registry → Except SettingsError Registry → Prop
  | nil {r} : EntersAll s [] r (.ok r)
  | error {p ps r e} : Enters s [] p.1 r (.error e) → EntersAll s (p :: ps) r (.error e)
  | cons {p ps r d r₁ out} : Enters s [] p.1 r (.ok (d, r₁)) → EntersAll s ps r₁ out →
      EntersAll s (p :: ps) r out

/-- A registry that has come about by building configured dialects, each over
one that was found in it under the name of the base. -/
inductive Grown (s : Settings) : Registry → Prop
  | empty : Grown s .empty
  | add {r name c parent d r'} : Grown s r → s.dialect? name = some c →
      r.get? c.base = some parent → c.build name parent = .ok d → r.register d = .ok r' →
      Grown s r'

variable {s : Settings} {way : List String} {name : String} {c : DialectSettings}
  {r r' : Registry} {d : Dialect}

theorem enter_unconfigured (h : s.dialect? name = none) :
    s.enter way name r = (invalid name (r.resolve name)).map fun d => (d, r) := by
  rw [enter]
  split
  case h_1 =>
    generalize invalid name (r.resolve name) = found
    cases found <;> rfl
  case h_2 c hc => rw [h] at hc; cases hc

theorem enter_configured (hc : s.dialect? name = some c) :
    s.enter way name r =
      if (Builtin.ofName? name).isSome then invalid name (.error (.duplicateName name))
      else (r.get? name).elim
        (if name ∈ way then invalid name (.error (.inheritanceCycle name))
        else do
          let (parent, r) ← s.enter (name :: way) c.base r
          let d ← invalid name (c.build name parent)
          let r ← invalid name (r.register d)
          return (d, r))
        fun d => .ok (d, r) := by
  rw [enter]
  split
  case h_1 hn => rw [hc] at hn; cases hn
  case h_2 c' hc' =>
    obtain rfl := Option.some.inj (hc.symm.trans hc')
    rfl

theorem invalid_ok {α β : Type} (a : α) (f : α → Except SettingsError β) :
    (invalid name (.ok a) >>= f) = f a := rfl

theorem invalid_error {α β : Type} (e : DialectError) (f : α → Except SettingsError β) :
    (invalid name (.error e) >>= f) = .error (.invalidDialect name e) := rfl

/-- Behind its base, a dialect is built and registered. -/
theorem Enters.of_base {parent : Dialect} {r₁ : Registry} (hdue : s.Due name r c)
    (hw : name ∉ way) (hbase : s.Enters (name :: way) c.base r (.ok (parent, r₁))) :
    s.Enters way name r (do
      let d ← invalid name (c.build name parent)
      let r ← invalid name (r₁.register d)
      return (d, r)) := by
  generalize hbuild : c.build name parent = built
  cases built with
  | error e =>
    rw [invalid_error]
    exact .build hdue hw hbase hbuild
  | ok d =>
    rw [invalid_ok]
    generalize hregister : r₁.register d = registered
    cases registered with
    | error e =>
      rw [invalid_error]
      exact .register hdue hw hbase hbuild hregister
    | ok r₂ => exact .new hdue hw hbase hbuild hregister

/-- Entering a dialect comes to an end: the way grows by configured names only,
each of them once. -/
theorem enters (s : Settings) (way : List String) (name : String) (r : Registry) :
    s.Enters way name r (s.enter way name r) := by
  induction way, name using enter.induct s r with
  | case1 way name h =>
    rw [enter_unconfigured h]
    rcases hr : r.resolve name with e | d
    · exact .unknown h hr
    · exact .found h hr
  | case2 way name c h hb =>
    rw [enter_configured h, if_pos hb]
    exact .clash h hb
  | case3 way name c h hb ih =>
    rw [enter_configured h, if_neg hb]
    rw [Bool.not_eq_true, Option.isSome_eq_false_iff, Option.isNone_iff_eq_none] at hb
    rcases hr : r.get? name with - | d
    · have hdue : s.Due name r c := ⟨h, hb, hr⟩
      rw [Option.elim_none]
      by_cases hw : name ∈ way
      · rw [if_pos hw]
        exact .cycle hdue hw
      · rw [if_neg hw]
        have hbase := ih hw
        generalize s.enter (name :: way) c.base r = base at hbase ⊢
        rcases base with e | ⟨parent, r₁⟩
        · exact .base hdue hw hbase
        · exact .of_base hdue hw hbase
    · exact .entered h hb hr

theorem enter_due (h : s.Due name r c) (hw : name ∉ way) :
    s.enter way name r = (do
      let (parent, r) ← s.enter (name :: way) c.base r
      let d ← invalid name (c.build name parent)
      let r ← invalid name (r.register d)
      return (d, r)) := by
  rw [enter_configured h.configured, h.notBuiltin, h.missing, Option.elim_none, if_neg hw]
  rfl

theorem enter_of_base {parent : Dialect} {r₁ : Registry} (h : s.Due name r c) (hw : name ∉ way)
    (hbase : s.enter (name :: way) c.base r = .ok (parent, r₁)) :
    s.enter way name r = (do
      let d ← invalid name (c.build name parent)
      let r ← invalid name (r₁.register d)
      return (d, r)) := by
  rw [enter_due h hw, hbase]
  rfl

/-- There is one outcome. -/
theorem Enters.enter_eq {out : Except SettingsError (Dialect × Registry)}
    (h : s.Enters way name r out) : s.enter way name r = out := by
  induction h with
  | found h hd => rw [enter_unconfigured h, hd]; rfl
  | unknown h he => rw [enter_unconfigured h, he]; rfl
  | clash h hb => rw [enter_configured h, if_pos hb]; rfl
  | entered h hb hd => rw [enter_configured h, hb, hd]; rfl
  | cycle hdue hw =>
    rw [enter_configured hdue.configured, hdue.notBuiltin, hdue.missing, Option.elim_none,
      if_pos hw]
    rfl
  | base hdue hw _ ih => rw [enter_due hdue hw, ih]; rfl
  | build hdue hw _ hbuild ih => rw [enter_of_base hdue hw ih, hbuild, invalid_error]
  | register hdue hw _ hbuild hregister ih =>
    rw [enter_of_base hdue hw ih, hbuild, invalid_ok, hregister, invalid_error]
  | new hdue hw _ hbuild hregister ih =>
    rw [enter_of_base hdue hw ih, hbuild, invalid_ok, hregister, invalid_ok]
    rfl

/-- The same for a list of dialects. -/
theorem entersAll (s : Settings) (ps : List (String × DialectSettings)) (r : Registry) :
    s.EntersAll ps r (ps.foldlM (fun r p => do return (← s.enter [] p.1 r).2) r) := by
  induction ps generalizing r with
  | nil => exact .nil
  | cons p ps ih =>
    rw [List.foldlM_cons]
    have hp := enters s [] p.1 r
    generalize s.enter [] p.1 r = out at hp ⊢
    rcases out with e | ⟨d, r₁⟩
    · exact .error hp
    · exact .cons hp (ih r₁)

theorem EntersAll.foldlM_eq {ps : List (String × DialectSettings)}
    {out : Except SettingsError Registry} (h : s.EntersAll ps r out) :
    ps.foldlM (fun r p => do return (← s.enter [] p.1 r).2) r = out := by
  induction h with
  | nil => rfl
  | error hp => rw [List.foldlM_cons, hp.enter_eq]; rfl
  | cons hp _ ih => rw [List.foldlM_cons, hp.enter_eq]; exact ih

/-- Building all configured dialects comes to an end, in one way. -/
theorem entersAll_iff {out : Except SettingsError Registry} :
    s.EntersAll s.dialects .empty out ↔ s.registry = out :=
  ⟨fun h => h.foldlM_eq, fun h => h ▸ entersAll s s.dialects .empty⟩

end Settings

/-! ## what is built -/

/-- Changes do not rename a dialect. -/
theorem Dialect.name_applyAll (d : Dialect) (ks : List Change) : (d.applyAll ks).name = d.name := by
  have happly (d : Dialect) (k : Change) : (d.apply k).name = d.name := by cases k <;> rfl
  induction ks generalizing d with
  | nil => rfl
  | cons k ks ih => exact (ih (d.apply k)).trans (happly d k)

theorem Dialect.eq_of_checked {d d' : Dialect} (h : d.checked = .ok d') : d' = d := by
  unfold checked at h
  generalize d.check = outcome at h
  cases outcome with
  | error => cases h
  | ok => exact (Except.ok.inj h).symm

/-- A built dialect has the name that it is built under. -/
theorem DialectSettings.name_of_build {c : DialectSettings} {name : String} {parent d : Dialect}
    (h : c.build name parent = .ok d) : d.name = name := by
  unfold build at h
  generalize c.changes = outcome at h
  cases outcome with
  | error => cases h
  | ok ks => rw [Dialect.eq_of_checked h, Dialect.name_applyAll]

/-! ## what the registry holds -/

namespace Settings

open Registry

variable {s : Settings} {way : List String} {name n : String} {r r' : Registry} {d x : Dialect}
  {out : Except SettingsError (Dialect × Registry)}

theorem Grown.wellKeyed (h : s.Grown r) : r.WellKeyed := by
  induction h with
  | empty => exact wellKeyed_empty
  | add _ _ _ _ hregister ih => exact ih.register hregister

/-- Every entry was built from its settings, over what its base is found to be. -/
theorem Grown.entry (h : s.Grown r) {e : String × Dialect} (he : e ∈ r.entries) :
    ∃ c parent, s.dialect? e.2.name = some c ∧ r.get? c.base = some parent ∧
      c.build e.2.name parent = .ok e.2 := by
  induction h with
  | empty => cases he
  | @add r name c parent d r' _ hc hbase hbuild hregister ih =>
    have hentries := (register_eq_ok_iff.1 hregister).2.2
    rw [hentries, List.mem_append, List.mem_singleton] at he
    rcases he with he | rfl
    · obtain ⟨c', parent', hc', hbase', hbuild'⟩ := ih he
      exact ⟨c', parent', hc', get?_of_register hregister hbase', hbuild'⟩
    · have hname := DialectSettings.name_of_build hbuild
      refine ⟨c, parent, ?_, get?_of_register hregister hbase, ?_⟩
      · rw [hname, hc]
      · rw [hname, hbuild]

/-- A configured dialect that is entered is not called like a built-in one. -/
theorem Enters.notBuiltin (h : s.Enters way name r (.ok (d, r'))) (hc : s.dialect? name ≠ none) :
    Builtin.ofName? name = none := by
  cases h with
  | found hn => exact absurd hn hc
  | entered _ hb => exact hb
  | new hdue => exact hdue.notBuiltin

/-- What every registration keeps, entering a dialect keeps. -/
theorem Enters.preserves {P : Registry → Prop}
    (hP : ∀ r d r', P r → r.register d = .ok r' → P r')
    (h : s.Enters way name r out) (hout : out = .ok (d, r')) (hr : P r) : P r' := by
  induction h generalizing d r' with
  | found | entered => cases hout; exact hr
  | unknown | clash | cycle | base | build | register => cases hout
  | new _ _ _ _ hregister ih =>
    cases hout
    exact hP _ _ _ (ih rfl hr) hregister

/-- Entering a dialect keeps whatever was found before. -/
theorem Enters.get?_of_get? (h : s.Enters way name r (.ok (d, r'))) (hx : r.get? n = some x) :
    r'.get? n = some x :=
  h.preserves (fun _ _ _ hx hregister => get?_of_register hregister hx) rfl hx

/-- Entering a dialect builds what is missing of it and its bases, and then
finds it.  A name with blanks around it would not be found. -/
theorem Enters.grown (htrim : ∀ n c, s.dialect? n = some c → trim n = n)
    (h : s.Enters way name r out) (hout : out = .ok (d, r')) (hr : s.Grown r) :
    s.Grown r' ∧ r'.get? name = some d := by
  induction h generalizing d r' with
  | found _ hd =>
    cases hout
    exact ⟨hr, resolve_eq_ok_iff.1 hd⟩
  | entered _ _ hd =>
    cases hout
    exact ⟨hr, hd⟩
  | unknown | clash | cycle | base | build | register => cases hout
  | @new way name r c parent r₁ d r₂ hdue _ _ hbuild hregister ih =>
    cases hout
    obtain ⟨hgrown, hbase⟩ := ih rfl hr
    have hname := DialectSettings.name_of_build hbuild
    refine ⟨.add hgrown hdue.configured hbase hbuild hregister,
      get?_register_self hregister ?_ (by rw [hname])⟩
    rw [hname, htrim name c hdue.configured]

/-- The same for a list of dialects. -/
theorem EntersAll.grown {ps : List (String × DialectSettings)} {all : Except SettingsError Registry}
    (htrim : ∀ n c, s.dialect? n = some c → trim n = n) (h : s.EntersAll ps r all)
    (hall : all = .ok r') (hr : s.Grown r) :
    s.Grown r' ∧ (∀ n x, r.get? n = some x → r'.get? n = some x) ∧
      ∀ p ∈ ps, ∃ d, r'.get? p.1 = some d := by
  induction h generalizing r' with
  | nil =>
    cases hall
    exact ⟨hr, fun _ _ hx => hx, nofun⟩
  | error => cases hall
  | cons hp _ ih =>
    obtain ⟨hgrown, hd⟩ := hp.grown htrim rfl hr
    obtain ⟨hlast, hkeep, hps⟩ := ih hall hgrown
    exact ⟨hlast, fun n x hx => hkeep n x (hp.get?_of_get? hx),
      List.forall_mem_cons.2 ⟨⟨_, hkeep _ _ hd⟩, hps⟩⟩

theorem EntersAll.notBuiltin {ps : List (String × DialectSettings)}
    {all : Except SettingsError Registry} (h : s.EntersAll ps r all) (hall : all = .ok r') :
    ∀ p ∈ ps, s.dialect? p.1 ≠ none → Builtin.ofName? p.1 = none := by
  induction h with
  | nil => exact nofun
  | error => cases hall
  | cons hp _ ih => exact List.forall_mem_cons.2 ⟨hp.notBuiltin, ih hall⟩

theorem EntersAll.wellKeyed {ps : List (String × DialectSettings)}
    {all : Except SettingsError Registry} (h : s.EntersAll ps r all) (hall : all = .ok r')
    (hr : r.WellKeyed) : r'.WellKeyed := by
  induction h generalizing r' with
  | nil =>
    cases hall
    exact hr
  | error => cases hall
  | cons hp _ ih =>
    exact ih hall (hp.preserves (fun _ _ _ hr hregister => hr.register hregister) rfl hr)

end Settings

end SqlDialect
