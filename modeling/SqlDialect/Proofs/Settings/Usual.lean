import SqlDialect.Proofs.Outcome
import SqlDialect.Proofs.Settings.Enters

/-!
# SqlDialect.Proofs.Settings.Usual

Configured dialects know the usual functions only.

* `Change.Usual` -- a change that adds no other function, as all changes are that
  settings come to.
* `Registry.Usual` -- a registry in which no other dialect is found.
* `registry_usual` -- so is every registry that is built from settings.
-/

namespace SqlDialect

open Settings

variable {d d' : Dialect} {ks : List Change} {k : Change} {name value : String}

/-! ## changes -/

/-- The change adds no function but a usual one. -/
def Change.Usual : Change → Prop
  | .function _ f => ∃ k : CallKind, f = k
  | _ => True

theorem Dialect.UsualFunctions.apply (hd : d.UsualFunctions) (hk : k.Usual) :
    (d.apply k).UsualFunctions := by
  cases k with
  | function name f =>
    intro n g hg
    rw [Dialect.apply, Overrides.get?_set] at hg
    split at hg
    case isTrue =>
      cases hg
      exact hk
    case isFalse => exact hd n g hg
  | _ => exact hd

theorem Dialect.UsualFunctions.applyAll (hd : d.UsualFunctions) (hks : ∀ k ∈ ks, k.Usual) :
    (d.applyAll ks).UsualFunctions := by
  induction ks generalizing d with
  | nil => exact hd
  | cons k ks ih =>
    rw [List.forall_mem_cons] at hks
    exact ih (hd.apply hks.1) hks.2

namespace DialectSettings

variable {c : DialectSettings} {parent : Dialect}

theorem typeChange_usual (h : typeChange name value = .ok k) : k.Usual := by
  unfold typeChange at h
  split at h <;> cases h
  trivial

theorem tokenChange_usual (h : tokenChange name value = .ok k) : k.Usual := by
  unfold tokenChange at h
  split at h <;> cases h
  trivial

/-- Functions are configured by the kind of node that they make. -/
theorem functionChange_usual (h : functionChange name value = .ok k) : k.Usual := by
  obtain ⟨kind, -, h⟩ := bind_eq_ok_iff.1 h
  split at h <;> cases h
  exact ⟨_, rfl⟩

theorem transformChange_usual {t : TransformSetting} (h : transformChange name t = .ok k) :
    k.Usual := by
  obtain ⟨kind, -, h⟩ := bind_eq_ok_iff.1 h
  cases t with
  | rename name =>
    cases h
    trivial
  | named word =>
    dsimp only at h
    split_ifs at h <;> cases h <;> trivial

theorem changes_usual (h : c.changes = .ok ks) : ∀ k ∈ ks, k.Usual := by
  obtain ⟨types, htypes, h⟩ := bind_eq_ok_iff.1 h
  obtain ⟨tokens, htokens, h⟩ := bind_eq_ok_iff.1 h
  obtain ⟨functions, hfunctions, h⟩ := bind_eq_ok_iff.1 h
  obtain ⟨transforms, htransforms, h⟩ := bind_eq_ok_iff.1 h
  cases h
  simp only [List.forall_mem_append]
  refine ⟨⟨⟨?_, ?_⟩, ?_⟩, ?_⟩
  · intro k hk
    obtain ⟨p, -, hp⟩ := exists_of_mapM_eq_ok htypes k hk
    exact typeChange_usual hp
  · intro k hk
    obtain ⟨p, -, hp⟩ := exists_of_mapM_eq_ok htokens k hk
    exact tokenChange_usual hp
  · intro k hk
    obtain ⟨p, -, hp⟩ := exists_of_mapM_eq_ok hfunctions k hk
    exact functionChange_usual hp
  · intro k hk
    obtain ⟨p, -, hp⟩ := exists_of_mapM_eq_ok htransforms k hk
    exact transformChange_usual hp

theorem usualFunctions_of_build (hparent : parent.UsualFunctions)
    (h : c.build name parent = .ok d) : d.UsualFunctions := by
  obtain ⟨ks, hks, h⟩ := bind_eq_ok_iff.1 h
  rw [Dialect.eq_of_checked h]
  have hnamed : ({ parent with name } : Dialect).UsualFunctions := hparent
  exact hnamed.applyAll (changes_usual hks)

end DialectSettings

/-! ## registries -/

namespace Registry

variable {r r' : Registry}

/-- Every dialect that is found knows the usual functions only. -/
def Usual (r : Registry) : Prop := ∀ name d, r.get? name = some d → d.UsualFunctions

theorem usual_empty : Usual .empty := by
  intro name d hd
  cases hb : Builtin.ofName? name with
  | none =>
    rw [get?_of_ofName?_eq_none hb] at hd
    cases hd
  | some b =>
    rw [get?_builtin hb] at hd
    cases hd
    exact b.usualFunctions

theorem Usual.register (hr : r.Usual) (hd : d.UsualFunctions) (h : r.register d = .ok r') :
    r'.Usual := by
  intro name x hx
  cases hb : Builtin.ofName? name with
  | some b =>
    rw [get?_builtin hb] at hx
    cases hx
    exact b.usualFunctions
  | none =>
    rw [get?_of_ofName?_eq_none hb, entry?_of_register h] at hx
    rcases Option.or_eq_some_iff.1 hx with hold | ⟨-, hnew⟩
    · exact hr name x (by rw [get?_of_ofName?_eq_none hb, hold])
    · split at hnew <;> cases hnew
      exact hd

end Registry

/-! ## settings -/

namespace Settings

variable {s : Settings} {way : List String} {r r' : Registry}

/-- Whatever dialect is entered, it and those built on the way know the usual
functions only. -/
theorem Enters.usual {out : Except SettingsError (Dialect × Registry)}
    (h : s.Enters way name r out) (hout : out = .ok (d, r')) (hr : r.Usual) :
    d.UsualFunctions ∧ r'.Usual := by
  induction h generalizing d r' with
  | @found way name r x _ hx =>
    cases hout
    exact ⟨hr name _ (Registry.resolve_eq_ok_iff.1 hx), hr⟩
  | @entered way name r c x _ _ hx =>
    cases hout
    exact ⟨hr name _ hx, hr⟩
  | unknown | clash | cycle | base | build | register => cases hout
  | new _ _ _ hbuild hregister ih =>
    cases hout
    obtain ⟨hparent, hbefore⟩ := ih rfl hr
    have hd := DialectSettings.usualFunctions_of_build hparent hbuild
    exact ⟨hd, hbefore.register hd hregister⟩

theorem EntersAll.usual {ps : List (String × DialectSettings)}
    {all : Except SettingsError Registry} (h : s.EntersAll ps r all) (hall : all = .ok r')
    (hr : r.Usual) : r'.Usual := by
  induction h with
  | nil =>
    cases hall
    exact hr
  | error => cases hall
  | cons hp _ ih => exact ih hall (hp.usual rfl hr).2

/-- No dialect that is configured, and none that is built in, knows other
functions than the usual ones. -/
theorem registry_usual (h : s.registry = .ok r) : r.Usual :=
  (entersAll_iff.2 h).usual rfl Registry.usual_empty

end Settings

end SqlDialect
