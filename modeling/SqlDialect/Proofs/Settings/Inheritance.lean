import Mathlib.Logic.Relation
import SqlDialect.Proofs.Settings.Kept

/-!
# SqlDialect.Proofs.Settings.Inheritance

Configured dialects along their bases.

* `Settings.OnCycle` -- a name whose bases lead back to it.
* `Settings.Denotes` -- what a name stands for: a built-in dialect, or what is
  built over that for which the base stands.
* `Settings.Enters.cause` -- a dialect that cannot be entered is due to a cycle
  or to one that cannot be built.
* `registry_follows_bases` -- all dialects are registered, as their bases say,
  just if there is neither.
-/

namespace SqlDialect

open Text Registry

namespace Settings

/-! ## bases -/

/-- The settings of a dialect name its base. -/
def BasedOn (s : Settings) (name base : String) : Prop :=
  ∃ c, s.dialect? name = some c ∧ c.base = base

/-- The bases of a name lead back to it. -/
def OnCycle (s : Settings) (name : String) : Prop := Relation.TransGen s.BasedOn name name

/-- What a name stands for. -/
inductive Denotes (s : Settings) : String → Dialect → Prop
  | builtin {name b} : s.dialect? name = none → Builtin.ofName? name = some b →
      Denotes s name b.dialect
  | configured {name c parent d} : s.dialect? name = some c → Denotes s c.base parent →
      c.build name parent = .ok d → Denotes s name d

/-- Names that can be told apart from each other and from the built-in ones,
and bases that are among them. -/
structure Grounded (s : Settings) : Prop extends s.Separate where
  notBuiltin : ∀ p ∈ s.dialects, Builtin.ofName? p.1 = none
  based : ∀ p ∈ s.dialects,
    p.2.base ∈ s.dialects.map (·.1) ∨ (Builtin.ofName? p.2.base).isSome = true

variable {s : Settings} {way : List String} {name n : String} {c : DialectSettings}
  {r r' : Registry} {d d' : Dialect} {out : Except SettingsError (Dialect × Registry)}

/-- A name stands for one dialect at most. -/
theorem Denotes.unique (h : s.Denotes n d) (h' : s.Denotes n d') : d = d' := by
  induction h generalizing d' with
  | builtin hn hb =>
    cases h' with
    | builtin _ hb' => rw [Option.some.inj (hb.symm.trans hb')]
    | configured hc => rw [hn] at hc; cases hc
  | configured hc _ hbuild ih =>
    cases h' with
    | builtin hn => rw [hn] at hc; cases hc
    | configured hc' hparent hbuild' =>
      obtain rfl := Option.some.inj (hc.symm.trans hc')
      obtain rfl := ih hparent
      exact Except.ok.inj (hbuild.symm.trans hbuild')

/-- What stands for a dialect is on no cycle: its bases come to an end. -/
theorem Denotes.not_onCycle (h : s.Denotes n d) : ¬ s.OnCycle n := by
  induction h with
  | builtin hn =>
    intro hcycle
    obtain ⟨base, ⟨c, hc, -⟩, -⟩ := Relation.TransGen.head'_iff.1 hcycle
    rw [hn] at hc
    cases hc
  | @configured name c parent d hc _ _ ih =>
    intro hcycle
    obtain ⟨base, ⟨c', hc', rfl⟩, hback⟩ := Relation.TransGen.head'_iff.1 hcycle
    obtain rfl := Option.some.inj (hc.symm.trans hc')
    exact ih (Relation.TransGen.tail' hback ⟨c, hc, rfl⟩)

/-- They end at a built-in dialect. -/
theorem Denotes.reaches (h : s.Denotes n d) :
    ∃ b, Relation.ReflTransGen s.BasedOn n b ∧ (Builtin.ofName? b).isSome = true := by
  induction h with
  | builtin _ hb => exact ⟨_, .refl, by rw [hb]; rfl⟩
  | @configured name c parent d hc _ _ ih =>
    obtain ⟨b, hway, hb⟩ := ih
    exact ⟨b, .head ⟨c, hc, rfl⟩ hway, hb⟩

/-! ## dialects in the registry -/

theorem Grounded.configured_or_builtin (hs : s.Grounded) (hc : s.dialect? n = some c) :
    (∃ c', s.dialect? c.base = some c') ∨ ∃ b, Builtin.ofName? c.base = some b := by
  rcases hs.based (n, c) (mem_of_dialect? hc) with hbase | hb
  · obtain ⟨q, hq, hname⟩ := List.mem_map.1 hbase
    exact .inl ⟨q.2, by rw [← hname]; exact dialect?_of_mem hs.nodup hq⟩
  · exact .inr (Option.isSome_iff_exists.1 hb)

theorem Grounded.ofName?_eq_none (hs : s.Grounded) (hc : s.dialect? n = some c) :
    Builtin.ofName? n = none :=
  hs.notBuiltin (n, c) (mem_of_dialect? hc)

/-- What a base is found to be is what it stands for, if this holds of the
configured names. -/
theorem Grounded.denotes_base (hs : s.Grounded) (hc : s.dialect? n = some c)
    (hd : r.get? c.base = some d)
    (hall : ∀ m c d, s.dialect? m = some c → r.get? m = some d → s.Denotes m d) :
    s.Denotes c.base d := by
  rcases hbase : s.dialect? c.base with - | c'
  · rcases hs.configured_or_builtin hc with ⟨c', hc'⟩ | ⟨b, hb⟩
    · rw [hbase] at hc'
      cases hc'
    · obtain rfl := Option.some.inj ((get?_builtin hb).symm.trans hd)
      exact .builtin hbase hb
  · exact hall _ _ _ hbase hd

/-- What is found under a configured name is what the name stands for. -/
theorem Grown.denotes (hs : s.Grounded) (hr : s.Grown r) (hc : s.dialect? n = some c)
    (hd : r.get? n = some d) : s.Denotes n d := by
  induction hr generalizing n c d with
  | empty =>
    rw [get?_of_ofName?_eq_none (hs.ofName?_eq_none hc)] at hd
    cases hd
  | @add r name₀ c₀ parent d₀ r' _ hc₀ hbase hbuild hregister ih =>
    have hname := DialectSettings.name_of_build hbuild
    by_cases hsame : lower (trim n) = lower d₀.name
    · -- the name is that of the dialect registered last
      have heq : n = name₀ := by
        refine hs.eq_of_lower hc hc₀ ?_
        rwa [hs.trim_of_dialect? hc, hname] at hsame
      subst heq
      have hfound : r'.get? n = some d₀ :=
        get?_register_self hregister (by rw [hname, hs.trim_of_dialect? hc]) (by rw [hname])
      obtain rfl := Option.some.inj (hfound.symm.trans hd)
      exact .configured hc₀ (hs.denotes_base hc₀ hbase fun m c d hm hd => ih hm hd) hbuild
    · rw [get?_register_of_ne hregister hsame] at hd
      exact ih hc hd

/-- Entering a dialect registers none of those on the way to it. -/
theorem Enters.missing (hs : s.Separate) (h : s.Enters way name r out) (hout : out = .ok (d, r'))
    (hn : n ∈ way) (hc : s.dialect? n = some c) (hr : r.get? n = none) : r'.get? n = none := by
  induction h generalizing d r' with
  | found | entered => cases hout; exact hr
  | unknown | clash | cycle | base | build | register => cases hout
  | @new way name r c' parent r₁ d₁ r₂ hdue hw _ hbuild hregister ih =>
    cases hout
    rw [get?_register_of_ne hregister, ih rfl (List.mem_cons_of_mem _ hn) hr]
    rw [DialectSettings.name_of_build hbuild, hs.trim_of_dialect? hc]
    intro hlower
    exact hw (hs.eq_of_lower hc hdue.configured hlower ▸ hn)

/-! ## errors -/

/-- What may be wrong with settings whose names are in order: bases in a cycle,
or a dialect that cannot be built over what its base stands for. -/
def Cause (s : Settings) (e : SettingsError) : Prop :=
  (∃ n, s.OnCycle n ∧ e = .invalidDialect n (.inheritanceCycle n)) ∨
    ∃ n c parent x, s.dialect? n = some c ∧ s.Denotes c.base parent ∧
      c.build n parent = .error x ∧ e = .invalidDialect n x

/-- A dialect that was missing before its base was entered can be registered
behind it. -/
theorem Enters.not_refused {parent : Dialect} {r₁ : Registry} {x : DialectError}
    (hs : s.Grounded) (hdue : s.Due name r c)
    (hbase : s.Enters (name :: way) c.base r (.ok (parent, r₁)))
    (hbuild : c.build name parent = .ok d) : r₁.register d ≠ .error x := by
  intro hregister
  have hname := DialectSettings.name_of_build hbuild
  have hmissing := hbase.missing hs.toSeparate rfl List.mem_cons_self hdue.configured hdue.missing
  rw [get?_of_ofName?_eq_none hdue.notBuiltin, hs.trim_of_dialect? hdue.configured] at hmissing
  obtain ⟨htaken, -⟩ := register_eq_error_iff.1 hregister
  rw [hname, hdue.notBuiltin, hmissing] at htaken
  simp at htaken

/-- A dialect cannot be entered for one of these causes only.  The names on the
way to it are based on it and are not registered yet. -/
theorem Enters.cause {e : SettingsError} (hs : s.Grounded) (h : s.Enters way name r out)
    (hout : out = .error e) (hr : s.Grown r)
    (hname : (∃ c, s.dialect? name = some c) ∨ ∃ b, Builtin.ofName? name = some b)
    (hway : ∀ w ∈ way, Relation.TransGen s.BasedOn w name) : s.Cause e := by
  induction h with
  | found | entered | new => cases hout
  | @unknown way name r x hn hx =>
    rcases hname with ⟨c, hc⟩ | ⟨b, hb⟩
    · rw [hn] at hc
      cases hc
    · rw [resolve_eq_ok_iff.2 (get?_builtin hb)] at hx
      cases hx
  | clash hc hb =>
    rw [hs.ofName?_eq_none hc] at hb
    cases hb
  | cycle _ hw =>
    cases hout
    exact .inl ⟨_, hway _ hw, rfl⟩
  | @base way name r c x hdue _ _ ih =>
    have hstep : s.BasedOn name c.base := ⟨c, hdue.configured, rfl⟩
    refine ih hout hr (hs.configured_or_builtin hdue.configured) fun w hw => ?_
    rcases List.mem_cons.1 hw with rfl | hw
    · exact .single hstep
    · exact (hway w hw).tail hstep
  | @build way name r c parent r₁ x hdue _ hbase hbuild _ =>
    cases hout
    obtain ⟨hgrown, hparent⟩ := hbase.grown (fun n c => hs.trim_of_dialect?) rfl hr
    have hdenotes : s.Denotes c.base parent :=
      hs.denotes_base hdue.configured hparent fun m c d hm hd => hgrown.denotes hs hm hd
    exact .inr ⟨name, c, parent, x, hdue.configured, hdenotes, hbuild, rfl⟩
  | register hdue _ hbase hbuild hregister =>
    exact absurd hregister (hbase.not_refused hs hdue hbuild)

/-- The same for a list of configured dialects. -/
theorem EntersAll.cause {ps : List (String × DialectSettings)} {all : Except SettingsError Registry}
    {e : SettingsError} (hs : s.Grounded) (h : s.EntersAll ps r all) (hall : all = .error e)
    (hr : s.Grown r) (hps : ∀ p ∈ ps, p ∈ s.dialects) : s.Cause e := by
  induction h with
  | nil => cases hall
  | @error p ps r x hp =>
    cases hall
    have hc := dialect?_of_mem hs.nodup (hps p List.mem_cons_self)
    exact hp.cause hs rfl hr (.inl ⟨_, hc⟩) nofun
  | cons hp _ ih =>
    exact ih hall (hp.grown (fun n c => hs.trim_of_dialect?) rfl hr).1
      fun p hmem => hps p (List.mem_cons_of_mem _ hmem)

/-! ## all dialects -/

/-- Every configured name stands for a dialect, which is found under it, and so
is that for which its base stands. -/
theorem Grounded.resolved (hs : s.Grounded) (h : s.registry = .ok r)
    {p : String × DialectSettings} (hp : p ∈ s.dialects) :
    ∃ parent d, s.Denotes p.2.base parent ∧ r.resolve p.2.base = .ok parent ∧
      p.2.build p.1 parent = .ok d ∧ r.resolve p.1 = .ok d := by
  obtain ⟨hgrown, -⟩ := hs.grown h
  obtain ⟨parent, d, hbase, hbuild, hd⟩ := hs.found h hp
  have hparent := hs.denotes_base (dialect?_of_mem hs.nodup hp) hbase
    fun m c d hm hd => hgrown.denotes hs hm hd
  exact ⟨parent, d, hparent, resolve_eq_ok_iff.2 hbase, hbuild, resolve_eq_ok_iff.2 hd⟩

/-- The keys of the registry are the configured names in lower case. -/
theorem Grounded.perm_keys (hs : s.Grounded) (h : s.registry = .ok r) :
    (r.entries.map (·.1)).Perm (s.dialects.map fun p => lower p.1) := by
  obtain ⟨hgrown, hfound⟩ := hs.grown h
  refine (List.perm_ext_iff_of_nodup hgrown.wellKeyed.nodup hs.distinct).2 fun k => ?_
  simp only [List.mem_map]
  constructor
  · rintro ⟨e, he, rfl⟩
    obtain ⟨c, -, hc, -⟩ := hgrown.entry he
    exact ⟨_, mem_of_dialect? hc, (hgrown.wellKeyed.key e he).symm⟩
  · rintro ⟨p, hp, rfl⟩
    obtain ⟨d, hd⟩ := hfound p hp
    rw [get?_of_ofName?_eq_none (hs.notBuiltin p hp), hs.trimmed p hp] at hd
    exact ⟨_, mem_entries_of_eq_some hd, rfl⟩

theorem Grounded.not_onCycle (hs : s.Grounded) (h : s.registry = .ok r) : ¬ s.OnCycle n := by
  intro hcycle
  obtain ⟨-, ⟨c, hc, -⟩, -⟩ := Relation.TransGen.head'_iff.1 hcycle
  obtain ⟨parent, d, hparent, -, hbuild, -⟩ := hs.resolved h (mem_of_dialect? hc)
  exact (Denotes.configured hc hparent hbuild).not_onCycle hcycle

end Settings

open Settings

/-- Settings whose names are in order are built along the bases, whatever the
order of their names.  Building comes to an end.  It succeeds just if no bases
are in a cycle and every dialect can be built over what its base stands for;
the known names are then the built-in ones and the configured ones in lower
case, in ascending order, and each configured name is found as it is built over
what its base stands for.  If there is a cycle, and only dialects whose bases
lead into one cannot be built, the error is a cycle and names a dialect on
one. -/
theorem registry_follows_bases (s : Settings) (hs : s.Grounded) :
    s.EntersAll s.dialects .empty s.registry ∧
    ((∃ r, s.registry = .ok r) ↔ (∀ name, ¬ s.OnCycle name) ∧
      ∀ p ∈ s.dialects, ∀ parent, s.Denotes p.2.base parent →
        ∃ d, p.2.build p.1 parent = .ok d) ∧
    (∀ r, s.registry = .ok r →
      (∃ keys, r.names = Builtin.all.map Builtin.name ++ keys ∧ keys.Pairwise (· < ·) ∧
        keys.Perm (s.dialects.map fun p => lower p.1)) ∧
      ∀ p ∈ s.dialects, ∃ parent d, s.Denotes p.2.base parent ∧
        r.resolve p.2.base = .ok parent ∧ p.2.build p.1 parent = .ok d ∧
        r.resolve p.1 = .ok d) ∧
    ((∃ name, s.OnCycle name) →
      (∀ p ∈ s.dialects,
        (∃ b, Relation.ReflTransGen s.BasedOn p.1 b ∧ (Builtin.ofName? b).isSome = true) →
          ∃ d, s.Denotes p.1 d) →
      ∃ name, s.OnCycle name ∧
        s.registry = .error (.invalidDialect name (.inheritanceCycle name))) := by
  have hcause {e} (h : s.registry = .error e) : s.Cause e :=
    (entersAll_iff.2 h).cause hs rfl .empty fun _ hp => hp
  refine ⟨entersAll_iff.2 rfl, ⟨?_, ?_⟩, fun r h => ?_, fun ⟨n, hn⟩ hbuilt => ?_⟩
  · rintro ⟨r, h⟩
    refine ⟨fun _ => hs.not_onCycle h, fun p hp parent hparent => ?_⟩
    obtain ⟨parent', d, hparent', -, hbuild, -⟩ := hs.resolved h hp
    exact ⟨d, hparent.unique hparent' ▸ hbuild⟩
  · rintro ⟨hacyclic, hbuilds⟩
    rcases h : s.registry with e | r
    · rcases hcause h with ⟨n, hn, -⟩ | ⟨n, c, parent, x, hc, hparent, hbuild, -⟩
      · exact absurd hn (hacyclic n)
      · obtain ⟨d, hd⟩ := hbuilds (n, c) (mem_of_dialect? hc) parent hparent
        cases hbuild.symm.trans hd
    · exact ⟨r, rfl⟩
  · obtain ⟨hgrown, -⟩ := hs.grown h
    obtain ⟨keys, hnames, hsorted, hperm⟩ := hgrown.wellKeyed.names
    exact ⟨⟨keys, hnames, hsorted, hperm.trans (hs.perm_keys h)⟩, fun p hp => hs.resolved h hp⟩
  · rcases h : s.registry with e | r
    · rcases hcause h with ⟨m, hm, rfl⟩ | ⟨m, c, parent, x, hc, hparent, hbuild, -⟩
      · exact ⟨m, hm, rfl⟩
      · obtain ⟨b, hway, hb⟩ := hparent.reaches
        obtain ⟨d, hd⟩ := hbuilt (m, c) (mem_of_dialect? hc) ⟨b, .head ⟨c, hc, rfl⟩ hway, hb⟩
        cases hd with
        | builtin hn => rw [hc] at hn; cases hn
        | configured hc' hparent' hbuild' =>
          obtain rfl := Option.some.inj (hc.symm.trans hc')
          obtain rfl := hparent.unique hparent'
          cases hbuild.symm.trans hbuild'
    · exact absurd hn (hs.not_onCycle h)

/-- Two dialects based on each other, one that leads to them, and one over a
built-in dialect. -/
def loopedSettings : Settings where
  dialects := [("Before", { base := "left" }), ("left", { base := "right" }),
    ("right", { base := "left" }), ("top", { base := "SQLite", types := [("text", "CLOB")] })]

theorem basedOn_loopedSettings {name base : String} (h : loopedSettings.BasedOn name base) :
    base = "left" ∨ base = "right" ∨ name = "top" := by
  obtain ⟨c, hc, rfl⟩ := h
  have hmem := mem_of_dialect? hc
  simp only [loopedSettings, List.mem_cons, Prod.mk.injEq, List.not_mem_nil, or_false] at hmem
  rcases hmem with ⟨-, rfl⟩ | ⟨-, rfl⟩ | ⟨-, rfl⟩ | ⟨rfl, -⟩
  · exact .inl rfl
  · exact .inr (.inl rfl)
  · exact .inl rfl
  · exact .inr (.inr rfl)

/-- Three of them lead into the cycle. -/
theorem reaches_loopedSettings {name base : String}
    (hname : name = "Before" ∨ name = "left" ∨ name = "right")
    (h : Relation.ReflTransGen loopedSettings.BasedOn name base) :
    base = "Before" ∨ base = "left" ∨ base = "right" := by
  induction h with
  | refl => exact hname
  | tail _ hstep ih =>
    rcases basedOn_loopedSettings hstep with h | h | rfl
    · exact .inr (.inl h)
    · exact .inr (.inr h)
    · rcases ih with h | h | h <;> exact absurd h (by decide)

theorem registry_follows_bases_looped :
    loopedSettings.Grounded ∧ loopedSettings.OnCycle "left" ∧
      ∃ name, loopedSettings.OnCycle name ∧
        loopedSettings.registry = .error (.invalidDialect name (.inheritanceCycle name)) := by
  have hgrounded : loopedSettings.Grounded :=
    ⟨⟨by decide, by decide⟩, by decide, by decide⟩
  have hcycle : loopedSettings.OnCycle "left" :=
    .tail (.single ⟨{ base := "right" }, rfl, rfl⟩) ⟨{ base := "left" }, rfl, rfl⟩
  refine ⟨hgrounded, hcycle,
    (registry_follows_bases _ hgrounded).2.2.2 ⟨_, hcycle⟩ fun p hp ⟨b, hway, hb⟩ => ?_⟩
  simp only [loopedSettings, List.mem_cons, List.not_mem_nil, or_false] at hp
  have hlost (hname : p.1 = "Before" ∨ p.1 = "left" ∨ p.1 = "right") : False := by
    rcases reaches_loopedSettings hname hway with rfl | rfl | rfl <;> cases hb
  rcases hp with rfl | rfl | rfl | rfl
  · exact (hlost (.inl rfl)).elim
  · exact (hlost (.inr (.inl rfl))).elim
  · exact (hlost (.inr (.inr rfl))).elim
  · exact ⟨_, .configured (c := { base := "SQLite", types := [("text", "CLOB")] }) rfl
      (.builtin rfl rfl) rfl⟩

end SqlDialect
