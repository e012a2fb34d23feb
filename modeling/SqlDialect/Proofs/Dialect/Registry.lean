import Mathlib.Data.List.Induction
import Mathlib.Data.List.Nodup
import Mathlib.Data.String.Basic
import SqlDialect.Dialect.Registry
import SqlDialect.Proofs.Text.Case

/-!
# SqlDialect.Proofs.Dialect.Registry

What a registry holds after any number of registrations.

* `Registry.get?_of_register`, `Registry.WellKeyed.register` -- what one
  registration leaves as it was.
* `registered_dialects_reachable` -- what a run of registrations comes to.
-/

namespace SqlDialect

open Text

/-! ## names -/

namespace Builtin

/-- Names are compared without case and without the blanks around them. -/
theorem ofName?_eq_some_iff {s : String} {b : Builtin} :
    ofName? s = some b ↔ lower (trim s) = b.name := by
  unfold ofName?
  constructor
  · intro h
    have hname := List.find?_some h
    simp only [decide_eq_true_eq] at hname
    exact hname.symm
  · intro h
    rw [h]
    cases b <;> rfl

theorem ofName?_congr {s t : String} (h : lower (trim s) = lower (trim t)) :
    ofName? s = ofName? t := by
  unfold ofName?
  rw [h]

theorem ofName?_lower (s : String) : ofName? (lower s) = ofName? s :=
  ofName?_congr (by rw [trim_lower, lower_lower])

end Builtin

namespace Registry

variable {r r' : Registry} {d x : Dialect} {name key : String}

/-! ## one registration -/

/-- A dialect is registered behind the others, unless its name is taken. -/
theorem register_eq_ok_iff :
    r.register d = .ok r' ↔ Builtin.ofName? d.name = none ∧ r.entry? (lower d.name) = none ∧
      r' = ⟨r.entries ++ [(lower d.name, d)]⟩ := by
  unfold register isTaken
  simp only [Builtin.ofName?_lower]
  cases Builtin.ofName? d.name <;> cases r.entry? (lower d.name) <;> simp [eq_comm]

theorem register_eq_error_iff {e : DialectError} :
    r.register d = .error e ↔ ((Builtin.ofName? d.name).isSome ∨
      (r.entry? (lower d.name)).isSome) ∧ e = .duplicateName d.name := by
  unfold register isTaken
  simp only [Builtin.ofName?_lower]
  cases Builtin.ofName? d.name <;> cases r.entry? (lower d.name) <;> simp [eq_comm]

theorem entry?_of_register (h : r.register d = .ok r') :
    r'.entry? key = (r.entry? key).or (if lower d.name = key then some d else none) := by
  obtain ⟨-, -, rfl⟩ := register_eq_ok_iff.1 h
  unfold entry?
  rw [List.find?_append]
  cases r.entries.find? fun e => e.1 = key with
  | some e => simp
  | none => by_cases hk : lower d.name = key <;> simp [hk]

/-- A built-in dialect is found in every registry. -/
theorem get?_builtin {b : Builtin} (h : Builtin.ofName? name = some b) :
    r.get? name = some b.dialect := by
  simp only [get?, h]

/-- Any other dialect is found by its entry. -/
theorem get?_of_ofName?_eq_none (h : Builtin.ofName? name = none) :
    r.get? name = r.entry? (lower (trim name)) := by
  simp only [get?, h]

/-- What is found before a registration is found behind it. -/
theorem get?_of_register (h : r.register d = .ok r') (hx : r.get? name = some x) :
    r'.get? name = some x := by
  cases hb : Builtin.ofName? name with
  | some b => exact (get?_builtin hb).trans ((get?_builtin hb).symm.trans hx)
  | none =>
    rw [get?_of_ofName?_eq_none hb] at hx ⊢
    rw [entry?_of_register h, hx, Option.some_or]

/-- A dialect that was registered is found by every spelling of its name,
provided there are no blanks around it. -/
theorem get?_register_self (h : r.register d = .ok r') (ht : trim d.name = d.name)
    (hname : lower name = lower d.name) : r'.get? name = some d := by
  have hkey : lower (trim name) = lower d.name := by
    rw [← trim_lower, hname, trim_lower, ht]
  obtain ⟨hb, hfree, -⟩ := register_eq_ok_iff.1 h
  have hnone : Builtin.ofName? name = none := by
    rw [Builtin.ofName?_congr (t := d.name) (by rw [hkey, ht]), hb]
  rw [get?_of_ofName?_eq_none hnone, hkey, entry?_of_register h, hfree]
  simp

/-- A registration is noticed under no other name. -/
theorem get?_register_of_ne (h : r.register d = .ok r')
    (hne : lower (trim name) ≠ lower d.name) : r'.get? name = r.get? name := by
  cases hb : Builtin.ofName? name with
  | some b => exact (get?_builtin hb).trans (get?_builtin hb).symm
  | none =>
    rw [get?_of_ofName?_eq_none hb, get?_of_ofName?_eq_none hb, entry?_of_register h,
      if_neg hne.symm, Option.or_none]

theorem resolve_eq_ok_iff : r.resolve name = .ok d ↔ r.get? name = some d := by
  unfold resolve
  cases r.get? name <;> simp

/-! ## well-keyed registries -/

/-- Every dialect is entered under its own name in lower case, and no two under
the same one. -/
structure WellKeyed (r : Registry) : Prop where
  key : ∀ e ∈ r.entries, e.1 = lower e.2.name
  nodup : (r.entries.map (·.1)).Nodup

theorem mem_entries_of_eq_some (h : r.entry? key = some d) : (key, d) ∈ r.entries := by
  obtain ⟨e, he, rfl⟩ := Option.map_eq_some_iff.1 h
  have hkey : e.1 = key := by simpa using List.find?_some he
  rw [← hkey]
  exact List.mem_of_find?_eq_some he

theorem entry?_eq_none_iff : r.entry? key = none ↔ key ∉ r.entries.map (·.1) := by
  unfold entry?
  rw [Option.map_eq_none_iff, List.find?_eq_none]
  grind

theorem wellKeyed_empty : WellKeyed .empty := ⟨nofun, List.nodup_nil⟩

theorem WellKeyed.register (hr : r.WellKeyed) (h : r.register d = .ok r') : r'.WellKeyed := by
  obtain ⟨-, hfree, rfl⟩ := register_eq_ok_iff.1 h
  refine ⟨fun e he => ?_, ?_⟩
  · rcases List.mem_append.1 he with he | he
    · exact hr.key e he
    · rw [List.mem_singleton.1 he]
  · rw [List.map_append, List.nodup_append]
    refine ⟨hr.nodup, List.nodup_singleton _, ?_⟩
    rintro k hk _ hd rfl
    rw [List.map_singleton, List.mem_singleton] at hd
    rw [hd] at hk
    exact entry?_eq_none_iff.1 hfree hk

/-- What is found under a name has that name. -/
theorem WellKeyed.lower_name (hr : r.WellKeyed) (hb : Builtin.ofName? name = none)
    (h : r.get? name = some d) : lower d.name = lower (trim name) := by
  rw [get?_of_ofName?_eq_none hb] at h
  exact (hr.key _ (mem_entries_of_eq_some h)).symm

/-- The names that are known: the built-in ones and the keys, each once and in
ascending order. -/
theorem WellKeyed.names (hr : r.WellKeyed) :
    ∃ keys, r.names = Builtin.all.map Builtin.name ++ keys ∧ keys.Pairwise (· < ·) ∧
      keys.Perm (r.entries.map (·.1)) := by
  refine ⟨_, rfl, ?_, List.mergeSort_perm _ _⟩
  let sorted := (r.entries.map (·.1)).mergeSort fun a b => decide (a ≤ b)
  have hsorted : sorted.Pairwise fun a b => decide (a ≤ b) = true :=
    List.pairwise_mergeSort
      (fun a b c hab hbc => by simp_all only [decide_eq_true_eq]; exact String.le_trans hab hbc)
      (fun a b => by simpa using String.le_total a b) _
  have hnodup : sorted.Nodup := (List.mergeSort_perm _ _).nodup_iff.2 hr.nodup
  exact (hsorted.and hnodup).imp fun h => lt_of_le_of_ne (by simpa using h.1) h.2

/-! ## runs of registrations -/

/-- The registry after a registration, which is the one before where the
dialect is refused. -/
def attempt (r : Registry) (d : Dialect) : Registry := (r.register d).toOption.getD r

/-- The registry after a run of registrations. -/
def run (ds : List Dialect) : Registry := ds.foldl attempt .empty

/-- A dialect was registered somewhere in a run. -/
def Accepted (ds : List Dialect) (d : Dialect) : Prop :=
  ∃ before after r, ds = before ++ d :: after ∧ (run before).register d = .ok r

theorem run_append (ds es : List Dialect) : run (ds ++ es) = es.foldl attempt (run ds) :=
  List.foldl_append

theorem attempt_cases (r : Registry) (d : Dialect) :
    (∃ r', r.register d = .ok r' ∧ r.attempt d = r') ∨
      ∃ e, r.register d = .error e ∧ r.attempt d = r := by
  unfold attempt
  generalize r.register d = outcome
  cases outcome with
  | ok r' => exact .inl ⟨r', rfl, rfl⟩
  | error e => exact .inr ⟨e, rfl, rfl⟩

/-- What is found stays found. -/
theorem get?_foldl_attempt (ds : List Dialect) (h : r.get? name = some d) :
    (ds.foldl attempt r).get? name = some d := by
  induction ds generalizing r with
  | nil => exact h
  | cons x xs ih =>
    rw [List.foldl_cons]
    apply ih
    rcases attempt_cases r x with ⟨r', hx, heq⟩ | ⟨e, -, heq⟩
    · rw [heq]
      exact get?_of_register hx h
    · rw [heq]
      exact h

theorem wellKeyed_run (ds : List Dialect) : (run ds).WellKeyed := by
  induction ds using List.reverseRecOn with
  | nil => exact wellKeyed_empty
  | append_singleton ds d ih =>
    rw [run_append, List.foldl_cons, List.foldl_nil]
    rcases attempt_cases (run ds) d with ⟨r', hd, heq⟩ | ⟨e, -, heq⟩
    · rw [heq]
      exact ih.register hd
    · rw [heq]
      exact ih

/-- One more dialect is registered if it is, and nothing changes for the
others. -/
theorem accepted_append_singleton {ds : List Dialect} :
    Accepted (ds ++ [d]) x ↔ Accepted ds x ∨ x = d ∧ ∃ r, (run ds).register d = .ok r := by
  constructor
  · rintro ⟨before, after, r, hds, hr⟩
    rcases List.eq_nil_or_concat after with rfl | ⟨after, y, rfl⟩
    · obtain ⟨rfl, hd⟩ := List.append_inj' hds rfl
      obtain rfl : d = x := by simpa using hd
      exact .inr ⟨rfl, r, hr⟩
    · have hsplit : ds ++ [d] = (before ++ x :: after) ++ [y] := by simpa using hds
      exact .inl ⟨before, after, r, (List.append_inj' hsplit rfl).1, hr⟩
  · rintro (⟨before, after, r, rfl, hr⟩ | ⟨rfl, r, hr⟩)
    · exact ⟨before, after ++ [d], r, by simp, hr⟩
    · exact ⟨ds, [], r, rfl, hr⟩

/-- The entries of a registry are the dialects that were registered, under
their names in lower case. -/
theorem mem_entries_run {ds : List Dialect} {e : String × Dialect} :
    e ∈ (run ds).entries ↔ ∃ x, Accepted ds x ∧ e = (lower x.name, x) := by
  induction ds using List.reverseRecOn with
  | nil =>
    refine ⟨nofun, ?_⟩
    rintro ⟨x, ⟨before, after, r, hds, -⟩, -⟩
    cases before <;> cases hds
  | append_singleton ds d ih =>
    rw [run_append, List.foldl_cons, List.foldl_nil]
    simp only [accepted_append_singleton]
    rcases attempt_cases (run ds) d with ⟨r', hd, heq⟩ | ⟨er, hd, heq⟩
    · rw [heq, (register_eq_ok_iff.1 hd).2.2, List.mem_append, ih, List.mem_singleton]
      simp [hd, or_and_right, exists_or]
    · rw [heq, ih]
      simp [hd]

/-- Nothing that was registered is taken twice: a dialect is refused for a
built-in name, or for a name that was registered in some case. -/
theorem register_run_error_iff {ds : List Dialect} :
    (∃ e, (run ds).register d = .error e) ↔
      (Builtin.ofName? d.name).isSome ∨ ∃ x, Accepted ds x ∧ lower x.name = lower d.name := by
  have hentry : (Registry.entry? (run ds) (lower d.name)).isSome ↔
      ∃ x, Accepted ds x ∧ lower x.name = lower d.name := by
    rw [← not_iff_not, Bool.not_eq_true, Option.isSome_eq_false_iff, Option.isNone_iff_eq_none,
      entry?_eq_none_iff]
    refine not_congr ⟨fun h => ?_, ?_⟩
    · obtain ⟨e, he, hkey⟩ := List.mem_map.1 h
      obtain ⟨x, hx, rfl⟩ := mem_entries_run.1 he
      exact ⟨x, hx, hkey⟩
    · rintro ⟨x, hx, hkey⟩
      exact List.mem_map.2 ⟨_, mem_entries_run.2 ⟨x, hx, rfl⟩, hkey⟩
  simp only [register_eq_error_iff, hentry, exists_and_left, exists_eq, and_true]

/-- A registered dialect is found by its own name, in any case and at any later
point, just where there are no blanks around that name: these would be taken
off the name that is looked up, but stay in the key. -/
theorem resolve_accepted_iff {ds : List Dialect} (h : Accepted ds d) :
    (∀ name, sameWord name d.name = true → (run ds).resolve name = .ok d) ↔
      trim d.name = d.name := by
  obtain ⟨before, after, r, rfl, hr⟩ := h
  constructor
  · intro hall
    have hself := resolve_eq_ok_iff.1 (hall d.name (by simp [sameWord]))
    exact trim_eq_self_of_lower
      ((wellKeyed_run _).lower_name (register_eq_ok_iff.1 hr).1 hself).symm
  · intro ht name hname
    have hstep : run (before ++ d :: after) = after.foldl attempt r := by
      rcases attempt_cases (run before) d with ⟨r', hd, heq⟩ | ⟨e, hd, -⟩
      · rw [run_append, List.foldl_cons, heq, Except.ok.inj (hr.symm.trans hd)]
      · cases hr.symm.trans hd
    rw [resolve_eq_ok_iff, hstep]
    exact get?_foldl_attempt after (get?_register_self hr ht (sameWord_iff.1 hname))

end Registry

open Registry

/-- What a run of registrations comes to.  A dialect that was registered is
found by every spelling of its own name from then on, if there are no blanks
around the name and only then; a dialect that is refused changes nothing; the
built-in names keep their meaning, in any case and with blanks around them; of
names without blanks around them those are refused that would be looked up as a
built-in or a registered one; and the known names are the built-in ones and the
keys of the registered dialects, each once and in ascending order. -/
theorem registered_dialects_reachable (ds : List Dialect) :
    (∀ d, Accepted ds d →
      ((∀ name, sameWord name d.name = true → (run ds).resolve name = .ok d) ↔
        trim d.name = d.name)) ∧
    (∀ d e, (run ds).register d = .error e → run (ds ++ [d]) = run ds) ∧
    (∀ name (b : Builtin), lower (trim name) = b.name →
      (run ds).resolve name = .ok b.dialect) ∧
    (∀ d, (∀ x, x = d ∨ Accepted ds x → trim x.name = x.name) →
      ((∃ e, (run ds).register d = .error e) ↔
        (∃ b : Builtin, lower (trim d.name) = b.name) ∨
          ∃ x, Accepted ds x ∧ lower (trim x.name) = lower (trim d.name))) ∧
    ∃ keys, (run ds).names = Builtin.all.map Builtin.name ++ keys ∧ keys.Pairwise (· < ·) ∧
      ∀ k, k ∈ keys ↔ ∃ x, Accepted ds x ∧ lower x.name = k := by
  refine ⟨fun d hd => resolve_accepted_iff hd, fun d e hd => ?_, fun name b hb => ?_,
    fun d ht => ?_, ?_⟩
  · rcases attempt_cases (run ds) d with ⟨r, hr, -⟩ | ⟨-, -, heq⟩
    · cases hr.symm.trans hd
    · rw [run_append, List.foldl_cons, heq, List.foldl_nil]
  · exact resolve_eq_ok_iff.2 (get?_builtin (Builtin.ofName?_eq_some_iff.2 hb))
  · have hd := ht d (.inl rfl)
    rw [register_run_error_iff, Option.isSome_iff_exists]
    simp only [Builtin.ofName?_eq_some_iff]
    refine or_congr_right (exists_congr fun x => and_congr_right fun hx => ?_)
    rw [hd, ht x (.inr hx)]
  · obtain ⟨keys, hnames, hsorted, hperm⟩ := (wellKeyed_run ds).names
    refine ⟨keys, hnames, hsorted, fun k => ?_⟩
    rw [hperm.mem_iff, List.mem_map]
    constructor
    · rintro ⟨e, he, rfl⟩
      obtain ⟨x, hx, rfl⟩ := mem_entries_run.1 he
      exact ⟨x, hx, rfl⟩
    · rintro ⟨x, hx, rfl⟩
      exact ⟨_, mem_entries_run.2 ⟨x, hx, rfl⟩, rfl⟩

/-- A dialect with a name of its own. -/
def lite : Dialect := { name := "Lite2" }

theorem registered_dialects_reachable_lite :
    Accepted [lite, { name := "LITE2" }] lite ∧ trim lite.name = lite.name ∧
      ∀ name, sameWord name lite.name = true →
        (run [lite, { name := "LITE2" }]).resolve name = .ok lite := by
  have htrim : trim lite.name = lite.name := by decide
  have haccepted : Accepted [lite, { name := "LITE2" }] lite :=
    ⟨[], [{ name := "LITE2" }], _, rfl, register_eq_ok_iff.2 ⟨by decide, rfl, rfl⟩⟩
  exact ⟨haccepted, htrim, ((registered_dialects_reachable _).1 lite haccepted).2 htrim⟩

end SqlDialect
