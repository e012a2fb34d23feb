import Mathlib.Logic.Unique

/-!
# SqlDialect.Proofs.Outcome

Outcomes of steps that may fail.

* `bind_eq_ok_iff`, `seq_eq_ok_iff`, `demand_eq_ok_iff` -- one step in front of others.
* `forM_eq_ok_iff`, `exists_of_mapM_eq_ok` -- a step for each member of a list.
-/

namespace SqlDialect

variable {ε α β : Type}

theorem bind_eq_ok_iff {x : Except ε α} {f : α → Except ε β} {b : β} :
    x >>= f = .ok b ↔ ∃ a, x = .ok a ∧ f a = .ok b := by
  cases x with
  | error e =>
    constructor
    · intro h
      cases h
    · rintro ⟨_, h, -⟩
      cases h
  | ok a =>
    constructor
    · intro h
      exact ⟨a, rfl, h⟩
    · rintro ⟨_, ha, h⟩
      cases ha
      exact h

theorem seq_eq_ok_iff {x : Except ε Unit} {y : Except ε β} {b : β} :
    (x >>= fun _ => y) = .ok b ↔ x = .ok () ∧ y = .ok b := by
  rw [bind_eq_ok_iff]
  exact Unique.exists_iff

/-- A demand that is made by an error where it is not met. -/
theorem demand_eq_ok_iff {p : Prop} [Decidable p] {e : ε} :
    (if p then throw e else pure () : Except ε Unit) = .ok () ↔ ¬p := by
  split
  case isTrue h => exact iff_of_false (fun h => by cases h) (not_not_intro h)
  case isFalse h => exact iff_of_true rfl h

theorem forM_eq_ok_iff {f : α → Except ε Unit} {l : List α} :
    l.forM f = .ok () ↔ ∀ a ∈ l, f a = .ok () := by
  induction l with
  | nil => exact iff_of_true rfl (List.forall_mem_nil _)
  | cons a l ih =>
    change (f a >>= fun _ => l.forM f) = .ok () ↔ _
    rw [seq_eq_ok_iff, List.forall_mem_cons, ih]

/-- What comes out of steps for the members of a list comes out of one of them. -/
theorem exists_of_mapM_eq_ok {f : α → Except ε β} {as : List α} {bs : List β}
    (h : as.mapM f = .ok bs) : ∀ b ∈ bs, ∃ a ∈ as, f a = .ok b := by
  induction as generalizing bs with
  | nil =>
    cases h
    exact List.forall_mem_nil _
  | cons a as ih =>
    rw [List.mapM_cons] at h
    obtain ⟨b, hb, h⟩ := bind_eq_ok_iff.1 h
    obtain ⟨bs', hbs, h⟩ := bind_eq_ok_iff.1 h
    cases h
    rw [List.forall_mem_cons]
    refine ⟨⟨a, List.mem_cons_self, hb⟩, fun c hc => ?_⟩
    obtain ⟨a', ha', hstep⟩ := ih hbs c hc
    exact ⟨a', List.mem_cons_of_mem a ha', hstep⟩

end SqlDialect
