/-!
# SqlDialect.Front

What reading the front of a list gives: a value and what is left over.  The
bound in the type says how short the rest is, so a reader that takes
something shows it in its type, and recursion on the rest needs no other
argument to end.
-/

namespace SqlDialect

/-- A value read from the front of a list, with less than `bound` elements
left. -/
structure Front (τ α : Type) (bound : Nat) where
  value : α
  rest : List τ
  lt : rest.length < bound

namespace Front

variable {τ α β : Type} {m n : Nat}

/-! ## lengths -/

theorem le_self (ts : List τ) : ts.length ≤ ts.length := Nat.le_refl _

theorem lt_succ (ts : List τ) : ts.length < ts.length + 1 := Nat.lt_succ_self _

theorem lt_cons (t : τ) (ts : List τ) : ts.length < (t :: ts).length := Nat.lt_succ_self _

theorem tail_lt {t : τ} {ts us : List τ} (h : (t :: ts).length < us.length) :
    ts.length < us.length := Nat.lt_of_succ_lt h

theorem tail_lt_of_le {t : τ} {ts : List τ} (h : (t :: ts).length ≤ n) : ts.length < n := h

theorem tail_le {t : τ} {ts : List τ} (h : (t :: ts).length ≤ n) : ts.length ≤ n :=
  Nat.le_of_lt h

theorem lt_trans {vs us ts : List τ} (h₂ : vs.length < us.length) (h₁ : us.length < ts.length) :
    vs.length < ts.length := Nat.lt_trans h₂ h₁

theorem lt_of_lt_of_le {us ts : List τ} (h₁ : us.length < ts.length) (h : ts.length ≤ n) :
    us.length < n := Nat.lt_of_lt_of_le h₁ h

theorem le_of_lt_of_le {us ts : List τ} (h₁ : us.length < ts.length) (h : ts.length ≤ n) :
    us.length ≤ n := Nat.le_trans (Nat.le_of_lt h₁) h

/-! ## readings -/

/-- Nothing taken. -/
def stay (value : α) (ts : List τ) : Front τ α (ts.length + 1) := ⟨value, ts, lt_succ ts⟩

/-- One element taken. -/
def step (value : α) (t : τ) (ts : List τ) : Front τ α (t :: ts).length :=
  ⟨value, ts, lt_cons t ts⟩

/-- Everything taken. -/
def finish (value : α) (ts : List τ) : Front τ α (ts.length + 1) :=
  ⟨value, [], Nat.succ_pos _⟩

/-- The same reading with a looser bound. -/
def widen (r : Front τ α m) (h : m ≤ n) : Front τ α n :=
  ⟨r.value, r.rest, Nat.lt_of_lt_of_le r.lt h⟩

/-- The same reading with something else taken before. -/
def after (r : Front τ α m) (h : m < n) : Front τ α n := r.widen (Nat.le_of_lt h)

/-- The same reading, which may also take nothing. -/
def loosen (r : Front τ α n) : Front τ α (n + 1) := r.widen (Nat.le_succ n)

/-- The same reading behind one element more. -/
def behind {ts : List τ} (t : τ) (r : Front τ α ts.length) : Front τ α (t :: ts).length :=
  r.widen (Nat.le_succ ts.length)

/-- What is taken first, with a second reading behind it that only has to
be there. -/
def closed (k : Front τ α n) (r : Front τ β k.rest.length) : Front τ α n :=
  ⟨k.value, r.rest, Nat.lt_trans r.lt k.lt⟩

/-- The same reading of another value. -/
def map (f : α → β) (r : Front τ α n) : Front τ β n := ⟨f r.value, r.rest, r.lt⟩

end Front

end SqlDialect
