import Mathlib
import SqlDialect.Dialect.Builtin
import SqlDialect.Proofs.Rendering.Fixpoint

/-!
# SqlDialect.Proofs.Tree.CallArguments

Calls and the arguments that they are printed with.

* `CallKind.callArgs?_build`, `CallKind.kind_build` -- the node of a call has
  the arguments of the call, and what kind it is of.
* `CallKind.build_callArgs?` -- a well-formed node is the node of the call with
  its arguments.
* `Style.fragment_renamed`, `Dialect.call_registered` -- both ends of a renamed
  kind of node: how it is printed, and what a call by that name becomes.
* `calls_inverse_to_arguments` -- the three together.
-/

namespace SqlDialect

namespace CallKind

variable {k : CallKind} {args : List Expr} {e : Expr}

/-! ## from arguments to nodes -/

/-- The kinds of JSON extractions, which take one path as a node and more as a
plain call. -/
def extractions : List NodeKind :=
  [.jsonExtract, .jsonExtractScalar, .jsonbExtract, .jsonbExtractScalar]

/-- The node of a call has the arguments of the call, in their order. -/
theorem callArgs?_build (hshape : k.kind.isCallShaped = true) (h : k.build args = .ok e) :
    e.callArgs? = some args := by
  unfold build at h
  split at h
  case h_6 | h_7 | h_16 | h_17 => cases hshape
  case h_18 => cases h
  all_goals
    cases h
    rfl

/-- The node of a call is of the function's kind, or a plain call under its
usual name: a JSON extraction along more than one path. -/
theorem kind_build (h : k.build args = .ok e) :
    if k.kind ∈ extractions ∧ 2 < args.length then e = .function k.name args
    else e.kind = k.kind := by
  have hlong {a b : Expr} {rest : List Expr} (hne : rest = [] → False) :
      2 < (a :: b :: rest).length := by
    have hpos := List.length_pos_iff.2 hne
    simp only [List.length_cons]
    omega
  unfold build at h
  split at h
  case h_7 =>
    split at h <;> cases h
    rfl
  case h_12 hne | h_13 hne | h_14 hne | h_15 hne =>
    cases h
    rw [if_pos ⟨by decide, hlong hne⟩]
  case h_18 => cases h
  all_goals
    cases h
    rw [if_neg (by simp [extractions, kind])]
    rfl

/-! ## from nodes to arguments -/

/-- A well-formed node of the function's kind is the node of the call with its
arguments. -/
theorem build_callArgs? (hshape : k.kind.isCallShaped = true) (hk : e.kind = k.kind)
    (hfault : e.fault? = none) : ∃ args, e.callArgs? = some args ∧ k.build args = .ok e := by
  obtain ⟨args, hargs⟩ := Option.isSome_iff_exists.1 ((e.callArgs?_isSome).trans (hk ▸ hshape))
  refine ⟨args, hargs, ?_⟩
  cases k <;> cases e <;> cases hk <;> cases hargs
  case levenshtein =>
    rcases args with _ | ⟨a, _ | ⟨b, rest⟩⟩
    · cases hfault
    · cases hfault
    · rfl
  case groupConcat a separator => cases separator <;> rfl
  case least | greatest =>
    cases args with
    | nil => cases hfault
    | cons => rfl
  all_goals rfl

end CallKind

/-! ## renamed kinds -/

/-- A call by a name that is registered becomes the node of its function. -/
theorem Dialect.call_registered {d : Dialect} {name : String} {k : CallKind}
    (h : d.functions.get? (Text.upper name) = some k.build) (args : List Expr) :
    d.call name args = k.build args := by
  rw [call, function?, h]
  rfl

/-- A renamed node is printed as a call by its new name. -/
theorem Style.fragment_renamed {s : Style} {e : Expr} {name : String} {args : List Expr}
    (h : s.dialect.transform? e.kind = some (.rename name)) (hargs : e.callArgs? = some args) :
    s.fragment e = .call name (args.map s.fragment) := by
  rw [fragment_eq, node]
  simp only [h, hargs]

/-! ## the two together -/

/-- For every function whose nodes are printed as calls, building a node and
taking its arguments are inverse to each other.  A call that is built has the
arguments it was built from, and its node is of the function's kind unless it
is a JSON extraction along more than one path, which stays a plain call under
the usual name.  A well-formed node is built from its arguments.  So a dialect
that prints a kind of node under a name, and knows that name for its function,
reads back what it prints. -/
theorem calls_inverse_to_arguments (kind : NodeKind) (k : CallKind)
    (hshape : kind.isCallShaped = true) (hk : CallKind.ofKind? kind = some k) :
    (∀ (args : List Expr) (e : Expr), k.build args = .ok e → e.callArgs? = some args ∧
      if kind ∈ CallKind.extractions ∧ 2 < args.length then
        e = .function (Text.upper kind.name) args
      else e.kind = kind) ∧
    (∀ e : Expr, e.kind = kind → e.fault? = none →
      ∃ args, e.callArgs? = some args ∧ k.build args = .ok e) ∧
    ∀ (s : Style) (name : String) (e : Expr), s.dialect.transform? kind = some (.rename name) →
      s.dialect.functions.get? (Text.upper name) = some k.build → e.kind = kind → e.fault? = none →
      ∃ args, e.callArgs? = some args ∧ s.fragment e = .call name (args.map s.fragment) ∧
        s.dialect.call name args = .ok e := by
  obtain rfl : k.kind = kind := by simpa using List.find?_some hk
  refine ⟨fun args e h => ⟨CallKind.callArgs?_build hshape h, CallKind.kind_build h⟩,
    fun e he hfault => CallKind.build_callArgs? hshape he hfault, ?_⟩
  intro s name e htransform hfunction he hfault
  obtain ⟨args, hargs, hbuild⟩ := CallKind.build_callArgs? hshape he hfault
  rw [← he] at htransform
  exact ⟨args, hargs, Style.fragment_renamed htransform hargs,
    (Dialect.call_registered hfunction args).trans hbuild⟩

/-- The separator of a grouped concatenation, which the base form writes
behind a word of its own, is the second argument of a renamed one. -/
theorem calls_inverse_to_arguments_separated :
    let d := Dialect.generic.applyAll
      [.transform .groupConcat (.rename "string_agg"), .function "String_Agg" CallKind.groupConcat]
    let a := Expr.column none ⟨"a", false⟩
    let b := Expr.literal (.string ";")
    Style.fragment ⟨d, false⟩ (.groupConcat a (some b)) =
        .call "string_agg" [Style.fragment ⟨d, false⟩ a, Style.fragment ⟨d, false⟩ b] ∧
      d.call "string_agg" [a, b] = .ok (.groupConcat a (some b)) := by
  intro d a b
  obtain ⟨args, hargs, hprinted, hread⟩ :=
    (calls_inverse_to_arguments .groupConcat .groupConcat rfl rfl).2.2 ⟨d, false⟩ "string_agg"
      (.groupConcat a (some b)) rfl rfl rfl rfl
  cases hargs
  exact ⟨hprinted, hread⟩

end SqlDialect
