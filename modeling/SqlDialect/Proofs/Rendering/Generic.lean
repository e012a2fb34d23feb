import SqlDialect.Proofs.Grammar.Literal
import SqlDialect.Proofs.Rendering.Quiet
import SqlDialect.Proofs.Rendering.Statement

/-!
# SqlDialect.Proofs.Rendering.Generic

The base form, read again.

* `Plain` -- the nodes whose base form says what they are.
* `Plain.clear`, `Plain.faithful` -- it is read, and as the node itself.
* `generic_print_parse` -- a statement over plain nodes is read again as it was.
-/

namespace SqlDialect

open Text Grammar

variable {i : Bool} {e : Expr}

/-! ## plain nodes -/

/-- The arguments of a call that keeps them apart. -/
def Expr.separateArgs : Expr → List Expr
  | function _ es | least es | greatest es | levenshtein es => es
  | jsonExtract a p | jsonExtractScalar a p | jsonbExtract a p | jsonbExtractScalar a p => [a, p]
  | _ => []

/-- The base form of a node says what it is: it is no moved or converted date,
no minus sign in front of another one, and no call of several arguments the
first of which gathers some. -/
structure Plain (e : Expr) : Prop where
  undated : e.kind ∉ [.dateAdd, .dateStrToDate, .timeStrToTime]
  unnegated : ∀ a, e ≠ .unaryOp .minus (.unaryOp .minus a)
  separate : ¬GathersMore e.separateArgs

/-- What gathers nothing is no looser than any operator. -/
theorem tier_le_of_not_gathers {a : Expr} (h : a.gathers = false) (ht : a.tier .generic ≤ 9) :
    a.tier .generic ≤ 8 := by
  rw [Expr.tier_generic] at ht ⊢
  by_contra hlt
  have hnine : a.level .generic = 9 := by omega
  cases a with
  | literal v => exact absurd (level_literal v) (by omega)
  | binaryOp op l r => exact absurd op.level_bounds.2 (by simp [Expr.level] at hnine; omega)
  | unaryOp op a => cases op <;> simp [Expr.level] at hnine
  | _ => simp_all [Expr.level, Expr.gathers]

/-- The first one of several arguments that are kept apart gathers nothing. -/
theorem not_gathers {a : Expr} {es : List Expr} (h : ¬GathersMore (a :: es)) (hes : es ≠ []) :
    a.gathers = false := by
  by_contra hg
  exact h ⟨by simpa [Nat.one_le_iff_ne_zero] using hes, a, rfl, by simpa using hg⟩

/-- The operands of a plain node are bound as tightly as its base form asks. -/
theorem Plain.slots (h : Plain e) (hp : Proper e) (hf : e.fault? = none) :
    ∀ s ∈ e.slots .generic, s.2.tier .generic ≤ s.1 := by
  have hjson {a p : Expr} (hp : ∀ s ∈ Expr.arguments [a, p], s.2.tier .generic ≤ s.1)
      (hg : ¬GathersMore [a, p]) : ∀ s ∈ [(8, a), (8, p)], s.2.tier .generic ≤ s.1 := by
    simp only [Expr.arguments, List.map_cons, List.map_nil, List.forall_mem_cons, List.not_mem_nil,
      false_implies, implies_true, and_true] at hp ⊢
    exact ⟨tier_le_of_not_gathers (not_gathers hg (List.cons_ne_nil p [])) hp.1, hp.2⟩
  have hplaces := hp.1
  cases e with
  | jsonExtract a p | jsonExtractScalar a p | jsonbExtract a p | jsonbExtractScalar a p =>
    exact hjson hplaces h.separate
  | dateAdd | dateStrToDate | timeStrToTime => exact absurd h.undated (by simp [Expr.kind])
  | levenshtein es =>
    have hlength : 2 ≤ es.length := by
      by_contra hlt
      simp [Expr.fault?, show es.length < 2 by omega] at hf
    obtain ⟨a, es, rfl⟩ := List.exists_cons_of_length_pos (Nat.lt_of_lt_of_le Nat.zero_lt_two hlength)
    have hgathers : a.gathers = false := by
      refine not_gathers h.separate ?_
      rintro rfl
      simp at hlength
    simp only [Expr.places, Expr.arguments, List.forall_mem_cons] at hplaces
    simp only [Expr.slots, List.map_cons, List.forall_mem_cons]
    exact ⟨tier_le_of_not_gathers hgathers hplaces.1, hplaces.2⟩
  | _ => simpa [Expr.slots] using hplaces

/-- Nothing keeps the base form of a plain node from being read. -/
theorem Plain.clear (h : Plain e) (hp : Proper e) (hf : e.fault? = none)
    (hx : ∀ n ∈ e :: e.children, ∀ digits, n ≠ .literal (.hexNumber digits))
    (hr : ∀ m, e = .literal (.float (.finite false m)) → m.ReadsBack) : Clear .generic e := by
  refine ⟨h.slots hp hf, ?_⟩
  have hwritable := hp.2
  cases e with
  | literal v =>
    cases v with
    | float f =>
      rintro m rfl
      exact hr m rfl
    | hexNumber digits => exact absurd rfl (hx _ List.mem_cons_self digits)
    | _ => trivial
  | unaryOp op a =>
    cases op with
    | not => trivial
    | minus =>
      show (a.core .generic).dashed .generic = false
      rw [Expr.core_generic]
      unfold Expr.dashed
      split
      case h_1 c => exact absurd rfl (h.unnegated c)
      case h_2 digits => exact absurd rfl (hx _ (List.mem_cons_of_mem _ List.mem_cons_self) digits)
      case h_3 => rfl
  | aliased a name => exact hwritable.2
  | select q =>
    intro p hmem
    rcases hwritable.1 p hmem with ⟨a, name, rfl⟩ | rfl | hstar
    · exact .inr rfl
    · exact .inl rfl
    · exact .inr hstar.2
  | function name es =>
    intro k hk
    obtain ⟨hextracts, -, hlength⟩ := hwritable.2 k hk
    obtain ⟨a, es, rfl⟩ := List.exists_cons_of_length_pos (Nat.lt_of_lt_of_le Nat.two_pos hlength.le)
    have hgathers : a.gathers = false := by
      refine not_gathers h.separate ?_
      rintro rfl
      simp at hlength
    have hleast : k.arity.least = 2 := by
      cases k <;> first
        | rfl
        | cases hextracts
    rw [hleast, Expr.callCount, hgathers]
    simp at hlength ⊢
    omega
  | dateAdd => exact absurd h.undated (by simp [Expr.kind])
  | transaction m =>
    intro text htext
    obtain ⟨ws, hne, htext, hws⟩ := hwritable text htext
    exact ⟨ws, hne, htext, fun w hw => ⟨(hws w hw).1, (keyword?_generic w).trans (hws w hw).2⟩⟩
  | _ => trivial

/-- The base form of a plain node without remarks is read as the node. -/
theorem Plain.faithful (h : Plain e) (hp : Proper e)
    (hx : ∀ digits, e ≠ .literal (.hexNumber digits))
    (hq : ((style .generic i).fragment e).diagnostics = []) : Faithful .generic e := by
  cases e with
  | literal v =>
    cases v with
    | hexString digits =>
      rw [fragment_generic] at hq
      show digits.length % 2 = 0
      by_contra hodd
      have hone : digits.length % 2 = 1 := by omega
      simp [Style.base, Style.literal, Style.hexBlob, hone, Fragment.remark] at hq
    | hexNumber digits => exact absurd rfl (hx digits)
    | _ => trivial
  | cast a t => exact retyped_generic t
  | function name es => exact ⟨h.separate, fun k hk => (hp.2.2 k hk).1⟩
  | least es | greatest es => exact h.separate
  | dateAdd | dateStrToDate | timeStrToTime => exact absurd h.undated (by simp [Expr.kind])
  | jsonbExtract | jsonbExtractScalar | ilike | tryCast | groupConcat | select | tableSample | fetch
  | createTable => rfl
  | _ => trivial

/-- The settled tree of the base dialect is the marked one. -/
theorem Expr.settled_generic (e : Expr) : e.settled .generic i = e.marked i := by
  have hnode : (fun n => unwrapNode .generic (markNode i n)) = markNode i := by
    funext n
    unfold unwrapNode
    rfl
  rw [settled, hnode, marked]

/-- A tree is marked as itself where nothing is to be marked. -/
theorem Expr.marked_false (e : Expr) : e.marked false = e :=
  rebuild_eq_self fun n _ => markNode_false n

/-! ## round trip -/

/-- The base form, read by the base dialect, says what was printed: a statement
that was read, has plain nodes only and is printed without remarks is read from
its output as the same statement, with every identifier delimited if they were
to be. -/
theorem generic_print_parse {sql : String} {es : List Expr} {o : RenderOptions} {r : Rendered}
    (hread : Dialect.generic.parse sql = .ok es) (he : e ∈ es)
    (hrender : e.render .generic o = .ok r) (hquiet : r.diagnostics = [])
    (hplain : e.All Plain)
    (hfloat : e.All fun n => ∀ m, n = .literal (.float (.finite false m)) → m.ReadsBack) :
    Dialect.generic.parseOne r.sql = .ok (if o.identify then e.marked true else e) := by
  obtain ⟨hstatement, hproper⟩ := @parse_proper .generic sql es hread e he
  have hhex := parse_generic_hexNumber hread e he
  obtain ⟨hwell, rfl⟩ := Expr.render_eq_ok hrender
  have hall : e.All fun n => ((style .generic o.identify).fragment n).diagnostics = [] :=
    all_quiet hquiet
  have hclear : e.All (Clear .generic) := fun n hn =>
    (hplain n hn).clear (hproper n hn) (hwell n hn)
      (List.forall_mem_cons.2 ⟨hhex n hn, fun c hc => ((hhex.below hn).child hc).self⟩) (hfloat n hn)
  obtain ⟨e', hparse, hsame⟩ := @parseOne_rendered .generic e o _ hstatement hproper hclear hrender
  have hfaithful : e.All (Faithful .generic) := fun n hn =>
    (hplain n hn).faithful (hproper n hn) (hhex n hn) (hall n hn)
  obtain rfl := hsame hfaithful
  rw [Expr.settled_generic] at hparse
  cases hi : o.identify with
  | true => rw [hi] at hparse; exact hparse
  | false =>
    rw [hi, Expr.marked_false] at hparse
    exact hparse

/-- A query whose table has a name that needs its delimiters. -/
def spacedQuery : Expr :=
  .select { projections := [.column none ⟨"a", false⟩, .literal (.int 1)]
            source := some (.table none ⟨"b c", true⟩ none) }

theorem generic_print_parse_spaced :
    ∃ es r, Dialect.generic.parse "SELECT a, 1 FROM \"b c\"" = .ok es ∧ spacedQuery ∈ es ∧
      spacedQuery.render .generic ⟨.warn, true⟩ = .ok r ∧ r.diagnostics = [] ∧
      spacedQuery.All Plain ∧
      (spacedQuery.All fun n => ∀ m, n = .literal (.float (.finite false m)) → m.ReadsBack) ∧
      Dialect.generic.parseOne r.sql = .ok (spacedQuery.marked true) := by
  have hread : Dialect.generic.parse "SELECT a, 1 FROM \"b c\"" = .ok [spacedQuery] := by cbv
  have hrender : spacedQuery.render .generic ⟨.warn, true⟩ =
      .ok ⟨"SELECT \"a\", 1 FROM \"b c\"", []⟩ := by cbv
  have hnode {n : Expr} (hk : n.kind ∉ [.dateAdd, .dateStrToDate, .timeStrToTime])
      (hu : ∀ a, n ≠ .unaryOp .minus a) (hs : n.separateArgs = []) : Plain n :=
    ⟨hk, fun a => hu _, by simp [hs, GathersMore]⟩
  have hplain : spacedQuery.All Plain := by
    intro n hn
    simp only [spacedQuery, Expr.preorder_eq, Expr.children, Select.exprs, Option.toList_some,
      Option.toList_none, List.map_nil, List.append_nil, List.cons_append, List.nil_append,
      List.flatMap_cons, List.flatMap_nil, List.mem_cons, List.not_mem_nil, or_false] at hn
    rcases hn with rfl | rfl | rfl | rfl <;>
      exact hnode (by decide) (fun _ h => by cases h) rfl
  have hfloat : spacedQuery.All fun n =>
      ∀ m, n = .literal (.float (.finite false m)) → m.ReadsBack := by
    simp [Expr.All, spacedQuery, Expr.preorder_eq, Expr.children, Select.exprs]
  exact ⟨_, _, hread, List.mem_singleton_self _, hrender, rfl, hplain, hfloat,
    generic_print_parse hread (List.mem_singleton_self _) hrender rfl hplain hfloat⟩

end SqlDialect
