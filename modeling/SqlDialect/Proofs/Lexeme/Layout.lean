import Mathlib.Data.List.Infix
import Mathlib.Data.List.TakeWhile
import SqlDialect.Proofs.Lexeme.Offset

/-!
# SqlDialect.Proofs.Lexeme.Layout

The lexemes of a text lie in it in order, with nothing lost between them.

* `Filler`, `Gap` -- blanks and comments, as the text between lexemes.
* `Layout` -- a text is gaps and the texts of its lexemes in turn, each at its
  offset.
* `scan_lossless` -- every scan that succeeds lays out its text, and every
  offset it names, in a lexeme or in a complaint, is between two characters.

A comment behind two dashes ends where its line ends, so what may follow a
piece of filler depends on the text behind it; `Filler` and `Gap` therefore
speak of a text in front of a rest.
-/

namespace SqlDialect

open Text

/-! ## what may stand between lexemes -/

/-- A blank or a comment, in front of a rest. -/
inductive Filler : List Char → List Char → Prop where
  | blank {c : Char} {rest : List Char} (hc : isBlank c = true) : Filler [c] rest
  /-- Two dashes and the rest of the line: what follows is a new line or the
  end of the text. -/
  | line {body rest : List Char} (hbody : ∀ c ∈ body, c ≠ '\n')
      (hrest : ∀ c ∈ rest.head?, c = '\n') : Filler ('-' :: '-' :: body) rest
  /-- `/*`, and what follows up to the first `*/`. -/
  | block {body rest : List Char} (hbody : ¬ ['*', '/'] <:+: body ++ ['*']) :
      Filler ('/' :: '*' :: (body ++ ['*', '/'])) rest

/-- Any amount of filler, in front of a rest. -/
inductive Gap : List Char → List Char → Prop where
  | nil {rest : List Char} : Gap [] rest
  | cons {filler gap rest : List Char} (hf : Filler filler (gap ++ rest)) (hg : Gap gap rest) :
      Gap (filler ++ gap) rest

/-- The lexemes of a text that starts at an offset: a gap, the text of the
first lexeme at its offset, and so on, with a gap at the end. -/
inductive Layout : Nat → List Char → List Lexeme → Prop where
  | last {offset : Nat} {gap : List Char} (hg : Gap gap []) : Layout offset gap []
  | lexeme {offset : Nat} {gap rest : List Char} {t : Lexeme} {ts : List Lexeme}
      (hg : Gap gap (t.text.toList ++ rest)) (hne : t.text ≠ "")
      (ho : t.offset = offset + byteLength gap)
      (hr : Layout (t.offset + t.text.utf8ByteSize) rest ts) :
      Layout offset (gap ++ t.text.toList ++ rest) (t :: ts)

/-! ## gaps -/

/-- A found text stands there, and nowhere before. -/
theorem indexOf?_spec {stop cs : List Char} {n : Nat} (h : indexOf? stop cs = some n) :
    stop <+: cs.drop n ∧ ∀ m < n, ¬ stop <+: cs.drop m := by
  induction cs generalizing n with
  | nil =>
    rw [indexOf?] at h
    split at h
    case isTrue hempty =>
      cases h
      rw [List.isEmpty_iff.1 hempty]
      exact ⟨List.nil_prefix, fun m hm => absurd hm (Nat.not_lt_zero m)⟩
    case isFalse => cases h
  | cons c cs ih =>
    rw [indexOf?] at h
    split at h
    case isTrue hfront =>
      cases h
      exact ⟨List.isPrefixOf_iff_prefix.1 hfront, fun m hm => absurd hm (Nat.not_lt_zero m)⟩
    case isFalse hfront =>
      obtain ⟨n, hn, rfl⟩ := Option.map_eq_some_iff.1 h
      obtain ⟨hthere, hbefore⟩ := ih hn
      refine ⟨hthere, fun m hm hpre => ?_⟩
      cases m with
      | zero => exact hfront (List.isPrefixOf_iff_prefix.2 hpre)
      | succ m => exact hbefore m (Nat.lt_of_succ_lt_succ hm) hpre

/-- A comment that is closed runs up to the first closing mark. -/
theorem block_of_indexOf? {cs : List Char} {n : Nat} (h : indexOf? ['*', '/'] cs = some n) :
    ∃ body rest, cs = body ++ ['*', '/'] ++ rest ∧ body.length = n ∧
      ¬ ['*', '/'] <:+: body ++ ['*'] := by
  obtain ⟨⟨rest, hrest⟩, hbefore⟩ := indexOf?_spec h
  have hcs : cs = cs.take n ++ ['*', '/'] ++ rest := by
    rw [List.append_assoc, hrest, List.take_append_drop]
  have hlength : (cs.take n).length = n := by
    have hdrop := congrArg List.length hrest
    simp only [List.length_append, List.length_cons, List.length_drop] at hdrop
    rw [List.length_take]
    omega
  refine ⟨cs.take n, rest, hcs, hlength, ?_⟩
  rintro ⟨pre, post, hinfix⟩
  have hpre : pre.length < n := by
    have := congrArg List.length hinfix
    simp only [List.length_append, List.length_cons, List.length_nil, hlength] at this
    omega
  refine hbefore pre.length hpre ⟨post ++ ['/'] ++ rest, ?_⟩
  have hall : cs = pre ++ (['*', '/'] ++ (post ++ ['/'] ++ rest)) := by
    calc cs = cs.take n ++ ['*'] ++ ['/'] ++ rest := by
          rw [List.append_assoc (cs.take n)]; exact hcs
      _ = pre ++ ['*', '/'] ++ post ++ ['/'] ++ rest := by rw [← hinfix]
      _ = pre ++ (['*', '/'] ++ (post ++ ['/'] ++ rest)) := by simp only [List.append_assoc]
  rw [hall, List.drop_left]

variable {d : Dialect} {offset : Nat} {c : Char} {cs : List Char} {p : Piece}

/-- What is left when the front that `takeWhile` takes is dropped. -/
theorem drop_takeWhile (q : Char → Bool) (cs : List Char) :
    cs.drop (cs.takeWhile q).length = cs.dropWhile q := by
  calc cs.drop (cs.takeWhile q).length
      = (cs.takeWhile q ++ cs.dropWhile q).drop (cs.takeWhile q).length := by
        rw [List.takeWhile_append_dropWhile]
    _ = cs.dropWhile q := List.drop_left

/-- A piece that is a gap is filler in front of what it leaves. -/
theorem gap?_filler (h : gap? offset c cs = .ok (some p)) :
    Filler ((c :: cs).take p.length) ((c :: cs).drop p.length) := by
  unfold gap? at h
  split at h
  case isTrue hc =>
    cases h
    exact .blank hc
  case isFalse =>
    unfold comment? at h
    split at h
    case h_1 rest heq =>
      cases h
      cases heq
      have htake : ('-' :: '-' :: rest).take (Piece.gap
          (1 + (rest.takeWhile (· ≠ '\n')).length)).length =
            '-' :: '-' :: rest.takeWhile (· ≠ '\n') := by
        rw [Piece.gap, Nat.add_comm 1, List.take_succ_cons, List.take_succ_cons,
          ← List.prefix_iff_eq_take.1 (List.takeWhile_prefix _)]
      have hdrop : ('-' :: '-' :: rest).drop (Piece.gap
          (1 + (rest.takeWhile (· ≠ '\n')).length)).length = rest.dropWhile (· ≠ '\n') := by
        rw [Piece.gap, Nat.add_comm 1, List.drop_succ_cons, List.drop_succ_cons]
        exact drop_takeWhile _ rest
      rw [htake, hdrop]
      refine .line (fun c hc => by simpa using List.mem_takeWhile_imp hc) fun c hc => ?_
      have hstop := List.head?_dropWhile_not (· ≠ '\n') rest
      rw [Option.mem_def.1 hc] at hstop
      simpa using hstop
    case h_2 rest heq =>
      cases heq
      split at h
      case h_2 => cases h
      case h_1 n hn =>
        cases h
        obtain ⟨body, rest, rfl, rfl, hbody⟩ := block_of_indexOf? hn
        have hsplit : '/' :: '*' :: (body ++ ['*', '/'] ++ rest) =
            ('/' :: '*' :: (body ++ ['*', '/'])) ++ rest := by simp
        have hlength : (Piece.gap (body.length + 3)).length =
            ('/' :: '*' :: (body ++ ['*', '/'])).length := by simp [Piece.gap]
        rw [hsplit, hlength, List.take_left, List.drop_left]
        exact .block hbody
    case h_3 => cases h

/-! ## whole texts -/

/-- Filler in front of a text that is laid out. -/
theorem Layout.behind {filler : List Char} {ts : List Lexeme} (hf : Filler filler cs)
    (h : Layout (offset + byteLength filler) cs ts) : Layout offset (filler ++ cs) ts := by
  cases h with
  | last hg => exact .last (.cons (by rwa [List.append_nil]) hg)
  | @lexeme _ gap rest t ts hg hne ho hr =>
    rw [← List.append_assoc, ← List.append_assoc]
    refine .lexeme (.cons (by rwa [← List.append_assoc]) hg) hne ?_ hr
    rw [ho, byteLength_append, Nat.add_assoc]

/-- A lexeme in front of a text that is laid out. -/
theorem Layout.front {k : LexemeKind} {text : List Char} {ts : List Lexeme} (hne : text ≠ [])
    (h : Layout (offset + byteLength text) cs ts) :
    Layout offset (text ++ cs) (⟨k, String.ofList text, offset⟩ :: ts) := by
  have hlexeme := @Layout.lexeme offset [] cs ⟨k, String.ofList text, offset⟩ ts .nil
    (fun heq => hne (by simpa using congrArg String.toList heq)) rfl (by rwa [byteLength_ofList])
  simpa using hlexeme

/-- A scan that succeeds lays out its text. -/
theorem scanFrom_layout {ls : List Lexeme} (h : scanFrom d offset cs = .ok ls) :
    Layout offset cs ls := by
  unfold scanFrom at h
  induction offset, cs using scanBy.induct generalizing ls with
  | case1 =>
    rw [scanBy] at h
    cases h
    exact .last .nil
  | case2 offset c cs ih =>
    rw [scanBy] at h
    cases hp : frontPiece d offset c cs with
    | error => rw [hp] at h; cases h
    | ok p =>
      rw [hp] at h
      simp only [bind, Except.bind] at h
      cases hrest : scanBy (frontPiece d) (offset + byteLength ((c :: cs).take p.length))
          ((c :: cs).drop p.length) with
      | error => rw [hrest] at h; cases h
      | ok others =>
        rw [hrest] at h
        cases h
        have hothers := ih p hrest
        have hall : Layout offset ((c :: cs).take p.length ++ (c :: cs).drop p.length)
            (p.lexemes ((c :: cs).take p.length) offset ++ others) := by
          cases hkind : p.kind? with
          | some k =>
            rw [Piece.lexemes, hkind]
            refine .front (fun hnil => ?_) hothers
            rw [List.take_eq_nil_iff] at hnil
            exact hnil.elim (Nat.ne_of_gt p.length_pos) (List.cons_ne_nil c cs)
          | none =>
            rw [Piece.lexemes, hkind]
            exact .behind (gap?_filler (frontPiece_gap hp hkind)) hothers
        rwa [List.take_append_drop] at hall

/-- Every lexeme that is laid out stands at its offset. -/
theorem Layout.split {ts : List Lexeme} (h : Layout offset cs ts) :
    ∀ t ∈ ts, ∃ pre post, cs = pre ++ t.text.toList ++ post ∧
      t.offset = offset + byteLength pre := by
  induction h with
  | last => exact fun _ h => nomatch h
  | @lexeme offset gap rest t ts _ _ ho _ ih =>
    rw [List.forall_mem_cons]
    refine ⟨⟨gap, rest, rfl, ho⟩, fun u hu => ?_⟩
    obtain ⟨pre, post, rfl, hoffset⟩ := ih u hu
    refine ⟨gap ++ t.text.toList ++ pre, post, by simp only [List.append_assoc], ?_⟩
    rw [hoffset, ho, byteLength_append, byteLength_append, byteLength_toList]
    omega

/-- Scanning a text always ends, and cuts it between characters only.  If it
succeeds, the text is the texts of the lexemes, none of them empty, each at its
offset, with blanks and comments between, before and behind them.  A complaint
names a place between two characters. -/
theorem scan_lossless (d : Dialect) (sql : String) :
    match d.scan sql with
    | .ok ls => Layout 0 sql.toList ls ∧ ∀ t ∈ ls, String.Pos.Raw.IsValid sql ⟨t.offset⟩ ∧
        String.Pos.Raw.IsValid sql ⟨t.offset + t.text.utf8ByteSize⟩
    | .error e => ∃ offset, e.offset? = some offset ∧ String.Pos.Raw.IsValid sql ⟨offset⟩ := by
  cases h : d.scan sql with
  | error e =>
    obtain ⟨pre, post, hsplit, -, hoffset⟩ := scanFrom_error h
    exact ⟨_, hoffset, by rw [Nat.zero_add]; exact isValid_of_append hsplit⟩
  | ok ls =>
    have hlayout := scanFrom_layout h
    refine ⟨hlayout, fun t ht => ?_⟩
    obtain ⟨pre, post, hsplit, hoffset⟩ := hlayout.split t ht
    rw [Nat.zero_add] at hoffset
    rw [hoffset, ← byteLength_toList, ← byteLength_append]
    exact ⟨isValid_of_append (by rw [hsplit, List.append_assoc]), isValid_of_append hsplit⟩

end SqlDialect
