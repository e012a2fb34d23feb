import SqlDialect.Toml.Quoted

/-!
# SqlDialect.Toml.Key

What stands between the values of a document: blanks, line ends, comments,
marks and keys.  `length_dropBlank_le` says that skipping never adds anything.
-/

namespace SqlDialect.Toml

/-! ## blanks and marks -/

/-- The text without the blanks, line ends and comments at its front.  The
flag tells whether a comment has begun. -/
def dropBlankIn (inComment : Bool) : List Char → List Char
  | [] => []
  | '\n' :: cs => dropBlankIn false cs
  | '\r' :: '\n' :: cs => dropBlankIn false cs
  | c :: cs =>
    if inComment then if isPrintable c then dropBlankIn true cs else c :: cs
    else if isSpace c then dropBlankIn false cs
    else if c = '#' then dropBlankIn true cs
    else c :: cs

/-- The text without the blanks, line ends and comments at its front. -/
def dropBlank (cs : List Char) : List Char := dropBlankIn false cs

theorem length_dropBlank_le (cs : List Char) : (dropBlank cs).length ≤ cs.length := by
  have h (b : Bool) : (dropBlankIn b cs).length ≤ cs.length := by
    fun_induction dropBlankIn b cs <;> simp only [List.length_cons, List.length_nil] <;> omega
  exact h false

/-- Takes a character that comes at once. -/
def char? (c : Char) : (cs : List Char) → Option (Front Char Unit cs.length)
  | [] => none
  | d :: cs => if d = c then some (.step () d cs) else none

/-- Takes a character behind blanks. -/
def mark? (c : Char) (cs : List Char) : Option (Front Char Unit cs.length) :=
  (char? c (cs.dropWhile isSpace)).map (·.widen (length_dropWhile_le isSpace cs))

/-- A line from behind its blanks and its comment on. -/
def behindComment (cs : List Char) : List Char :=
  let line := cs.dropWhile isSpace
  if line.head? = some '#' then line.dropWhile isPrintable else line

theorem length_behindComment_le (cs : List Char) : (behindComment cs).length ≤ cs.length := by
  have h₁ := length_dropWhile_le isSpace cs
  have h₂ := length_dropWhile_le isPrintable (cs.dropWhile isSpace)
  simp only [behindComment]
  split <;> omega

/-- The end of a line, with blanks and a comment in front of it, or the end of
the text. -/
def lineEnd? (cs : List Char) : Option (Front Char Unit (cs.length + 1)) :=
  match newline? (behindComment cs) with
  | some r => some ((r.map fun _ => ()).widen (length_behindComment_le cs)).loosen
  | none => if (behindComment cs).isEmpty then some (.finish () cs) else none

/-! ## keys -/

/-- A character of a key without quotes. -/
def inBareKey (c : Char) : Bool := c.isAlphanum || c == '_' || c == '-'

/-- One part of a key. -/
def keyPart (cs : List Char) : Option (Front Char String cs.length) :=
  match cs with
  | '"' :: cs => (basic cs).map fun r => (r.map String.ofList).behind '"'
  | '\x27' :: cs => (literal cs).map fun r => (r.map String.ofList).behind '\x27'
  | cs =>
    let part := cs.takeWhile inBareKey
    if h : part = [] then none
    else some ⟨String.ofList part, cs.drop part.length, by
      have h₁ := List.length_pos_iff.2 h
      have h₂ : part.length ≤ cs.length := (List.takeWhile_prefix inBareKey).length_le
      simp only [List.length_drop]
      omega⟩

/-- The parts of a key with points between them: all parts but the last one,
and the last one. -/
def keyParts (cs : List Char) : Option (Front Char (List String × String) cs.length) := do
  let k ← keyPart (cs.dropWhile isSpace)
  have hk : k.rest.length < cs.length :=
    Nat.lt_of_lt_of_le k.lt (length_dropWhile_le isSpace cs)
  match mark? '.' k.rest with
  | none => return ⟨([], k.value), k.rest, hk⟩
  | some point => do
    have := point.lt
    let r ← keyParts point.rest
    return (r.map fun p => (k.value :: p.1, p.2)).widen (by omega)
termination_by cs.length

/-- The greatest number of parts of a key, and of brackets inside each
other. -/
def depthLimit : Nat := 80

/-- A key of one or more parts, but no more than the limit. -/
def dottedKey (cs : List Char) : Option (Front Char (List String × String) cs.length) :=
  (keyParts cs).filter fun k => k.value.1.length < depthLimit

end SqlDialect.Toml
