import SqlDialect.Front
import SqlDialect.Text.Ascii

/-!
# SqlDialect.Toml.Quoted

The four kinds of strings of TOML: with escapes or as they stand, on one line
or on several.  Reading starts behind the opening quotes.
-/

namespace SqlDialect.Toml

/-- Whether a character may stand in a line of a string or a comment. -/
def isPrintable (c : Char) : Bool :=
  c == '\t' || (0x20 ≤ c.toNat && c.toNat ≠ 0x7F)

/-! ## escapes -/

/-- The character of a code in base 16 with so many digits. -/
def codeEscape (digits : Nat) (cs : List Char) : Option (Front Char Char (cs.length + 1)) :=
  let code := cs.take digits
  let n := Text.hexValue code
  if code.length = digits ∧ code.all Text.isHexDigit ∧ n.isValidChar then
    some ⟨Char.ofNat n, cs.drop digits, by simp only [List.length_drop]; omega⟩
  else none

/-- The character meant by an escape, behind its backslash. -/
def escape : (cs : List Char) → Option (Front Char Char cs.length)
  | [] => none
  | c :: cs =>
    let as (c : Char) : Option (Front Char Char (cs.length + 1)) := some (.stay c cs)
    match c with
    | 'b' => as '\x08'
    | 't' => as '\t'
    | 'n' => as '\n'
    | 'f' => as '\x0c'
    | 'r' => as '\r'
    | 'e' => as '\x1b'
    | '"' => as '"'
    | '\\' => as '\\'
    | 'x' => codeEscape 2 cs
    | 'u' => codeEscape 4 cs
    | 'U' => codeEscape 8 cs
    | _ => none

/-! ## strings on one line -/

/-- A string with escapes. -/
def basic (cs : List Char) : Option (Front Char (List Char) cs.length) :=
  match cs with
  | [] => none
  | c :: cs =>
    if c = '"' then some (.step [] c cs)
    else if c = '\\' then do
      let e ← escape cs
      have := e.lt
      let r ← basic e.rest
      return ⟨e.value :: r.value, r.rest, by
        have := r.lt
        simp only [List.length_cons]
        omega⟩
    else if isPrintable c then do
      let r ← basic cs
      return (r.map (c :: ·)).behind c
    else none
termination_by cs.length
decreasing_by all_goals (simp only [List.length_cons]; omega)

/-- A string as it stands. -/
def literal : (cs : List Char) → Option (Front Char (List Char) cs.length)
  | [] => none
  | c :: cs =>
    if c = '\x27' then some (.step [] c cs)
    else if isPrintable c then do
      let r ← literal cs
      return (r.map (c :: ·)).behind c
    else none

/-! ## strings on several lines -/

/-- The text without a line end at its front. -/
def withoutNewline : List Char → List Char
  | '\n' :: cs => cs
  | '\r' :: '\n' :: cs => cs
  | cs => cs

theorem length_withoutNewline_le (cs : List Char) : (withoutNewline cs).length ≤ cs.length := by
  fun_cases withoutNewline cs with
  | case1 cs => simp
  | case2 cs => simp only [List.length_cons]; omega
  | case3 => exact Nat.le_refl _

/-- Three quotes that end a string on several lines, with at most two more in
front of them that belong to it. -/
def closing (quote : Char) : (cs : List Char) → Option (Front Char (List Char) cs.length)
  | a :: b :: c :: d :: e :: cs =>
    if a = quote ∧ b = quote ∧ c = quote then
      if d = quote then
        if e = quote then some ⟨[a, b], cs, by simp only [List.length_cons]; omega⟩
        else some ⟨[a], e :: cs, by simp only [List.length_cons]; omega⟩
      else some ⟨[], d :: e :: cs, by simp only [List.length_cons]; omega⟩
    else none
  | [a, b, c, d] =>
    if a = quote ∧ b = quote ∧ c = quote then
      if d = quote then some ⟨[a], [], by simp⟩ else some ⟨[], [d], by simp⟩
    else none
  | [a, b, c] => if a = quote ∧ b = quote ∧ c = quote then some ⟨[], [], by simp⟩ else none
  | _ => none

/-- A line end at the front of a text, as it is written: a line feed with or
without a carriage return in front of it. -/
def newline? : (cs : List Char) → Option (Front Char (List Char) cs.length)
  | '\n' :: cs => some (.step ['\n'] '\n' cs)
  | '\r' :: '\n' :: cs => some ((Front.step ['\r', '\n'] '\n' cs).behind '\r')
  | _ => none

/-- Whether a character is a space or a tab. -/
def isSpace (c : Char) : Bool := c == ' ' || c == '\t'

/-- The text without the blanks and line ends at its front. -/
def withoutBlankLines : List Char → List Char
  | [] => []
  | '\n' :: cs => withoutBlankLines cs
  | '\r' :: '\n' :: cs => withoutBlankLines cs
  | c :: cs => if isSpace c then withoutBlankLines cs else c :: cs

theorem length_withoutBlankLines_le (cs : List Char) :
    (withoutBlankLines cs).length ≤ cs.length := by
  fun_induction withoutBlankLines cs <;> simp only [List.length_cons, List.length_nil] <;> omega

theorem length_dropWhile_le (p : Char → Bool) (cs : List Char) :
    (cs.dropWhile p).length ≤ cs.length :=
  (List.dropWhile_suffix p).length_le

/-- The blank rest of a line behind a backslash, with all blanks and line ends
that follow. -/
def continuation? (cs : List Char) : Option (Front Char Unit cs.length) :=
  (newline? (cs.dropWhile isSpace)).map fun r =>
    ⟨(), withoutBlankLines r.rest, by
      have h₁ := r.lt
      have h₂ := length_dropWhile_le isSpace cs
      have h₃ := length_withoutBlankLines_le r.rest
      omega⟩

/-- A string with escapes on several lines, whose line ends stay as they are
written. -/
def basicLines (cs : List Char) : Option (Front Char (List Char) cs.length) :=
  match closing '"' cs with
  | some r => some r
  | none =>
    match newline? cs with
    | some r => do
      have := r.lt
      let s ← basicLines r.rest
      return (s.map (r.value ++ ·)).widen (by omega)
    | none =>
      match cs with
      | [] => none
      | '\\' :: cs =>
        match continuation? cs with
        | some r => do
          have := r.lt
          let s ← basicLines r.rest
          return s.widen (by simp only [List.length_cons]; omega)
        | none => do
          let e ← escape cs
          have := e.lt
          let s ← basicLines e.rest
          return (s.map (e.value :: ·)).widen (by simp only [List.length_cons]; omega)
      | c :: cs =>
        if isPrintable c then do
          let s ← basicLines cs
          return (s.map (c :: ·)).behind c
        else none
termination_by cs.length
decreasing_by all_goals (try simp only [List.length_cons]); omega

/-- A string with escapes on several lines, without a line end at its
front. -/
def basicBlock (cs : List Char) : Option (Front Char (List Char) cs.length) :=
  (basicLines (withoutNewline cs)).map (·.widen (length_withoutNewline_le cs))

/-- A string as it stands on several lines, line ends included. -/
def literalLines (cs : List Char) : Option (Front Char (List Char) cs.length) :=
  match closing '\x27' cs with
  | some r => some r
  | none =>
    match newline? cs with
    | some r => do
      have := r.lt
      let s ← literalLines r.rest
      return (s.map (r.value ++ ·)).widen (by omega)
    | none =>
      match cs with
      | [] => none
      | c :: cs =>
        if isPrintable c then do
          let s ← literalLines cs
          return (s.map (c :: ·)).behind c
        else none
termination_by cs.length
decreasing_by all_goals (try simp only [List.length_cons]); omega

/-- A string as it stands on several lines, without a line end at its
front. -/
def literalBlock (cs : List Char) : Option (Front Char (List Char) cs.length) :=
  (literalLines (withoutNewline cs)).map (·.widen (length_withoutNewline_le cs))

end SqlDialect.Toml
