import SqlDialect.Toml.Value

/-!
# SqlDialect.Toml.Document

Documents: keys with values and headers of tables, each on lines of its own.
A key belongs to the table whose header came last.
-/

namespace SqlDialect.Toml

/-- A header of a table, or of one more table of an array. -/
structure Header where
  path : List String
  key : String
  inArray : Bool

/-- The key of a table's header, behind its bracket, and the bracket that
closes it. -/
def headerKey (cs : List Char) : Option (Front Char (List String × String) cs.length) := do
  let k ← dottedKey cs
  let r ← mark? ']' k.rest
  return k.closed r

/-- Like `headerKey`, with one more bracket at the end. -/
def arrayHeaderKey (cs : List Char) : Option (Front Char (List String × String) cs.length) := do
  let k ← headerKey cs
  let r ← char? ']' k.rest
  return k.closed r

/-- A header, behind its first bracket. -/
def header : (cs : List Char) → Option (Front Char Header cs.length)
  | [] => none
  | c :: cs =>
    if c = '[' then
      (arrayHeaderKey cs).map fun r => (r.map fun k => ⟨k.1, k.2, true⟩).behind c
    else (headerKey (c :: cs)).map fun r => r.map fun k => ⟨k.1, k.2, false⟩

/-- The document with the table of a header opened. -/
def Header.open? (h : Header) (es : Entries) : Option Entries :=
  if h.inArray then es.appendTable h.path h.key else es.openTable h.path h.key

/-- The entries of a document, from the lines left, the path of the table
whose header came last and the entries so far. -/
def lines (cs : List Char) (here : List String) (es : Entries) : Option Entries :=
  match hd : dropBlank cs with
  | [] => some es
  | c :: rest =>
    have : rest.length < cs.length := by
      have := length_dropBlank_le cs
      simp only [hd, List.length_cons] at this
      omega
    if c = '[' then do
      let r ← header rest
      let ending ← lineEnd? r.rest
      let es ← r.value.open? es
      lines ending.rest (r.value.path ++ [r.value.key]) es
    else do
      let p ← linePair value (c :: rest)
      let ending ← lineEnd? p.rest
      let es ← Entries.changeAt .implied
        (fun form es => es.insert p.value.1.1 p.value.1.2 p.value.2 form) here .headed es
      lines ending.rest here es
termination_by cs.length
decreasing_by
  · have := r.lt
    have := ending.lt
    omega
  · have := p.lt
    have := ending.lt
    simp only [List.length_cons] at *
    omega

/-- The entries of a document.  A byte order mark may stand at its front. -/
def Entries.ofText? (s : String) : Option Entries :=
  match s.toList with
  | '\ufeff' :: cs => lines cs [] []
  | cs => lines cs [] []

end SqlDialect.Toml
