import ServiceKeys.Value.Basic
import ServiceKeys.Regex.Parser

/-!
# Reading TOML

A document is a list of statements, one a line: the header of a table, the header of an element of
an array of tables, or a key with a value.  Reading gives the document's table or nothing, when the
text is not well-formed or says something twice.  A reader of a part gives what it read and what is
left.  A date is kept as the text that it is written with.
-/

namespace ServiceKeys.Toml

open Regex (hexValue? isOctal valueOf)

/-- The entries of a table. -/
abbrev Entries := List (String × Value)

/-! ## Blanks and comments -/

/-- A blank inside of a line. -/
def isSpace (c : Char) : Bool := c == ' ' || c == '\t'

/-- Skips the blanks of a line. -/
def skipSpaces (cs : List Char) : List Char := cs.dropWhile isSpace

/-- Skips a comment, up to the end of its line. -/
def skipComment (cs : List Char) : List Char :=
  if cs.head? == some '#' then cs.dropWhile (· != '\n') else cs

/-- Skips blanks, comments and line ends; the bound is the length of the text. -/
def skipLines : Nat → List Char → List Char
  | 0, cs => cs
  | n + 1, cs =>
    match skipComment (skipSpaces cs) with
    | '\n' :: rest => skipLines n rest
    | rest => rest

/-- Skips blanks, comments and line ends. -/
def skipAll (cs : List Char) : List Char := skipLines (cs.length + 1) cs

/-- The end of a statement: blanks, a comment and the end of the line or of the text. -/
def lineEnd? (cs : List Char) : Option (List Char) :=
  match skipComment (skipSpaces cs) with
  | [] => some []
  | '\n' :: rest => some rest
  | _ => none

/-! ## Strings -/

/-- The character of a code point given by hexadecimal digits. -/
def codeChar? (ds : List Char) : Option Char :=
  let n := valueOf 16 ds
  if ds.all (fun c => (hexValue? c).isSome) && n.isValidChar then some (Char.ofNat n) else none

/-- The character behind a backslash, for those written with one letter. -/
def escapedChar? : Char → Option Char
  | 'b' => some '\x08'
  | 't' => some '\t'
  | 'n' => some '\n'
  | 'f' => some '\x0c'
  | 'r' => some '\r'
  | '"' => some '"'
  | '\\' => some '\\'
  | _ => none

/-- Adds a character in front of what a reader gives. -/
def consTo (c : Char) (p : Option (List Char × List Char)) : Option (List Char × List Char) :=
  p.map fun (cs, rest) => (c :: cs, rest)

/-- Reads the rest of a string in double quotes on one line. -/
def basicString : List Char → Option (List Char × List Char)
  | [] => none
  | '"' :: rest => some ([], rest)
  | '\\' :: 'u' :: a :: b :: c :: d :: rest =>
    (codeChar? [a, b, c, d]).bind fun ch => consTo ch (basicString rest)
  | '\\' :: 'U' :: a :: b :: c :: d :: e :: f :: g :: h :: rest =>
    (codeChar? [a, b, c, d, e, f, g, h]).bind fun ch => consTo ch (basicString rest)
  | '\\' :: c :: rest => (escapedChar? c).bind fun ch => consTo ch (basicString rest)
  | '\n' :: _ => none
  | c :: rest => consTo c (basicString rest)

/-- Reads the rest of a string in single quotes on one line. -/
def literalString : List Char → Option (List Char × List Char)
  | [] => none
  | '\x27' :: rest => some ([], rest)
  | '\n' :: _ => none
  | c :: rest => consTo c (literalString rest)

/-- Reads the rest of a string in three double quotes; `joined` tells that a backslash ended the
line before, so that blanks and line ends are dropped. -/
def longBasicString : (joined : Bool) → List Char → Option (List Char × List Char)
  | _, [] => none
  | _, '"' :: '"' :: '"' :: '"' :: '"' :: rest => some (['"', '"'], rest)
  | _, '"' :: '"' :: '"' :: '"' :: rest => some (['"'], rest)
  | _, '"' :: '"' :: '"' :: rest => some ([], rest)
  | true, ' ' :: rest => longBasicString true rest
  | true, '\t' :: rest => longBasicString true rest
  | true, '\n' :: rest => longBasicString true rest
  | _, '\\' :: '\n' :: rest => longBasicString true rest
  | _, '\\' :: 'u' :: a :: b :: c :: d :: rest =>
    (codeChar? [a, b, c, d]).bind fun ch => consTo ch (longBasicString false rest)
  | _, '\\' :: 'U' :: a :: b :: c :: d :: e :: f :: g :: h :: rest =>
    (codeChar? [a, b, c, d, e, f, g, h]).bind fun ch => consTo ch (longBasicString false rest)
  | _, '\\' :: c :: rest =>
    (escapedChar? c).bind fun ch => consTo ch (longBasicString false rest)
  | _, c :: rest => consTo c (longBasicString false rest)

/-- Reads the rest of a string in three single quotes. -/
def longLiteralString : List Char → Option (List Char × List Char)
  | [] => none
  | '\x27' :: '\x27' :: '\x27' :: '\x27' :: '\x27' :: rest => some (['\x27', '\x27'], rest)
  | '\x27' :: '\x27' :: '\x27' :: '\x27' :: rest => some (['\x27'], rest)
  | '\x27' :: '\x27' :: '\x27' :: rest => some ([], rest)
  | c :: rest => consTo c (longLiteralString rest)

/-- A line end right behind the opening quotes of a long string is dropped. -/
def dropFirstNewline : List Char → List Char
  | '\n' :: rest => rest
  | cs => cs

/-- Reads a string of any kind. -/
def string? : List Char → Option (List Char × List Char)
  | '"' :: '"' :: '"' :: rest => longBasicString false (dropFirstNewline rest)
  | '\x27' :: '\x27' :: '\x27' :: rest => longLiteralString (dropFirstNewline rest)
  | '"' :: rest => basicString rest
  | '\x27' :: rest => literalString rest
  | _ => none

/-! ## Keys -/

/-- A character of a bare key. -/
def isBareKey (c : Char) : Bool := c.isAlphanum || c == '_' || c == '-'

/-- Reads one part of a key. -/
def keyPart (cs : List Char) : Option (String × List Char) :=
  match cs with
  | '"' :: rest => (basicString rest).map fun (k, rest) => (String.ofList k, rest)
  | '\x27' :: rest => (literalString rest).map fun (k, rest) => (String.ofList k, rest)
  | _ =>
    match cs.takeWhile isBareKey with
    | [] => none
    | k => some (String.ofList k, cs.dropWhile isBareKey)

/-- Reads a dotted key; the bound is the length of the text. -/
def keyGo : Nat → List Char → Option (List String × List Char)
  | 0, _ => none
  | n + 1, cs => do
    let (part, rest) ← keyPart (skipSpaces cs)
    match skipSpaces rest with
    | '.' :: rest =>
      let (parts, rest) ← keyGo n rest
      return (part :: parts, rest)
    | rest => return ([part], rest)

/-- Reads a dotted key. -/
def key (cs : List Char) : Option (List String × List Char) := keyGo (cs.length + 1) cs

/-! ## Numbers and other bare values -/

/-- Digits with single underscores between them, the underscores dropped. -/
def plainDigits? (isDigit : Char → Bool) (cs : List Char) : Option (List Char) :=
  let runs := Text.splitOn '_' cs
  if runs.all fun run => !run.isEmpty && run.all isDigit then some runs.flatten else none

/-- A sign and what follows it. -/
def signed : List Char → Bool × List Char
  | '-' :: rest => (true, rest)
  | '+' :: rest => (false, rest)
  | rest => (false, rest)

/-- Reads an integer. -/
def integer? (cs : List Char) : Option Int :=
  match cs with
  | '0' :: 'x' :: ds => (plainDigits? (fun c => (hexValue? c).isSome) ds).map fun ds => valueOf 16 ds
  | '0' :: 'o' :: ds => (plainDigits? isOctal ds).map fun ds => valueOf 8 ds
  | '0' :: 'b' :: ds =>
    (plainDigits? (fun c => c == '0' || c == '1') ds).map fun ds => valueOf 2 ds
  | _ =>
    let (negative, ds) := signed cs
    (plainDigits? Char.isDigit ds).bind fun ds =>
      if 1 < ds.length && ds.head? == some '0' then none
      else some (if negative then -(valueOf 10 ds : Int) else valueOf 10 ds)

/-- Splits a text at the first character that satisfies `p`. -/
def splitFirst (p : Char → Bool) (cs : List Char) : List Char × Option (List Char) :=
  match cs.dropWhile (!p ·) with
  | [] => (cs, none)
  | _ :: rest => (cs.takeWhile (!p ·), some rest)

/-- The double `digits · 10 ^ exponent`. -/
def scientific (negative : Bool) (digits : Nat) (exponent : Int) : Float :=
  let x := if exponent < 0 then Float.ofScientific digits true exponent.natAbs
    else Float.ofScientific digits false exponent.natAbs
  if negative then -x else x

/-- Reads a number with a fraction or an exponent. -/
def float? (cs : List Char) : Option Float := do
  let (negative, body) := signed cs
  if body == ['i', 'n', 'f'] then
    return if negative then -(1.0 / 0.0) else 1.0 / 0.0
  if body == ['n', 'a', 'n'] then return 0.0 / 0.0
  let (mantissa, exponent) := splitFirst (fun c => c == 'e' || c == 'E') body
  let (whole, fraction) := splitFirst (· == '.') mantissa
  if exponent.isNone && fraction.isNone then none
  let whole ← plainDigits? Char.isDigit whole
  let behind ← match fraction with
    | none => some []
    | some ds => plainDigits? Char.isDigit ds
  let power : Int ← match exponent with
    | none => some 0
    | some ds =>
      let (down, ds) := signed ds
      (plainDigits? Char.isDigit ds).map fun ds =>
        if down then -(valueOf 10 ds : Int) else valueOf 10 ds
  return scientific negative (valueOf 10 (whole ++ behind)) (power - behind.length)

/-- A date or a time of day: digits with the marks of one of them. -/
def isDate (cs : List Char) : Bool :=
  cs.all (fun c => c.isDigit || "-:.TZtz+ ".toList.contains c) &&
    (match cs with
      | a :: b :: ':' :: c :: d :: _ => [a, b, c, d].all Char.isDigit
      | a :: b :: c :: d :: '-' :: e :: f :: '-' :: g :: h :: _ =>
        [a, b, c, d, e, f, g, h].all Char.isDigit
      | _ => false)

/-- The characters that end a bare value. -/
def endsBare (c : Char) : Bool :=
  isSpace c || c == '\n' || c == ',' || c == ']' || c == '\x7d' || c == '#'

/-- The value of a bare word. -/
def bareValue? (cs : List Char) : Option Value :=
  if cs == "true".toList then some (.bool true)
  else if cs == "false".toList then some (.bool false)
  else
    match integer? cs with
    | some i => some (.int i)
    | none =>
      match float? cs with
      | some x => some (.float x)
      | none => if isDate cs then some (.text (String.ofList cs)) else none

/-! ## Tables -/

/-- The entries of a table with the entry of a key replaced. -/
def replaceEntry (entries : Entries) (k : String) (v : Value) : Entries :=
  entries.map fun (k', v') => if k' == k then (k', v) else (k', v')

/-- Changes the table under a path.  Tables on the way are made if they are absent, and of an array
of tables the last one is meant. -/
def changeAt (change : Entries → Option Entries) : List String → Entries → Option Entries
  | [], entries => change entries
  | k :: path, entries =>
    match Value.find? entries k with
    | none => (changeAt change path []).map fun sub => entries ++ [(k, .table sub)]
    | some (.table sub) =>
      (changeAt change path sub).map fun sub => replaceEntry entries k (.table sub)
    | some (.list items) =>
      match items.getLast? with
      | some (.table sub) =>
        (changeAt change path sub).map fun sub =>
          replaceEntry entries k (.list (items.dropLast ++ [.table sub]))
      | _ => none
    | some _ => none

/-- Adds an entry that is not there yet. -/
def addEntry (k : String) (v : Value) (entries : Entries) : Option Entries :=
  if (Value.find? entries k).isSome then none else some (entries ++ [(k, v)])

/-- Adds an element to the array of tables of a key. -/
def addElement (k : String) (entries : Entries) : Option Entries :=
  match Value.find? entries k with
  | none => some (entries ++ [(k, .list [.table []])])
  | some (.list items) => some (replaceEntry entries k (.list (items ++ [.table []])))
  | some _ => none

/-- What has been read of a document, or of a table in braces. -/
structure Progress where
  entries : Entries := []
  /-- The table that keys belong to at present. -/
  current : List String := []
  /-- The tables that are complete, because they have had a header of their own or because dotted
  keys made them under a header that has passed. -/
  headed : List (List String) := []
  /-- The tables that dotted keys made under the present header. -/
  dotted : List (List String) := []
  /-- The places of arrays and of tables in braces, to which nothing may be added. -/
  closed : List (List String) := []

namespace Progress

/-- Whether nothing may be added at a path. -/
def isClosed (p : Progress) (path : List String) : Bool := p.closed.any (·.isPrefixOf path)

/-- Adds a value under a dotted key of the present table. -/
def assign (p : Progress) (k : List String) (v : Value) : Option Progress := do
  let last ← k.getLast?
  let parent := p.current ++ k.dropLast
  let made := (List.range (k.length - 1)).map fun i => p.current ++ k.take (i + 1)
  if made.any p.headed.contains || p.isClosed parent then none
  let entries ← changeAt (addEntry last v) parent p.entries
  let closed := match v with
    | .table _ | .list _ => (p.current ++ k) :: p.closed
    | _ => p.closed
  return { p with entries, closed, dotted := made ++ p.dotted }

/-- The header of a table: it may not be complete, and what stands there must be a table. -/
def openTable (p : Progress) (path : List String) : Option Progress := do
  let headed := p.dotted ++ p.headed
  if headed.contains path || p.isClosed path then none
  let entries ← changeAt some path p.entries
  return { p with entries, current := path, headed := path :: headed, dotted := [] }

/-- The header of an element of an array of tables: everything below it may come again. -/
def openElement (p : Progress) (path : List String) : Option Progress := do
  if p.isClosed path then none
  let k ← path.getLast?
  let entries ← changeAt (addElement k) path.dropLast p.entries
  let outside := fun (q : List String) => !path.isPrefixOf q
  return { entries, current := path, headed := path :: (p.dotted ++ p.headed).filter outside,
           closed := p.closed.filter outside }

end Progress

/-! ## Values -/

mutual

/-- Reads a value. -/
def value : Nat → List Char → Option (Value × List Char)
  | 0, _ => none
  | n + 1, cs =>
    match cs with
    | '[' :: rest => (items n (skipAll rest) []).map fun (vs, rest) => (.list vs, rest)
    | '\x7b' :: rest =>
      match skipSpaces rest with
      | '\x7d' :: rest => some (.table [], rest)
      | rest => (inlineEntries n rest {}).map fun (p, rest) => (.table p.entries, rest)
    | c :: _ =>
      if c == '"' || c == '\x27' then
        (string? cs).map fun (s, rest) => (.text (String.ofList s), rest)
      else (bareValue? (cs.takeWhile (!endsBare ·))).map fun v => (v, cs.dropWhile (!endsBare ·))
    | [] => none

/-- Reads the items of an array up to its closing bracket. -/
def items : Nat → List Char → List Value → Option (List Value × List Char)
  | 0, _, _ => none
  | n + 1, cs, vs =>
    match cs with
    | ']' :: rest => some (vs, rest)
    | _ => do
      let (v, rest) ← value n cs
      match skipAll rest with
      | ',' :: rest => items n (skipAll rest) (vs ++ [v])
      | ']' :: rest => return (vs ++ [v], rest)
      | _ => none

/-- Reads the entries of a table in braces up to its closing brace. -/
def inlineEntries : Nat → List Char → Progress → Option (Progress × List Char)
  | 0, _, _ => none
  | n + 1, cs, p => do
    let (k, rest) ← key cs
    match skipSpaces rest with
    | '=' :: rest =>
      let (v, rest) ← value n (skipSpaces rest)
      let p ← p.assign k v
      match skipSpaces rest with
      | ',' :: rest => inlineEntries n rest p
      | '\x7d' :: rest => return (p, rest)
      | _ => none
    | _ => none

end

/-! ## Documents -/

/-- Reads one statement, which does not start with a blank. -/
def statement (p : Progress) (cs : List Char) : Option (Progress × List Char) :=
  match cs with
  | '[' :: '[' :: rest => do
    let (path, rest) ← key rest
    match rest with
    | ']' :: ']' :: rest => return (← p.openElement path, ← lineEnd? rest)
    | _ => none
  | '[' :: rest => do
    let (path, rest) ← key rest
    match rest with
    | ']' :: rest => return (← p.openTable path, ← lineEnd? rest)
    | _ => none
  | _ => do
    let (k, rest) ← key cs
    match skipSpaces rest with
    | '=' :: rest =>
      let (v, rest) ← value (rest.length + 1) (skipSpaces rest)
      return (← p.assign k v, ← lineEnd? rest)
    | _ => none

/-- Reads the statements of a document; the bound is the length of the text. -/
def statements : Nat → Progress → List Char → Option Entries
  | 0, _, _ => none
  | n + 1, p, cs =>
    match skipAll cs with
    | [] => some p.entries
    | cs => (statement p cs).bind fun (p, rest) => statements n p rest

/-- The table of a document. -/
def parse (text : List Char) : Option Entries := statements (text.length + 1) {} text

end ServiceKeys.Toml
