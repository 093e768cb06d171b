import ServiceKeys.Regex.Parser

/-!
# Registration templates

A template describes the shape of a registration, such as a key, a colon, a wrapper and a reference
in parentheses.  It is a written pattern with two placeholders, one for the key and one for the
reference expression, that are replaced by text before the pattern is read:

* to look a *key* up, the key's placeholder becomes the key as a whole word and the reference's
  placeholder a group that captures a reference;
* to look a *symbol* up, the key's placeholder becomes a group that captures a key and the
  reference's placeholder the symbol as a whole word.
-/

namespace ServiceKeys

open Regex (Pattern)

/-- A registration shape and the kind of thing that it registers. -/
structure Template where
  source : String
  kind : String
  deriving DecidableEq, Repr, Inhabited

namespace Template

/-- The placeholder of the key. -/
def keyPlaceholder : String := "$\x7bkey\x7d"

/-- The placeholder of the reference. -/
def refPlaceholder : String := "$\x7bref\x7d"

/-- The group that captures a key.  A key is made of word characters, dollar signs and, inside, of
the separators dot, colon and hyphen; it is taken whole to the left. -/
def keyCapture : String := "(?<![\\w$.:-])(?P<key>[\\w$](?:[\\w$.:-]*[\\w$])?)"

/-- The group that captures a reference.  It starts with an identifier, taken whole even when
nothing follows it in the template, and goes on up to a parenthesis, a comma or the end of the
line. -/
def refCapture : String := "(?P<ref>[A-Za-z_$][\\w$]*(?:[^)\\n,]*?))"

/-- A text as a whole word, in written form: neither neighbour is a word character, a dollar sign,
or one of the further characters given for that side. -/
def wholeWord (text before after : List Char) : List Char :=
  "(?<![\\w$".toList ++ before ++ "])".toList ++ Regex.escape text ++
    "(?![\\w$".toList ++ after ++ "])".toList

/-- The written pattern with both placeholders replaced, the key's first. -/
def substituted (t : Template) (key ref : List Char) : List Char :=
  Text.replaceAll refPlaceholder.toList ref
    (Text.replaceAll keyPlaceholder.toList key t.source.toList)

/-- What is wrong with a template. -/
inductive Fault where
  /-- Placeholders that do not occur. -/
  | missing (placeholders : List String)
  | emptyKind
  /-- The written pattern, which cannot be read, and why. -/
  | unreadable (written : List Char) (why : Regex.Error)
  deriving DecidableEq, Repr

/-- The pattern of a template with the given texts for its placeholders. -/
def compile (t : Template) (key ref : List Char) : Except Fault Pattern :=
  let written := t.substituted key ref
  match Regex.parse written with
  | .ok p => .ok p
  | .error e => .error (.unreadable written e)

/-- The pattern for a given key.  A colon may follow a key, but no key goes on behind a dot or a
hyphen. -/
def forward (t : Template) (key : List Char) : Except Fault Pattern :=
  t.compile (wholeWord key ".:-".toList ".-".toList) refCapture.toList

/-- The pattern for a given symbol. -/
def reverse (t : Template) (symbol : List Char) : Except Fault Pattern :=
  t.compile keyCapture.toList (wholeWord symbol [] [])

/-- Checks a template: both placeholders occur, the kind is not empty, and the pattern with both
captures can be read.  The first fault in this order counts. -/
def check (t : Template) : Except Fault Unit :=
  let absent := [keyPlaceholder, refPlaceholder].filter fun p =>
    !Text.contains p.toList t.source.toList
  if !absent.isEmpty then .error (.missing absent)
  else if t.kind.isEmpty then .error .emptyKind
  else (t.compile keyCapture.toList refCapture.toList).map fun _ => ()

/-- A template whose pattern is a quoted or bare key, a colon and a wrapped reference. -/
def wrapped (wrapper kind : String) : Template :=
  { source := "['\"]?" ++ keyPlaceholder ++ "['\"]?\\s*:\\s*" ++ wrapper ++ "\\(\\s*" ++
      refPlaceholder ++ "\\s*\\)"
    kind }

/-- The built-in templates. -/
def builtin : List Template :=
  [wrapped "asFunction" "function", wrapped "asClass" "class", wrapped "asValue" "value"]

end Template

end ServiceKeys
