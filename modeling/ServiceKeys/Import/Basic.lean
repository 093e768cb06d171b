import ServiceKeys.Regex.Search
import ServiceKeys.Text.Basic
import ServiceKeys.Text.Identifier

/-!
# Imports

What a source file brings into scope.  An import clause such as `D, { a, b as c }` is taken apart
into pairs of the name on the module's side and the name in the importing file; declarations of both
kinds, `import … from` and `require`, are found anywhere in a text and listed in source order.
-/

namespace ServiceKeys

open Regex

/-- What an import takes from a module. -/
inductive Exported where
  /-- The default export. -/
  | default
  /-- The whole module as a namespace. -/
  | all
  /-- An export under a name. -/
  | named (name : String)
  deriving DecidableEq, Repr, Inhabited

namespace Exported

/-- The export of a name; the name `default` is the default export. -/
def ofName (name : String) : Exported := if name == "default" then .default else .named name

/-- An export in one word. -/
def written : Exported → String
  | .default => "default"
  | .all => "*"
  | .named name => name

end Exported

/-- One name brought in by an import. -/
structure Binding where
  /-- The module, as it is written. -/
  specifier : String
  /-- The name on the module's side. -/
  exported : Exported
  /-- The name in the importing file. -/
  localName : String
  deriving DecidableEq, Repr, Inhabited

namespace Import

/-! ## Clauses -/

/-- A comment, to the end of its line or to its closing mark. -/
def comment : Regex :=
  .alt (.seq (.literal ['/', '/']) (.span (.noneOf ['\n']) 0 none .greedy))
    (ofList [.literal ['/', '*'], .span (.noneOf []) 0 none .reluctant, .literal ['*', '/']])

/-- A text without the matches of a pattern, given the offset reached and the matches left. -/
def cutGo (offset : Nat) (text : List Char) : List Match → List Char
  | [] => text
  | m :: ms => text.take (m.first - offset) ++ cutGo m.stop (text.drop (m.stop - offset)) ms

/-- A text without its comments. -/
def withoutComments (text : List Char) : List Char := cutGo 0 text (findAll comment text)

/-- A run of name characters. -/
def nameRun : Regex := .span (.wordOr ['$']) 1 none .greedy

/-- An item with an alias: two names around the word `as` or around a colon. -/
def aliased : Regex :=
  ofList [.anchor .textStart, .group 1 nameRun, blanks,
    .alt (ofList [.anchor (.wordEdge false false), .literal ['a', 's'],
      .anchor (.wordEdge false false)]) (.char ':'),
    blanks, .group 2 nameRun, .anchor .lastLineEnd]

/-- A namespace: a star, the word `as` and a name. -/
def namespaced : Regex :=
  ofList [.anchor .textStart, .char '*', blanks, .literal ['a', 's'], blanks1, .group 1 nameRun,
    .anchor .lastLineEnd]

/-- The word `type` in front of an item. -/
def typeMark : Regex := ofList [.anchor .textStart, .literal ['t', 'y', 'p', 'e'], blanks1]

/-- A list in braces. -/
def braced : Regex :=
  ofList [.char '\x7b', .group 1 (.span (.noneOf ['\x7d']) 0 none .greedy), .char '\x7d']

/-- An item without the word `type` in front of it. -/
def withoutTypeMark (item : List Char) : List Char :=
  match matchStart? typeMark item with
  | some m => item.drop m.stop
  | none => item

/-- What a group of a match remembers, as a text. -/
def groupText (m : Match) (index : Nat) : String := String.ofList ((m.group? index).getD [])

/-- The pair of one item of a list in braces. -/
def namedItem? (item : List Char) : Option (Exported × String) :=
  let item := withoutTypeMark (Text.trim item)
  match matchStart? aliased item with
  | some m => some (.ofName (groupText m 1), groupText m 2)
  | none =>
    if Text.isIdentifier item then
      some (.ofName (String.ofList item), String.ofList item)
    else none

/-- The pair of one item outside of braces. -/
def plainItem? (item : List Char) : Option (Exported × String) :=
  let item := Text.trim item
  match matchStart? namespaced item with
  | some m => some (.all, groupText m 1)
  | none => if Text.isIdentifier item then some (.default, String.ofList item) else none

/-- The pairs of a clause, those outside of braces first. -/
def clause (text : List Char) : List (Exported × String) :=
  let text := Text.trim (withoutComments text)
  match search? braced text with
  | none => (Text.splitOn ',' text).filterMap plainItem?
  | some m =>
    (Text.splitOn ',' (text.take m.first)).filterMap plainItem? ++
      (Text.splitOn ',' ((m.group? 1).getD [])).filterMap namedItem?

/-! ## Declarations -/

/-- A quote, a module and the same quote: groups `quote` and `quote + 1`. -/
def quotedModule (quote : Nat) : List Regex :=
  [.group quote (.one (.oneOf ['\x27', '"'])),
   .group (quote + 1) (.span (.noneOf ['\x27', '"', '\n']) 1 none .greedy), .recall quote .exact]

/-- A declaration with `import` and `from`: the clause is group 1, the module group 3. -/
def importDeclaration : Regex :=
  ofList ([notAfter (.wordOr ['$', '.']), .literal "import".toList, blanks1,
    maybe (.seq (.literal "type".toList) blanks1),
    .group 1 (.span (.noneOf ['\x27', '"', ';']) 0 none .reluctant), blanks,
    notAfter (.wordOr ['$']), .literal "from".toList, blanks] ++ quotedModule 2)

/-- A bare identifier as a pattern. -/
def identifierPattern : Regex :=
  .seq (.one { items := [.range 0x41 0x5A, .range 0x61 0x7A, .char '_', .char '$'] })
    (.span (.wordOr ['$']) 0 none .greedy)

/-- A variable that holds a required module: the clause is group 1, the module group 3. -/
def requireDeclaration : Regex :=
  ofList ([notAfter (.wordOr ['$', '.']),
    anyOf [.literal "const".toList, .literal "let".toList, .literal "var".toList], blanks1,
    .group 1 (.alt
      (ofList [.char '\x7b', .span (.noneOf ['\x7d']) 0 none .greedy, .char '\x7d'])
      identifierPattern),
    blanks, .char '=', blanks, .literal "require(".toList, blanks] ++ quotedModule 2 ++
    [blanks, .char ')'])

/-- The bindings of a match, given the pairs of its clause. -/
def bindings (m : Match) (pairs : List (Exported × String)) : List (Nat × Binding) :=
  let specifier := String.ofList (Text.trim ((m.group? 3).getD []))
  pairs.map fun (exported, localName) => (m.first, { specifier, exported, localName })

/-- The pairs of a required module: a plain variable takes the default export. -/
def requireClause (text : List Char) : List (Exported × String) :=
  if text.head? == some '\x7b' then clause text else [(.default, String.ofList text)]

/-- Every binding of a text with the offset of its declaration, the two kinds of declaration one
after the other. -/
def located (content : List Char) : List (Nat × Binding) :=
  (findAll importDeclaration content).flatMap
      (fun m => bindings m (clause ((m.group? 1).getD []))) ++
    (findAll requireDeclaration content).flatMap
      (fun m => bindings m (requireClause ((m.group? 1).getD [])))

/-- Every binding of a text, in source order. -/
def all (content : List Char) : List Binding :=
  ((located content).mergeSort fun a b => decide (a.1 ≤ b.1)).map Prod.snd

/-- The first binding that brings an identifier into scope. -/
def find? (content : List Char) (identifier : String) : Option Binding :=
  if Text.isIdentifier identifier.toList then
    (all content).find? fun b => b.localName == identifier
  else none

end Import

end ServiceKeys
