import ServiceKeys.Regex.Token
import ServiceKeys.Regex.Search
import ServiceKeys.Text.Identifier
import ServiceKeys.Text.Numeral

/-!
# Reading a written pattern

From the written form of a pattern to its tree.  The grammar is the usual one: alternatives,
sequences, character sets, groups (numbered, named, plain, atomic), look-ahead and look-behind,
recalls and conditions on groups, counted, reluctant and possessive repetitions, and flags for the
whole pattern or for one group.

Flags for the whole pattern may only stand before everything else, so by the time the first item is
read they are known, and every item can be given its final form at once.
-/

namespace ServiceKeys.Regex

open Reader

/-! ## Escapes -/

/-- A hexadecimal digit's value. -/
def hexValue? (c : Char) : Option Nat :=
  if c.isDigit then some (c.toNat - 0x30)
  else if 'a' ≤ c && c ≤ 'f' then some (c.toNat - 0x57)
  else if 'A' ≤ c && c ≤ 'F' then some (c.toNat - 0x37)
  else none

/-- An octal digit. -/
def isOctal (c : Char) : Bool := '0' ≤ c && c ≤ '7'

/-- The number that digits spell in a base. -/
def valueOf (base : Nat) (ds : List Char) : Nat :=
  ds.foldl (fun n c => base * n + (hexValue? c).getD 0) 0

/-- What an escape inside of a set stands for. -/
inductive SetAtom where
  | code (n : Nat)
  | category (k : Category) (negated : Bool)

/-- The characters that a letter behind a backslash stands for. -/
def controlEscape? : Char → Option Nat
  | 'a' => some 7
  | 'f' => some 12
  | 'n' => some 10
  | 'r' => some 13
  | 't' => some 9
  | 'v' => some 11
  | '\\' => some 0x5C
  | _ => none

/-- The category that a letter behind a backslash stands for. -/
def categoryEscape? : Char → Option (Category × Bool)
  | 'd' => some (.digit, false)
  | 'D' => some (.digit, true)
  | 's' => some (.blank, false)
  | 'S' => some (.blank, true)
  | 'w' => some (.word, false)
  | 'W' => some (.word, true)
  | _ => none

/-- An escape as it was written. -/
def writtenEscape (c : Char) (digits : List Char) : String := String.ofList ('\\' :: c :: digits)

/-- Reads exactly `n` hexadecimal digits. -/
def hexEscape (c : Char) (n : Nat) : Reader Nat := do
  let ds ← takeWhile (fun c => (hexValue? c).isSome) n
  if ds.length ≠ n then fail (.incompleteEscape (writtenEscape c ds)) (2 + ds.length)
  return valueOf 16 ds

/-- Reads an escape that names a code point: by hexadecimal digits or by name. -/
def codeEscape? (c : Char) : Reader (Option Nat) := do
  match c with
  | 'x' => return some (← hexEscape c 2)
  | 'u' => return some (← hexEscape c 4)
  | 'U' =>
    let ds ← takeWhile (fun c => (hexValue? c).isSome) 8
    if ds.length ≠ 8 then fail (.incompleteEscape (writtenEscape c ds)) (2 + ds.length)
    if 0x10FFFF < valueOf 16 ds then fail (.badEscape (writtenEscape c ds)) 10
    return some (valueOf 16 ds)
  | 'N' =>
    if !(← accept '{') then fail (.missing "\x7b") 0
    let name ← takeUntil '}' "character name"
    fail (.undefinedCharacter (String.ofList name)) (name.length + 4)
  | _ => return none

/-- Reports an escape of an ASCII letter that has no meaning; any other character stands for
itself. -/
def plainEscape (c : Char) : Reader Nat := do
  if c.isAlpha then fail (.badEscape (writtenEscape c [])) 2
  return c.toNat

/-- Reads the rest of an escape inside of a set. -/
def setEscape (c : Char) : Reader SetAtom := do
  if c == 'b' then return .code 8
  if let some n := controlEscape? c then return .code n
  if let some (k, negated) := categoryEscape? c then return .category k negated
  if let some n ← codeEscape? c then return .code n
  if isOctal c then
    let ds := c :: (← takeWhile isOctal 2)
    if 0o377 < valueOf 8 ds then
      fail (.octalOutOfRange (String.ofList ('\\' :: ds))) (ds.length + 1)
    return .code (valueOf 8 ds)
  if c.isDigit then fail (.badEscape (writtenEscape c [])) 2
  return .code (← plainEscape c)

/-! ## Items -/

/-- What a repetition may be told about the item before it. -/
inductive ItemKind where
  | anchor
  | repeated
  | other
  deriving DecidableEq, Repr

/-- An item of a sequence. -/
structure Item where
  node : Regex
  kind : ItemKind := .other
  deriving DecidableEq, Repr

/-- The item of a single code point. -/
def codeItem (flags : Flags) (n : Nat) : Item :=
  { node := .one (.ofItems flags.rule false [.code n]) }

/-- The item of a place. -/
def anchorItem (a : Anchor) : Item := { node := .anchor a, kind := .anchor }

/-- A recall of a group that has been closed. -/
def recallItem (flags : Flags) (index : Nat) : Item := { node := .recall index flags.rule }

/-- Reads the rest of an escape that starts with a digit other than zero: three octal digits, or
the number of a group. -/
def digitEscape (flags : Flags) (c : Char) : Reader Item := do
  let second ← takeWhile Char.isDigit 1
  let third ← if second.all isOctal && !second.isEmpty && isOctal c then takeWhile isOctal 1
    else pure []
  let ds := c :: second ++ third
  if !third.isEmpty then
    if 0o377 < valueOf 8 ds then
      fail (.octalOutOfRange (String.ofList ('\\' :: ds))) (ds.length + 1)
    return codeItem flags (valueOf 8 ds)
  let index := valueOf 10 ds
  if index < (← get).nextGroup then
    if !(← isClosed index) then fail .openGroup (ds.length + 1)
    checkBehind index
    return recallItem flags index
  fail (.invalidGroup index) ds.length

/-- Reads the rest of an escape outside of a set. -/
def escapeItem (flags : Flags) (c : Char) : Reader Item := do
  if c == 'A' then return anchorItem .textStart
  if c == 'Z' then return anchorItem .textEnd
  if c == 'b' then return anchorItem (.wordEdge flags.ascii false)
  if c == 'B' then return anchorItem (.wordEdge flags.ascii true)
  if let some (k, negated) := categoryEscape? c then
    return { node := .one (.ofItems flags.rule false [.category k flags.ascii negated]) }
  if let some n := controlEscape? c then return codeItem flags n
  if let some n ← codeEscape? c then return codeItem flags n
  if c == '0' then
    return codeItem flags (valueOf 8 (← takeWhile isOctal 2))
  if c.isDigit then digitEscape flags c
  else return codeItem flags (← plainEscape c)

/-! ## Sets -/

/-- The set item of an atom. -/
def SetAtom.item (flags : Flags) : SetAtom → SetItem
  | .code n => .code n
  | .category k negated => .category k flags.ascii negated

/-- Reads one atom of a set, the first token of which has been taken. -/
def setAtom (t : Token) : Reader SetAtom :=
  match t with
  | .plain c => return .code c.toNat
  | .escaped c => setEscape c
  | .dangling => return .code 0x5C

/-- Reads the members of a set that began at offset `start`, up to its closing bracket. -/
def setItems (flags : Flags) (start : Nat) : Nat → List SetItem → Reader (List SetItem)
  | 0, _ => failAt .unterminatedSet start
  | n + 1, items => do
    match ← take with
    | none => failAt .unterminatedSet start
    | some t =>
      if t == .plain ']' && !items.isEmpty then return items
      let low ← setAtom t
      if !(← accept '-') then setItems flags start n (items ++ [low.item flags])
      else
        match ← take with
        | none => failAt .unterminatedSet start
        | some u =>
          if u == .plain ']' then return items ++ [low.item flags, .char '-']
          let high ← setAtom u
          match low, high with
          | .code a, .code b =>
            if b < a then fail (.badRange t.written u.written) (t.width + 1 + u.width)
            setItems flags start n (items ++ [.range a b])
          | _, _ => fail (.badRange t.written u.written) (t.width + 1 + u.width)

/-- Reads a set, the opening bracket of which has been taken. -/
def setItem (flags : Flags) : Reader Item := do
  let start := (← offset) - 1
  let negated ← accept '^'
  let items ← setItems flags start ((← get).rest.length + 1) []
  return { node := .one (.ofItems flags.rule negated items) }

/-! ## Repetitions -/

/-- The bounds of a repetition. -/
structure Bounds where
  lo : Nat
  hi : Option Nat

/-- Reads a repetition's bound, if digits are written. -/
def boundOf (ds : List Char) : Reader (Option Nat) := do
  if ds.isEmpty then return none
  if repeatLimit ≤ valueOf 10 ds then throw ⟨.hugeRepeat, none⟩
  return some (valueOf 10 ds)

/-- Reads the bounds of a repetition, the first character of which has been taken.  A brace that
opens no bounds stands for itself. -/
def bounds? (c : Char) : Reader (Option Bounds) := do
  match c with
  | '?' => return some ⟨0, some 1⟩
  | '*' => return some ⟨0, none⟩
  | '+' => return some ⟨1, none⟩
  | _ =>
    if (← peek) == some (.plain '}') then return none
    let before ← get
    let many := before.rest.length
    let low ← takeWhile Char.isDigit many
    let high ← if ← accept ',' then takeWhile Char.isDigit many else pure low
    if !(← accept '}') then
      set before
      return none
    let lo := (← boundOf low).getD 0
    let hi ← boundOf high
    if hi.any (· < lo) then failAt .minAboveMax before.offset
    return some ⟨lo, hi⟩

/-- A repetition of a pattern. -/
def repeated (r : Regex) (b : Bounds) (mode : Mode) : Regex :=
  match r with
  | .one s => .span s b.lo b.hi mode
  | r => .loop r b.lo b.hi mode

/-- Reads the mark that chooses the mode of a repetition. -/
def repeatMode : Reader Mode := do
  if ← accept '?' then return .reluctant
  if ← accept '+' then return .possessive
  return .greedy

/-- Reads a repetition, the first character of which stood at offset `start`, of the last of the
items (latest first). -/
def repeatItem (start : Nat) (b : Bounds) (items : List Item) : Reader (List Item) := do
  match items with
  | [] => failAt .nothingToRepeat start
  | item :: items =>
    if item.kind == .anchor then failAt .nothingToRepeat start
    if item.kind == .repeated then failAt .multipleRepeat start
    return { node := repeated item.node b (← repeatMode), kind := .repeated } :: items

/-! ## Flags -/

/-- A flag as it is written. -/
inductive Flag where
  | ignoreCase
  | locale
  | multiline
  | dotAll
  | verbose
  | ascii
  | plainOnly
  | unicode
  deriving DecidableEq, Repr

/-- The flag of a letter. -/
def Flag.ofChar? : Char → Option Flag
  | 'i' => some .ignoreCase
  | 'L' => some .locale
  | 'm' => some .multiline
  | 's' => some .dotAll
  | 'x' => some .verbose
  | 'a' => some .ascii
  | 't' => some .plainOnly
  | 'u' => some .unicode
  | _ => none

/-- The flag of a token. -/
def Flag.ofToken? : Token → Option Flag
  | .plain c => ofChar? c
  | _ => none

/-- The flags that choose a character repertoire. -/
def Flag.isRepertoire : Flag → Bool
  | .ascii | .locale | .unicode => true
  | _ => false

/-- Switches a flag on or off. -/
def Flags.switch (on : Bool) (f : Flags) : Flag → Flags
  | .ignoreCase => { f with ignoreCase := on }
  | .multiline => { f with multiline := on }
  | .dotAll => { f with dotAll := on }
  | .verbose => { f with verbose := on }
  | .ascii => { f with ascii := on }
  | .unicode => { f with unicode := on }
  | .locale | .plainOnly => f

/-- The flags inside of a group that switches some on and some off. -/
def Flags.scoped (f : Flags) (on off : List Flag) : Flags :=
  let f := if on.any Flag.isRepertoire then { f with ascii := false, unicode := false } else f
  off.foldl (switch false) (on.foldl (switch true) f)

/-- Whether a token is a letter. -/
def Token.isLetter : Token → Bool
  | .plain c => Text.isLetter c
  | _ => false

/-- Reads the flags to switch on, the first token of which has been taken; also gives the token that
ends them. -/
def flagsOn : Nat → Token → List Flag → Reader (List Flag × Token)
  | 0, _, _ => fail .unexpectedEnd 0
  | n + 1, t, on => do
    match Flag.ofToken? t with
    | none => fail (if t.isLetter then .unknownFlag else .missing "-, : or )") t.width
    | some flag =>
      if flag == .locale then
        fail (.badInlineFlags "cannot use 'L' flag with a str pattern") 0
      let on := on ++ [flag]
      if flag.isRepertoire && on.any fun other => other.isRepertoire && other != flag then
        fail (.badInlineFlags "flags 'a', 'u' and 'L' are incompatible") 0
      match ← take with
      | none => fail (.missing "-, : or )") 0
      | some u =>
        if u == .plain ')' || u == .plain '-' || u == .plain ':' then return (on, u)
        else flagsOn n u on

/-- Reads the flags to switch off, the first token of which has been taken, up to the colon. -/
def flagsOff : Nat → Token → List Flag → Reader (List Flag)
  | 0, _, _ => fail .unexpectedEnd 0
  | n + 1, t, off => do
    match Flag.ofToken? t with
    | none =>
      fail (if t.isLetter then .unknownFlag
        else .missing (if off.isEmpty then "flag" else ":")) t.width
    | some flag =>
      if flag.isRepertoire then
        fail (.badInlineFlags "cannot turn off flags 'a', 'u' and 'L'") 0
      match ← take with
      | none => fail (.missing ":") 0
      | some u =>
        if u == .plain ':' then return off ++ [flag]
        else flagsOff n u (off ++ [flag])

/-- What the flags of a group are for. -/
inductive FlagGroup where
  /-- The whole pattern. -/
  | whole (on : List Flag)
  /-- The group alone. -/
  | scoped (on off : List Flag)

/-- Reads flags, the first token of which has been taken. -/
def flagGroup (first : Token) : Reader FlagGroup := do
  let many := (← get).rest.length + 1
  let (on, closing) ← if first == .plain '-' then pure ([], first) else flagsOn many first []
  if closing == .plain ')' then return .whole on
  if on.contains .plainOnly then fail (.badInlineFlags "cannot turn on global flag") 1
  let off ← if closing == .plain '-' then
      match ← take with
      | none => fail (.missing "flag") 0
      | some t => flagsOff many t []
    else pure []
  if off.contains .plainOnly then fail (.badInlineFlags "cannot turn off global flag") 1
  if on.any off.contains then fail (.badInlineFlags "flag turned on and off") 1
  return .scoped on off

/-! ## Groups -/

/-- Reads the number or the name of the group that a condition asks about. -/
def conditionGroup : Reader Nat := do
  let name ← takeUntil ')' "group name"
  let written := String.ofList name
  if Text.isName name then
    match (← get).names.lookup written with
    | none => fail (.unknownGroupName written) (name.length + 1)
    | some index => return index
  else
    match Text.integer? name with
    | some (.ofNat index) =>
      if index = 0 then fail .badGroupNumber (name.length + 1)
      if Nat.pow 2 30 - 1 ≤ index then fail (.invalidGroup index) (name.length + 1)
      let st ← get
      if (st.asked.lookup index).isNone then
        set { st with asked := st.asked ++ [(index, st.offset - name.length - 1)] }
      return index
    | _ => fail (.badGroupName written) (name.length + 1)

/-- Reads the name of a group up to its closing character. -/
def groupName (closing : Char) : Reader (List Char) := do
  let name ← takeUntil closing "group name"
  if !Text.isName name then fail (.badGroupName (String.ofList name)) (name.length + 1)
  return name

/-- Reads a recall by name, up to its closing parenthesis. -/
def namedRecall (flags : Flags) : Reader Item := do
  let name ← groupName ')'
  let written := String.ofList name
  match (← get).names.lookup written with
  | none => fail (.unknownGroupName written) (name.length + 1)
  | some index =>
    if !(← isClosed index) then fail .openGroup (name.length + 1)
    checkBehind index
    return recallItem flags index

/-- Skips a comment up to its closing parenthesis. -/
def skipComment (start : Nat) : Nat → Reader Unit
  | 0 => failAt .unterminatedComment start
  | n + 1 => do
    match ← take with
    | none => failAt .unterminatedComment start
    | some t => if t == .plain ')' then return () else skipComment start n

/-- Skips the rest of a line. -/
def skipLine : Nat → Reader Unit
  | 0 => return ()
  | n + 1 => do
    match ← take with
    | none => return ()
    | some t => if t == .plain '\n' then return () else skipLine n

/-- What an opening parenthesis begins. -/
inductive Opening where
  /-- A group that remembers its text. -/
  | capture (name : Option (List Char))
  /-- A group that does not, with the flags inside of it. -/
  | plain (on off : List Flag)
  | atomic
  | look (behind positive : Bool)
  /-- A condition on a group. -/
  | condition (index : Nat)
  /-- An item that is complete. -/
  | item (i : Item)
  /-- A comment that is complete. -/
  | comment
  /-- Flags for the whole pattern. -/
  | flags (on : List Flag)

/-- Takes a token that has to be there. -/
def takeSome : Reader Token := do
  match ← take with
  | none => fail .unexpectedEnd 0
  | some t => return t

/-- Reads what follows the opening parenthesis at offset `start`, up to the group's content. -/
def opening (flags : Flags) (start : Nat) : Reader Opening := do
  if !(← accept '?') then return .capture none
  let t ← takeSome
  match t with
  | .plain 'P' =>
    if ← accept '<' then return .capture (some (← groupName '>'))
    if ← accept '=' then return .item (← namedRecall flags)
    let u ← takeSome
    fail (.unknownExtension ("P" ++ u.written)) (u.width + 2)
  | .plain ':' => return .plain [] []
  | .plain '#' =>
    skipComment start ((← get).rest.length + 1)
    return .comment
  | .plain '=' => return .look false true
  | .plain '!' => return .look false false
  | .plain '<' =>
    let u ← takeSome
    if u == .plain '=' then return .look true true
    if u == .plain '!' then return .look true false
    fail (.unknownExtension ("<" ++ u.written)) (u.width + 2)
  | .plain '(' =>
    let index ← conditionGroup
    checkBehind index
    return .condition index
  | .plain '>' => return .atomic
  | t =>
    if t == .plain '-' || (Flag.ofToken? t).isSome then
      match ← flagGroup t with
      | .whole on => return .flags on
      | .scoped on off => return .plain on off
    else fail (.unknownExtension t.written) (t.width + 1)

/-! ## Sequences and alternatives -/

/-- Where a sequence stands. -/
structure Scope where
  flags : Flags
  /-- Not inside of any group. -/
  top : Bool := false
  /-- Only one sequence is wanted, so a bar ends it. -/
  single : Bool := false

/-- The pattern of alternatives, each a list of items, all of it latest first. -/
def assemble (alternatives : List (List Item)) : Regex :=
  anyOf (alternatives.reverse.map fun items => ofList (items.reverse.map Item.node))

/-- Reads the closing parenthesis of the group that began at offset `start`. -/
def closeParen (start : Nat) : Reader Unit := do
  if !(← accept ')') then failAt .unterminatedGroup start

/-- Reads on with the alternatives read so far and the items of the present one, latest first. -/
abbrev Continuation := Scope → (done : List (List Item)) → (items : List Item) →
  Reader (List (List Item))

/-- Reads a group, the parenthesis of which stood at offset `start`, and what follows it. -/
def readGroup (next : Continuation) (scope : Scope) (start : Nat) (done : List (List Item))
    (items : List Item) : Reader (List (List Item)) := do
  let flags := scope.flags
  let inner : Scope := { flags := flags }
  match ← opening flags start with
  | .comment => next scope done items
  | .item item => next scope done (item :: items)
  | .flags on =>
    if !scope.top || !done.isEmpty || !items.isEmpty then failAt .lateGlobalFlags start
    let flags := on.foldl (Flags.switch true) flags
    modify fun st => { st with global := flags }
    next { scope with flags := flags } done items
  | .capture name =>
    let index ← openGroup name
    let body := assemble (← next inner [] [])
    closeParen start
    closeGroup index body
    next scope done ({ node := .group index body } :: items)
  | .plain on off =>
    let body := assemble (← next { flags := flags.scoped on off } [] [])
    closeParen start
    next scope done ({ node := body } :: items)
  | .atomic =>
    let body := assemble (← next inner [] [])
    closeParen start
    next scope done ({ node := .atomic body } :: items)
  | .look false positive =>
    let body := assemble (← next inner [] [])
    closeParen start
    next scope done ({ node := .look none positive body } :: items)
  | .look true positive =>
    let outer := (← get).behindFrom
    modify fun st => { st with behindFrom := outer.or (some st.nextGroup) }
    let body := assemble (← next inner [] [])
    modify fun st => { st with behindFrom := outer }
    closeParen start
    let node ← lookBehind positive body
    next scope done ({ node } :: items)
  | .condition index =>
    let branchScope : Scope := { flags := flags, single := true }
    let yes := assemble (← next branchScope [] [])
    let no ← if ← accept '|' then
        let no := assemble (← next branchScope [] [])
        if (← peek) == some (.plain '|') then fail .tooManyBranches 0
        pure no
      else pure .empty
    closeParen start
    next scope done ({ node := .branch index yes no } :: items)

/-- Reads what begins with a character, taken at offset `start`, and what follows it. -/
def readPlain (next : Continuation) (scope : Scope) (start : Nat) (c : Char)
    (done : List (List Item)) (items : List Item) : Reader (List (List Item)) := do
  let flags := scope.flags
  if c == '|' then next scope (items :: done) []
  else if flags.verbose && Text.isAsciiBlank c then next scope done items
  else if flags.verbose && c == '#' then
    skipLine ((← get).rest.length + 1)
    next scope done items
  else if c == '[' then
    let item ← setItem flags
    next scope done (item :: items)
  else if c == '?' || c == '*' || c == '+' || c == '{' then
    match ← bounds? c with
    | none => next scope done (codeItem flags c.toNat :: items)
    | some b =>
      let items ← repeatItem start b items
      next scope done items
  else if c == '.' then
    let s : CharSet := if flags.dotAll then .noneOf [] else .noneOf ['\n']
    next scope done ({ node := .one s } :: items)
  else if c == '^' then
    next scope done (anchorItem (if flags.multiline then .lineStart else .textStart) :: items)
  else if c == '$' then
    next scope done (anchorItem (if flags.multiline then .lineEnd else .lastLineEnd) :: items)
  else if c == '(' then readGroup next scope start done items
  else next scope done (codeItem flags c.toNat :: items)

/-- Reads what begins with a token, taken at offset `start`, and what follows it. -/
def readToken (next : Continuation) (scope : Scope) (start : Nat) (t : Token)
    (done : List (List Item)) (items : List Item) : Reader (List (List Item)) := do
  match t with
  | .dangling => fail .danglingEscape 0
  | .escaped c =>
    let item ← escapeItem scope.flags c
    next scope done (item :: items)
  | .plain c => readPlain next scope start c done items

/-- Reads alternatives up to a closing parenthesis or the end of the text. -/
def alternatives : Nat → Continuation
  | 0, _, _, _ => fail .unexpectedEnd 0
  | n + 1, scope, done, items => do
    match ← peek with
    | none => return items :: done
    | some t =>
      if t == .plain ')' || (scope.single && t == .plain '|') then return items :: done
      let start ← offset
      let _ ← take
      readToken (alternatives n) scope start t done items

/-! ## Whole patterns -/

/-- Reads a whole pattern. -/
def wholePattern : Reader Pattern := do
  let st ← get
  if st.rest.head? == some .dangling then fail .danglingEscape 0
  let body := assemble
    (← alternatives (2 * st.rest.length + 2) { flags := {}, top := true } [] [])
  let st ← get
  if st.global.ascii && st.global.unicode then throw ⟨.conflictingFlags, none⟩
  if !st.rest.isEmpty then fail .unbalancedParenthesis 0
  match st.asked.find? fun (index, _) => st.nextGroup ≤ index with
  | some (index, offset) => failAt (.invalidGroup index) offset
  | none =>
    match st.pending with
    | some fault => throw ⟨fault, none⟩
    | none => return { body, names := st.names }

/-- The pattern of a written form. -/
def parse (text : List Char) : Except Error Pattern :=
  wholePattern.run' { rest := tokens text }

/-! ## Writing a text as a pattern for itself -/

/-- The characters that are escaped. -/
def isSpecial (c : Char) : Bool :=
  "()[]\x7b\x7d?*+-|^$\\.&~# \t\n\r\x0b\x0c".toList.contains c

/-- The written form of the pattern that matches the given text only. -/
def escape (cs : List Char) : List Char :=
  cs.flatMap fun c => if isSpecial c then ['\\', c] else [c]

end ServiceKeys.Regex
