import ServiceKeys.Regex.Basic
import ServiceKeys.Regex.Error

/-!
# Reading a written pattern, token by token

A written pattern is read as a list of *tokens*: single characters, and characters behind a
backslash.  The reader looks one token ahead, so a backslash at the very end of the text is reported
as soon as the token before it has been taken.

`Reader` carries the tokens still to read together with what is known about groups.
-/

namespace ServiceKeys.Regex

/-- A token of a written pattern. -/
inductive Token where
  /-- A character. -/
  | plain (c : Char)
  /-- A character behind a backslash. -/
  | escaped (c : Char)
  /-- A backslash with nothing behind it. -/
  | dangling
  deriving DecidableEq, Repr

/-- The tokens of a text. -/
def tokens : List Char → List Token
  | [] => []
  | '\\' :: c :: cs => .escaped c :: tokens cs
  | ['\\'] => [.dangling]
  | c :: cs => .plain c :: tokens cs

/-- How many characters a token takes. -/
def Token.width : Token → Nat
  | .plain _ => 1
  | .escaped _ => 2
  | .dangling => 1

/-- The characters of a token. -/
def Token.chars : Token → List Char
  | .plain c => [c]
  | .escaped c => ['\\', c]
  | .dangling => ['\\']

/-- A token as it was written. -/
def Token.written (t : Token) : String := String.ofList t.chars

/-- The tokens of a text spell the text. -/
theorem chars_tokens (cs : List Char) : (tokens cs).flatMap Token.chars = cs := by
  fun_induction tokens cs with
  | case1 => rfl
  | case2 c cs ih => simp [Token.chars, ih]
  | case3 => rfl
  | case4 c cs _ _ ih => simp [Token.chars, ih]

/-- The switches that change how a pattern is read. -/
structure Flags where
  ignoreCase : Bool := false
  multiline : Bool := false
  dotAll : Bool := false
  verbose : Bool := false
  ascii : Bool := false
  unicode : Bool := false
  deriving DecidableEq, Repr, Inhabited

/-- The case rule under given flags. -/
def Flags.rule (f : Flags) : CaseRule :=
  if !f.ignoreCase then .exact else if f.ascii then .asciiFold else .unicodeFold

/-- What is left to read and what is known so far. -/
structure Progress where
  /-- The tokens left. -/
  rest : List Token
  /-- The offset of the next token. -/
  offset : Nat := 0
  /-- The number that the next group gets. -/
  nextGroup : Nat := 1
  /-- The numbers of the named groups. -/
  names : List (String × Nat) := []
  /-- The widths of the groups that are closed. -/
  widths : List (Nat × Width) := []
  /-- Inside of a look-behind, the number that its first group would get. -/
  behindFrom : Option Nat := none
  /-- The groups that conditions ask about, with the offset of the first question. -/
  asked : List (Nat × Nat) := []
  /-- The flags set for the whole pattern. -/
  global : Flags := {}
  /-- A fault that is reported only if the whole text can be read. -/
  pending : Option Fault := none
  deriving Repr

/-- A step of reading. -/
abbrev Reader := StateT Progress (Except Error)

namespace Reader

/-- Reports a fault at an offset. -/
def failAt {α : Type} (fault : Fault) (offset : Nat) : Reader α := throw ⟨fault, some offset⟩

/-- Reports a fault `back` characters before the next token. -/
def fail {α : Type} (fault : Fault) (back : Nat) : Reader α := do
  failAt fault ((← get).offset - back)

/-- The offset of the next token. -/
def offset : Reader Nat := return (← get).offset

/-- The next token, left in place. -/
def peek : Reader (Option Token) := return (← get).rest.head?

/-- Takes the next token.  A dangling backslash behind it is reported at once. -/
def take : Reader (Option Token) := do
  let st ← get
  match st.rest with
  | [] => return none
  | t :: rest =>
    let offset := st.offset + t.width
    if rest.head? == some .dangling then throw ⟨.danglingEscape, some offset⟩
    set { st with rest, offset }
    return some t

/-- Takes the next token if it is the given character. -/
def accept (c : Char) : Reader Bool := do
  if (← peek) == some (.plain c) then
    let _ ← take
    return true
  else return false

/-- Takes up to `n` characters that satisfy `p`. -/
def takeWhile (p : Char → Bool) : Nat → Reader (List Char)
  | 0 => return []
  | n + 1 => do
    match ← peek with
    | some (.plain c) =>
      if p c then
        let _ ← take
        return c :: (← takeWhile p n)
      else return []
    | _ => return []

/-- Takes tokens up to the closing character, which is taken too. -/
def takeUntilGo (closing : Char) (what : String) : Nat → List Char → Reader (List Char)
  | 0, _ => fail .unexpectedEnd 0
  | n + 1, name => do
    match ← take with
    | none =>
      if name.isEmpty then fail (.missing what) 0
      else fail (.unterminatedName closing) name.length
    | some t =>
      if t == .plain closing then
        if name.isEmpty then fail (.missing what) 1 else return name
      else takeUntilGo closing what n (name ++ t.chars)

/-- Takes a name up to its closing character. -/
def takeUntil (closing : Char) (what : String) : Reader (List Char) := do
  takeUntilGo closing what ((← get).rest.length + 1) []

/-! ## Groups -/

/-- Whether a group has been closed. -/
def isClosed (index : Nat) : Reader Bool := return ((← get).widths.lookup index).isSome

/-- Reports a reference from a look-behind to a group that it may not use. -/
def checkBehind (index : Nat) : Reader Unit := do
  match (← get).behindFrom with
  | none => return ()
  | some first =>
    if !(← isClosed index) then fail .openGroup 0
    if first ≤ index then fail .groupInSameLookBehind 0

/-- Opens a group and gives it the next number. -/
def openGroup (name : Option (List Char)) : Reader Nat := do
  let st ← get
  let index := st.nextGroup
  set { st with nextGroup := index + 1 }
  match name with
  | none => return index
  | some cs =>
    let name := String.ofList cs
    match st.names.lookup name with
    | some old => fail (.groupRedefined name index old) (cs.length + 1)
    | none =>
      modify fun st => { st with names := st.names ++ [(name, index)] }
      return index

/-- The width of what a group remembers. -/
def groupWidth (st : Progress) (index : Nat) : Width := (st.widths.lookup index).getD ⟨0, 0⟩

/-- Closes a group that holds the given pattern. -/
def closeGroup (index : Nat) (r : Regex) : Reader Unit :=
  modify fun st => { st with widths := (index, r.width (groupWidth st)) :: st.widths }

/-- A condition on the characters just passed.  A pattern whose width is not fixed is reported
when the whole text has been read. -/
def lookBehind (positive : Bool) (r : Regex) : Reader Regex := do
  let st ← get
  let w := r.width (groupWidth st)
  let fault? : Option Fault :=
    if w.least > repeatLimit then some .farLookBehind
    else if w.least ≠ w.most then some .variableLookBehind
    else none
  set { st with pending := st.pending.or fault? }
  return .look (some w.least) positive r

end Reader

end ServiceKeys.Regex
