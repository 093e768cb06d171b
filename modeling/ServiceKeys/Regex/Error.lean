import ServiceKeys.Text.Quoted

/-!
# Faults of a written pattern

What can be wrong with the written form of a pattern, and how each fault is reported.  A fault that
belongs to a place in the text is reported with its offset, and with its line and column when the
text has more than one line.
-/

namespace ServiceKeys.Regex

/-- What is wrong with a written pattern. -/
inductive Fault where
  /-- The text ends in a backslash. -/
  | danglingEscape
  /-- A backslash in front of something that has no meaning. -/
  | badEscape (written : String)
  /-- A hexadecimal escape with too few digits. -/
  | incompleteEscape (written : String)
  /-- An octal escape above `0o377`. -/
  | octalOutOfRange (written : String)
  /-- A character name that is not known. -/
  | undefinedCharacter (name : String)
  /-- Something that has to stand here does not. -/
  | missing (what : String)
  /-- A name whose closing character is missing. -/
  | unterminatedName (closing : Char)
  /-- A reference to a group from inside of it. -/
  | openGroup
  /-- A reference from a look-behind to a group inside of it. -/
  | groupInSameLookBehind
  /-- A reference to a group that does not exist. -/
  | invalidGroup (index : Nat)
  | unterminatedSet
  /-- A range that ends before it starts, or between things that are not characters. -/
  | badRange (first last : String)
  | minAboveMax
  | nothingToRepeat
  | multipleRepeat
  | unexpectedEnd
  /-- An unknown kind of group. -/
  | unknownExtension (written : String)
  | badGroupName (name : String)
  | unknownGroupName (name : String)
  | unterminatedGroup
  | unterminatedComment
  | groupRedefined (name : String) (new old : Nat)
  | badGroupNumber
  | tooManyBranches
  | lateGlobalFlags
  | unknownFlag
  | badInlineFlags (why : String)
  | unbalancedParenthesis
  /-- A look-behind whose width is not fixed. -/
  | variableLookBehind
  /-- A look-behind wider than any text. -/
  | farLookBehind
  /-- Flags that exclude each other. -/
  | conflictingFlags
  /-- A repetition count that is too large. -/
  | hugeRepeat
  deriving DecidableEq, Repr

/-- The wording of a fault, without its place. -/
def Fault.message : Fault → String
  | .danglingEscape => "bad escape (end of pattern)"
  | .badEscape w => "bad escape " ++ w
  | .incompleteEscape w => "incomplete escape " ++ w
  | .octalOutOfRange w => "octal escape value " ++ w ++ " outside of range 0-0o377"
  | .undefinedCharacter n => "undefined character name " ++ Text.quoted n
  | .missing what => "missing " ++ what
  | .unterminatedName c => "missing " ++ String.singleton c ++ ", unterminated name"
  | .openGroup => "cannot refer to an open group"
  | .groupInSameLookBehind => "cannot refer to group defined in the same lookbehind subpattern"
  | .invalidGroup i => "invalid group reference " ++ toString i
  | .unterminatedSet => "unterminated character set"
  | .badRange a b => "bad character range " ++ a ++ "-" ++ b
  | .minAboveMax => "min repeat greater than max repeat"
  | .nothingToRepeat => "nothing to repeat"
  | .multipleRepeat => "multiple repeat"
  | .unexpectedEnd => "unexpected end of pattern"
  | .unknownExtension w => "unknown extension ?" ++ w
  | .badGroupName n => "bad character in group name " ++ Text.quoted n
  | .unknownGroupName n => "unknown group name " ++ Text.quoted n
  | .unterminatedGroup => "missing ), unterminated subpattern"
  | .unterminatedComment => "missing ), unterminated comment"
  | .groupRedefined n new old =>
    "redefinition of group name " ++ Text.quoted n ++ " as group " ++ toString new ++
      "; was group " ++ toString old
  | .badGroupNumber => "bad group number"
  | .tooManyBranches => "conditional backref with more than two branches"
  | .lateGlobalFlags => "global flags not at the start of the expression"
  | .unknownFlag => "unknown flag"
  | .badInlineFlags why => "bad inline flags: " ++ why
  | .unbalancedParenthesis => "unbalanced parenthesis"
  | .variableLookBehind => "look-behind requires fixed-width pattern"
  | .farLookBehind => "looks too much behind"
  | .conflictingFlags => "ASCII and UNICODE flags are incompatible"
  | .hugeRepeat => "the repetition number is too large"

/-- A fault with the offset that it is reported at. -/
structure Error where
  fault : Fault
  offset : Option Nat := none
  deriving DecidableEq, Repr

/-- How a fault in the given text is reported. -/
def Error.message (text : List Char) (e : Error) : String :=
  match e.offset with
  | none => e.fault.message
  | some n =>
    let seen := text.take n
    let line := seen.count '\n' + 1
    let column := (seen.reverse.takeWhile (· != '\n')).length + 1
    let place := e.fault.message ++ " at position " ++ toString n
    if text.contains '\n' then
      place ++ " (line " ++ toString line ++ ", column " ++ toString column ++ ")"
    else place

end ServiceKeys.Regex
