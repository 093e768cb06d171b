/-!
# Paths with drives

A configuration is shared between machines, so a path that is absolute only where paths have drive
letters or network shares counts as absolute everywhere.
-/

namespace ServiceKeys.Path

/-- Backslashes for all separators. -/
def backslashed (cs : List Char) : List Char := cs.map fun c => if c == '/' then '\\' else c

/-- Whether a path begins with a share, as in `\\server\share`. -/
def hasShare : List Char → Bool
  | '\\' :: '\\' :: rest =>
    rest.head? != some '\\' &&
      match rest.dropWhile (· != '\\') with
      | [] => false
      | _ :: more => more.head? != some '\\'
  | _ => false

/-- Whether a path begins with a drive letter and a separator. -/
def hasDrive : List Char → Bool
  | letter :: ':' :: '\\' :: _ => letter.isAlpha
  | _ => false

/-- Whether a path is absolute by drive letter, share or device. -/
def isDriveAbsolute (cs : List Char) : Bool :=
  match backslashed cs with
  | '\\' :: '\\' :: '?' :: '\\' :: rest =>
    let part := match rest with
      | 'U' :: 'N' :: 'C' :: '\\' :: more => '\\' :: '\\' :: more
      | _ => rest
    hasShare part || hasDrive part || (part.head? == some '\\')
  | part => hasShare part || hasDrive part

/-- Whether a path is absolute in either way of writing. -/
def isAnyAbsolute (cs : List Char) : Bool := cs.head? == some '/' || isDriveAbsolute cs

end ServiceKeys.Path
