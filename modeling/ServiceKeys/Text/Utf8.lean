import ServiceKeys.Text.Quoted

/-!
# UTF-8

Bytes to text.  A byte sequence that encodes no character is ill-formed, and the ill-formed part is
the longest one that could still have begun a character, at least one byte.  Source files are read
leniently: ill-formed parts are dropped, one byte-order mark in front is dropped, and every kind of
line end becomes a line feed.  Configuration files are read strictly: the first ill-formed part is
an error.
-/

namespace ServiceKeys.Text

/-- What the first bytes of a sequence are. -/
inductive Unit8 where
  /-- A character in the given number of bytes. -/
  | char (c : Char) (size : Nat)
  /-- An ill-formed part of the given number of bytes, and why it is one. -/
  | bad (size : Nat) (why : String)

/-- A byte that goes on with a character, within bounds. -/
def isTail (lo hi : UInt8) (b : UInt8) : Bool := lo ≤ b && b ≤ hi

/-- The six payload bits of a byte that goes on with a character. -/
def tailBits (b : UInt8) : Nat := b.toNat % 64

/-- The bounds of the second byte, by the first byte of a character of three or four bytes. -/
def secondBounds (b : UInt8) : UInt8 × UInt8 :=
  if b == 0xE0 then (0xA0, 0xBF)
  else if b == 0xED then (0x80, 0x9F)
  else if b == 0xF0 then (0x90, 0xBF)
  else if b == 0xF4 then (0x80, 0x8F)
  else (0x80, 0xBF)

/-- The wording for a first byte that starts no character. -/
def badStart : String := "invalid start byte"

/-- The wording for a byte that should go on with a character and does not. -/
def badTail : String := "invalid continuation byte"

/-- The wording for a character cut off by the end. -/
def cutOff : String := "unexpected end of data"

/-- What a sequence starts with, given its first byte and the bytes after it. -/
def firstUnit (b : UInt8) (rest : List UInt8) : Unit8 :=
  if b < 0x80 then .char (Char.ofNat b.toNat) 1
  else if b < 0xC2 then .bad 1 badStart
  else if b < 0xE0 then
    match rest with
    | [] => .bad 1 cutOff
    | c :: _ =>
      if isTail 0x80 0xBF c then .char (Char.ofNat (b.toNat % 32 * 64 + tailBits c)) 2
      else .bad 1 badTail
  else if b < 0xF0 then
    let (lo, hi) := secondBounds b
    match rest with
    | [] => .bad 1 cutOff
    | c :: rest =>
      if !isTail lo hi c then .bad 1 badTail
      else
        match rest with
        | [] => .bad 2 cutOff
        | d :: _ =>
          if isTail 0x80 0xBF d then
            .char (Char.ofNat ((b.toNat % 16 * 64 + tailBits c) * 64 + tailBits d)) 3
          else .bad 2 badTail
  else if b < 0xF5 then
    let (lo, hi) := secondBounds b
    match rest with
    | [] => .bad 1 cutOff
    | c :: rest =>
      if !isTail lo hi c then .bad 1 badTail
      else
        match rest with
        | [] => .bad 2 cutOff
        | d :: rest =>
          if !isTail 0x80 0xBF d then .bad 2 badTail
          else
            match rest with
            | [] => .bad 3 cutOff
            | e :: _ =>
              if isTail 0x80 0xBF e then
                .char (Char.ofNat
                  (((b.toNat % 8 * 64 + tailBits c) * 64 + tailBits d) * 64 + tailBits e)) 4
              else .bad 3 badTail
  else .bad 1 badStart

/-- Decodes bytes, dropping ill-formed parts; the first argument counts the bytes of a unit that are
still to be passed over. -/
def decodeLenientGo : Nat → List UInt8 → List Char
  | _, [] => []
  | skip + 1, _ :: bs => decodeLenientGo skip bs
  | 0, b :: bs =>
    match firstUnit b bs with
    | .char c size => c :: decodeLenientGo (size - 1) bs
    | .bad size _ => decodeLenientGo (size - 1) bs

/-- Decodes bytes, dropping ill-formed parts. -/
def decodeLenient (bs : List UInt8) : List Char := decodeLenientGo 0 bs

/-- An ill-formed part of a byte sequence. -/
structure DecodeError where
  /-- Where it starts. -/
  offset : Nat
  /-- How long it is. -/
  size : Nat
  /-- Its first byte. -/
  byte : UInt8
  why : String
  deriving DecidableEq, Repr

/-- How an ill-formed part is reported. -/
def DecodeError.message (e : DecodeError) : String :=
  if e.size == 1 then
    "'utf-8' codec can't decode byte 0x" ++ String.ofList (hexDigits 2 e.byte.toNat) ++
      " in position " ++ toString e.offset ++ ": " ++ e.why
  else
    "'utf-8' codec can't decode bytes in position " ++ toString e.offset ++ "-" ++
      toString (e.offset + e.size - 1) ++ ": " ++ e.why

/-- Decodes bytes strictly, given the offset reached; `skip` counts the bytes of a unit that are
still to be passed over. -/
def decodeStrictGo (offset : Nat) : (skip : Nat) → List UInt8 → Except DecodeError (List Char)
  | _, [] => .ok []
  | skip + 1, _ :: bs => decodeStrictGo (offset + 1) skip bs
  | 0, b :: bs =>
    match firstUnit b bs with
    | .char c size => (decodeStrictGo (offset + 1) (size - 1) bs).map (c :: ·)
    | .bad size why => .error ⟨offset, size, b, why⟩

/-- Decodes bytes strictly. -/
def decodeStrict (bs : List UInt8) : Except DecodeError (List Char) := decodeStrictGo 0 0 bs

/-- Every kind of line end as a line feed. -/
def unifyNewlines : List Char → List Char
  | [] => []
  | '\r' :: '\n' :: cs => '\n' :: unifyNewlines cs
  | '\r' :: cs => '\n' :: unifyNewlines cs
  | c :: cs => c :: unifyNewlines cs

/-- Bytes without one byte-order mark in front. -/
def withoutMark : List UInt8 → List UInt8
  | 0xEF :: 0xBB :: 0xBF :: bs => bs
  | bs => bs

/-- The text of a source file. -/
def sourceText (bs : List UInt8) : List Char := unifyNewlines (decodeLenient (withoutMark bs))

/-- The text of a configuration file. -/
def strictText (bs : List UInt8) : Except DecodeError (List Char) :=
  (decodeStrict bs).map unifyNewlines

/-- The bytes of a text. -/
def encode (cs : List Char) : List UInt8 := (String.ofList cs).toUTF8.toList

end ServiceKeys.Text
