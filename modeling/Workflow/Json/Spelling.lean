import Workflow.Json.Draft

/-!
# Strings in a text

A string is scanned without regard to whether its code units make sense. Decoding
is a second step: two surrogate units in a row are one character, and a surrogate
without its partner is refused. A string that is only passed over is never
decoded, so its surrogates are not looked at.
-/

namespace Workflow.Json

/-- The value of a hexadecimal digit in either case. -/
def hexValue? (c : Char) : Option Nat :=
  if '0' ≤ c ∧ c ≤ '9' then some (c.toNat - 48)
  else if 'a' ≤ c ∧ c ≤ 'f' then some (c.toNat - 87)
  else if 'A' ≤ c ∧ c ≤ 'F' then some (c.toNat - 55)
  else none

/-- The code unit four hexadecimal digits stand for. -/
def codeUnit? (a b c d : Char) : Option Nat := do
  let a ← hexValue? a
  let b ← hexValue? b
  let c ← hexValue? c
  let d ← hexValue? d
  pure (a * 4096 + b * 256 + c * 16 + d)

/-- The character a one-letter escape stands for. -/
def escaped? : Char → Option Char
  | '"' => some '"'
  | '\\' => some '\\'
  | '/' => some '/'
  | 'b' => some '\x08'
  | 'f' => some '\x0c'
  | 'n' => some '\n'
  | 'r' => some '\r'
  | 't' => some '\t'
  | _ => none

/-- True if the text has at least so many bytes in UTF-8. -/
def hasBytes : Nat → List Char → Bool
  | 0, _ => true
  | _, [] => false
  | count, c :: rest => hasBytes (count - c.utf8Size) rest

/-- What is wrong with a numbered escape before this text: it stops early if
fewer than four bytes are left, and has a wrong digit otherwise. -/
def digitFault (text : List Char) : Spelling := if hasBytes 4 text then .badDigit else .cut

/-- The spelling of a string whose opening quote has been read, and the text
after its closing quote. -/
def scanString : List Char → Spelling × List Char
  | [] => (.cut, [])
  | '"' :: rest => (.closed, rest)
  | '\\' :: [] => (.cut, [])
  | '\\' :: 'u' :: a :: b :: c :: d :: rest =>
      match codeUnit? a b c d with
      | some code =>
          let (spelling, after) := scanString rest
          (.unit code spelling, after)
      | none => (.badDigit, [])
  | '\\' :: 'u' :: rest => (digitFault rest, [])
  | '\\' :: letter :: rest =>
      match escaped? letter with
      | some c =>
          let (spelling, after) := scanString rest
          (.char c spelling, after)
      | none => (.badEscape, [])
  | c :: rest =>
      if c.toNat < 0x20 then (.control, [])
      else
        let (spelling, after) := scanString rest
        (.char c spelling, after)

/-- True for the first unit of a surrogate pair. -/
def isHighSurrogate (code : Nat) : Bool := 0xD800 ≤ code && code ≤ 0xDBFF

/-- True for the second unit of a surrogate pair. -/
def isLowSurrogate (code : Nat) : Bool := 0xDC00 ≤ code && code ≤ 0xDFFF

/-- The character a surrogate pair stands for. -/
def pairedChar (high low : Nat) : Char :=
  Char.ofNat (0x10000 + (high - 0xD800) * 0x400 + (low - 0xDC00))

/-- The characters of a string that is kept, or the first thing wrong with it.
After the first unit of a pair the string must go on with another unit: a string
that stops there, or breaks off in the digits of that unit, is refused for that. -/
def Spelling.decode : Spelling → Except ReadError (List Char)
  | .closed => .ok []
  | .cut => .error .stringCut
  | .control => .error .controlCharacter
  | .badEscape => .error .badEscape
  | .badDigit => .error .badEscape
  | .char c rest => (rest.decode).map (c :: ·)
  | .unit code rest =>
      if isLowSurrogate code then .error .loneSurrogate
      else if isHighSurrogate code then
        match rest with
        | .unit low rest =>
            if isLowSurrogate low then (rest.decode).map (pairedChar code low :: ·)
            else .error .loneSurrogate
        | .cut => .error .stringCut
        | .badDigit => .error .badEscape
        | _ => .error .unpairedSurrogate
      else (rest.decode).map (Char.ofNat code :: ·)

/-- The string that is kept. -/
def Spelling.string (spelling : Spelling) : Except ReadError String :=
  spelling.decode.map String.ofList

/-- The check of a string that is passed over: only its form matters. -/
def Spelling.pass : Spelling → Except ReadError Unit
  | .closed => .ok ()
  | .cut => .error .stringCut
  | .control => .error .controlCharacter
  | .badEscape => .error .badEscape
  | .badDigit => .error .badEscape
  | .char _ rest => rest.pass
  | .unit _ rest => rest.pass

end Workflow.Json
