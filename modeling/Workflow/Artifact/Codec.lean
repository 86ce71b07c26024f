/-!
# Codecs

A codec writes values as bytes and reads them back from the front of a longer
byte string. A written value says itself where it ends, so values can stand one
after another without separators; the combinators use nothing else.

Reading goes from left to right and stops at the first fault. Numbers are read in
every width that the marker byte announces, not only in the shortest one.
-/

namespace Workflow

/-- Why bytes cannot be read. -/
inductive DecodeFault where
  | ends
  | integerWidth
  | boolean
  | optionMarker
  | text
  | kindNumber
deriving DecidableEq, Repr

/-- The name of a fault in messages. -/
def DecodeFault.name : DecodeFault → String
  | ends => "UnexpectedEnd"
  | integerWidth => "InvalidIntegerType"
  | boolean => "InvalidBooleanValue"
  | optionMarker => "UnexpectedVariant"
  | text => "Utf8"
  | kindNumber => "OtherString"

/-- A way to write values of a type and to read them from the front of bytes. -/
structure Codec (α : Type) where
  encode : α → List UInt8
  decode : List UInt8 → Except DecodeFault (α × List UInt8)

namespace Codec

/-- The first bytes and the others, if there are so many. -/
def splitBytes : Nat → List UInt8 → Except DecodeFault (List UInt8 × List UInt8)
  | 0, bytes => .ok ([], bytes)
  | _ + 1, [] => .error .ends
  | count + 1, byte :: bytes =>
      match splitBytes count bytes with
      | .ok (front, rest) => .ok (byte :: front, rest)
      | .error fault => .error fault

/-- A number in so many bytes, the lowest byte first. -/
def littleEndian : Nat → Nat → List UInt8
  | 0, _ => []
  | count + 1, n => UInt8.ofNat n :: littleEndian count (n / 256)

/-- The number that bytes stand for, the lowest byte first. -/
def ofLittleEndian : List UInt8 → Nat
  | [] => 0
  | byte :: rest => byte.toNat + 256 * ofLittleEndian rest

/-- A number in the shortest form: itself below 251, and otherwise a marker for
two, four or eight bytes that follow. -/
def encodeNumber (n : Nat) : List UInt8 :=
  if n < 251 then [UInt8.ofNat n]
  else if n < 65536 then 251 :: littleEndian 2 n
  else if n < 4294967296 then 252 :: littleEndian 4 n
  else 253 :: littleEndian 8 n

/-- A number in so many bytes after a marker. -/
def decodeWide (count : Nat) (bytes : List UInt8) : Except DecodeFault (Nat × List UInt8) :=
  match splitBytes count bytes with
  | .ok (front, rest) => .ok (ofLittleEndian front, rest)
  | .error fault => .error fault

/-- A number of at most so many bytes. The two widest markers are never allowed. -/
def decodeNumber (widest : Nat) : List UInt8 → Except DecodeFault (Nat × List UInt8)
  | [] => .error .ends
  | marker :: rest =>
      if marker.toNat < 251 then .ok (marker.toNat, rest)
      else if marker = 251 then decodeWide 2 rest
      else if marker = 252 then decodeWide 4 rest
      else if marker = 253 ∧ 8 ≤ widest then decodeWide 8 rest
      else .error .integerWidth

/-- A number below 4294967296. -/
def word32 : Codec Nat := ⟨encodeNumber, decodeNumber 4⟩

/-- A number below 18446744073709551616. -/
def word64 : Codec Nat := ⟨encodeNumber, decodeNumber 8⟩

/-- A truth value in one byte. -/
def bool : Codec Bool where
  encode truth := if truth then [1] else [0]
  decode
    | [] => .error .ends
    | byte :: rest =>
        if byte = 0 then .ok (false, rest)
        else if byte = 1 then .ok (true, rest)
        else .error .boolean

/-- A text: the number of its bytes in UTF-8, then the bytes. -/
def text : Codec String where
  encode text := encodeNumber text.toUTF8.size ++ text.toUTF8.data.toList
  decode bytes := do
    let (size, bytes) ← decodeNumber 8 bytes
    let (front, rest) ← splitBytes size bytes
    match String.fromUTF8? ⟨front.toArray⟩ with
    | some text => pure (text, rest)
    | none => throw .text

/-- A value that may be absent: a marker, then the value if there is one. -/
def option {α : Type} (codec : Codec α) : Codec (Option α) where
  encode
    | none => [0]
    | some value => 1 :: codec.encode value
  decode
    | [] => .error .ends
    | marker :: rest =>
        if marker = 0 then .ok (none, rest)
        else if marker = 1 then
          match codec.decode rest with
          | .ok (value, rest) => .ok (some value, rest)
          | .error fault => .error fault
        else .error .optionMarker

/-- One value after another. -/
def pair {α β : Type} (first : Codec α) (second : Codec β) : Codec (α × β) where
  encode value := first.encode value.1 ++ second.encode value.2
  decode bytes :=
    match first.decode bytes with
    | .error fault => .error fault
    | .ok (a, bytes) =>
        match second.decode bytes with
        | .error fault => .error fault
        | .ok (b, bytes) => .ok ((a, b), bytes)

/-- So many values, one after another. -/
def decodeItems {α : Type} (codec : Codec α) :
    Nat → List UInt8 → Except DecodeFault (List α × List UInt8)
  | 0, bytes => .ok ([], bytes)
  | count + 1, bytes =>
      match codec.decode bytes with
      | .error fault => .error fault
      | .ok (value, bytes) =>
          match decodeItems codec count bytes with
          | .error fault => .error fault
          | .ok (values, bytes) => .ok (value :: values, bytes)

/-- A list: the number of its items, then the items. -/
def list {α : Type} (codec : Codec α) : Codec (List α) where
  encode values := encodeNumber values.length ++ values.flatMap codec.encode
  decode bytes :=
    match decodeNumber 8 bytes with
    | .error fault => .error fault
    | .ok (count, bytes) => decodeItems codec count bytes

/-- Values of another type, written as the values they correspond to. -/
def convert {α β : Type} (codec : Codec α) (into : β → α) (back : α → β) : Codec β where
  encode value := codec.encode (into value)
  decode bytes :=
    match codec.decode bytes with
    | .ok (value, rest) => .ok (back value, rest)
    | .error fault => .error fault

end Codec

end Workflow
