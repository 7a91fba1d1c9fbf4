/-!
# Bytes and texts

A text is written as the bytes of its encoding. Bytes are read back strictly, where anything that
is no encoding is refused, or leniently, where every longest beginning of a character that is not
completed, and every byte that begins none, is read as the replacement character.
-/

namespace SafeQuery.Text

def bytesOf (s : String) : List UInt8 := s.toUTF8.data.toList

/-- Read bytes that are the encoding of a text. -/
def ofBytes? (bs : List UInt8) : Option String := String.fromUTF8? ⟨bs.toArray⟩

def replacement : Char := '\ufffd'

/-- A character of which the first bytes have been read. -/
structure Unfinished where
  /-- The value of the bits read so far. -/
  value : Nat
  /-- How many bytes are to come. -/
  owed : Nat
  /-- The least value of the next byte. -/
  least : Nat
  /-- The greatest value of the next byte. -/
  greatest : Nat

/-- What a byte is at the beginning of a character. -/
inductive FirstByte where
  | whole (c : Char)
  | opens (u : Unfinished)
  | stray

def firstByte (b : Nat) : FirstByte :=
  if b < 0x80 then .whole (Char.ofNat b)
  else if b < 0xC2 then .stray
  else if b < 0xE0 then .opens ⟨b - 0xC0, 1, 0x80, 0xBF⟩
  else if b = 0xE0 then .opens ⟨0, 2, 0xA0, 0xBF⟩
  else if b = 0xED then .opens ⟨0xD, 2, 0x80, 0x9F⟩
  else if b < 0xF0 then .opens ⟨b - 0xE0, 2, 0x80, 0xBF⟩
  else if b = 0xF0 then .opens ⟨0, 3, 0x90, 0xBF⟩
  else if b < 0xF4 then .opens ⟨b - 0xF0, 3, 0x80, 0xBF⟩
  else if b = 0xF4 then .opens ⟨4, 3, 0x80, 0x8F⟩
  else .stray

/-- Read bytes leniently, after the beginning of a character or none. -/
def lenientFrom : Option Unfinished → List UInt8 → List Char
  | none,   []      => []
  | some _, []      => [replacement]
  | none,   b :: bs =>
    match firstByte b.toNat with
    | .whole c => c :: lenientFrom none bs
    | .opens u => lenientFrom (some u) bs
    | .stray   => replacement :: lenientFrom none bs
  | some u, b :: bs =>
    if u.least ≤ b.toNat && b.toNat ≤ u.greatest then
      let value := u.value * 64 + b.toNat % 64
      if u.owed ≤ 1 then Char.ofNat value :: lenientFrom none bs
      else lenientFrom (some ⟨value, u.owed - 1, 0x80, 0xBF⟩) bs
    else
      match firstByte b.toNat with
      | .whole c => replacement :: c :: lenientFrom none bs
      | .opens u => replacement :: lenientFrom (some u) bs
      | .stray   => replacement :: replacement :: lenientFrom none bs

/-- Read bytes leniently. -/
def ofBytesLenient (bs : List UInt8) : String := String.ofList (lenientFrom none bs)

end SafeQuery.Text
