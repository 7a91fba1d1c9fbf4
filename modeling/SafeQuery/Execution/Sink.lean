import SafeQuery.Text.Utf8
import SafeQuery.Value

/-!
# Output

What an execution has written, piece by piece. An output may have room for a number of bytes only:
a piece that does not fit is written as far as it does, and no more.
-/

namespace SafeQuery

/-- What is written at once. -/
inductive Piece where
  /-- Text of the template. -/
  | text (s : String)
  /-- The value of an action. -/
  | value (v : Value)

def Piece.shown : Piece → String
  | text s  => s
  | value v => v.display

def Piece.bytes (p : Piece) : List UInt8 := Text.bytesOf p.shown

structure Sink where
  /-- How many bytes can still be written; no number means no limit. -/
  room : Option Nat
  /-- The pieces that have been written in full, the last first. -/
  pieces : List Piece
  /-- What has been written of the piece that did not fit. -/
  cut : List UInt8

namespace Sink

def ofRoom (room : Option Nat) : Sink := ⟨room, [], []⟩

/-- Write a piece, and whether it did fit. -/
def put (s : Sink) (p : Piece) : Bool × Sink :=
  match s.room with
  | none   => (true, { s with pieces := p :: s.pieces })
  | some n =>
    let bs := p.bytes
    if bs.length ≤ n then (true, { s with room := some (n - bs.length), pieces := p :: s.pieces })
    else (false, { s with room := some 0, cut := bs.take n })

def bytes (s : Sink) : List UInt8 := s.pieces.reverse.flatMap Piece.bytes ++ s.cut

/-- The text that has been written, read leniently. -/
def text (s : Sink) : String := Text.ofBytesLenient s.bytes

end Sink

end SafeQuery
