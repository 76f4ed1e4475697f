import RatLang.Text.CodePoint
import RatLang.Text.Numeral

/-!
# Positions

A position names a place in a source: the file, the byte offset from 0, and line and column from 1.
Columns count code points. The three numbers are 64-bit words and wrap.
-/
namespace RatLang

/-- A place in a source file. -/
structure Position where
  file : Text := []
  offset : Int64 := 0
  line : Int64 := 0
  column : Int64 := 0
  deriving DecidableEq, Repr, Inhabited

namespace Position

/-- The first byte of a file. -/
def start (file : Text) : Position := ⟨file, 0, 1, 1⟩

/-- `file:line:column`, without the file when it has no name. -/
def text (p : Position) : Text :=
  (if p.file.isEmpty then [] else p.file ++ bytes ":") ++
    decimal p.line.toInt ++ bytes ":" ++ decimal p.column.toInt

/-- What precedes a message at this position: each known part and a colon, then a space. A position
without line and column has no such part. -/
def label (p : Position) : Text :=
  let parts := (if p.file.isEmpty then [] else p.file ++ bytes ":") ++
    (if p.line = 0 && p.column = 0 then []
     else decimal p.line.toInt ++ bytes ":" ++ decimal p.column.toInt ++ bytes ":")
  if parts.isEmpty then [] else parts ++ bytes " "

/-- The bytes after the last newline; the whole text when there is none. -/
def lastLine (span : Text) : Text := (span.reverse.takeWhile (· != 0x0a)).reverse

/-- The position just past a span that begins here. After a newline the column starts again. -/
def advance (p : Position) (span : Text) : Position :=
  let lines := span.count 0x0a
  { file := p.file
    offset := p.offset + Int64.ofNat span.length
    line := p.line + Int64.ofNat lines
    column :=
      if lines = 0 then p.column + Int64.ofNat span.pointCount
      else 1 + Int64.ofNat (lastLine span).pointCount }

end Position

end RatLang
