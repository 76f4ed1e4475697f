import RatLang.Yaml.Encoding

/-!
# Reading characters

The bytes of a YAML text are read and decoded in pieces of 512, each when the scanner wants to look
at more characters than it has. A piece that cannot be decoded therefore does no harm as long as
nobody looks at it.
-/
namespace RatLang.Yaml

/-- The part of a text that is not scanned yet. -/
structure Input where
  /-- The characters that are decoded. -/
  ahead : List Char := []
  /-- Their number. -/
  size : Nat := 0
  /-- The bytes that are read and not decoded. -/
  raw : Text := []
  /-- The bytes that are not read. -/
  rest : Text
  /-- Whether the end of the text was met. -/
  ended : Bool := false
  /-- The encoding, once something was read. -/
  encoding : Option Encoding := none
  /-- Whether the decoded characters began with a byte order mark when the last ones were added. -/
  marked : Bool := false
  deriving Repr

namespace Input

/-- The number of bytes that are kept at a time. -/
def pieceSize : Nat := 512

/-- Reads the next piece. The end shows when there is nothing more to read. -/
def read (i : Input) : Input :=
  let piece := i.rest.take (pieceSize - i.raw.length)
  if piece.isEmpty then { i with ended := true }
  else { i with raw := i.raw ++ piece, rest := i.rest.drop piece.length }

/-- Finds out the encoding, for which three bytes are read if there are as many. -/
def start (i : Input) : Encoding × Input :=
  match i.encoding with
  | some e => (e, i)
  | none =>
    let i := i.read
    let i := if i.raw.length < 3 then i.read else i
    let (e, raw) := Encoding.detect i.raw
    (e, { i with raw, encoding := some e })

/-- Decodes the bytes that are read. -/
def decode (i : Input) (e : Encoding) : Input × Option Problem :=
  let (cs, raw, problem) := e.decode i.ended i.raw.length i.raw
  ({ i with ahead := i.ahead ++ cs, size := i.size + cs.length, raw }, problem)

/-- Reads pieces until there are `n` characters. The end of the text adds one that stands for it.
Every round but the last reads something, so the bytes to be read are fuel enough. -/
def fill (e : Encoding) (n : Nat) : Nat → Bool → Input → Input × Option Problem
  | 0, _, i => (i, none)
  | fuel + 1, first, i =>
    if n ≤ i.size then (i, none)
    else
      let i := if first && !i.raw.isEmpty then i else i.read
      match i.decode e with
      | (i, some problem) => (i, some problem)
      | (i, none) =>
        if i.ended then ({ i with ahead := i.ahead ++ ['\x00'], size := i.size + 1 }, none)
        else fill e n fuel false i

/-- Makes sure that there are `n` characters to look at. -/
def ensure (i : Input) (n : Nat) : Input × Option Problem :=
  if n ≤ i.size then (i, none)
  else
    let (e, i) := i.start
    let (i, problem) := fill e n (i.rest.length + 3) true i
    ({ i with marked := i.ahead.head? == some byteOrderMark }, problem)

/-- The `n`th character from here on. -/
def char (i : Input) (n : Nat) : Char := i.ahead.getD n '\x00'

/-- Goes past `n` characters. -/
def drop (i : Input) (n : Nat) : Input := { i with ahead := i.ahead.drop n, size := i.size - n }

end Input

end RatLang.Yaml
