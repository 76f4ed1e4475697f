import RatLang.Text

/-!
# Paths

File paths as texts of names divided by slashes. A path is normal when it has no empty name, no `.`
and no `..` except at the beginning of a relative path; `normal` finds that form without looking at
any file.
-/
namespace RatLang.Path

/-- The byte between the names of a path. -/
def slash : UInt8 := 0x2f

/-- `.`, the directory itself. -/
def here : Text := [0x2e]

/-- `..`, the directory above. -/
def above : Text := [0x2e, 0x2e]

/-- Whether the path starts at the root. -/
def isAbsolute (p : Text) : Bool := p.head? == some slash

/-- Goes one name further, where `stack` holds the names so far, the last one first. -/
def follow (absolute : Bool) (stack : List Text) (name : Text) : List Text :=
  if name == [] || name == here then stack
  else if name == above then
    match stack with
    | [] => if absolute then [] else [above]
    | top :: below => if top == above then above :: stack else below
  else name :: stack

/-- The names of the normal form of a path. -/
def names (p : Text) : List Text :=
  ((p.splitOn slash).foldl (follow (isAbsolute p)) []).reverse

/-- The normal form of a path. -/
def normal (p : Text) : Text :=
  if isAbsolute p then slash :: Text.join [slash] (names p)
  else if (names p).isEmpty then here
  else Text.join [slash] (names p)

/-- The path that goes through the parts in order, in normal form. Empty parts do not count, and
nothing but empty parts is the empty path. -/
def join (parts : List Text) : Text :=
  let parts := parts.filter (!·.isEmpty)
  if parts.isEmpty then [] else normal (Text.join [slash] parts)

/-- The text after the last slash. -/
def lastName (p : Text) : Text := (p.splitOn slash).getLastD []

/-- The text up to the last slash, with that slash. -/
def upToLastName (p : Text) : Text := p.take (p.length - (lastName p).length)

/-- The path without slashes at its end. -/
def withoutTrailing (p : Text) : Text := (p.reverse.dropWhile (· == slash)).reverse

/-- The last name of a path: `.` for the empty path, `/` for the root. -/
def base (p : Text) : Text :=
  if p.isEmpty then here
  else if (withoutTrailing p).isEmpty then [slash]
  else lastName (withoutTrailing p)

/-- The directory that a path lies in. -/
def parent (p : Text) : Text := normal (upToLastName p)

/-- The part of the last name from its last dot on. -/
def extension (p : Text) : Text :=
  match (lastName p).reverse.span (· != 0x2e) with
  | (after, _ :: _) => 0x2e :: after.reverse
  | (_, []) => []

/-- The last name without its extension. -/
def stem (p : Text) : Text := (base p).withoutEnding (extension (base p))

end RatLang.Path
