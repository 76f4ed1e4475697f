import RatLang.Text.Numeral

/-!
# Symbols

A symbol table gives consecutive addresses to names in the order of their first declaration.
Addresses are 64-bit words and wrap. Declaring a name again changes nothing.
-/
namespace RatLang

/-- The address of the first symbol unless another is asked for. -/
def defaultBase : Int64 := 9000

/-- A declared name with its address and type. -/
structure Symbol where
  name : Text
  address : Int64
  type : Text
  deriving DecidableEq, Repr

/-- The symbols declared so far, the first of them at `base`. -/
structure SymbolTable where
  base : Int64 := defaultBase
  entries : List Symbol := []
  deriving DecidableEq, Repr

namespace SymbolTable

/-- The address of the next new symbol. -/
def next (s : SymbolTable) : Int64 := s.base + Int64.ofNat s.entries.length

/-- The symbol with a name. -/
def lookup (s : SymbolTable) (name : Text) : Option Symbol := s.entries.find? fun e => e.name = name

/-- The table with a name declared. -/
def declare (s : SymbolTable) (name type : Text) : SymbolTable :=
  if (s.lookup name).isSome then s
  else { s with entries := s.entries ++ [⟨name, s.next, type⟩] }

/-- The table with several names of one type declared, in order. -/
def declareAll (s : SymbolTable) (names : List Text) (type : Text) : SymbolTable :=
  names.foldl (fun table name => table.declare name type) s

end SymbolTable

end RatLang
