import Mathlib.Data.List.Basic

/-! # JSON values

    The value type of the JSON library the code uses.  An object is the list of
    its entries; a number keeps the library's three representations, because its
    equality does.
-/

inductive JsonNumber where
  | posInt (n : Nat)
  | negInt (n : Int)
  /-- IEEE-754 bits of a finite double. -/
  | float (bits : UInt64)
deriving DecidableEq, Repr

inductive Json where
  | null
  | bool (b : Bool)
  | num (n : JsonNumber)
  | str (s : String)
  | arr (items : List Json)
  | obj (entries : List (String × Json))
deriving Repr, Inhabited

namespace Json

def isNull : Json → Bool
  | null => true
  | _ => false

/-- The entry of an object under `key`; nothing on any other value. -/
def get (key : String) : Json → Option Json
  | obj entries => entries.lookup key
  | _ => none

def asStr : Json → Option String
  | str s => some s
  | _ => none

/-- The characters of a string. -/
def asText (v : Json) : Option (List Char) := v.asStr.map String.toList

def asArray : Json → Option (List Json)
  | arr items => some items
  | _ => none

def asObject : Json → Option (List (String × Json))
  | obj entries => some entries
  | _ => none

def asU64 : Json → Option Nat
  | num (.posInt n) => some n
  | _ => none

def nat (n : Nat) : Json := num (.posInt n)

end Json
