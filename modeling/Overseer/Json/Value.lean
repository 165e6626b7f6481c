import Overseer.Word

/-!
# JSON values

Whole numbers from -2^63 to 2^64 - 1 are kept exactly, all other numbers as the bits of a binary64.
The members of an object stand in the order of their keys, each key once.

    put k v m = m with v at k, in the order of the keys
-/

namespace Overseer.Json

inductive Value
  | null
  | bool (b : Bool)
  | int (i : Int)
  | float (bits : UInt64)
  | text (s : String)
  | array (items : List Value)
  | object (members : List (String × Value))

/-- Put a member in its place; the last value of a key counts. -/
def put {α : Type} (k : String) (v : α) : List (String × α) → List (String × α)
  | [] => [(k, v)]
  | (l, w) :: r =>
    if k < l then (k, v) :: (l, w) :: r
    else if k = l then (k, v) :: r
    else (l, w) :: put k v r

/-- The members of an object from pairs in any order. -/
def members (kvs : List (String × Value)) : List (String × Value) :=
  kvs.foldl (fun m kv => put kv.1 kv.2 m) []

namespace Value

def ofNat (n : Nat) : Value := int n

/-- An object from pairs in any order. -/
def ofPairs (kvs : List (String × Value)) : Value := object (members kvs)

def find? (k : String) : List (String × Value) → Option Value
  | [] => none
  | (l, v) :: r => if l = k then some v else find? k r

def asText? : Value → Option String
  | text s => some s
  | _ => none

/-- A whole number of 64 bits with sign. -/
def asInt64? : Value → Option Int
  | int i => if i < Word.half64 then some i else none
  | _ => none

def asMembers? : Value → Option (List (String × Value))
  | object m => some m
  | _ => none

end Value

end Overseer.Json
