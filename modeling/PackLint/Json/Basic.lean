/-! # JSON values

    The values that a data pack is described with.  A number is an integer or a
    binary fraction, as its text says.  The members of an object that was read
    stand in the order of their names, each name once; `Json.insertMember` keeps
    them so. -/

namespace PackLint

inductive Json
  | null
  | bool (b : Bool)
  | int (n : Int)
  | float (x : Float)
  | str (s : String)
  | arr (items : List Json)
  | obj (members : List (String × Json))
deriving Inhabited

namespace Json

/-- Puts a member in its place in the order of names.  It takes the place of an
    earlier member of its name. -/
def insertMember (name : String) (value : Json) :
    List (String × Json) → List (String × Json)
  | [] => [(name, value)]
  | (n, v) :: rest =>
      if name < n then (name, value) :: (n, v) :: rest
      else if name = n then (name, value) :: rest
      else (n, v) :: insertMember name value rest

def isObject : Json → Bool
  | obj _ => true
  | _ => false

/-- The member of an object with this name.  Nothing else has members. -/
def member? (name : String) : Json → Option Json
  | obj members => members.lookup name
  | _ => none

/-- The member with this name, if it is an object. -/
def object? (name : String) (v : Json) : Option Json :=
  (v.member? name).filter isObject

/-- An integer that fits a signed word of 64 bits. -/
def int64? : Json → Option Int
  | int n => if -0x8000000000000000 ≤ n ∧ n < 0x8000000000000000 then some n else none
  | _ => none

/-- The member with this name, if it is an integer of 64 bits. -/
def integer? (name : String) (v : Json) : Option Int :=
  (v.member? name).bind int64?

def string? : Json → Option String
  | str s => some s
  | _ => none

end Json

end PackLint
