/-!
# Types

Every value has one of seven types. A declared type asks for one of them, or for a list whose items
all satisfy a declared type.
-/

namespace Script

inductive ValueType where
  | integer
  | string
  | boolean
  | list
  | void
  | function
  | type
  deriving DecidableEq, Inhabited

namespace ValueType

def all : List ValueType := [integer, string, boolean, list, void, function, type]

def name : ValueType → String
  | integer => "Integer"
  | string => "String"
  | boolean => "Boolean"
  | list => "List"
  | void => "Void"
  | function => "Function"
  | type => "Type"

def ofName? (name : String) : Option ValueType :=
  all.find? fun t => t.name = name

/-- The types that have a name in every program; `nil` is a second name of `Void`. -/
def builtin? : String → Option ValueType
  | "nil" => some void
  | "Void" => some void
  | "Integer" => some integer
  | "String" => some string
  | "Boolean" => some boolean
  | "List" => some list
  | _ => none

end ValueType

inductive DeclaredType where
  | exactly (t : ValueType)
  | listOf (element : DeclaredType)
  deriving DecidableEq, Inhabited

def DeclaredType.text : DeclaredType → String
  | exactly t => t.name
  | listOf element => element.text ++ "[]"

end Script
