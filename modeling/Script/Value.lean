import Script.Error
import Script.Stmt
import Script.Value.Type

/-!
# Values

What expressions evaluate to. The host may hand over a literal that is still thin: it has a type and
a text like the value it stands for, and it is promoted to that value before it is stored or
computed with. Functions are told apart by identity: each one that a program makes has a number of
its own, and the natives of the host have a name.
-/

namespace Script

/-- A literal of the host, not yet a value of the language. -/
inductive ThinLiteral where
  | integer (value : Integer)
  | string (value : String)
  | boolean (value : Bool)
  | nil
  deriving DecidableEq, Inhabited

/-- The functions that the host implements. -/
inductive Native where
  | print
  | listLen
  | listPush
  | listRange
  | stringLen
  | stringOf
  | stringUpper
  deriving DecidableEq, Inhabited

def Native.name : Native → String
  | print => "print"
  | listLen | stringLen => "len"
  | listPush => "push"
  | listRange => "range"
  | stringOf => "to_string"
  | stringUpper => "upper"

/-- A function that a program declares. The type inferred for its results is not part of it but of
the run, which knows it by the function's number. -/
structure UserFunction where
  id : Nat
  name : String
  parameters : List (Identifier × Option DeclaredType)
  returns : Option DeclaredType
  body : Block
  position : Position
  deriving Inhabited

inductive Value where
  | integer (value : Integer)
  | string (value : String)
  | boolean (value : Bool)
  | list (items : List Value)
  | void
  | function (f : UserFunction)
  | native (f : Native)
  | type (t : ValueType)
  | thin (literal : ThinLiteral)
  deriving Inhabited

namespace ThinLiteral

/-- The value a literal stands for. -/
def value : ThinLiteral → Value
  | integer n => .integer n
  | string s => .string s
  | boolean b => .boolean b
  | nil => .void

end ThinLiteral

namespace Value

/-- A thin literal becomes the value it stands for; other values stay, the items of a list too. -/
def promote : Value → Value
  | thin literal => literal.value
  | value => value

def typeOf : Value → ValueType
  | integer _ | thin (.integer _) => .integer
  | string _ | thin (.string _) => .string
  | boolean _ | thin (.boolean _) => .boolean
  | list _ => .list
  | void | thin .nil => .void
  | function _ | native _ => .function
  | type _ => .type

end Value

/-- Whether a value is the one the literal stands for. -/
def ThinLiteral.equals (literal : ThinLiteral) (value : Value) : Bool :=
  match literal, value with
  | integer a, .integer b | integer a, .thin (integer b) => a == b
  | string a, .string b | string a, .thin (string b) => a == b
  | boolean a, .boolean b | boolean a, .thin (boolean b) => a == b
  | nil, .void | nil, .thin nil => true
  | _, _ => false

namespace Value

mutual

/-- Equality as the language sees it: lists item by item, user functions by identity, natives by
name, and a thin literal like the value it stands for. -/
def equals : Value → Value → Bool
  | thin literal, value | value, thin literal => literal.equals value
  | integer a, integer b => a == b
  | string a, string b => a == b
  | boolean a, boolean b => a == b
  | list items, list items' => allEqual items items'
  | void, void => true
  | function f, function g => f.id == g.id
  | native f, native g => f.name == g.name
  | type t, type u => t == u
  | _, _ => false

def allEqual : List Value → List Value → Bool
  | [], [] => true
  | item :: items, item' :: items' => equals item item' && allEqual items items'
  | _, _ => false

end

mutual

/-- The text of a value by itself. A string stands for itself. -/
def display : Value → String
  | integer n | thin (.integer n) => toString n
  | string s | thin (.string s) => s
  | boolean b | thin (.boolean b) => toString b
  | list items => "[" ++ ", ".intercalate (displayItems items) ++ "]"
  | void | thin .nil => "nil"
  | function f => "<function " ++ f.name ++ ">"
  | native f => "<native function " ++ f.name ++ ">"
  | type t => t.name

/-- The texts of the items of a list. A string is quoted there. -/
def displayItems : List Value → List String
  | [] => []
  | string s :: items | thin (.string s) :: items => quote s :: displayItems items
  | item :: items => display item :: displayItems items

end

end Value

namespace DeclaredType

/-- Whether a value satisfies a declared type. -/
def accepts : DeclaredType → Value → Bool
  | exactly t, value => value.typeOf == t
  | listOf element, .list items => items.all element.accepts
  | listOf _, _ => false

/-- How a value that is not accepted is described: by its type, or for a list by the first item that
does not fit. -/
def offence : DeclaredType → Value → String
  | listOf element, .list items =>
    match items.find? fun item => !element.accepts item with
    | some item => "List containing " ++ item.typeOf.name
    | none => ValueType.list.name
  | _, value => value.typeOf.name

def check (declared : DeclaredType) (value : Value) : Except Cause Unit :=
  if declared.accepts value then .ok ()
  else .error (.typeMatch declared.text (declared.offence value))

end DeclaredType

end Script
