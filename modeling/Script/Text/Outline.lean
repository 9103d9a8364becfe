/-!
# Outlines

A value written out over several lines, one part a line, each level indented by four blanks and each
part followed by a comma. The debug listing of a failure is an outline.
-/

namespace Script

inductive Outline where
  | leaf (text : String)
  | field (label : String) (value : Outline)
  | group (opening : String) (parts : List Outline) (closing : String)
  deriving Inhabited

namespace Outline

def record (name : String) (fields : List (String × Outline)) : Outline :=
  group (name ++ " \x7b") (fields.map fun (label, value) => field label value) "\x7d"

def variant (name : String) (part : Outline) : Outline :=
  group (name ++ "(") [part] ")"

def sequence (parts : List Outline) : Outline :=
  group "[" parts "]"

def optional : Option Outline → Outline
  | none => leaf "None"
  | some part => variant "Some" part

mutual

/-- The text from the current column on; `indent` is the indentation of the line it starts on. -/
def renderAt (indent : String) : Outline → String
  | leaf text => text
  | field label value => label ++ ": " ++ renderAt indent value
  | group opening [] closing => opening ++ closing
  | group opening (part :: parts) closing =>
    opening ++ "\n" ++ renderParts (indent ++ "    ") (part :: parts) ++ indent ++ closing

def renderParts (indent : String) : List Outline → String
  | [] => ""
  | part :: parts => indent ++ renderAt indent part ++ ",\n" ++ renderParts indent parts

end

def render (outline : Outline) : String :=
  renderAt "" outline

end Outline

end Script
