/-! Outlines: named records, lists and atoms, written in one line or indented. -/
namespace VhdlGates

inductive Outline where
  | atom (text : String)
  | tuple (name : String) (part : Outline)
  | record (name : String) (fields : List (String × Outline))
  | list (items : List Outline)

namespace Outline

mutual

/-- The outline in one line. -/
def inline : Outline → String
  | atom text => text
  | tuple name part => name ++ "(" ++ inline part ++ ")"
  | record name fields => name ++ " \x7b " ++ ", ".intercalate (inlineFields fields) ++ " \x7d"
  | list items => "[" ++ ", ".intercalate (inlineItems items) ++ "]"

def inlineFields : List (String × Outline) → List String
  | [] => []
  | (name, value) :: rest => (name ++ ": " ++ inline value) :: inlineFields rest

def inlineItems : List Outline → List String
  | [] => []
  | item :: rest => inline item :: inlineItems rest

end

/-- Four more columns of indentation. -/
def deeper (margin : String) : String := margin ++ "    "

mutual

/-- The outline over several lines; `margin` is the indentation of the line that it starts in.
Every part has a line of its own that ends in a comma. -/
def block (margin : String) : Outline → String
  | atom text => text
  | tuple name part =>
    name ++ "(\n" ++ deeper margin ++ block (deeper margin) part ++ ",\n" ++ margin ++ ")"
  | record name fields => name ++ " \x7b\n" ++ blockFields margin fields ++ margin ++ "\x7d"
  | list [] => "[]"
  | list (item :: rest) => "[\n" ++ blockItems margin (item :: rest) ++ margin ++ "]"

def blockFields (margin : String) : List (String × Outline) → String
  | [] => ""
  | (name, value) :: rest =>
    deeper margin ++ name ++ ": " ++ block (deeper margin) value ++ ",\n" ++
      blockFields margin rest

def blockItems (margin : String) : List Outline → String
  | [] => ""
  | item :: rest =>
    deeper margin ++ block (deeper margin) item ++ ",\n" ++ blockItems margin rest

end

end Outline

end VhdlGates
