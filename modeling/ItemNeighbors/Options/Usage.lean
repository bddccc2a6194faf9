import ItemNeighbors.Options

/-!
# Usage texts

- `usage`: a text with one row for each option, its names on the left and its purpose on the right.
- `fill`: words set in lines of limited width.
-/

namespace ItemNeighbors

namespace Usage

/-- The column where purposes begin. -/
def indent : Nat := 24

/-- The widest line of a purpose, unless a single word is wider. -/
def width : Nat := 54

/-- Sets words in lines: each goes into the line that is open, after a blank, if it fits there. -/
def fillFrom (width : Nat) (line : String) : List String → List String
  | [] => [line]
  | word :: rest =>
    if line.length + 1 + word.length ≤ width then fillFrom width (line ++ " " ++ word) rest
    else line :: fillFrom width word rest

/-- The lines of some words. -/
def fill (width : Nat) : List String → List String
  | [] => [""]
  | word :: rest => fillFrom width word rest

/-- A line break and the blanks up to the purposes. -/
def lineBreak : String := "\n" ++ String.ofList (List.replicate indent ' ')

/-- The names of an option and the name of its value. -/
def names {α : Type} (spec : OptionSpec α) : String :=
  "    -" ++ String.singleton spec.short ++ ", --" ++ spec.long ++ " " ++ spec.valueName.getD ""

/-- The row of an option. Names that leave no room for the purpose have a line of their own. -/
def row {α : Type} (spec : OptionSpec α) : String :=
  let names := names spec
  let gap :=
    if names.length < indent then String.ofList (List.replicate (indent - names.length) ' ')
    else lineBreak
  let words := (spec.purpose.splitOn " ").filter (· ≠ "")
  names ++ gap ++ String.intercalate lineBreak (fill width words)

/-- How a program is called, and its options. -/
def text {α : Type} (program : String) (specs : List (OptionSpec α)) : String :=
  "Usage: " ++ program ++ " [options]\n\nOptions:\n" ++ String.intercalate "\n" (specs.map row)
    ++ "\n"

end Usage

end ItemNeighbors
