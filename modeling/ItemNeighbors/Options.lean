/-!
# Command line options

An option has a short name of one character and a long one. Some options take a value.

- `-x value`, `-xvalue`, `--name value` and `--name=value` give a value, which may be any text.
- `-abc` gives several options at once; one that takes a value takes the rest of the argument.
- `--` ends the options. All other arguments mean nothing, a lone dash among them.

- `GivenOption.ofArgs`: the options that some arguments give, or what is wrong with them.
- `OptionProblem`: what can be wrong.
-/

namespace ItemNeighbors

/-- An option that a program knows. -/
structure OptionSpec (α : Type) where
  /-- What the program knows it as. -/
  key : α
  short : Char
  long : String
  /-- What its value is called, if it takes one. -/
  valueName : Option String
  /-- What it is good for. -/
  purpose : String

/-- Whether a value belongs to the option. -/
def OptionSpec.takesValue {α : Type} (spec : OptionSpec α) : Bool := spec.valueName.isSome

/-- What is wrong with some arguments. -/
inductive OptionProblem where
  /-- There is no option of this name. -/
  | unrecognized (name : String)
  /-- The arguments end where the value of an option should follow. -/
  | valueMissing (name : String)
  /-- An option got a value that takes none. -/
  | valueUnexpected (name : String)
  /-- An option was given twice; its long name counts. -/
  | repeated (long : String)
deriving DecidableEq

/-- The wording of the problem. -/
def OptionProblem.message : OptionProblem → String
  | unrecognized name => "Unrecognized option: '" ++ name ++ "'"
  | valueMissing name => "Argument to option '" ++ name ++ "' missing"
  | valueUnexpected name => "Option '" ++ name ++ "' does not take an argument"
  | repeated long => "Option '" ++ long ++ "' given more than once"

/-- An option as it was given, with its value if it takes one. -/
structure GivenOption (α : Type) where
  key : α
  value : Option String

/-- What one argument gives. -/
structure ArgReading (α : Type) where
  /-- The options that are complete. -/
  given : List (GivenOption α)
  /-- An option, by the name used for it, whose value is the next argument. -/
  pending : Option (α × String)

namespace ArgReading

variable {α : Type}

/-- An argument without meaning. -/
def nothing : ArgReading α := ⟨[], none⟩

/-- Puts an option before those of a reading. -/
def prepend (option : GivenOption α) (reading : ArgReading α) : ArgReading α :=
  { reading with given := option :: reading.given }

/-- Reads the characters behind a single dash. -/
def ofShort (specs : List (OptionSpec α)) : List Char → Except OptionProblem (ArgReading α)
  | [] => .ok nothing
  | c :: rest =>
    match specs.find? (·.short = c) with
    | none => .error (.unrecognized (String.singleton c))
    | some spec =>
      if !spec.takesValue then (ofShort specs rest).map (prepend ⟨spec.key, none⟩)
      else if rest.isEmpty then .ok ⟨[], some (spec.key, String.singleton c)⟩
      else .ok ⟨[⟨spec.key, some (String.ofList rest)⟩], none⟩

/-- Whether an option goes by a name that follows two dashes: its long name, or its short one. -/
def goesBy (spec : OptionSpec α) (name : List Char) : Bool :=
  name = spec.long.toList || name = [spec.short]

/-- Reads the characters behind two dashes. -/
def ofLong (specs : List (OptionSpec α)) (text : List Char) :
    Except OptionProblem (ArgReading α) :=
  let chars := text.takeWhile (· ≠ '=')
  let name := String.ofList chars
  let value := (text.dropWhile (· ≠ '=')).tail?.map String.ofList
  match specs.find? (goesBy · chars) with
  | none => .error (.unrecognized name)
  | some spec =>
    match spec.takesValue, value with
    | true, none => .ok ⟨[], some (spec.key, name)⟩
    | false, some _ => .error (.valueUnexpected name)
    | _, value => .ok ⟨[⟨spec.key, value⟩], none⟩

/-- Reads one argument. -/
def ofArg (specs : List (OptionSpec α)) (arg : String) : Except OptionProblem (ArgReading α) :=
  match arg.toList with
  | '-' :: '-' :: text => ofLong specs text
  | '-' :: text => ofShort specs text
  | _ => .ok nothing

end ArgReading

namespace GivenOption

variable {α : Type}

/-- Reads all arguments, from the first to the last or to the end of the options. -/
def read (specs : List (OptionSpec α)) :
    List String → Except OptionProblem (List (GivenOption α))
  | [] => .ok []
  | arg :: rest =>
    if arg = "--" then .ok []
    else
      match ArgReading.ofArg specs arg with
      | .error problem => .error problem
      | .ok ⟨given, none⟩ => (read specs rest).map (given ++ ·)
      | .ok ⟨given, some (key, name)⟩ =>
        match rest with
        | [] => .error (.valueMissing name)
        | value :: rest => (read specs rest).map (given ++ ⟨key, some value⟩ :: ·)

/-- The options that some arguments give. No option may be given twice; that is looked into last,
in the order in which the options are declared. -/
def ofArgs [BEq α] (specs : List (OptionSpec α)) (args : List String) :
    Except OptionProblem (List (GivenOption α)) := do
  let given ← read specs args
  match specs.find? fun spec => 1 < given.countP (·.key == spec.key) with
  | some spec => throw (.repeated spec.long)
  | none => return given

end GivenOption

end ItemNeighbors
