import ItemNeighbors.Normalizer
import ItemNeighbors.Numeral
import ItemNeighbors.Options.Usage
import ItemNeighbors.Similarity

/-!
# Settings of the command line

- `Setting.specs`: the options of the program.
- `Request.ofArgs`: what some arguments ask for.
- `UsageProblem`: why arguments ask for nothing that could be done.
-/

namespace ItemNeighbors

/-- What the options of the program set. -/
inductive Setting where
  | inputFile
  | outputFile
  | numNeighbors
  | similarity
  | damping
  | threshold
  | center
  | help
deriving DecidableEq

namespace Setting

/-- The options of the program, in the order in which its usage lists them. -/
def specs : List (OptionSpec Setting) :=
  [ { key := inputFile, short := 'i', long := "inputfile", valueName := some "PATH"
      purpose := "Input file name (required). The input consists of ratings of users for items. "
        ++ "The input file must contain a user, item and rating triple per line, separated by "
        ++ "tabs. User and item identifiers must be integers." },
    { key := outputFile, short := 'o', long := "outputfile", valueName := some "PATH"
      purpose := "Output file name (optional, output will be written to stdout by default)." },
    { key := numNeighbors, short := 'n', long := "num-neighbors", valueName := some "NUMBER"
      purpose := "Number of similar items to keep per item (optional, defaults to 20)." },
    { key := similarity, short := 's', long := "similarity", valueName := some "NAME"
      purpose := "Item similarity to use, either 'cosine' or 'pearson' (optional, defaults to "
        ++ "'cosine')." },
    { key := damping, short := 'd', long := "damping", valueName := some "NUMBER"
      purpose := "Damping term added to the denominator of the similarity (optional, defaults to "
        ++ "0)." },
    { key := threshold, short := 't', long := "threshold", valueName := some "NUMBER"
      purpose := "Only keep similarities above this value (optional, defaults to 0)." },
    { key := center, short := 'c', long := "center", valueName := none
      purpose := "Subtract each user's mean rating before computing similarities" },
    { key := help, short := 'h', long := "help", valueName := none
      purpose := "Print this help menu" } ]

end Setting

/-- The similarities that have a name. -/
inductive SimilarityName where
  | cosine
  | pearson
deriving DecidableEq

namespace SimilarityName

/-- The similarity of a name, none for other names. -/
def ofString? (name : String) : Option SimilarityName :=
  if name = "cosine" then some cosine
  else if name = "pearson" then some pearson
  else none

/-- The similarity with its damping. -/
def similarity (damping : Float) : SimilarityName → Similarity
  | cosine => Similarity.cosine damping
  | pearson => Similarity.pearson damping

end SimilarityName

/-- Everything that a computation of neighbors depends on. -/
structure Settings where
  inputFile : String
  /-- Where the report goes, the standard output if nowhere else. -/
  outputFile : Option String
  numNeighbors : Nat
  similarity : SimilarityName
  damping : Float
  threshold : Float
  normalizer : Normalizer

/-- What the program can be asked for. -/
inductive Request where
  /-- The usage text. -/
  | help
  /-- The neighbors of all items. -/
  | neighbors (settings : Settings)

/-- Why arguments cannot be followed. -/
inductive UsageProblem where
  /-- They are no options of the program. -/
  | options (problem : OptionProblem)
  /-- There is nothing to read. -/
  | inputFileMissing
  /-- An option should have a number for its value. -/
  | badNumber (option : Char) (cause : NumeralError)
  /-- There is no such similarity. -/
  | unknownSimilarity (name : String)
deriving DecidableEq

/-- The wording of the problem. -/
def UsageProblem.message : UsageProblem → String
  | options problem => problem.message
  | inputFileMissing => "Please specify an inputfile via --inputfile."
  | badNumber option cause =>
    "Problem with option '" ++ String.singleton option ++ "': " ++ cause.message
  | unknownSimilarity name => "Unknown similarity '" ++ name ++ "'."

namespace Request

/-- Whether an option was given. -/
def isGiven (given : List (GivenOption Setting)) (setting : Setting) : Bool :=
  given.any (·.key = setting)

/-- The value that an option was given. -/
def value? (given : List (GivenOption Setting)) (setting : Setting) : Option String :=
  (given.find? (·.key = setting)).bind (·.value)

/-- The number that an option was given, a default if it was not. -/
def number {α : Type} (given : List (GivenOption Setting)) (setting : Setting) (short : Char)
    (read : List Char → Except NumeralError α) (default : α) : Except UsageProblem α :=
  match value? given setting with
  | none => .ok default
  | some text => (read text.toList).mapError (.badNumber short)

/-- The similarity that was asked for. -/
def similarityName (given : List (GivenOption Setting)) : Except UsageProblem SimilarityName :=
  match value? given .similarity with
  | none => .ok .cosine
  | some name =>
    match SimilarityName.ofString? name with
    | some similarity => .ok similarity
    | none => .error (.unknownSimilarity name)

/-- The settings that some options make. The first problem in the order of this definition is the
one that is told. -/
def settings (given : List (GivenOption Setting)) : Except UsageProblem Settings := do
  let some inputFile := value? given .inputFile | throw .inputFileMissing
  let numNeighbors ← number given .numNeighbors 'n' (Numeral.word 10) 20
  let damping ← number given .damping 'd' Numeral.real 0.0
  let threshold ← number given .threshold 't' Numeral.real 0.0
  let similarity ← similarityName given
  return {
    inputFile
    outputFile := value? given .outputFile
    numNeighbors := numNeighbors.toNat
    similarity
    damping
    threshold
    normalizer := if isGiven given .center then .meanCentering else .identity }

/-- What some arguments ask for. A wish for help outweighs everything but bad options. -/
def ofArgs (args : List String) : Except UsageProblem Request := do
  let given ← (GivenOption.ofArgs Setting.specs args).mapError .options
  if isGiven given .help then return .help
  else return .neighbors (← settings given)

end Request

end ItemNeighbors
