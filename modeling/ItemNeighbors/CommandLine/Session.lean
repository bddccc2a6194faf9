import ItemNeighbors.Builder
import ItemNeighbors.CommandLine.Settings
import ItemNeighbors.Duration
import ItemNeighbors.RatingTable
import ItemNeighbors.Report

/-!
# Sessions

A session is a run of the program seen from the outside: it reads and writes files, one after the
other, logs what it is about, and ends with texts for the standard streams and an exit code. What it
does next depends on nothing but the answers it gets.

- `Settings.model`: the model of a snapshot.
- `RunFailure`: what can keep a run from its end.
- `LogRecord`: what a run logs.
- `Session`: a run as a chain of requests.
- `Session.run`: what a session leads to in a file system.
- `Session.ofArgs`: the run for some arguments. Nothing is written before everything has been read
  and computed.
-/

namespace ItemNeighbors

/-- Why a file cannot be read or written: the words and the number of the system for it. -/
structure FileError where
  description : String
  code : Nat
deriving DecidableEq

namespace FileError

/-- The text that tells a person about the error. -/
def message (e : FileError) : String :=
  e.description ++ " (os error " ++ toString e.code ++ ")"

/-- Nothing has the name. -/
def notFound : FileError := ⟨"No such file or directory", 2⟩

/-- A file stands where a directory should. -/
def notADirectory : FileError := ⟨"Not a directory", 20⟩

/-- A directory stands where a file should. -/
def isADirectory : FileError := ⟨"Is a directory", 21⟩

/-- A path or a name in it has too many bytes. -/
def nameTooLong : FileError := ⟨"File name too long", 36⟩

end FileError

/-- How a run ends. -/
structure Outcome where
  code : UInt32
  stdout : String
  /-- What it says at its end. The records of its log go to the same stream, but are no part of
  this text: whether and how they are shown is up to the environment. -/
  stderr : String
deriving DecidableEq

namespace Outcome

/-- A success, with what it prints. There is nothing more to say than what has been logged. -/
def success (text : String) : Outcome := ⟨0, text, ""⟩

/-- A failure, with what it says. -/
def failure (text : String) : Outcome := ⟨1, "", text⟩

end Outcome

/-- What a run logs. -/
inductive LogRecord where
  /-- The input is about to be read. -/
  | reading (path : String)
  /-- The input has been read. -/
  | found (ratings users items : Nat)
  /-- The build is about to begin. -/
  | computing (neighbors : Nat)
  /-- The ratings have been transposed. -/
  | transposed (users items : Nat)
  /-- The matrix has been filled. -/
  | computed (similarities : Nat)
  /-- The report is about to be handed over. -/
  | writing
deriving DecidableEq

/-- The text of a record that is logged some time after the one before. -/
def LogRecord.text (elapsed : Duration) : LogRecord → String
  | reading path => "Reading ratings from " ++ path
  | found ratings users items =>
    "Found " ++ toString ratings ++ " ratings between " ++ toString users ++ " users and "
      ++ toString items ++ " items."
  | computing neighbors =>
    "Computing the " ++ toString neighbors ++ " most similar items per item"
  | transposed users items =>
    "Transposed ratings of " ++ toString users ++ " users into " ++ toString items
      ++ " item vectors in " ++ toString elapsed.milliseconds ++ "ms"
  | computed similarities =>
    "Computed " ++ toString similarities ++ " item similarities in "
      ++ toString elapsed.milliseconds ++ "ms"
  | writing => "Writing neighborhoods..."

/-- A run of the program. -/
inductive Session where
  /-- It ends. -/
  | done (outcome : Outcome)
  /-- It logs something and goes on. -/
  | log (record : LogRecord) (next : Session)
  /-- It wants the bytes of a file and goes on with them. -/
  | read (path : String) (next : Except FileError ByteArray → Session)
  /-- It wants a file to hold a text and goes on when that is settled. -/
  | write (path : String) (text : String) (next : Except FileError Unit → Session)

/-- What a session can do with files, in a system whose states are of type `σ`. -/
structure FileSystem (σ : Type) where
  /-- The bytes of the file at a path. -/
  read : σ → String → Except FileError ByteArray
  /-- The state where the file at a path holds a text. -/
  write : σ → String → String → Except FileError σ

/-- What a session leads to, and the state it leaves behind. A request that fails changes
nothing, and what is logged touches no file. -/
def Session.run {σ : Type} (fs : FileSystem σ) (state : σ) : Session → Outcome × σ
  | .done outcome => (outcome, state)
  | .log _ next => next.run fs state
  | .read path next => (next (fs.read state path)).run fs state
  | .write path text next =>
    match fs.write state path text with
    | .ok changed => (next (.ok ())).run fs changed
    | .error e => (next (.error e)).run fs state

/-- Why a run that was started well does not reach its end. -/
inductive RunFailure where
  /-- A file could not be read or written. -/
  | file (error : FileError)
  /-- The input is no table of ratings. -/
  | table (error : TableError)
  /-- There is no model of the ratings. -/
  | build (failure : BuildFailure)
deriving DecidableEq

/-- The text that tells a person about the failure. -/
def RunFailure.message : RunFailure → String
  | file error => error.message
  | table error => error.message
  | build (.refused error) => error.message
  | build .similarityFailed => "The similarity gave no answer"

namespace Settings

/-- How much a baseline of the program trusts the mean of all ratings, as a number of ratings. -/
def baselineDamping : Float := 5.0

/-- The builder for a snapshot. Its baseline is trained on the ratings as they are, its neighbors
are computed from the normalized ones. -/
def builder (s : Settings) (snapshot : PackedSnapshot) : Builder :=
  Builder.new
    |>.withSimilarity (s.similarity.similarity s.damping)
    |>.withAccumulatorFactory (Truncation.factory ⟨s.numNeighbors, s.threshold⟩)
    |>.withNormalizedSnapshot (snapshot.normalized s.normalizer).toSnapshot
    |>.withBaseline (.itemMeans (ItemMeans.train snapshot.toSnapshot baselineDamping))
    |>.withNormalizer s.normalizer

/-- The model of a snapshot. -/
def model (s : Settings) (snapshot : PackedSnapshot) : Except BuildFailure Model :=
  (s.builder snapshot).build.2.result

end Settings

namespace Session

/-- The usage text of the program. -/
def usage : String := Usage.text "itemknn" Setting.specs

/-- The end of a run that cannot go on. -/
def fail (failure : RunFailure) : Session := .done (.failure (failure.message ++ "\n"))

/-- Hands a report over. -/
def deliver (outputFile : Option String) (report : String) : Session :=
  match outputFile with
  | none => .done (.success report)
  | some path =>
    .write path report fun
      | .ok () => .done (.success "")
      | .error e => fail (.file e)

/-- Builds the model of a snapshot and hands its report over. What the build has to log it logs when
it has succeeded. -/
def ofSnapshot (s : Settings) (snapshot : PackedSnapshot) : Session :=
  .log (.computing s.numNeighbors) <|
    match s.model snapshot with
    | .error failure => fail (.build failure)
    | .ok model =>
      .log (.transposed (snapshot.normalized s.normalizer).userIds.size model.items.size) <|
      .log (.computed model.matrix.scoreCount) <|
      .log .writing <|
      deliver s.outputFile model.matrix.report

/-- Computes the neighbors. -/
def ofSettings (s : Settings) : Session :=
  .log (.reading s.inputFile) <| .read s.inputFile fun
    | .error e => fail (.file e)
    | .ok table =>
      match RatingTable.read (Source.ofBytes table) with
      | .error e => fail (.table e)
      | .ok snapshot =>
        .log (.found snapshot.numRatings snapshot.userIds.size snapshot.itemIds.size)
          (ofSnapshot s snapshot)

/-- The run for some arguments. -/
def ofArgs (args : List String) : Session :=
  match Request.ofArgs args with
  | .error problem => .done (.failure ("\n" ++ problem.message ++ "\n\n" ++ usage))
  | .ok .help => .done ⟨0, "", usage⟩
  | .ok (.neighbors settings) => ofSettings settings

end Session

end ItemNeighbors
