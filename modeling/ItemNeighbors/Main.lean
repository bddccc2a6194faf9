import ItemNeighbors.CommandLine.Session

/-!
# The program

- `main`: runs the session for the arguments in the file system.
-/

namespace ItemNeighbors

/-- The error of a number, which the system may give with either sign. The errors that have a
name here have their own words, others the words of the system. -/
def FileError.ofNumber (number : UInt32) (description : String) : FileError :=
  let code := min number.toNat (UInt32.size - number.toNat)
  let named := [notFound, notADirectory, isADirectory, nameTooLong]
  (named.find? (·.code = code)).getD ⟨description, code⟩

/-- The error of a failed request. What comes without a number is a failure of input and output. -/
def FileError.ofSystem : IO.Error → FileError
  | .noFileOrDirectory _ number description => .ofNumber number description
  | .inappropriateType _ number description => .ofNumber number description
  | .invalidArgument _ number description => .ofNumber number description
  | .permissionDenied _ number description => .ofNumber number description
  | .resourceExhausted _ number description => .ofNumber number description
  | error => ⟨toString error, 5⟩

/-- Answers a request by an action that may fail. -/
def answer {α : Type} (action : IO α) : IO (Except FileError α) := do
  try
    return .ok (← action)
  catch error =>
    return .error (.ofSystem error)

/-- The length of some nanoseconds. -/
def Duration.ofNanoseconds (n : Nat) : Duration :=
  .make (UInt64.ofNat (n / 1000000000)) (UInt32.ofNat (n % 1000000000))

/-- Runs a session whose last record was logged at a time of the monotonic clock. -/
def Session.executeFrom (logged : Nat) : Session → IO UInt32
  | .done outcome => do
    IO.print outcome.stdout
    IO.eprint outcome.stderr
    return outcome.code
  | .log record next => do
    let now ← IO.monoNanosNow
    IO.eprintln ("INFO " ++ record.text (.ofNanoseconds (now - logged)))
    next.executeFrom now
  | .read path next => do
    (next (← answer (IO.FS.readBinFile path))).executeFrom logged
  | .write path text next => do
    (next (← answer (IO.FS.writeFile path text))).executeFrom logged

end ItemNeighbors

/-- The command line. -/
def main (args : List String) : IO UInt32 := do
  (ItemNeighbors.Session.ofArgs args).executeFrom (← IO.monoNanosNow)
