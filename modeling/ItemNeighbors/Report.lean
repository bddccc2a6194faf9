import ItemNeighbors.Decimal.Shortest
import ItemNeighbors.SimilarityMatrix

/-!
# Neighborhood reports

The report of a matrix is a text with one line per item, each a JSON object with the item and its
neighbors in their order. How scores are written is a parameter of its parts.

- `Report.scoreText`: a score as a JSON number.
- `SimilarityMatrix.reportWith`, `SimilarityMatrix.report`: the text, with any texts for scores and
  with these.
- `Report.write`: the text, sent to a destination of limited room.
-/

namespace ItemNeighbors

namespace Report

/-- Scores are written plainly from `0.00001` up to sixteen digits before the point. -/
def scoreLayout : DecimalLayout := ⟨-5, 15⟩

/-- A sign, written only if it is negative. -/
def signChars : Float.Model.UnpackedFloat.Sign → List Char
  | .positive => []
  | .negative => ['-']

/-- A score in as few digits as tell it apart from all others; a zero keeps its sign. JSON has no
infinities, and writes `null` in their place. -/
def scoreText (score : Float) : String :=
  match score.toModel.unpack with
  | .infinity _ | .notANumber => "null"
  | .zero sign => String.ofList (signChars sign ++ ['0', '.', '0'])
  | .finite sign mantissa exponent _ =>
    String.ofList (signChars sign ++ (Decimal.shortest mantissa exponent).chars scoreLayout)

/-- A neighbor as a JSON object. -/
def neighborText (text : Float → String) (n : Neighbor) : String :=
  "\x7b\"item\":" ++ toString n.item ++ ",\"score\":" ++ text n.score ++ "\x7d"

/-- The line of an item. -/
def line (text : Float → String) (item : ItemId) (row : List Neighbor) : String :=
  "\x7b\"item\":" ++ toString item ++ ",\"neighbors\":["
    ++ String.intercalate "," (row.map (neighborText text)) ++ "]\x7d\n"

/-- What keeps a report from being written. -/
inductive WriteError where
  /-- The destination has no room left. -/
  | full
deriving DecidableEq

/-- The wording of the error. -/
def WriteError.message : WriteError → String
  | full => "writer full"

end Report

/-- One line per item, in ascending item order. -/
def SimilarityMatrix.reportWith (text : Float → String) (m : SimilarityMatrix) : String :=
  String.join (m.toList.map fun (item, row) => Report.line text item row)

/-- The report of a matrix. -/
def SimilarityMatrix.report (m : SimilarityMatrix) : String :=
  m.reportWith Report.scoreText

/-- What arrives at a destination that takes so many bytes at most, or any number. -/
def Report.write (room : Option Nat) (m : SimilarityMatrix) : Except WriteError String :=
  let text := m.report
  match room with
  | some room => if text.utf8ByteSize ≤ room then .ok text else .error .full
  | none => .ok text

end ItemNeighbors
