import ItemNeighbors.Proofs.AccumulatorCalls

/-!
# What reports tell

A report can be read in one way only: each part of it ends where a character comes that the part
cannot contain. So it determines the rows of the matrix, down to the bits of the scores, as long as
the rows hold only scores whose text is their own. Of the texts of scores nothing else is used.

- `Report.Faithful`: what is used of the texts of scores.
- `Report.neighborText_append_inj`, `Report.row_append_inj`, `Report.line_append_inj`: a part of a
  report and what follows it.
- `Report.newline_not_mem_document`: where newlines are.
- `SimilarityMatrix.eq_of_reportWith_eq`: the whole report.
- `NeighborAccumulator.reportWith_determines_matrix`,
  `NeighborAccumulator.report_determines_matrix`: the matrices of accumulators.
-/

namespace ItemNeighbors

namespace Report

/-- Texts of scores that have only the characters of numbers, or are `null`, and that tell apart the
scores that a row can hold. -/
structure Faithful (text : Float → String) : Prop where
  chars : ∀ score, text score = "null" ∨ ∀ c ∈ (text score).toList, IsNumberChar c
  inj : ∀ {score score'}, IsKept score → IsKept score' → text score = text score' → score = score'

theorem faithful_scoreText : Faithful scoreText := ⟨scoreText_chars, scoreText_inj⟩

variable {text : Float → String}

/-- The part of a text up to a character that the part does not contain. -/
theorem append_cons_inj {c : Char} {l l' rest rest' : List Char} (hl : c ∉ l) (hl' : c ∉ l')
    (h : l ++ c :: rest = l' ++ c :: rest') : l = l' ∧ rest = rest' := by
  induction l generalizing l' with
  | nil =>
    cases l' with
    | nil => exact ⟨rfl, (List.cons.inj h).2⟩
    | cons b l' => exact absurd ((List.cons.inj h).1 ▸ List.mem_cons_self) hl'
  | cons a l ih =>
    cases l' with
    | nil => exact absurd ((List.cons.inj h).1 ▸ List.mem_cons_self) hl
    | cons b l' =>
      obtain ⟨rfl, htail⟩ := List.cons.inj h
      obtain ⟨rfl, hrest⟩ := ih (fun hc => hl (List.mem_cons_of_mem _ hc))
        (fun hc => hl' (List.mem_cons_of_mem _ hc)) htail
      exact ⟨rfl, hrest⟩

/-! ## Parts of a line -/

theorem toList_toString (item : ItemId) :
    (toString item).toList = Nat.toDigits 10 item.toNat := Nat.toList_repr

theorem isDigit_of_mem_toString {item : ItemId} {c : Char} (h : c ∈ (toString item).toList) :
    c.isDigit = true := by
  rw [toList_toString] at h
  exact Nat.isDigit_of_mem_toDigits (by decide) (by decide) h

/-- An item with a comma behind it. -/
theorem toString_append_inj {item item' : ItemId} {rest rest' : List Char}
    (h : (toString item).toList ++ ',' :: rest = (toString item').toList ++ ',' :: rest') :
    item = item' ∧ rest = rest' := by
  have hcomma (item : ItemId) : ',' ∉ (toString item).toList := fun hc =>
    absurd (isDigit_of_mem_toString hc) (by decide)
  obtain ⟨hdigits, hrest⟩ := append_cons_inj (hcomma item) (hcomma item') h
  rw [toList_toString, toList_toString] at hdigits
  have hvalue := congrArg (Nat.ofDigitChars 10 · 0) hdigits
  simp only [Nat.ofDigitChars_ten_toDigits] at hvalue
  exact ⟨UInt64.toNat_inj.mp hvalue, hrest⟩

/-- Characters that stand around scores and not in them. -/
theorem Faithful.not_mem (htext : Faithful text) {c : Char} (score : Float)
    (hnumber : ¬ IsNumberChar c) (hnull : c ∉ "null".toList) : c ∉ (text score).toList := by
  intro hc
  rcases htext.chars score with heq | hchars
  · rw [heq] at hc
    exact hnull hc
  · exact hnumber (hchars c hc)

/-- The characters of a neighbor. -/
theorem toList_neighborText (n : Neighbor) (rest : List Char) :
    (neighborText text n).toList ++ rest = "\x7b\"item\":".toList ++
      ((toString n.item).toList ++
        ',' :: ("\"score\":".toList ++ ((text n.score).toList ++ '\x7d' :: rest))) := by
  simp only [neighborText, String.toList_append, List.append_assoc]
  rfl

/-- A neighbor and what follows it. -/
theorem neighborText_append_inj (htext : Faithful text) {n n' : Neighbor}
    {rest rest' : List Char} (hn : IsKept n.score) (hn' : IsKept n'.score)
    (h : (neighborText text n).toList ++ rest = (neighborText text n').toList ++ rest') :
    n = n' ∧ rest = rest' := by
  have hbrace (score : Float) : '\x7d' ∉ (text score).toList :=
    htext.not_mem score (by unfold IsNumberChar; decide) (by decide)
  rw [toList_neighborText, toList_neighborText] at h
  obtain ⟨hitem, h⟩ := toString_append_inj (List.append_cancel_left h)
  obtain ⟨hscore, hrest⟩ := append_cons_inj (hbrace n.score) (hbrace n'.score)
    (List.append_cancel_left h)
  have hscore' : n.score = n'.score := htext.inj hn hn' (String.toList_inj.mp hscore)
  obtain ⟨item, score⟩ := n
  obtain ⟨item', score'⟩ := n'
  obtain rfl : item = item' := hitem
  obtain rfl : score = score' := hscore'
  exact ⟨rfl, hrest⟩

/-! ## Rows -/

/-- The neighbors of a row after the first one, each behind a comma. -/
def tailChars (text : Float → String) (row : List Neighbor) : List Char :=
  row.flatMap fun n => ',' :: (neighborText text n).toList

/-- The text of a row: its first neighbor and the others. -/
theorem toList_row_cons (n : Neighbor) (row : List Neighbor) :
    (String.intercalate "," ((n :: row).map (neighborText text))).toList =
      (neighborText text n).toList ++ tailChars text row := by
  rw [String.toList_intercalate]
  induction row generalizing n with
  | nil => exact List.intercalate_singleton.trans (List.append_nil _).symm
  | cons next row ih =>
    have hrest := ih next
    rw [List.map_cons, List.map_cons] at hrest
    rw [List.map_cons, List.map_cons, List.map_cons, List.map_cons, List.intercalate_cons_cons,
      hrest, List.append_assoc]
    rfl

/-- The other neighbors of a row and the bracket behind them. -/
theorem tailChars_append_inj (htext : Faithful text) {row row' : List Neighbor}
    {rest rest' : List Char} (hrow : ∀ n ∈ row, IsKept n.score)
    (hrow' : ∀ n ∈ row', IsKept n.score)
    (h : tailChars text row ++ ']' :: rest = tailChars text row' ++ ']' :: rest') :
    row = row' ∧ rest = rest' := by
  induction row generalizing row' with
  | nil =>
    cases row' with
    | nil => exact ⟨rfl, (List.cons.inj h).2⟩
    | cons n' row' => exact absurd (List.cons.inj h).1 (by decide)
  | cons n row ih =>
    cases row' with
    | nil => exact absurd (List.cons.inj h).1 (by decide)
    | cons n' row' =>
      rw [List.forall_mem_cons] at hrow hrow'
      have htail : (neighborText text n).toList ++ (tailChars text row ++ ']' :: rest) =
          (neighborText text n').toList ++ (tailChars text row' ++ ']' :: rest') := by
        simpa [tailChars] using h
      obtain ⟨rfl, hothers⟩ := neighborText_append_inj htext hrow.1 hrow'.1 htail
      obtain ⟨rfl, hrest⟩ := ih hrow.2 hrow'.2 hothers
      exact ⟨rfl, hrest⟩

/-- A row and the bracket behind it. -/
theorem row_append_inj (htext : Faithful text) {row row' : List Neighbor}
    {rest rest' : List Char} (hrow : ∀ n ∈ row, IsKept n.score)
    (hrow' : ∀ n ∈ row', IsKept n.score)
    (h : (String.intercalate "," (row.map (neighborText text))).toList ++ ']' :: rest =
      (String.intercalate "," (row'.map (neighborText text))).toList ++ ']' :: rest') :
    row = row' ∧ rest = rest' := by
  cases row with
  | nil =>
    cases row' with
    | nil => exact ⟨rfl, (List.cons.inj h).2⟩
    | cons n' row' =>
      rw [toList_row_cons, List.append_assoc, toList_neighborText] at h
      exact absurd (List.cons.inj h).1 (by decide)
  | cons n row =>
    cases row' with
    | nil =>
      rw [toList_row_cons, List.append_assoc, toList_neighborText] at h
      exact absurd (List.cons.inj h).1 (by decide)
    | cons n' row' =>
      rw [List.forall_mem_cons] at hrow hrow'
      rw [toList_row_cons, toList_row_cons, List.append_assoc, List.append_assoc] at h
      obtain ⟨rfl, hothers⟩ := neighborText_append_inj htext hrow.1 hrow'.1 h
      obtain ⟨rfl, hrest⟩ := tailChars_append_inj htext hrow.2 hrow'.2 hothers
      exact ⟨rfl, hrest⟩

/-! ## Lines -/

/-- The line of an item without its end. -/
def document (text : Float → String) (item : ItemId) (row : List Neighbor) : String :=
  "\x7b\"item\":" ++ toString item ++ ",\"neighbors\":["
    ++ String.intercalate "," (row.map (neighborText text)) ++ "]\x7d"

theorem line_eq (item : ItemId) (row : List Neighbor) :
    line text item row = document text item row ++ "\n" := by
  rw [document, String.append_assoc]
  rfl

/-- The characters of a line. -/
theorem toList_line (item : ItemId) (row : List Neighbor) (rest : List Char) :
    (line text item row).toList ++ rest = "\x7b\"item\":".toList ++ ((toString item).toList ++
      ',' :: ("\"neighbors\":[".toList ++
        ((String.intercalate "," (row.map (neighborText text))).toList ++
          ']' :: '\x7d' :: '\n' :: rest))) := by
  simp only [line, String.toList_append, List.append_assoc]
  rfl

/-- A line and what follows it. -/
theorem line_append_inj (htext : Faithful text) {item item' : ItemId} {row row' : List Neighbor}
    {rest rest' : List Char} (hrow : ∀ n ∈ row, IsKept n.score)
    (hrow' : ∀ n ∈ row', IsKept n.score)
    (h : (line text item row).toList ++ rest = (line text item' row').toList ++ rest') :
    (item, row) = (item', row') ∧ rest = rest' := by
  rw [toList_line, toList_line] at h
  obtain ⟨rfl, hafter⟩ := toString_append_inj (List.append_cancel_left h)
  obtain ⟨rfl, hend⟩ := row_append_inj htext hrow hrow' (List.append_cancel_left hafter)
  exact ⟨rfl, (List.cons.inj (List.cons.inj hend).2).2⟩

/-- Some lines, one after the other. -/
theorem lines_inj (htext : Faithful text) {rows rows' : List (ItemId × List Neighbor)}
    (hrows : ∀ entry ∈ rows, ∀ n ∈ entry.2, IsKept n.score)
    (hrows' : ∀ entry ∈ rows', ∀ n ∈ entry.2, IsKept n.score)
    (h : rows.flatMap (fun entry => (line text entry.1 entry.2).toList) =
      rows'.flatMap fun entry => (line text entry.1 entry.2).toList) : rows = rows' := by
  have hne (item : ItemId) (row : List Neighbor) (rest : List Char) :
      (line text item row).toList ++ rest ≠ [] := by
    rw [toList_line]
    exact List.cons_ne_nil _ _
  induction rows generalizing rows' with
  | nil =>
    cases rows' with
    | nil => rfl
    | cons entry' rows' => exact absurd h.symm (hne _ _ _)
  | cons entry rows ih =>
    cases rows' with
    | nil => exact absurd h (hne _ _ _)
    | cons entry' rows' =>
      rw [List.forall_mem_cons] at hrows hrows'
      rw [List.flatMap_cons, List.flatMap_cons] at h
      obtain ⟨heq, hrest⟩ := line_append_inj htext hrows.1 hrows'.1 h
      obtain rfl : entry = entry' := heq
      rw [ih hrows.2 hrows'.2 hrest]

/-! ## Newlines -/

theorem newline_not_mem_toString (item : ItemId) : '\n' ∉ (toString item).toList := fun hc =>
  absurd (isDigit_of_mem_toString hc) (by decide)

theorem newline_not_mem_neighborText (htext : Faithful text) (n : Neighbor) :
    '\n' ∉ (neighborText text n).toList := by
  have hscore : '\n' ∉ (text n.score).toList :=
    htext.not_mem n.score (by unfold IsNumberChar; decide) (by decide)
  rw [← List.append_nil (neighborText text n).toList, toList_neighborText]
  simp only [List.mem_append, List.mem_cons, not_or]
  exact ⟨by decide, newline_not_mem_toString n.item, by decide, by decide, hscore, by decide, nofun⟩

theorem newline_not_mem_row (htext : Faithful text) (row : List Neighbor) :
    '\n' ∉ (String.intercalate "," (row.map (neighborText text))).toList := by
  cases row with
  | nil => simp
  | cons n row =>
    rw [toList_row_cons, List.mem_append, not_or, tailChars, List.mem_flatMap]
    refine ⟨newline_not_mem_neighborText htext n, ?_⟩
    rintro ⟨next, -, hc⟩
    obtain hcomma | hc := List.mem_cons.mp hc
    · exact absurd hcomma (by decide)
    · exact newline_not_mem_neighborText htext next hc

/-- A line has no newline but the one at its end. -/
theorem newline_not_mem_document (htext : Faithful text) (item : ItemId) (row : List Neighbor) :
    '\n' ∉ (document text item row).toList := by
  simp only [document, String.toList_append, List.mem_append, not_or]
  exact ⟨⟨⟨⟨by decide, newline_not_mem_toString item⟩, by decide⟩, newline_not_mem_row htext row⟩,
    by decide⟩

end Report

/-! ## Matrices -/

namespace SimilarityMatrix

open Report

variable {text : Float → String} {m m' : SimilarityMatrix}

/-- The listed rows are all that a matrix has. -/
theorem eq_of_toList_eq (h : m.toList = m'.toList) : m.items = m'.items ∧ m.rows = m'.rows := by
  have hrows (m : SimilarityMatrix) : m.toList.map (·.2) = m.rows.toList.map Array.toList := by
    have hsize : m.rows.size = m.items.ids.size := m.size_rows
    exact List.map_snd_zip (by simp [ItemSet.toList, hsize])
  have hitems : m.items.toList = m'.items.toList := by
    rw [← map_fst_toList, ← map_fst_toList, h]
  have hlists : m.rows.toList.map Array.toList = m'.rows.toList.map Array.toList := by
    rw [← hrows, ← hrows, h]
  have hinjective : Function.Injective fun row : Array Neighbor => row.toList :=
    fun _ _ => Array.toList_inj.mp
  refine ⟨ItemSet.ext_mem fun x => by rw [hitems], ?_⟩
  exact Array.toList_inj.mp (List.map_injective_iff.mpr hinjective hlists)

/-- The report of a matrix has one line for each row. -/
theorem reportWith_eq_join (text : Float → String) (m : SimilarityMatrix) :
    m.reportWith text =
      String.join (m.toList.map fun (item, row) => document text item row ++ "\n") := by
  rw [reportWith]
  exact congrArg String.join (List.map_congr_left fun entry _ => line_eq entry.1 entry.2)

/-- Matrices whose rows hold kept scores only are told apart by their reports. -/
theorem eq_of_reportWith_eq (htext : Faithful text)
    (hm : ∀ item row, (item, row) ∈ m.toList → ∀ n ∈ row, IsKept n.score)
    (hm' : ∀ item row, (item, row) ∈ m'.toList → ∀ n ∈ row, IsKept n.score)
    (h : m.reportWith text = m'.reportWith text) : m.items = m'.items ∧ m.rows = m'.rows := by
  have hchars (m : SimilarityMatrix) :
      (m.reportWith text).toList =
        m.toList.flatMap fun entry => (line text entry.1 entry.2).toList := by
    rw [reportWith, String.toList_join, List.flatMap_map]
  refine eq_of_toList_eq (lines_inj htext (fun entry hentry => hm entry.1 entry.2 hentry)
    (fun entry hentry => hm' entry.1 entry.2 hentry) ?_)
  rw [← hchars, ← hchars, h]

end SimilarityMatrix

namespace NeighborAccumulator

/-- **A report determines its matrix**, with any faithful texts for scores. Of two accumulators,
whatever they truncate to and whatever calls they got, the matrices have the same report, byte by
byte, exactly if they have the same items and the same rows, bit by bit. The report has one line per
item of the universe, in ascending order, and no newline but those at the ends of its lines. -/
theorem reportWith_determines_matrix {text : Float → String} (htext : Report.Faithful text)
    (t t' : Truncation) (items items' : ItemSet) (calls calls' : List AccumulatorCall) :
    let m := (calls.foldl call (create t items)).toMatrix
    let m' := (calls'.foldl call (create t' items')).toMatrix
    ((m.reportWith text).toUTF8 = (m'.reportWith text).toUTF8 ↔
        m.items = m'.items ∧ m.rows = m'.rows) ∧
      m.reportWith text =
        String.join (m.toList.map fun (item, row) => Report.document text item row ++ "\n") ∧
      (∀ item row, '\n' ∉ (Report.document text item row).toList) ∧
      m.toList.map (·.1) = items.toList ∧ items.toList.Pairwise (· < ·) := by
  intro m m'
  have hitems : m.items = items := by
    show (calls.foldl call (create t items)).items = items
    rw [foldl_call_create]
    rfl
  refine ⟨⟨fun hreport => ?_, fun hrows => ?_⟩, m.reportWith_eq_join text,
    Report.newline_not_mem_document htext, ?_, items.toList_pairwise⟩
  · exact SimilarityMatrix.eq_of_reportWith_eq htext
      (fun _ _ hrow _ hn => isKept_of_mem calls hrow hn)
      (fun _ _ hrow _ hn => isKept_of_mem calls' hrow hn) (String.toByteArray_inj.mp hreport)
  · have htoList : m.toList = m'.toList := by
      rw [SimilarityMatrix.toList, SimilarityMatrix.toList, hrows.1, hrows.2]
    rw [SimilarityMatrix.reportWith, SimilarityMatrix.reportWith, htoList]
  · rw [SimilarityMatrix.map_fst_toList, hitems]

/-- The report that is written determines its matrix: its texts of scores are faithful. -/
theorem report_determines_matrix (t t' : Truncation) (items items' : ItemSet)
    (calls calls' : List AccumulatorCall) :
    let m := (calls.foldl call (create t items)).toMatrix
    let m' := (calls'.foldl call (create t' items')).toMatrix
    (m.report.toUTF8 = m'.report.toUTF8 ↔ m.items = m'.items ∧ m.rows = m'.rows) ∧
      m.report = String.join
        (m.toList.map fun (item, row) => Report.document Report.scoreText item row ++ "\n") ∧
      (∀ item row, '\n' ∉ (Report.document Report.scoreText item row).toList) ∧
      m.toList.map (·.1) = items.toList ∧ items.toList.Pairwise (· < ·) :=
  reportWith_determines_matrix Report.faithful_scoreText t t' items items' calls calls'

end NeighborAccumulator

end ItemNeighbors
