import Chalkboard.Proofs.Decimal.Entry
import Chalkboard.Worked.Text

/-!
# Tables are read back

A matrix is written in four ways: in brackets or typeset, and with or without a bar before the last
column. One reader inverts all of them. It cuts the text at brackets, braces and backslashes, which
never stand inside a row, and reads the numbers of each piece; a piece without numbers belongs to the
frame. Blanks, commas, bars and ampersands only separate numbers.

* `numbersIn`, `tableIn` — the numbers of a text, and its rows of numbers.
* `IsLine cs row` — a text between two cuts that shows the row.
* `numbersIn_vectorText`, `tableIn_matrixText`, `tableIn_augmentedText`, `tableIn_matrixLatex`,
  `tableIn_augmentedLatex` — each rendering, written and read.
-/

namespace Chalkboard

/-! ## Pieces and separators -/

/-- A reader that skips separators reads what is joined by them piece by piece. -/
theorem read_intercalate {α β : Type} {read : List α → List β} {separator : List α}
    (nil : read [] = [])
    (skips : ∀ xs ys, read (xs ++ separator ++ ys) = read xs ++ read ys) (pieces : List (List α)) :
    read (separator.intercalate pieces) = pieces.flatMap read := by
  induction pieces with
  | nil => exact nil
  | cons xs pieces ih =>
    cases pieces with
    | nil => rw [List.intercalate_singleton, List.flatMap_singleton]
    | cons ys pieces =>
      rw [List.intercalate_cons_cons, skips, ih]
      rfl

/-- What surrounds each piece is as well a part of the separator. -/
theorem intercalate_map_surround {α : Type} (left right separator : List α)
    (pieces : List (List α)) (ne : pieces ≠ []) :
    separator.intercalate (pieces.map fun xs => left ++ xs ++ right) =
      left ++ (right ++ separator ++ left).intercalate pieces ++ right := by
  induction pieces with
  | nil => exact absurd rfl ne
  | cons xs pieces ih =>
    cases pieces with
    | nil => simp only [List.map_cons, List.map_nil, List.intercalate_singleton]
    | cons ys pieces =>
      have rest := ih (List.cons_ne_nil ys pieces)
      rw [List.map_cons] at rest
      rw [List.map_cons, List.map_cons, List.intercalate_cons_cons, rest,
        List.intercalate_cons_cons]
      simp only [List.append_assoc]

theorem forall_mem_intercalate {α : Type} {p : α → Prop} {separator : List α}
    {pieces : List (List α)} (hseparator : ∀ x ∈ separator, p x)
    (hpieces : ∀ xs ∈ pieces, ∀ x ∈ xs, p x) : ∀ x ∈ separator.intercalate pieces, p x := by
  induction pieces with
  | nil => exact fun x hx => nomatch hx
  | cons xs pieces ih =>
    obtain ⟨hxs, hrest⟩ := List.forall_mem_cons.mp hpieces
    cases pieces with
    | nil =>
      rw [List.intercalate_singleton]
      exact hxs
    | cons ys pieces =>
      rw [List.intercalate_cons_cons]
      simp only [List.forall_mem_append]
      exact ⟨⟨hxs, hseparator⟩, ih hrest⟩

/-! ## Characters -/

/-- Characters that separate the entries of a row. -/
def isGapChar (c : Char) : Bool :=
  c ∈ [' ', ',', '|', '&']

/-- Characters that stand around rows. -/
def isRowMark (c : Char) : Bool :=
  c ∈ ['[', ']', '\x7b', '\x7d', '\\']

/-- Characters of a row. -/
def isLineChar (c : Char) : Bool :=
  isEntryChar c || isGapChar c

theorem isLineChar_of_isEntryChar {c : Char} (h : isEntryChar c) : isLineChar c := by
  rw [isLineChar, h, Bool.true_or]

theorem isLineChar_of_isGapChar {c : Char} (h : isGapChar c) : isLineChar c := by
  rw [isLineChar, h, Bool.or_true]

theorem isEntryChar_of_isGapChar {c : Char} (h : isGapChar c) : isEntryChar c = false := by
  simp only [isGapChar, List.mem_cons, List.not_mem_nil, or_false, decide_eq_true_eq] at h
  rcases h with rfl | rfl | rfl | rfl <;> rfl

/-- Frames and rows have no character in common. -/
theorem isRowMark_of_isLineChar {c : Char} (h : isLineChar c) : isRowMark c = false := by
  by_contra mark
  simp only [isRowMark, List.mem_cons, List.not_mem_nil, or_false, Bool.not_eq_false,
    decide_eq_true_eq] at mark
  rcases mark with rfl | rfl | rfl | rfl | rfl <;> exact absurd h (by decide)

/-! ## Numbers -/

/-- The numbers that stand in a text. -/
def numbersIn (cs : List Char) : List Float :=
  (cs.splitOnP fun c => !isEntryChar c).filterMap fun word => readFloat? (String.ofList word)

theorem numbersIn_of_entry {cs : List Char} (h : cs.all isEntryChar) :
    numbersIn cs = (readFloat? (String.ofList cs)).toList := by
  have whole : (cs.splitOnP fun c => !isEntryChar c) = [cs] :=
    List.splitOnP_eq_singleton fun c hc => by simp [List.all_eq_true.mp h c hc]
  unfold numbersIn
  rw [whole, List.filterMap_cons, List.filterMap_nil]
  cases readFloat? (String.ofList cs) with
  | none => rfl
  | some x => rfl

@[simp] theorem numbersIn_nil : numbersIn [] = [] := by
  have none : readFloat? (String.ofList []) = none := by decide +kernel
  rw [numbersIn_of_entry rfl, none]
  rfl

theorem numbersIn_append_cons {c : Char} (h : isEntryChar c = false) (cs ds : List Char) :
    numbersIn (cs ++ c :: ds) = numbersIn cs ++ numbersIn ds := by
  unfold numbersIn
  rw [List.splitOnP_append_cons cs ds (by rw [h]; rfl), List.filterMap_append]

theorem numbersIn_gap_append {gap : List Char} (h : ∀ c ∈ gap, isGapChar c) (ds : List Char) :
    numbersIn (gap ++ ds) = numbersIn ds := by
  induction gap with
  | nil => rfl
  | cons c gap ih =>
    obtain ⟨hc, hgap⟩ := List.forall_mem_cons.mp h
    have cut := numbersIn_append_cons (isEntryChar_of_isGapChar hc) [] (gap ++ ds)
    rw [List.nil_append, numbersIn_nil, List.nil_append] at cut
    rw [List.cons_append, cut, ih hgap]

/-- **Numbers are separated by gaps.** -/
theorem numbersIn_append_gap {gap : List Char} (h : ∀ c ∈ gap, isGapChar c) (ne : gap ≠ [])
    (cs ds : List Char) : numbersIn (cs ++ gap ++ ds) = numbersIn cs ++ numbersIn ds := by
  cases gap with
  | nil => exact absurd rfl ne
  | cons c gap =>
    obtain ⟨hc, hgap⟩ := List.forall_mem_cons.mp h
    rw [List.append_assoc, List.cons_append,
      numbersIn_append_cons (isEntryChar_of_isGapChar hc), numbersIn_gap_append hgap]

theorem numbersIn_valueText (x : Float) : numbersIn (valueText x).toList = [told x] := by
  rw [numbersIn_of_entry (all_isEntryChar_valueText x), String.ofList_toList,
    readFloat?_valueText]
  rfl

/-! ## Rows -/

/-- **`IsLine cs row`** — the characters `cs` show the entries of a row, and nothing else. -/
structure IsLine (cs : List Char) (row : List Float) : Prop where
  chars : ∀ c ∈ cs, isLineChar c
  numbers : numbersIn cs = row.map told

namespace IsLine

theorem nil : IsLine [] [] where
  chars := fun _ hc => nomatch hc
  numbers := numbersIn_nil

theorem entry (x : Float) : IsLine (valueText x).toList [x] where
  chars := fun c hc =>
    isLineChar_of_isEntryChar (List.all_eq_true.mp (all_isEntryChar_valueText x) c hc)
  numbers := numbersIn_valueText x

/-- Two lines with a gap between them. -/
theorem append {gap : List Char} (hgap : ∀ c ∈ gap, isGapChar c) (ne : gap ≠ [])
    {cs ds : List Char} {row row' : List Float} (first : IsLine cs row) (second : IsLine ds row') :
    IsLine (cs ++ gap ++ ds) (row ++ row') where
  chars := by
    simp only [List.forall_mem_append]
    exact ⟨⟨first.chars, fun c hc => isLineChar_of_isGapChar (hgap c hc)⟩, second.chars⟩
  numbers := by
    rw [numbersIn_append_gap hgap ne, first.numbers, second.numbers, List.map_append]

/-- **A joined row**, whatever gap its entries are joined by. -/
theorem joinValues {separator : String} (gap : ∀ c ∈ separator.toList, isGapChar c)
    (ne : separator.toList ≠ []) (row : List Float) :
    IsLine (Chalkboard.joinValues separator row).toList row := by
  rw [Chalkboard.joinValues, String.toList_intercalate, List.map_map]
  induction row with
  | nil => exact nil
  | cons x row ih =>
    cases row with
    | nil =>
      rw [List.map_cons, List.map_nil, List.intercalate_singleton]
      exact entry x
    | cons y row =>
      rw [List.map_cons, List.map_cons, List.intercalate_cons_cons, ← List.map_cons]
      exact append gap ne (entry x) ih

end IsLine

/-! ## Tables -/

/-- The rows of numbers that stand in a text. -/
def tableIn (cs : List Char) : List (List Float) :=
  ((cs.splitOnP isRowMark).map numbersIn).filter fun row => !row.isEmpty

theorem tableIn_append_cons {c : Char} (h : isRowMark c) (cs ds : List Char) :
    tableIn (cs ++ c :: ds) = tableIn cs ++ tableIn ds := by
  unfold tableIn
  rw [List.splitOnP_append_cons cs ds h, List.map_append, List.filter_append]

theorem tableIn_of_plain {cs : List Char} (h : ∀ c ∈ cs, isRowMark c = false) :
    tableIn cs = if (numbersIn cs).isEmpty then [] else [numbersIn cs] := by
  have whole : cs.splitOnP isRowMark = [cs] :=
    List.splitOnP_eq_singleton h
  unfold tableIn
  rw [whole, List.map_singleton]
  cases numbersIn cs with
  | nil => rfl
  | cons x xs => rfl

/-- A piece of the frame of a table. -/
theorem tableIn_of_silent {cs : List Char} (h : ∀ c ∈ cs, isRowMark c = false)
    (silent : numbersIn cs = []) : tableIn cs = [] := by
  rw [tableIn_of_plain h, silent]
  rfl

theorem IsLine.tableIn {cs : List Char} {row : List Float} (h : IsLine cs row) (ne : row ≠ []) :
    tableIn cs = [row.map told] := by
  rw [tableIn_of_plain fun c hc => isRowMark_of_isLineChar (h.chars c hc), h.numbers]
  cases row with
  | nil => exact absurd rfl ne
  | cons x row => rfl

@[simp] theorem tableIn_nil : tableIn [] = [] :=
  tableIn_of_silent (fun _ hc => nomatch hc) numbersIn_nil

/-- Rows that are cut from one another are read one by one. -/
theorem tableIn_intercalate {separator : List Char} {line : List Float → List Char}
    (cut : ∀ cs ds, tableIn (cs ++ separator ++ ds) = tableIn cs ++ tableIn ds)
    {rows : List (List Float)} (lines : ∀ row ∈ rows, IsLine (line row) row)
    (ne : ∀ row ∈ rows, row ≠ []) :
    tableIn (separator.intercalate (rows.map line)) = rows.map (List.map told) := by
  rw [read_intercalate tableIn_nil cut, List.flatMap_map]
  calc rows.flatMap (fun row => tableIn (line row))
      = rows.flatMap fun row => [row.map told] :=
        List.flatMap_congr fun row hrow => (lines row hrow).tableIn (ne row hrow)
    _ = rows.map (List.map told) := List.map_eq_flatMap.symm

theorem tableIn_cons {c : Char} (h : isRowMark c) (ds : List Char) :
    tableIn (c :: ds) = tableIn ds := by
  have cut := tableIn_append_cons h [] ds
  rwa [List.nil_append, tableIn_nil, List.nil_append] at cut

theorem tableIn_concat {c : Char} (h : isRowMark c) (cs : List Char) :
    tableIn (cs ++ [c]) = tableIn cs := by
  rw [tableIn_append_cons h, tableIn_nil, List.append_nil]

/-- A gap between two rows in brackets. -/
theorem tableIn_gap {gap : List Char} (h : ∀ c ∈ gap, isGapChar c) : tableIn gap = [] := by
  have silent := numbersIn_gap_append h []
  rw [List.append_nil, numbersIn_nil] at silent
  exact tableIn_of_silent
    (fun c hc => isRowMark_of_isLineChar (isLineChar_of_isGapChar (h c hc))) silent

/-- Rows in brackets, separated by commas, between two brackets. -/
def bracketed (line : List Float → List Char) (rows : List (List Float)) : List Char :=
  ['['] ++ [',', ' '].intercalate (rows.map fun row => ['['] ++ line row ++ [']']) ++ [']']

/-- A row is cut from the next one by two brackets. -/
theorem bracketed_of_ne_nil (line : List Float → List Char) {rows : List (List Float)}
    (some : rows ≠ []) :
    bracketed line rows =
      '[' :: '[' :: ([']', ',', ' ', '['].intercalate (rows.map line) ++ [']'] ++ [']']) := by
  have text := intercalate_map_surround ['['] [']'] [',', ' '] (rows.map line)
    (fun e => some (List.map_eq_nil_iff.mp e))
  rw [List.map_map] at text
  exact congrArg (['['] ++ · ++ [']']) text

/-- **Rows in brackets are read.** -/
theorem tableIn_bracketed {line : List Float → List Char} {rows : List (List Float)}
    (lines : ∀ row ∈ rows, IsLine (line row) row) (ne : ∀ row ∈ rows, row ≠ []) :
    tableIn (bracketed line rows) = rows.map (List.map told) := by
  have opening : isRowMark '[' := by simp [isRowMark]
  have closing : isRowMark ']' := by simp [isRowMark]
  have comma : tableIn [',', ' '] = [] := tableIn_gap (by simp [isGapChar])
  by_cases none : rows = []
  · rw [none, bracketed, tableIn_concat closing, List.singleton_append, tableIn_cons opening]
    exact tableIn_nil
  rw [bracketed_of_ne_nil line none, tableIn_cons opening, tableIn_cons opening,
    tableIn_concat closing, tableIn_concat closing]
  refine tableIn_intercalate (fun cs ds => ?_) lines ne
  calc tableIn (cs ++ [']', ',', ' ', '['] ++ ds)
      = tableIn (cs ++ ']' :: ([',', ' '] ++ '[' :: ds)) := by simp
    _ = tableIn cs ++ tableIn ds := by
      rw [tableIn_append_cons closing, tableIn_append_cons opening, comma, List.nil_append]

/-- **Typeset rows** between two blanks. -/
theorem tableIn_typesetRows {rows : List (List Float)} (ne : ∀ row ∈ rows, row ≠ []) :
    tableIn ([' '] ++ (typesetRows rows).toList ++ [' ']) = rows.map (List.map told) := by
  have mark : isRowMark '\\' := by simp [isRowMark]
  have blank : ∀ c ∈ [' '], isGapChar c := by simp [isGapChar]
  have ampersand : ∀ c ∈ " & ".toList, isGapChar c := by simp [isGapChar]
  by_cases none : rows = []
  · have blanks : ∀ c ∈ [' ', ' '], isGapChar c := by simp [isGapChar]
    rw [none]
    exact tableIn_gap blanks
  have separator : " \\\\ ".toList = [' '] ++ ['\\', '\\'] ++ [' '] := by simp
  rw [typesetRows, String.toList_intercalate, List.map_map, separator,
    ← intercalate_map_surround _ _ _ _ (fun e => none (List.map_eq_nil_iff.mp e)), List.map_map]
  refine tableIn_intercalate (fun cs ds => ?_) (fun row _ => ?_) ne
  · rw [List.append_assoc, List.cons_append, tableIn_append_cons mark]
    exact congrArg _ (tableIn_cons mark ds)
  · have line := IsLine.joinValues ampersand (by simp) row
    have padded := IsLine.append blank (List.cons_ne_nil _ _)
      (IsLine.append blank (List.cons_ne_nil _ _) .nil line) .nil
    rw [List.nil_append, List.append_nil, List.nil_append, List.append_nil] at padded
    exact padded

/-! ## Frames of typeset tables -/

/-- The words in the frames of typeset tables. -/
def frameWords : List String :=
  ["left", "right", "begin", "end", "array", "bmatrix"]

/-- **A word of a frame** tells nothing. -/
theorem tableIn_frameWord (word : String) (h : word ∈ frameWords) {c : Char}
    (mark : isRowMark c) (ds : List Char) : tableIn (word.toList ++ c :: ds) = tableIn ds := by
  have frame : ∀ word ∈ frameWords, word.toList.all isEntryChar = true ∧
      readFloat? (String.ofList word.toList) = none := by decide +kernel
  obtain ⟨chars, none⟩ := frame word h
  have silent : tableIn word.toList = [] := by
    refine tableIn_of_silent (fun c hc => ?_) ?_
    · exact isRowMark_of_isLineChar (isLineChar_of_isEntryChar (List.all_eq_true.mp chars c hc))
    · rw [numbersIn_of_entry chars, none]
      rfl
  rw [tableIn_append_cons mark, silent, List.nil_append]

theorem readFloat?_replicate (k : Nat) :
    readFloat? (String.ofList (List.replicate k 'c')) = none := by
  cases k with
  | zero => decide +kernel
  | succ k =>
    have digit : Char.isDigit 'c' = false := by decide
    have lower : Char.toLower 'c' = 'c' := by decide
    have none : Decimal.read? ('c' :: List.replicate k 'c') = none := by
      simp [Decimal.read?, spanDigits, digit]
    simp [readFloat?, List.replicate_succ, lower, none]

/-- **The layout of columns** tells nothing. -/
theorem tableIn_layout (k : Nat) {c : Char} (mark : isRowMark c) (ds : List Char) :
    tableIn ((List.replicate k 'c' ++ '|' :: ['c']) ++ c :: ds) = tableIn ds := by
  have letter : isEntryChar 'c' := by decide
  have column (k : Nat) : numbersIn (List.replicate k 'c') = [] := by
    rw [numbersIn_of_entry (by simp [letter]), readFloat?_replicate]
    rfl
  have silent : tableIn (List.replicate k 'c' ++ '|' :: ['c']) = [] := by
    refine tableIn_of_silent ?_ ?_
    · simp only [List.forall_mem_append, List.forall_mem_cons]
      refine ⟨fun c hc => ?_, by simp [isRowMark]⟩
      rw [List.eq_of_mem_replicate hc]
      simp [isRowMark]
    · rw [numbersIn_append_cons (by decide), column k]
      exact column 1
  rw [tableIn_append_cons mark, silent, List.nil_append]

/-! ## Renderings -/

theorem isLine_joinValues (row : List Float) : IsLine (joinValues ", " row).toList row :=
  .joinValues (by simp [isGapChar]) (by simp) row

/-- **A column in brackets is read back.** -/
theorem numbersIn_vectorText (values : List Float) :
    numbersIn (vectorText values).toList = values.map told := by
  have opening : isEntryChar '[' = false := by decide
  have closing : isEntryChar ']' = false := by decide
  have text : (vectorText values).toList =
      [] ++ '[' :: ((joinValues ", " values).toList ++ ']' :: []) := by
    simp [vectorText]
  rw [text, numbersIn_append_cons opening, numbersIn_append_cons closing,
    (isLine_joinValues values).numbers, numbersIn_nil, List.nil_append, List.append_nil]

/-- The line of a row whose last entry stands behind a bar. -/
def barredLine (row : List Float) : List Char :=
  (joinValues ", " row.dropLast).toList ++ " | ".toList ++
    ((row.getLast?.map valueText).getD "").toList

theorem isLine_barredLine {row : List Float} (ne : row ≠ []) : IsLine (barredLine row) row := by
  have gap : ∀ c ∈ " | ".toList, isGapChar c := by simp [isGapChar]
  have split := (isLine_joinValues row.dropLast).append gap (by simp) (.entry (row.getLast ne))
  rw [List.dropLast_append_getLast] at split
  rw [barredLine, List.getLast?_eq_some_getLast ne]
  exact split

theorem toList_matrixText (rows : List (List Float)) :
    (matrixText rows).toList = bracketed (fun row => (joinValues ", " row).toList) rows := by
  simp [matrixText, vectorText, bracketed, String.toList_intercalate, Function.comp_def]

theorem toList_augmentedText (rows : List (List Float)) :
    (augmentedText rows).toList = bracketed barredLine rows := by
  simp [augmentedText, augmentedRowText, bracketed, barredLine, String.toList_intercalate,
    Function.comp_def]

variable {rows : List (List Float)} (ne : ∀ row ∈ rows, row ≠ [])

include ne

/-- **A matrix in brackets is read back.** -/
theorem tableIn_matrixText : tableIn (matrixText rows).toList = rows.map (List.map told) := by
  rw [toList_matrixText]
  exact tableIn_bracketed (fun row _ => isLine_joinValues row) ne

/-- **A matrix with a bar is read back**, the entry behind the bar included. -/
theorem tableIn_augmentedText :
    tableIn (augmentedText rows).toList = rows.map (List.map told) := by
  rw [toList_augmentedText]
  exact tableIn_bracketed (fun row hrow => isLine_barredLine (ne row hrow)) ne

/-- **A typeset matrix is read back.** -/
theorem tableIn_matrixLatex : tableIn (matrixLatex rows).toList = rows.map (List.map told) := by
  have text : (matrixLatex rows).toList =
      '\\' :: ("begin".toList ++ '\x7b' :: ("bmatrix".toList ++ '\x7d' ::
        (([' '] ++ (typesetRows rows).toList ++ [' ']) ++ '\\' ::
          ("end".toList ++ '\x7b' :: ("bmatrix".toList ++ '\x7d' :: []))))) := by
    unfold matrixLatex
    simp only [String.toList_append]
    generalize (typesetRows rows).toList = typeset
    simp
  have backslash : isRowMark '\\' := by simp [isRowMark]
  have opening : isRowMark '\x7b' := by simp [isRowMark]
  have closing : isRowMark '\x7d' := by simp [isRowMark]
  rw [text, tableIn_cons backslash, tableIn_frameWord "begin" (by simp [frameWords]) opening,
    tableIn_frameWord "bmatrix" (by simp [frameWords]) closing, tableIn_append_cons backslash,
    tableIn_typesetRows ne, tableIn_frameWord "end" (by simp [frameWords]) opening,
    tableIn_frameWord "bmatrix" (by simp [frameWords]) closing, tableIn_nil, List.append_nil]

/-- **A typeset matrix with a bar is read back**, whatever layout stands before it. -/
theorem tableIn_augmentedLatex (width : Nat) :
    tableIn (augmentedLatex width rows).toList = rows.map (List.map told) := by
  have text : (augmentedLatex width rows).toList =
      '\\' :: ("left".toList ++ '[' :: '\\' :: ("begin".toList ++ '\x7b' ::
        ("array".toList ++ '\x7d' :: '\x7b' ::
          ((List.replicate (width - 1) 'c' ++ '|' :: ['c']) ++ '\x7d' ::
            (([' '] ++ (typesetRows rows).toList ++ [' ']) ++ '\\' ::
              ("end".toList ++ '\x7b' :: ("array".toList ++ '\x7d' :: '\\' ::
                ("right".toList ++ ']' :: [])))))))) := by
    have columns : (String.ofList (List.replicate (width - 1) 'c')).toList =
        List.replicate (width - 1) 'c' := String.toList_ofList
    unfold augmentedLatex
    rw [← columns]
    simp only [String.toList_append]
    generalize (String.ofList (List.replicate (width - 1) 'c')).toList = layout
    generalize (typesetRows rows).toList = typeset
    simp
  have backslash : isRowMark '\\' := by simp [isRowMark]
  have opening : isRowMark '\x7b' := by simp [isRowMark]
  have closing : isRowMark '\x7d' := by simp [isRowMark]
  rw [text, tableIn_cons backslash,
    tableIn_frameWord "left" (by simp [frameWords]) (by simp [isRowMark]),
    tableIn_cons backslash, tableIn_frameWord "begin" (by simp [frameWords]) opening,
    tableIn_frameWord "array" (by simp [frameWords]) closing, tableIn_cons opening,
    tableIn_layout _ closing, tableIn_append_cons backslash, tableIn_typesetRows ne,
    tableIn_frameWord "end" (by simp [frameWords]) opening,
    tableIn_frameWord "array" (by simp [frameWords]) closing, tableIn_cons backslash,
    tableIn_frameWord "right" (by simp [frameWords]) (by simp [isRowMark]), tableIn_nil,
    List.append_nil]

end Chalkboard
