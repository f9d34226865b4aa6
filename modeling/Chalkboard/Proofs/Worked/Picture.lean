import Chalkboard.Method.Basic
import Chalkboard.Proofs.Method.Ending
import Chalkboard.Proofs.Worked.Map
import Chalkboard.Proofs.Worked.Rendering

/-!
# What a line of a solution shows

The line of a step that shows a matrix or a column determines its entries, whatever caption or row
operation stands before them: they stand behind the last sign of equality or colon, and matrices
begin with two brackets where a column begins with one.

* `Picture` — what a step shows.
* `Step.pictureIn_text` — it is read from the line of the step.
* `Method.isProper_of_mem_steps` — no method shows an empty matrix.
* `Rendering.lossless` — matrices, columns and steps are read back from their texts.
-/

namespace Chalkboard

universe u

variable {m n : Nat} {α : Type u}

/-! ## Pictures -/

/-- What a step shows: rows of numbers, or a column. -/
inductive Picture (α : Type u) where
  | table (rows : List (List α))
  | column (values : List α)

namespace Picture

/-- What the text of a picture tells. -/
def told : Picture Float → Picture Float
  | .table rows => .table (rows.map (List.map Chalkboard.told))
  | .column values => .column (values.map Chalkboard.told)

/-- A picture is proper if a matrix in it has rows and all of them have entries. -/
def IsProper : Picture α → Prop
  | .table rows => rows ≠ [] ∧ ∀ row ∈ rows, row ≠ []
  | .column _ => True

end Picture

/-- What a step shows. -/
def Step.picture? : Step α → Option (Picture α)
  | .matrix _ rows => some (.table rows)
  | .augmented _ rows => some (.table rows)
  | .rowOperation _ rows => some (.table rows)
  | .vector _ values => some (.column values)
  | _ => none

/-! ## Reading a line -/

/-- Characters that end a caption. -/
def isSign (c : Char) : Bool :=
  c = '=' || c = ':'

/-- What stands behind the last sign and the blank that follows it. -/
def behindSign (cs : List Char) : List Char :=
  (cs.rtakeWhile fun c => !isSign c).drop 1

/-- **`pictureIn cs`** — the picture that a line shows. -/
def pictureIn (cs : List Char) : Picture Float :=
  let body := behindSign cs
  if ['[', '['].isPrefixOf body then .table (tableIn body) else .column (numbersIn body)

theorem behindSign_append {c : Char} (h : isSign c) (cs : List Char) {ds : List Char}
    (hds : ∀ c ∈ ds, isSign c = false) : behindSign (cs ++ c :: ' ' :: ds) = ds := by
  have reversed : (cs ++ c :: ' ' :: ds).reverse = (' ' :: ds).reverse ++ c :: cs.reverse := by
    simp
  have body : ∀ d ∈ (' ' :: ds).reverse, (!isSign d) = true := by
    intro d hd
    rcases List.mem_cons.mp (List.mem_reverse.mp hd) with rfl | hd
    · rfl
    · rw [hds d hd]
      rfl
  rw [behindSign, List.rtakeWhile, reversed, List.takeWhile_append_of_pos body,
    List.takeWhile_cons_of_neg (by simp [h]), List.append_nil, List.reverse_reverse]
  rfl

theorem isSign_of_isLineChar {c : Char} (h : isLineChar c) : isSign c = false := by
  by_contra sign
  simp only [isSign, Bool.not_eq_false, Bool.or_eq_true, decide_eq_true_eq] at sign
  rcases sign with rfl | rfl <;> exact absurd h (by decide)

theorem isSign_of_mem_bracketed {line : List Float → List Char} {rows : List (List Float)}
    (lines : ∀ row ∈ rows, IsLine (line row) row) :
    ∀ c ∈ bracketed line rows, isSign c = false := by
  have opening : ∀ c ∈ ['['], isSign c = false := by simp [isSign]
  have closing : ∀ c ∈ [']'], isSign c = false := by simp [isSign]
  simp only [bracketed, List.forall_mem_append]
  refine ⟨⟨opening, forall_mem_intercalate (by simp [isSign]) fun cs hcs => ?_⟩, closing⟩
  obtain ⟨row, hrow, rfl⟩ := List.mem_map.mp hcs
  simp only [List.forall_mem_append]
  exact ⟨⟨opening, fun c hc => isSign_of_isLineChar ((lines row hrow).chars c hc)⟩, closing⟩

/-- A matrix in brackets behind a caption. -/
theorem pictureIn_bracketed {line : List Float → List Char} {rows : List (List Float)}
    (lines : ∀ row ∈ rows, IsLine (line row) row) (proper : (Picture.table rows).IsProper)
    {c : Char} (h : isSign c) (caption : List Char) :
    pictureIn (caption ++ c :: ' ' :: bracketed line rows) = (Picture.table rows).told := by
  have two : ['[', '['].isPrefixOf (bracketed line rows) = true := by
    rw [bracketed_of_ne_nil line proper.1]
    rfl
  simp only [pictureIn, behindSign_append h caption (isSign_of_mem_bracketed lines), two, if_true,
    tableIn_bracketed lines proper.2]
  rfl

/-- A column behind its name. -/
theorem pictureIn_column {c : Char} (h : isSign c) (caption : List Char) (values : List Float) :
    pictureIn (caption ++ c :: ' ' :: (vectorText values).toList) =
      (Picture.column values).told := by
  have line := isLine_joinValues values
  have text : (vectorText values).toList = '[' :: ((joinValues ", " values).toList ++ [']']) := by
    simp [vectorText]
  have plain : ∀ c ∈ (vectorText values).toList, isSign c = false := by
    rw [text]
    simp only [List.forall_mem_cons, List.forall_mem_append]
    exact ⟨by simp [isSign], fun c hc => isSign_of_isLineChar (line.chars c hc), by simp [isSign]⟩
  -- what follows the bracket is an entry or the other bracket
  have one : ['[', '['].isPrefixOf (vectorText values).toList = false := by
    rw [text]
    cases hentries : (joinValues ", " values).toList with
    | nil => simp [List.isPrefixOf]
    | cons d ds =>
      have hd : isLineChar d := line.chars d (hentries ▸ List.mem_cons_self)
      have ne : d ≠ '[' := by
        rintro rfl
        exact absurd hd (by decide)
      simp [List.isPrefixOf, ne.symm]
  simp only [pictureIn, behindSign_append h caption plain, one, Bool.false_eq_true, if_false,
    numbersIn_vectorText]
  rfl

theorem toList_named (label body : String) :
    (label ++ " = " ++ body).toList = (label.toList ++ [' ']) ++ '=' :: ' ' :: body.toList := by
  simp

theorem toList_captioned (caption body : String) :
    (caption ++ ": " ++ body).toList = caption.toList ++ ':' :: ' ' :: body.toList := by
  simp

/-- **The line of a step shows what the step shows**, in any number of decimals. -/
theorem Step.pictureIn_text {step : Step Float} {x : Picture Float} (shows : step.picture? = some x)
    (proper : x.IsProper) (precision : Nat) :
    pictureIn (step.text precision).toList = x.told := by
  have equals : isSign '=' := by simp [isSign]
  have colon : isSign ':' := by simp [isSign]
  cases step with
  | matrix label rows =>
    cases shows
    show pictureIn (label ++ " = " ++ matrixText rows).toList = _
    rw [toList_named, toList_matrixText]
    exact pictureIn_bracketed (fun row _ => isLine_joinValues row) proper equals _
  | augmented caption rows =>
    cases shows
    show pictureIn (caption ++ ": " ++ augmentedText rows).toList = _
    rw [toList_captioned, toList_augmentedText]
    exact pictureIn_bracketed (fun row hrow => isLine_barredLine (proper.2 row hrow)) proper
      colon _
  | rowOperation op rows =>
    cases shows
    show pictureIn (op.text precision ++ ": " ++ augmentedText rows).toList = _
    rw [toList_captioned, toList_augmentedText]
    exact pictureIn_bracketed (fun row hrow => isLine_barredLine (proper.2 row hrow)) proper
      colon _
  | vector label values =>
    cases shows
    show pictureIn (label ++ " = " ++ vectorText values).toList = _
    rw [toList_named]
    exact pictureIn_column equals _ values
  | _ => exact nomatch shows

/-! ## The steps of the methods -/

/-- A step is proper if what it shows is. -/
def Step.IsProper (step : Step α) : Prop :=
  ∀ x, step.picture? = some x → x.IsProper

theorem Step.isProper_of_picture? {step : Step α} (h : step.picture? = none) : step.IsProper :=
  fun _ hx => nomatch h.symm.trans hx

theorem Grid.isProper_toRows (hm : 0 < m) (hn : 0 < n) (g : Grid m n α) :
    (Picture.table g.toRows).IsProper := by
  constructor
  · intro none
    have count := congrArg List.length none
    rw [toRows, List.length_map, Vector.length_toList] at count
    exact hm.ne' count
  · intro row hrow none
    obtain ⟨r, -, rfl⟩ := List.mem_map.mp hrow
    have count := congrArg List.length none
    rw [Vector.length_toList] at count
    exact hn.ne' count

namespace Step

variable (hm : 0 < m) (hn : 0 < n) (g : Grid m n α)

include hm hn

theorem isProper_matrix (label : String) : (Step.matrix label g.toRows).IsProper := by
  rintro x ⟨⟩
  exact g.isProper_toRows hm hn

theorem isProper_augmented (caption : String) : (Step.augmented caption g.toRows).IsProper := by
  rintro x ⟨⟩
  exact g.isProper_toRows hm hn

theorem isProper_rowOperation (op : RowOp α) : (Step.rowOperation op g.toRows).IsProper := by
  rintro x ⟨⟩
  exact g.isProper_toRows hm hn

end Step

theorem Step.isProper_vector (label : String) (values : List α) :
    (Step.vector label values).IsProper := by
  rintro x ⟨⟩
  trivial

theorem Step.isProper_ofDet [Scalar α] (expand : Bool) (label : String) (g : Grid n n α) :
    (Step.ofDet expand label g).IsProper := by
  refine isProper_of_picture? ?_
  unfold ofDet
  split_ifs <;> rfl

namespace LinearSystem

/-- The steps of an elimination up to its ending. -/
theorem isProper_elimination (pos : 0 < n) (s : LinearSystem n α) (board : Board n (n + 1) α) :
    ∀ step ∈ s.eliminationOpening ++ board.steps, step.IsProper := by
  simp only [eliminationOpening, Board.steps, List.forall_mem_append, List.forall_mem_cons]
  refine ⟨⟨Step.isProper_of_picture? rfl, Step.isProper_augmented pos n.succ_pos _ _,
    List.forall_mem_nil _⟩, ?_⟩
  intro step hstep
  obtain ⟨entry, -, rfl⟩ := List.mem_map.mp hstep
  exact Step.isProper_rowOperation pos n.succ_pos _ _

variable [Scalar α] (pos : 0 < n) (settings : Settings α) (s : LinearSystem n α)

include pos

theorem isProper_cramerSteps (k : Fin n) : ∀ step ∈ s.cramerSteps k, step.IsProper :=
  List.forall_mem_cons.mpr ⟨Step.isProper_matrix pos pos _ _, List.forall_mem_cons.mpr
    ⟨Step.isProper_of_picture? rfl, List.forall_mem_singleton.mpr (Step.isProper_of_picture? rfl)⟩⟩

theorem isProper_cramer : ∀ step ∈ (s.cramer settings).steps, step.IsProper := by
  have opening : ∀ step ∈ [Step.system s.equations, .matrix "A" s.a.toRows, .vector "b" s.b.toList,
      .ofDet settings.expandCofactors "det(A)" s.a], step.IsProper := by
    simp only [List.forall_mem_cons]
    exact ⟨Step.isProper_of_picture? rfl, Step.isProper_matrix pos pos _ _, Step.isProper_vector _ _,
      Step.isProper_ofDet _ _ _, List.forall_mem_nil _⟩
  rcases s.cramer_cases settings with ⟨-, run⟩ | ⟨-, run⟩ <;> rw [run]
  · exact List.forall_mem_append.mpr
      ⟨opening, List.forall_mem_singleton.mpr (Step.isProper_of_picture? rfl)⟩
  · refine List.forall_mem_append.mpr ⟨List.forall_mem_append.mpr ⟨opening, ?_⟩,
      List.forall_mem_singleton.mpr (Step.isProper_of_picture? rfl)⟩
    intro step hstep
    obtain ⟨k, -, hk⟩ := List.mem_flatMap.mp hstep
    exact s.isProper_cramerSteps pos k step hk

theorem isProper_gauss (idem : ∀ x : α, Scalar.abs (Scalar.abs x) = Scalar.abs x) :
    ∀ step ∈ (s.gauss settings).steps, step.IsProper := by
  rcases s.gauss_cases idem settings with ⟨halt, -, run⟩ | ⟨board, x, log, -, run⟩ <;> rw [run]
  · exact List.forall_mem_append.mpr ⟨s.isProper_elimination pos halt.board,
      List.forall_mem_singleton.mpr (Step.isProper_of_picture? rfl)⟩
  · refine List.forall_mem_append.mpr ⟨s.isProper_elimination pos board, ?_⟩
    refine List.forall_mem_cons.mpr ⟨Step.isProper_augmented pos n.succ_pos _ _,
      List.forall_mem_append.mpr ⟨fun step hstep => ?_,
        List.forall_mem_singleton.mpr (Step.isProper_of_picture? rfl)⟩⟩
    obtain ⟨substitution, -, rfl⟩ := List.mem_map.mp hstep
    exact Step.isProper_of_picture? rfl

theorem isProper_gaussJordan : ∀ step ∈ (s.gaussJordan settings).steps, step.IsProper := by
  rcases s.gaussJordan_cases settings with ⟨halt, -, run⟩ | ⟨board, -, run⟩ <;> rw [run]
  · exact List.forall_mem_append.mpr ⟨s.isProper_elimination pos halt.board,
      List.forall_mem_singleton.mpr (Step.isProper_of_picture? rfl)⟩
  · refine List.forall_mem_append.mpr ⟨s.isProper_elimination pos board, ?_⟩
    exact List.forall_mem_cons.mpr ⟨Step.isProper_augmented pos n.succ_pos _ _,
      List.forall_mem_singleton.mpr (Step.isProper_of_picture? rfl)⟩

theorem isProper_lu : ∀ step ∈ (s.lu settings).steps, step.IsProper := by
  have matrix (label : String) (g : Grid n n α) : (Step.matrix label g.toRows).IsProper :=
    Step.isProper_matrix pos pos g label
  rcases s.lu_cases settings with ⟨halt, -, run⟩ | ⟨f, x, log, -, -, run⟩ <;>
    rw [run] <;> simp only [Outcome.steps, List.forall_mem_cons]
  · exact ⟨Step.isProper_of_picture? rfl, matrix _ _, Step.isProper_vector _ _, matrix _ _,
      matrix _ _, Step.isProper_of_picture? rfl, List.forall_mem_nil _⟩
  · exact ⟨Step.isProper_of_picture? rfl, matrix _ _, Step.isProper_vector _ _, matrix _ _,
      matrix _ _, Step.isProper_vector _ _, Step.isProper_vector _ _,
      Step.isProper_of_picture? rfl, List.forall_mem_nil _⟩

end LinearSystem

/-- **No method shows an empty matrix**, if the system has an unknown. -/
theorem Method.isProper_of_mem_steps [Scalar α]
    (idem : ∀ x : α, Scalar.abs (Scalar.abs x) = Scalar.abs x) (pos : 0 < n)
    (settings : Settings α) (s : LinearSystem n α) (m : Method) :
    ∀ step ∈ (m.run settings s).steps, step.IsProper := by
  cases m with
  | cramersRule => exact s.isProper_cramer pos settings
  | gaussElimination => exact s.isProper_gauss pos settings idem
  | gaussJordan => exact s.isProper_gaussJordan pos settings
  | luDecomposition => exact s.isProper_lu pos settings

/-! ## Nothing is lost -/

theorem Grid.shape_of_toRows_eq {m' n' : Nat} {g : Grid m n α} {h : Grid m' n' α} (pos : 0 < m)
    (eq : g.toRows = h.toRows) : m = m' ∧ n = n' := by
  have height := congrArg List.length eq
  simp only [toRows, List.length_map, Vector.length_toList] at height
  refine ⟨height, ?_⟩
  have row : (g.row ⟨0, pos⟩).toList ∈ h.toRows := by
    rw [← eq]
    exact List.mem_map_of_mem (Vector.mem_toList_iff.mpr (Vector.getElem_mem pos))
  obtain ⟨r, -, hr⟩ := List.mem_map.mp row
  have width := congrArg List.length hr
  rw [Vector.length_toList, Vector.length_toList] at width
  exact width.symm

/-- The ways to write a matrix. -/
inductive Rendering where
  | plain
  /-- In brackets, with a bar before the last column. -/
  | barred
  | typeset
  | typesetBarred

namespace Rendering

/-- The text of a matrix. -/
def text (g : Grid m n Float) : Rendering → String
  | plain => matrixText g.toRows
  | barred => augmentedText g.toRows
  | typeset => matrixLatex g.toRows
  | typesetBarred => augmentedLatex n g.toRows

/-- **Every rendering is read by the same reader.** -/
theorem tableIn_text (hm : 0 < m) (hn : 0 < n) (g : Grid m n Float) (rendering : Rendering) :
    tableIn (rendering.text g).toList = (g.map told).toRows := by
  have ne := (g.isProper_toRows hm hn).2
  rw [Grid.toRows_map]
  cases rendering with
  | plain => exact tableIn_matrixText ne
  | barred => exact tableIn_augmentedText ne
  | typeset => exact tableIn_matrixLatex ne
  | typesetBarred => exact tableIn_augmentedLatex ne n

/-- **Renderings lose nothing** but the sign of zero. A matrix with rows and columns is read from any
of its renderings with its shape and its entries, and so is a column; so matrices with one text are
equal. The line of a step, in any number of decimals, determines the matrix or the column that the
step shows, if that matrix is proper, and no method shows another one. -/
theorem lossless :
    (∀ x : Float, x.isFinite = true → told x = plusZero x) ∧
    (∀ {m n : Nat} (g : Grid m n Float), 0 < m → 0 < n → ∀ rendering : Rendering,
      tableIn (rendering.text g).toList = (g.map told).toRows) ∧
    (∀ values : List Float, numbersIn (vectorText values).toList = values.map told) ∧
    (∀ {m n m' n' : Nat} (g : Grid m n Float) (h : Grid m' n' Float), 0 < m → 0 < n → 0 < m' →
      0 < n' → ∀ rendering : Rendering, rendering.text g = rendering.text h →
        m = m' ∧ n = n' ∧ (g.map told).toRows = (h.map told).toRows) ∧
    (∀ (step : Step Float) (x : Picture Float), step.picture? = some x → x.IsProper →
      ∀ precision, pictureIn (step.text precision).toList = x.told) ∧
    (∀ {n : Nat} (s : LinearSystem n Float), 0 < n → ∀ settings (m : Method),
      ∀ step ∈ (m.run settings s).steps, ∀ x, step.picture? = some x → ∀ precision,
        pictureIn (step.text precision).toList = x.told) := by
  refine ⟨fun x => told_of_isFinite, fun g hm hn => tableIn_text hm hn g, numbersIn_vectorText, ?_,
    fun _ _ => Step.pictureIn_text, fun s pos settings m step hstep x shows precision => ?_⟩
  · intro m n m' n' g h hm hn hm' hn' rendering eq
    have rows : (g.map told).toRows = (h.map told).toRows := by
      rw [← tableIn_text hm hn g rendering, eq, tableIn_text hm' hn' h rendering]
    obtain ⟨height, width⟩ := Grid.shape_of_toRows_eq hm rows
    exact ⟨height, width, rows⟩
  · exact Step.pictureIn_text shows
      (m.isProper_of_mem_steps Binary64.abs_abs pos settings s step hstep x shows) precision

/-- A matrix with a negative zero, and a number whose text is long. -/
def twoRows : Grid 2 2 Float :=
  .ofFn ![![0.1, -0.0], ![-2.5e-7, 3.0]]

/-- The first row of `twoRows`. -/
def oneRow : Grid 1 2 Float :=
  .ofFn ![![0.1, -0.0]]

/-- Renderings with a negative zero, a caption with signs in it, and the constants of one
equation. -/
theorem lossless_twoRows :
    told (-0.0) = plusZero (-0.0) ∧
    tableIn (typesetBarred.text twoRows).toList = (twoRows.map told).toRows ∧
    barred.text twoRows ≠ barred.text oneRow ∧
    numbersIn (vectorText [0.1, -0.0]).toList = [told 0.1, told (-0.0)] ∧
    pictureIn ((Step.matrix "A: B =" twoRows.toRows).text 6).toList =
      (Picture.table twoRows.toRows).told ∧
    pictureIn ((Step.vector "b" [4.0]).text 6).toList = .column [told 4.0] := by
  obtain ⟨finite, matrix, column, distinct, shown, steps⟩ := lossless
  refine ⟨finite (-0.0) (by decide +kernel),
    matrix twoRows (by decide) (by decide) typesetBarred, fun eq => ?_, column [0.1, -0.0],
    shown (.matrix "A: B =" twoRows.toRows) _ rfl
      (twoRows.isProper_toRows (by decide) (by decide)) 6, ?_⟩
  · have shape := distinct twoRows oneRow (by decide) (by decide) (by decide) (by decide) barred eq
    exact absurd shape.1 (by decide)
  · let s : LinearSystem 1 Float := ⟨.ofFn !['x'], .ofFn ![![2.0]], .ofFn ![4.0]⟩
    refine steps s (by decide) .standard .luDecomposition (.vector "b" [4.0]) ?_ _ rfl 6
    rcases s.lu_cases .standard with ⟨halt, -, run⟩ | ⟨f, x, log, -, -, run⟩ <;>
      rw [Method.run, run] <;> simp [Outcome.steps, s, Vector.toList_ofFn]

end Rendering

end Chalkboard
