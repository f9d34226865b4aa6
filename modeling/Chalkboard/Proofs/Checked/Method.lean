import Chalkboard.Method.Basic
import Chalkboard.Proofs.Checked.Determinant
import Chalkboard.Proofs.Checked.Elimination
import Chalkboard.Proofs.Checked.Factorization
import Chalkboard.Proofs.System.RoundTrip

/-!
# Methods on arrays of any size

Unknowns, coefficients and constants that need not fit together: each access that is out of range
leaves a method without a result. On the arrays of a system every method has its result, so it takes
nothing that is not there; where a coefficient or a constant is missing, none has one.

* `Arrays` — what a method is given, with sizes that are known only when it is there.
* `Method.run?_arrays` — a method on the arrays of a system does what it does on the system.
* `Outcome.get?_ending` — and what is looked up in its ending is there.
* `Arrays.covers_of_run?` — no method has a result on arrays that are too small.
-/

namespace Chalkboard

universe u

variable {n : Nat} {α : Type u}

/-! ## Arrays -/

/-- Unknowns, coefficients and constants of any sizes. -/
structure Arrays (α : Type u) where
  unknowns : List Char
  /-- The coefficients. -/
  a : Table α
  /-- The right side. -/
  b : List α

/-- Arrays are those of a system if there is an unknown, a row and a column of coefficients for each
unknown, and a constant for each. -/
structure Arrays.IsSystem (r : Arrays α) : Prop where
  unknowns : 1 ≤ r.unknowns.length
  rows : r.a.height = r.unknowns.length
  columns : r.a.width = r.unknowns.length
  constants : r.b.length = r.unknowns.length

/-- The arrays of a system. -/
def LinearSystem.arrays (s : LinearSystem n α) : Arrays α :=
  ⟨s.unknowns.toList, s.a.table, s.b.toList⟩

@[simp] theorem LinearSystem.length_unknowns_arrays (s : LinearSystem n α) :
    s.arrays.unknowns.length = n :=
  s.unknowns.length_toList

theorem LinearSystem.isSystem_arrays (pos : 0 < n) (s : LinearSystem n α) : s.arrays.IsSystem where
  unknowns := by rw [length_unknowns_arrays]; exact pos
  rows := s.length_unknowns_arrays.symm
  columns := s.length_unknowns_arrays.symm
  constants := by rw [length_unknowns_arrays]; exact s.b.length_toList

/-- Arrays that fit together are those of a system. -/
theorem Arrays.IsSystem.exists_arrays_eq {r : Arrays α} (h : r.IsSystem) :
    ∃ s : LinearSystem r.unknowns.length α, s.arrays = r := by
  obtain ⟨unknowns, ⟨height, width, grid⟩, b⟩ := r
  obtain ⟨-, rows, columns, constants⟩ := h
  simp only at rows columns constants
  subst rows columns
  exact ⟨⟨⟨unknowns.toArray, List.size_toArray⟩, grid, ⟨b.toArray, by simpa using constants⟩⟩, rfl⟩

/-! ## Endings -/

/-- The ending of a method on arrays. -/
inductive Ending (α : Type u) where
  | solved (unknowns : List Char) (values : List α) (steps : List (Step α))
  | stopped (reason : Singularity α) (steps : List (Step α))

namespace Ending

/-- The ending with a solution, written down as the last step. -/
def close (unknowns : List Char) (values : List α) (steps : List (Step α)) : Ending α :=
  .solved unknowns values (steps ++ [.solution (unknowns.zip values)])

/-- The ending of a method that is left after some opening. -/
def leave (opening : List (Step α)) (refusal : Refusal α) : Ending α :=
  .stopped refusal.1 (opening ++ refusal.2 ++ [.failure refusal.1.text])

/-- The value of the first unknown with this name, if there is one; its place is looked up among the
values. -/
def get? (ending : Ending α) (name : Char) : Option (Option α) :=
  match ending with
  | .solved unknowns values _ =>
    match unknowns.idxOf? name with
    | none => some none
    | some i => values[i]?.map some
  | .stopped .. => some none

end Ending

/-- The ending without the sizes in its type. -/
def Outcome.ending : Outcome n α → Ending α
  | .solved solution steps => .solved solution.unknowns.toList solution.values.toList steps
  | .stopped reason steps => .stopped reason steps

theorem idxOf?_toList (v : Vector Char n) (c : Char) :
    v.toList.idxOf? c = (v.finIdxOf? c).map Fin.val := by
  rw [List.idxOf?_eq_map_finIdxOf?_val, Vector.finIdxOf?_toList, Option.map_map]
  rfl

/-- **A value is looked up where it is.** -/
theorem Outcome.get?_ending (outcome : Outcome n α) (name : Char) :
    outcome.ending.get? name = some (outcome.solution?.bind fun solution => solution.get? name) := by
  cases outcome with
  | stopped reason steps => rfl
  | solved solution steps =>
    show (match solution.unknowns.toList.idxOf? name with
      | none => some none
      | some i => solution.values.toList[i]?.map some) = some (solution.get? name)
    rw [idxOf?_toList, Solution.get?]
    cases solution.unknowns.finIdxOf? name with
    | none => rfl
    | some i =>
      rw [Option.map_some, Option.map_some]
      show (solution.values.toList[(i : Nat)]?.map some) = _
      rw [getElem?_toList]
      rfl

variable [Scalar α]

/-! ## Methods -/

namespace Arrays

variable (r : Arrays α)

/-- The coefficients of equation `i`, each with its unknown. -/
def terms? (i : Nat) : Option (List (α × Char)) :=
  (List.range r.unknowns.length).mapM fun j =>
    (r.a.entry? i j).bind fun coefficient => r.unknowns[j]?.map fun name => (coefficient, name)

/-- Equation `i`. -/
def equation? (i : Nat) : Option (Equation α) := do
  return { terms := ← r.terms? i, constant := ← r.b[i]? }

/-- All equations, in their order. -/
def equations? : Option (List (Equation α)) :=
  (List.range r.unknowns.length).mapM r.equation?

/-- What back substitution takes behind an elimination: everything from one table. -/
def triangle (t : Table α) : Triangle α where
  coefficient? := t.entry?
  constant? i := t.entry? i r.unknowns.length
  steps? i constant subtracted pivot value := r.unknowns[i]?.map fun name =>
    [.backSubstitution name i constant subtracted pivot value]

/-- How both eliminations begin. -/
def eliminationOpening? (ab : Table α) : Option (List (Step α)) := do
  return [.system (← r.equations?), .augmented "Augmented matrix [A | b]" ab.toRows]

/-- Gaussian elimination. -/
def gauss? (settings : Settings α) : Option (Ending α) := do
  let n := r.unknowns.length
  let ab ← r.a.augment? r.b
  let opening ← r.eliminationOpening? ab
  match ← Slate.triangularize? n settings.epsilon ⟨ab, []⟩ with
  | .error refusal => return .leave opening refusal
  | .ok b =>
    let forward := opening ++ b.steps ++ [.augmented "Upper triangular form" b.table.toRows]
    match ← (r.triangle b.table).backSubstitute? n settings.epsilon with
    | .error refusal => return .leave forward refusal
    | .ok (x, steps) => return .close r.unknowns x (forward ++ steps)

/-- Gauss-Jordan elimination. -/
def gaussJordan? (settings : Settings α) : Option (Ending α) := do
  let n := r.unknowns.length
  let ab ← r.a.augment? r.b
  let opening ← r.eliminationOpening? ab
  match ← Slate.diagonalize? n settings.epsilon ⟨ab, []⟩ with
  | .error refusal => return .leave opening refusal
  | .ok b =>
    let x ← b.table.column? n
    return .close r.unknowns x
      (opening ++ b.steps ++ [.augmented "Reduced row echelon form" b.table.toRows])

/-- How both methods begin that leave the coefficients as they are. -/
def plainOpening? : Option (List (Step α)) := do
  return [.system (← r.equations?), .matrix "A" r.a.toRows, .vector "b" r.b]

/-- LU decomposition. -/
def lu? (settings : Settings α) : Option (Ending α) := do
  let n := r.unknowns.length
  let opening ← r.plainOpening?
  match ← FactorTables.of? n settings.epsilon r.a with
  | .error refusal => return .leave opening refusal
  | .ok f =>
    let y ← forwardSubstitute? n f.lower r.b
    let forward := opening ++
      [.matrix "L" f.lower.toRows, .matrix "U" f.upper.toRows, .vector "y" y]
    let t : Triangle α := ⟨f.upper.entry?, fun i => y[i]?, fun _ _ _ _ _ => some []⟩
    match ← t.backSubstitute? n settings.epsilon with
    | .error refusal => return .leave forward refusal
    | .ok (x, _) => return .close r.unknowns x (forward ++ [.vector "x" x])

/-- The determinant as a step. -/
def detStep? (expand : Bool) (label : String) (det : α) : Option (Step α) :=
  if expand && 3 ≤ r.unknowns.length then do
    return .cofactorExpansion label (← r.a.cofactors?) det
  else
    some (.determinant label det)

/-- The value of unknown `k` by Cramer's Rule, written into `x`, and the steps for it. -/
def cramerValue? (det : α) (state : List α × List (Step α)) (k : Nat) :
    Option (List α × List (Step α)) :=
  r.unknowns[k]?.bind fun name => do
    let replaced ← r.a.replaceColumn? k r.b
    let label := "A_" ++ name.toString
    let numerator ← replaced.det?
    let x ← setAt? state.1 k (numerator / det)
    return (x, state.2 ++ [.matrix label replaced.toRows,
      .determinant ("det(" ++ label ++ ")") numerator,
      .quotient name numerator det (← x[k]?)])

/-- Cramer's Rule. -/
def cramer? (settings : Settings α) : Option (Ending α) := do
  let n := r.unknowns.length
  let opening ← r.plainOpening?
  let det ← r.a.det?
  let opening := opening ++ [← r.detStep? settings.expandCofactors "det(A)" det]
  if Scalar.negligible settings.epsilon det then
    return .leave opening (.zeroDeterminant det, [])
  else
    let (x, steps) ← (List.range n).foldlM (r.cramerValue? det) (List.replicate n 0, [])
    return .close r.unknowns x (opening ++ steps)

end Arrays

/-- A method on arrays. -/
def Method.run? (settings : Settings α) (r : Arrays α) : Method → Option (Ending α)
  | .cramersRule => r.cramer? settings
  | .gaussElimination => r.gauss? settings
  | .gaussJordan => r.gaussJordan? settings
  | .luDecomposition => r.lu? settings

/-! ## On systems -/

namespace LinearSystem

variable (s : LinearSystem n α)

omit [Scalar α] in
theorem terms?_arrays (i : Fin n) : s.arrays.terms? i = some (s.equation i).terms := by
  rw [Arrays.terms?, length_unknowns_arrays, range_eq_map, terms_equation]
  refine mapM_map_val (fun j => ?_) _
  show (s.a.table.entry? i j).bind (fun coefficient =>
    s.unknowns.toList[(j : Nat)]?.map fun name => (coefficient, name)) = _
  rw [Grid.entry?_table, getElem?_toList]
  rfl

omit [Scalar α] in
@[simp] theorem equations?_arrays : s.arrays.equations? = some s.equations := by
  rw [Arrays.equations?, length_unknowns_arrays, range_eq_map]
  refine mapM_map_val (fun i => ?_) _
  have constant : s.arrays.b[(i : Nat)]? = some (s.b.get i) := getElem?_toList s.b i
  rw [Arrays.equation?, terms?_arrays, constant]
  rfl

omit [Scalar α] in
@[simp] theorem augment?_arrays : s.arrays.a.augment? s.arrays.b = some s.augmented.table := by
  have column : Table.columnOf? s.arrays.a.height s.arrays.b = some s.b :=
    Table.columnOf?_toList s.b
  rw [Table.augment?, column]
  rfl

omit [Scalar α] in
theorem triangle_arrays (g : Grid n (n + 1) α) :
    (s.arrays.triangle g.table).Reads g.leftBlock g.lastColumn fun r => [s.substitutionStep r] where
  coefficient i j := by
    rw [Grid.entry_leftBlock]
    exact g.entry?_table i (j.castAdd 1)
  constant i := by
    show g.table.entry? i s.arrays.unknowns.length = _
    rw [length_unknowns_arrays]
    refine (g.entry?_table i (Fin.last n)).trans (congrArg some ?_)
    exact (Grid.getElem_lastColumn g i i.isLt).symm
  steps r := by
    show (s.unknowns.toList[(r.row : Nat)]?.map _) = _
    rw [getElem?_toList]
    rfl

omit [Scalar α] in
@[simp] theorem eliminationOpening?_arrays :
    s.arrays.eliminationOpening? s.augmented.table = some s.eliminationOpening := by
  rw [Arrays.eliminationOpening?, equations?_arrays]
  rfl

/-- **Gaussian elimination** takes nothing that is not there. -/
theorem gauss?_arrays (settings : Settings α) :
    s.arrays.gauss? settings = some (s.gauss settings).ending := by
  have elimination : Slate.triangularize? n settings.epsilon ⟨s.augmented.table, []⟩ =
      some (mapEndings Halt.refusal Board.slate
        (Board.triangularize (k := 1) settings.epsilon ⟨s.augmented, []⟩)) :=
    (⟨s.augmented, []⟩ : Board n (n + 1) α).triangularize?_slate settings.epsilon
  simp only [Arrays.gauss?, length_unknowns_arrays, augment?_arrays, eliminationOpening?_arrays,
    elimination, Option.bind_eq_bind, Option.bind_some, gauss]
  cases Board.triangularize (k := 1) settings.epsilon ⟨s.augmented, []⟩ with
  | error halt => rfl
  | ok board =>
    have substitution := (s.triangle_arrays board.grid).backSubstitute?_eq settings.epsilon
    simp only [mapEndings, Board.slate, substitution, Option.bind_some]
    cases board.grid.leftBlock.backSubstitute settings.epsilon board.grid.lastColumn with
    | error halt =>
      have steps : (halt.refusal fun r => [s.substitutionStep r]) =
          (.zeroPivot halt.row halt.pivot .backSubstitution, halt.log.map s.substitutionStep) :=
        congrArg (Prod.mk _) List.map_eq_flatMap.symm
      simp only [steps]
      rfl
    | ok state =>
      have steps : substituted (fun r => [s.substitutionStep r]) state =
          (state.1.toList, state.2.map s.substitutionStep) :=
        congrArg (Prod.mk _) List.map_eq_flatMap.symm
      simp only [steps]
      rfl

/-- **Gauss-Jordan elimination** takes nothing that is not there. -/
theorem gaussJordan?_arrays (settings : Settings α) :
    s.arrays.gaussJordan? settings = some (s.gaussJordan settings).ending := by
  have elimination : Slate.diagonalize? n settings.epsilon ⟨s.augmented.table, []⟩ =
      some (mapEndings Halt.refusal Board.slate
        (Board.diagonalize (k := 1) settings.epsilon ⟨s.augmented, []⟩)) :=
    (⟨s.augmented, []⟩ : Board n (n + 1) α).diagonalize?_slate settings.epsilon
  simp only [Arrays.gaussJordan?, length_unknowns_arrays, augment?_arrays,
    eliminationOpening?_arrays, elimination, Option.bind_eq_bind, Option.bind_some, gaussJordan]
  cases Board.diagonalize (k := 1) settings.epsilon ⟨s.augmented, []⟩ with
  | error halt => rfl
  | ok board =>
    have column : board.slate.table.column? n = some board.grid.lastColumn.toList :=
      board.grid.column?_table (Fin.last n)
    simp only [mapEndings, column, Option.bind_some]
    rfl

omit [Scalar α] in
@[simp] theorem plainOpening?_arrays : s.arrays.plainOpening? =
    some [.system s.equations, .matrix "A" s.a.toRows, .vector "b" s.b.toList] := by
  rw [Arrays.plainOpening?, equations?_arrays]
  rfl

/-- **LU decomposition** takes nothing that is not there. -/
theorem lu?_arrays (settings : Settings α) :
    s.arrays.lu? settings = some (s.lu settings).ending := by
  have factors : FactorTables.of? n settings.epsilon s.arrays.a =
      some (mapEndings FactorHalt.refusal Factors.tables (Factors.of settings.epsilon s.a)) :=
    Factors.of?_table settings.epsilon s.a
  simp only [Arrays.lu?, length_unknowns_arrays, plainOpening?_arrays, factors,
    Option.bind_eq_bind, Option.bind_some, lu]
  cases Factors.of settings.epsilon s.a with
  | error halt => rfl
  | ok f =>
    have forward : forwardSubstitute? n f.tables.lower s.arrays.b =
        some (f.lower.forwardSubstitute s.b).toList := forwardSubstitute?_eq f.lower s.b
    simp only [mapEndings, forward, Option.bind_some]
    generalize f.lower.forwardSubstitute s.b = y
    have reads : Triangle.Reads ⟨f.tables.upper.entry?, fun i => y.toList[i]?,
        fun _ _ _ _ _ => some []⟩ f.upper y fun _ => ([] : List (Step α)) :=
      ⟨f.upper.entry?_table, getElem?_toList y, fun _ => rfl⟩
    simp only [reads.backSubstitute?_eq settings.epsilon, Option.bind_some]
    cases f.upper.backSubstitute settings.epsilon y with
    | error halt =>
      have steps : (halt.refusal fun _ => []) =
          (.zeroPivot halt.row halt.pivot .backSubstitution, []) := by
        simp [SubstitutionHalt.refusal]
      simp only [mapEndings, steps, Ending.leave, List.append_nil]
      rfl
    | ok state => rfl

/-! ### Cramer's Rule -/

omit [Scalar α] in
theorem replaceColumn?_arrays (k : Fin n) :
    s.arrays.a.replaceColumn? k s.arrays.b = some (s.a.replaceColumn k s.b).table := by
  have column : Table.columnOf? s.arrays.a.height s.arrays.b = some s.b :=
    Table.columnOf?_toList s.b
  have inside : (k : Nat) < s.arrays.a.width := k.isLt
  rw [Table.replaceColumn?, dif_pos inside, column]
  rfl

theorem detStep?_arrays (expand : Bool) (label : String) :
    s.arrays.detStep? expand label s.a.det = some (.ofDet expand label s.a) := by
  have terms : s.arrays.a.cofactors? = some s.a.cofactors := s.a.cofactors?_table
  rw [Arrays.detStep?, length_unknowns_arrays, terms, Step.ofDet]
  split_ifs <;> rfl

/-- The values and the steps so far, without the size in the type. -/
def recorded (state : Vector α n × List (Step α)) : List α × List (Step α) :=
  (state.1.toList, state.2)

theorem cramerValue?_arrays (state : Vector α n × List (Step α)) (k : Fin n) :
    s.arrays.cramerValue? s.a.det (recorded state) k =
      some (recorded (setAt state.1 k (s.cramerValue k), state.2 ++ s.cramerSteps k)) := by
  have name : s.arrays.unknowns[(k : Nat)]? = some (s.unknowns.get k) := getElem?_toList s.unknowns k
  have det : (s.a.replaceColumn k s.b).table.det? = some (s.replaced k).det :=
    (s.replaced k).det?_table
  rw [Arrays.cramerValue?, name, Option.bind_some, replaceColumn?_arrays, Option.bind_eq_bind,
    Option.bind_some, det]
  simp only [recorded, Option.bind_eq_bind, Option.bind_some, setAt?_toList,
    getElem?_setAt]
  rfl

omit [Scalar α] in
/-- Values that are written one after another, with steps for each. -/
theorem foldl_values (value : Fin n → α) (steps : Fin n → List (Step α)) (x : Vector α n) :
    (List.finRange n).foldl (fun state k => (setAt state.1 k (value k), state.2 ++ steps k))
      (x, []) = (Vector.ofFn value, (List.finRange n).flatMap steps) := by
  have both (l : List (Fin n)) : ∀ (x : Vector α n) (log : List (Step α)),
      l.foldl (fun state k => (setAt state.1 k (value k), state.2 ++ steps k)) (x, log) =
        (l.foldl (fun x k => setAt x k (value k)) x, log ++ l.flatMap steps) := by
    induction l with
    | nil => exact fun x log => by rw [List.flatMap_nil, List.append_nil]; rfl
    | cons k l ih =>
      intro x log
      rw [List.foldl_cons, ih, List.flatMap_cons, List.append_assoc]
      rfl
  have values : ∀ k : Fin n, (k : Nat) < n →
      ((List.finRange n).foldl (fun x k => setAt x k (value k)) x)[(k : Nat)] = value k := by
    refine foldl_finRange (fun i (x : Vector α n) => ∀ k : Fin n, (k : Nat) < i → x[(k : Nat)] = value k)
      (fun k hk => absurd hk (Nat.not_lt_zero k)) fun i x done k hk => ?_
    rw [getElem_setAt]
    by_cases last : (i : Nat) = k
    · rw [if_pos last, Fin.ext last]
    · rw [if_neg last]
      exact done k (by omega)
  rw [both, List.nil_append]
  refine congrArg (·, _) (Vector.ext fun k hk => ?_)
  rw [Vector.getElem_ofFn]
  exact values ⟨k, hk⟩ hk

/-- **Cramer's Rule** takes nothing that is not there. -/
theorem cramer?_arrays (settings : Settings α) :
    s.arrays.cramer? settings = some (s.cramer settings).ending := by
  have det : s.arrays.a.det? = some s.a.det := s.a.det?_table
  simp only [Arrays.cramer?, length_unknowns_arrays, plainOpening?_arrays, det, detStep?_arrays,
    Option.bind_eq_bind, Option.bind_some, cramer]
  cases refused : Scalar.negligible settings.epsilon s.a.det with
  | true => rfl
  | false =>
    have values : (List.range n).foldlM (s.arrays.cramerValue? s.a.det) (List.replicate n 0, []) =
        some (recorded (Vector.ofFn s.cramerValue, (List.finRange n).flatMap s.cramerSteps)) := by
      rw [range_eq_map, ← Vector.toList_replicate, ← foldl_values s.cramerValue s.cramerSteps]
      exact foldlM_map_val recorded s.cramerValue?_arrays (List.finRange n) (Vector.replicate n 0, [])
    simp only [Bool.false_eq_true, if_false, values, Option.bind_some]
    rfl

end LinearSystem

/-- **A method on the arrays of a system** does what it does on the system. -/
theorem Method.run?_arrays (settings : Settings α) (s : LinearSystem n α) (m : Method) :
    m.run? settings s.arrays = some (m.run settings s).ending := by
  cases m with
  | cramersRule => exact s.cramer?_arrays settings
  | gaussElimination => exact s.gauss?_arrays settings
  | gaussJordan => exact s.gaussJordan?_arrays settings
  | luDecomposition => exact s.lu?_arrays settings

/-! ## Arrays that are too small -/

namespace Arrays

variable {r : Arrays α}

omit [Scalar α] in
/-- The equations can be had only where every coefficient and every constant is there. -/
theorem covers_of_equations? {equations : List (Equation α)}
    (h : r.equations? = some equations) {i j : Nat} (hi : i < r.unknowns.length)
    (hj : j < r.unknowns.length) : i < r.a.height ∧ j < r.a.width ∧ i < r.b.length := by
  obtain ⟨equation, made⟩ := exists_of_mapM_eq_some h (List.mem_range.mpr hi)
  simp only [equation?, Option.bind_eq_bind, Option.bind_eq_some_iff] at made
  obtain ⟨terms, read, constant, there, -⟩ := made
  obtain ⟨term, made⟩ := exists_of_mapM_eq_some read (List.mem_range.mpr hj)
  obtain ⟨coefficient, entry, -⟩ := Option.bind_eq_some_iff.mp made
  obtain ⟨row, column⟩ : i < r.a.height ∧ j < r.a.width := by
    by_contra outside
    rw [Table.entry?, dif_neg outside] at entry
    nomatch entry
  exact ⟨row, column, (List.getElem?_eq_some_iff.mp there).1⟩

/-- Every method begins with the equations. -/
theorem exists_equations?_of_run? {settings : Settings α} {m : Method} {ending : Ending α}
    (h : m.run? settings r = some ending) : ∃ equations, r.equations? = some equations := by
  cases m with
  | cramersRule | luDecomposition =>
    obtain ⟨opening, opened, -⟩ := Option.bind_eq_some_iff.mp h
    obtain ⟨equations, made, -⟩ := Option.bind_eq_some_iff.mp opened
    exact ⟨equations, made⟩
  | gaussElimination | gaussJordan =>
    obtain ⟨ab, -, rest⟩ := Option.bind_eq_some_iff.mp h
    obtain ⟨opening, opened, -⟩ := Option.bind_eq_some_iff.mp rest
    obtain ⟨equations, made, -⟩ := Option.bind_eq_some_iff.mp opened
    exact ⟨equations, made⟩

/-- **On arrays that are too small no method has a result.** A result shows that there is a
coefficient for each pair of unknowns and a constant for each unknown. -/
theorem covers_of_run? {settings : Settings α} {m : Method} {ending : Ending α}
    (h : m.run? settings r = some ending) {i j : Nat} (hi : i < r.unknowns.length)
    (hj : j < r.unknowns.length) : i < r.a.height ∧ j < r.a.width ∧ i < r.b.length := by
  obtain ⟨equations, made⟩ := exists_equations?_of_run? h
  exact covers_of_equations? made hi hj

/-- One coefficient does not serve two unknowns. -/
example (settings : Settings α) (g : Grid 1 1 α) (b : List α) (m : Method) :
    m.run? settings ⟨['x', 'y'], g.table, b⟩ = none := by
  rw [Option.eq_none_iff_forall_ne_some]
  intro ending h
  exact absurd (covers_of_run? h (i := 1) (j := 1) Nat.one_lt_two Nat.one_lt_two).1 (Nat.lt_irrefl 1)

end Arrays

end Chalkboard
