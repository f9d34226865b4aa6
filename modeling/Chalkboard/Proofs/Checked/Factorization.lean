import Chalkboard.Proofs.Checked.Substitution

/-!
# Factorisation with checked access

The two factors are filled entry by entry, each entry from those that are there already. A row or a
column that is filled one entry after the other is the row or the column that is filled at once, for
no entry of it is read before it is complete.

* `Grid.foldl_setEntry` — entries written one after another.
* `Factors.of?_table` — the factorisation.
-/

namespace Chalkboard

universe u v

variable {m n : Nat} {α : Type u}

/-- **Entries that are written one after another**, each with a value that depends on none of
them. -/
theorem Grid.foldl_setEntry {ι : Type v} (place : ι → Fin m × Fin n) (value : Grid m n α → ι → α)
    {g : Grid m n α} {l : List ι} {x : Fin m → Fin n → α}
    (stable : ∀ h : Grid m n α, (∀ r c, (r, c) ∉ l.map place → h.entry r c = g.entry r c) →
      ∀ i ∈ l, value h i = x (place i).1 (place i).2) :
    l.foldl (fun h i => h.setEntry (place i).1 (place i).2 (value h i)) g =
      ofFn fun r c => if (r, c) ∈ l.map place then x r c else g.entry r c := by
  -- what is written so far differs from `g` at places of `l` only
  suffices H : ∀ (l' : List ι), (∀ i ∈ l', i ∈ l) → ∀ h : Grid m n α,
      (∀ r c, (r, c) ∉ l.map place → h.entry r c = g.entry r c) →
      l'.foldl (fun h i => h.setEntry (place i).1 (place i).2 (value h i)) h =
        ofFn fun r c => if (r, c) ∈ l'.map place then x r c else h.entry r c from
    H l (fun _ hi => hi) g fun _ _ _ => rfl
  intro l'
  induction l' with
  | nil =>
    intro _ h _
    apply ext_entry
    intro r c
    rw [entry_ofFn, List.map_nil, if_neg List.not_mem_nil]
    rfl
  | cons i l' ih =>
    intro sub h agree
    obtain ⟨hi, hl'⟩ := List.forall_mem_cons.mp sub
    rw [List.foldl_cons, stable h agree i hi, ih hl']
    · apply ext_entry
      intro r c
      rw [entry_ofFn, entry_ofFn, entry_setEntry, List.map_cons]
      by_cases later : (r, c) ∈ l'.map place
      · rw [if_pos later, if_pos (List.mem_cons_of_mem _ later)]
      · by_cases own : (place i).1 = r ∧ (place i).2 = c
        · have first : (r, c) ∈ place i :: l'.map place := by
            rw [← own.1, ← own.2]
            exact List.mem_cons_self
          rw [if_neg later, if_pos own, if_pos first, own.1, own.2]
        · have neither : (r, c) ∉ place i :: l'.map place := by
            rw [List.mem_cons, not_or]
            refine ⟨fun e => own ?_, later⟩
            rw [← e]
            exact ⟨rfl, rfl⟩
          rw [if_neg later, if_neg own, if_neg neither]
    · intro r c hrc
      rw [entry_setEntry, if_neg, agree r c hrc]
      rintro ⟨rfl, rfl⟩
      exact hrc (List.mem_map_of_mem hi)

variable [Scalar α]

theorem Factors.partialProduct_congr {f f' : Factors n α} {i r c : Fin n}
    (lower : ∀ k < i, f.lower.entry r k = f'.lower.entry r k)
    (upper : ∀ k < i, f.upper.entry k c = f'.upper.entry k c) :
    f.partialProduct i r c = f'.partialProduct i r c := by
  refine congrArg Scalar.sum (List.map_congr_left fun k hk => ?_)
  have before : k < i := of_decide_eq_true (List.mem_filter.mp hk).2
  rw [lower k before, upper k before]

/-! ## One row and one column -/

/-- The factors of a table of any shape, the lower one first. -/
structure FactorTables (α : Type u) where
  lower : Table α
  upper : Table α

namespace FactorTables

/-- What the first `i` columns of the lower and rows of the upper factor contribute to the product
in row `r` and column `c`. -/
def partialProduct? (f : FactorTables α) (i r c : Nat) : Option α :=
  sumOf? (List.range i) fun k => do return (← f.lower.entry? r k) * (← f.upper.entry? k c)

/-- Fills row `i` of the upper factor from the diagonal on, and the diagonal of the lower factor. -/
def fillRow? (n : Nat) (a : Table α) (f : FactorTables α) (i : Nat) : Option (FactorTables α) := do
  let lower ← f.lower.setEntry? i i 1
  let upper ← (List.range' i (n - i)).foldlM (fun upper j => do
    let sum ← partialProduct? ⟨lower, upper⟩ i i j
    upper.setEntry? i j ((← a.entry? i j) - sum)) f.upper
  return ⟨lower, upper⟩

/-- Fills column `i` of the lower factor below the diagonal. -/
def fillColumn? (n : Nat) (a : Table α) (f : FactorTables α) (i : Nat) :
    Option (FactorTables α) := do
  let pivot ← f.upper.entry? i i
  let lower ← (List.range' (i + 1) (n - (i + 1))).foldlM (fun lower j => do
    let sum ← partialProduct? ⟨lower, f.upper⟩ i j i
    lower.setEntry? j i (((← a.entry? j i) - sum) / pivot)) f.lower
  return ⟨lower, f.upper⟩

/-- Fills one row and one column. -/
def extend? (n : Nat) (epsilon : α) (a : Table α) (f : FactorTables α) (i : Nat) :
    Option (Except (Refusal α) (FactorTables α)) := do
  let f ← f.fillRow? n a i
  let pivot ← f.upper.entry? i i
  if Scalar.negligible epsilon pivot then
    return .error (.zeroPivot i pivot .decomposition,
      [.matrix "L (partial)" f.lower.toRows, .matrix "U (partial)" f.upper.toRows])
  else
    return .ok (← f.fillColumn? n a i)

/-- The factors of `a`, as far as its first `n` rows and columns. -/
def of? (n : Nat) (epsilon : α) (a : Table α) : Option (Except (Refusal α) (FactorTables α)) :=
  loop? (extend? n epsilon a) (List.range n)
    ⟨(Grid.ofFn fun _ _ : Fin n => 0).table, (Grid.ofFn fun _ _ : Fin n => 0).table⟩

end FactorTables

/-! ## On grids -/

/-- Two factors as tables. -/
def Factors.tables (f : Factors n α) : FactorTables α :=
  ⟨f.lower.table, f.upper.table⟩

/-- What a method returns that is left with a halt of its factorisation. -/
def FactorHalt.refusal (halt : FactorHalt n α) : Refusal α :=
  (.zeroPivot halt.column halt.pivot .decomposition,
    [.matrix "L (partial)" halt.factors.lower.toRows,
      .matrix "U (partial)" halt.factors.upper.toRows])

namespace Factors

variable (a : Grid n n α) (f : Factors n α) (i : Fin n)

omit a in
theorem partialProduct?_tables (r c : Fin n) :
    f.tables.partialProduct? i r c = some (f.partialProduct i r c) := by
  rw [FactorTables.partialProduct?, below_eq_map]
  refine sumOf?_map_val (fun k => ?_) _
  show (do return (← f.lower.table.entry? r k) * (← f.upper.table.entry? k c)) = _
  rw [Grid.entry?_table, Grid.entry?_table]
  rfl

/-- The row of the upper factor, one entry after the other. -/
theorem upper_fillRow_eq_foldl :
    (f.fillRow a i).upper = ((List.finRange n).filter (i ≤ ·)).foldl
      (fun upper j => upper.setEntry i j
        (a.entry i j - partialProduct ⟨f.lower.setEntry i i 1, upper⟩ i i j)) f.upper := by
  have place (r c : Fin n) :
      (r, c) ∈ ((List.finRange n).filter (i ≤ ·)).map (fun j => (i, j)) ↔ r = i ∧ i ≤ c := by
    simp [and_comm, eq_comm]
  rw [Grid.foldl_setEntry (fun j => (i, j)) (fun upper j =>
    a.entry i j - partialProduct ⟨f.lower.setEntry i i 1, upper⟩ i i j)
    (x := fun _ c => a.entry i c - f.partialProduct i i c)]
  · simp only [place]
    rfl
  · intro upper same j hj
    refine congrArg (a.entry i j - ·) (partialProduct_congr (fun k hk => ?_) fun k hk => ?_)
    · rw [Grid.entry_setEntry, if_neg fun e => hk.ne e.2.symm]
    · exact same k j fun mem => hk.ne ((place k j).mp mem).1

/-- The column of the lower factor, one entry after the other. -/
theorem lower_fillColumn_eq_foldl :
    (f.fillColumn a i).lower = ((List.finRange n).filter (i < ·)).foldl
      (fun lower j => lower.setEntry j i
        ((a.entry j i - partialProduct ⟨lower, f.upper⟩ i j i) / f.upper.entry i i)) f.lower := by
  have place (r c : Fin n) :
      (r, c) ∈ ((List.finRange n).filter (i < ·)).map (fun j => (j, i)) ↔ c = i ∧ i < r := by
    simp [and_comm, eq_comm]
  rw [Grid.foldl_setEntry (fun j => (j, i)) (fun lower j =>
    (a.entry j i - partialProduct ⟨lower, f.upper⟩ i j i) / f.upper.entry i i)
    (x := fun r _ => (a.entry r i - f.partialProduct i r i) / f.upper.entry i i)]
  · simp only [place]
    rfl
  · intro lower same j hj
    refine congrArg (fun s => (a.entry j i - s) / f.upper.entry i i)
      (partialProduct_congr (fun k hk => ?_) fun k hk => rfl)
    exact same j k fun mem => hk.ne ((place j k).mp mem).1

theorem fillRow?_tables : f.tables.fillRow? n a.table i = some (f.fillRow a i).tables := by
  have lower : f.tables.lower.setEntry? i i 1 = some (f.lower.setEntry i i 1).table :=
    f.lower.setEntry?_table i i 1
  have upper : (List.range' i (n - i)).foldlM (fun upper j => do
      let sum ← FactorTables.partialProduct? ⟨(f.lower.setEntry i i 1).table, upper⟩ i i j
      upper.setEntry? i j ((← a.table.entry? i j) - sum)) f.tables.upper =
        some (f.fillRow a i).upper.table := by
    rw [upper_fillRow_eq_foldl, from_eq_map]
    refine foldlM_map_val Grid.table (fun upper j => ?_) _ f.upper
    have sum := partialProduct?_tables ⟨f.lower.setEntry i i 1, upper⟩ i i j
    rw [tables] at sum
    rw [sum, Grid.entry?_table, Option.bind_eq_bind, Option.bind_some,
      Option.bind_some]
    exact upper.setEntry?_table i j _
  rw [FactorTables.fillRow?, lower, Option.bind_eq_bind, Option.bind_some, upper]
  rfl

theorem fillColumn?_tables : f.tables.fillColumn? n a.table i = some (f.fillColumn a i).tables := by
  have pivot : f.tables.upper.entry? i i = some (f.upper.entry i i) := f.upper.entry?_table i i
  have lower : (List.range' (i + 1) (n - (i + 1))).foldlM (fun lower j => do
      let sum ← FactorTables.partialProduct? ⟨lower, f.tables.upper⟩ i j i
      lower.setEntry? j i (((← a.table.entry? j i) - sum) / f.upper.entry i i)) f.tables.lower =
        some (f.fillColumn a i).lower.table := by
    rw [lower_fillColumn_eq_foldl, above_eq_map]
    refine foldlM_map_val Grid.table (fun lower j => ?_) _ f.lower
    have sum := partialProduct?_tables ⟨lower, f.upper⟩ i j i
    rw [tables] at sum
    rw [tables, sum, Grid.entry?_table, Option.bind_eq_bind, Option.bind_some,
      Option.bind_some]
    exact lower.setEntry?_table j i _
  rw [FactorTables.fillColumn?, pivot, Option.bind_eq_bind, Option.bind_some, lower]
  rfl

theorem extend?_tables (epsilon : α) :
    f.tables.extend? n epsilon a.table i =
      some (mapEndings FactorHalt.refusal tables (f.extend epsilon a i)) := by
  have pivot : (f.fillRow a i).tables.upper.entry? i i = some ((f.fillRow a i).upper.entry i i) :=
    (f.fillRow a i).upper.entry?_table i i
  simp only [FactorTables.extend?, fillRow?_tables, pivot, extend, Option.bind_eq_bind,
    Option.bind_some]
  cases refused : Scalar.negligible epsilon ((f.fillRow a i).upper.entry i i) with
  | true => rfl
  | false =>
    simp only [Bool.false_eq_true, if_false, fillColumn?_tables, Option.bind_some]
    rfl

end Factors

/-- **A factorisation** takes no entry that is not there. -/
theorem Factors.of?_table (epsilon : α) (a : Grid n n α) :
    FactorTables.of? n epsilon a.table =
      some (mapEndings FactorHalt.refusal tables (Factors.of epsilon a)) := by
  rw [FactorTables.of?, range_eq_map]
  exact loop?_map_val FactorHalt.refusal tables (fun f i => f.extend?_tables a i epsilon) _ zero

end Chalkboard
