import Chalkboard.Equation.Reader
import Chalkboard.Practice.System
import Chalkboard.Proofs.Checked.Method
import Chalkboard.Proofs.Practice.Draw
import Chalkboard.Proofs.System.RoundTrip

/-!
# Whatever makes a system makes one that fits

A system is put together from a table or from rows, read from text, or drawn, at random or to
practise on. Each way has checks of its own, and behind all of them stands the check of the table:
arrays that it accepts fit together and are kept as they are. So no method takes anything out of
range, whichever way its system came.

* `LinearSystem.arrays_of_ofTable` — accepted arrays are kept.
* `Arrays.Constructed` — the arrays that systems are made from.
* `Arrays.Constructed.no_access_out_of_range` — what the methods make of them.
-/

namespace Chalkboard

variable {α : Type} {unknowns : List Char}

/-! ## Checks -/

namespace LinearSystem

/-- **Accepted arrays are kept**, and there is an unknown among them. -/
theorem arrays_of_ofTable {a : Table α} {b : List α} {s : LinearSystem unknowns.length α}
    (made : ofTable unknowns a b = .ok s) : unknowns ≠ [] ∧ s.arrays = ⟨unknowns, a, b⟩ := by
  obtain ⟨height, width, grid⟩ := a
  unfold ofTable at made
  split_ifs at made with empty square rows constants
  refine ⟨fun none => empty (List.length_eq_zero_iff.mpr none), ?_⟩
  simp only at square rows
  subst rows square
  cases made
  have entries : (Grid.ofFn fun i j => grid.entry (i.cast rfl) (j.cast rfl)) = grid := by
    apply Grid.ext_entry
    intro i j
    exact Grid.entry_ofFn _ i j
  show (⟨unknowns, (Grid.ofFn fun i j => grid.entry (i.cast rfl) (j.cast rfl)).table, b⟩ :
    Arrays α) = _
  rw [entries]
  rfl

theorem ne_nil_of_ofRows {rows : List (List α)} {constants : List α}
    {s : LinearSystem unknowns.length α} (made : ofRows unknowns rows constants = .ok s) :
    unknowns ≠ [] := by
  unfold ofRows at made
  split_ifs at made
  split at made
  · nomatch made
  · exact (arrays_of_ofTable made).1

theorem ne_nil_of_read {texts : List String} {s : LinearSystem unknowns.length Float}
    (made : read unknowns texts = .ok s) : unknowns ≠ [] := by
  unfold read at made
  split at made
  · nomatch made
  · next accepted => exact (variableFault?_eq_none_iff.mp accepted).1

end LinearSystem

namespace Practice

variable {σ : Type} [WordSource σ] [Scalar α] {n : Nat}

/-- A system that is drawn has an unknown, whatever the source hands out. -/
theorem yields_randomSystem (n : Nat) :
    Yields (fun drawn => ∀ s, drawn = .ok s → LinearSystem.defaultUnknowns n ≠ [])
      (randomSystem n : StateM σ (Except TableError (LinearSystem _ α))) := by
  refine (yields_drawGrid n).bind fun a _ => ?_
  have anything : Yields (fun _ => True) (drawVector drawEntry n : StateM σ (Vector Int n)) :=
    fun _ => trivial
  exact anything.bind fun b _ => Yields.pure fun s made => (LinearSystem.arrays_of_ofTable made).1

/-- So has a system that is drawn to practise on, however many attempts it takes. -/
theorem yields_drawExercise_ne_nil (epsilon : α) (attempts : Nat) :
    Yields (fun drawn => ∀ ex, drawn = .ok ex → LinearSystem.defaultUnknowns n ≠ [])
      (drawExercise n epsilon attempts : StateM σ (Except TableError (Exercise n α))) := by
  induction attempts with
  | zero => exact Yields.pure nofun
  | succ attempts ih =>
    refine (yields_drawGrid n).bind fun a _ => ?_
    simp only
    cases (a.map (Scalar.ofInt : Int → α)).inverse? epsilon with
    | none => exact ih
    | some m =>
      refine (yields_drawSolution n).bind fun x _ => Yields.pure fun ex drawn => ?_
      cases made : named n (a.map (Scalar.ofInt : Int → α))
          ((a.map Scalar.ofInt).mulVec (x.map Scalar.ofInt)) with
      | error e =>
        rw [made] at drawn
        nomatch drawn
      | ok s => exact (LinearSystem.arrays_of_ofTable made).1

theorem ne_nil_of_practiceSystem {epsilon : α} {source : σ} {ex : Exercise n α}
    (drawn : ((practiceSystem n epsilon).run source).1 = .ok ex) :
    LinearSystem.defaultUnknowns n ≠ [] := by
  unfold practiceSystem at drawn
  split_ifs at drawn
  · nomatch drawn
  · exact yields_drawExercise_ne_nil epsilon maxAttempts source ex drawn

end Practice

/-! ## Constructed arrays -/

namespace Arrays

/-- **`Constructed r`** — `r` are the arrays of a system that can be had: given and accepted as they
are, entered as rows, read from text, drawn at random or drawn to practise on. -/
inductive Constructed : Arrays Float → Prop where
  | given {unknowns : List Char} {a : Table Float} {b : List Float}
      {s : LinearSystem unknowns.length Float} (made : LinearSystem.ofTable unknowns a b = .ok s) :
      Constructed ⟨unknowns, a, b⟩
  | entered {unknowns : List Char} {rows : List (List Float)} {constants : List Float}
      {s : LinearSystem unknowns.length Float}
      (made : LinearSystem.ofRows unknowns rows constants = .ok s) : Constructed s.arrays
  | read {unknowns : List Char} {texts : List String} {s : LinearSystem unknowns.length Float}
      (made : LinearSystem.read unknowns texts = .ok s) : Constructed s.arrays
  | drawn {σ : Type} [WordSource σ] {source : σ} {n : Nat}
      {s : LinearSystem (LinearSystem.defaultUnknowns n).length Float}
      (made : ((Practice.randomSystem n).run source).1 = .ok s) : Constructed s.arrays
  | practice {σ : Type} [WordSource σ] {source : σ} {n : Nat} {epsilon : Float}
      {ex : Practice.Exercise n Float}
      (made : ((Practice.practiceSystem n epsilon).run source).1 = .ok ex) :
      Constructed ex.system.arrays

variable {r : Arrays Float}

/-- Constructed arrays fit together. -/
theorem Constructed.isSystem (h : r.Constructed) : r.IsSystem := by
  have fits {unknowns : List Char} (nonempty : unknowns ≠ [])
      (s : LinearSystem unknowns.length Float) : s.arrays.IsSystem :=
    s.isSystem_arrays (List.length_pos_iff.mpr nonempty)
  induction h with
  | @given unknowns a b s made =>
    obtain ⟨nonempty, kept⟩ := LinearSystem.arrays_of_ofTable made
    rw [← kept]
    exact fits nonempty s
  | entered made => exact fits (LinearSystem.ne_nil_of_ofRows made) _
  | read made => exact fits (LinearSystem.ne_nil_of_read made) _
  | drawn made => exact fits (Practice.yields_randomSystem _ _ _ made) _
  | practice made => exact fits (Practice.ne_nil_of_practiceSystem made) _

/-- **No access is out of range.** Constructed arrays hold an unknown, a row and a column of
coefficients for each unknown and a constant for each; they are the arrays of a system, and on them
every method under every settings takes only what is there: it has a result, the one that it has on
the system, and so has the lookup of any name in it. -/
theorem Constructed.no_access_out_of_range (h : r.Constructed) :
    r.IsSystem ∧ ∃ s : LinearSystem r.unknowns.length Float, s.arrays = r ∧
      ∀ (settings : Settings Float) (m : Method),
        m.run? settings r = some (m.run settings s).ending ∧
        ∀ name, (m.run settings s).ending.get? name =
          some ((m.run settings s).solution?.bind fun solution => solution.get? name) := by
  obtain ⟨s, arrays⟩ := h.isSystem.exists_arrays_eq
  refine ⟨h.isSystem, s, arrays, fun settings m => ⟨?_, (m.run settings s).get?_ending⟩⟩
  -- `arrays` cannot be rewritten with, for the type of `s` depends on `r`
  calc m.run? settings r = m.run? settings s.arrays := congrArg (m.run? settings) arrays.symm
    _ = some (m.run settings s).ending := m.run?_arrays settings s

/-- The arrays of `2x + 3y = 7` and `x - y = 1`. -/
def sample : Arrays Float :=
  ⟨['x', 'y'], Grid.table ⟨#v[#v[2, 3], #v[1, -1]]⟩, [7, 1]⟩

theorem Constructed.no_access_out_of_range_sample :
    sample.Constructed ∧ sample.IsSystem ∧
      ∀ (settings : Settings Float) (m : Method), (m.run? settings sample).isSome := by
  have given : sample.Constructed := .given rfl
  obtain ⟨fits, s, -, results⟩ := Constructed.no_access_out_of_range given
  refine ⟨given, fits, fun settings m => ?_⟩
  rw [(results settings m).1]
  rfl

end Arrays

end Chalkboard
