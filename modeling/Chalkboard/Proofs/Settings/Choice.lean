import Chalkboard.Settings.Changes

/-!
# Choices of settings

A choice is one setting with a value. Choices are made one after another; if no two of them have one
name, each setting is what its choice makes it, or what it was. A text that has the value of each
choice under the name of the choice, and nothing under the other names, is read as the changes that
make the choices.

* `Choice` — one setting with a value; `choose` makes choices one after another.
* `Choice.InJson`, `Choice.InToml` — the values that mean a choice.
* `Field` — one of the four places of a choice, and `Field.exists_read` what is read for it.
* `exists_changes` — what is read for all four.
-/

namespace Chalkboard

namespace Settings

/-! ## Choices -/

/-- A setting with a value. -/
inductive Choice where
  | epsilon (x : Float)
  | maxSize (n : Nat)
  | precision (n : Nat)
  | expandCofactors (b : Bool)

namespace Choice

/-- The name of the setting. -/
def name : Choice → String
  | .epsilon _ => "epsilon"
  | .maxSize _ => "max_size"
  | .precision _ => "precision"
  | .expandCofactors _ => "expand_cofactors"

/-- The settings with this one replaced. -/
def make : Choice → Settings Float → Settings Float
  | .epsilon x, s => { s with epsilon := x }
  | .maxSize n, s => { s with maxSize := n }
  | .precision n, s => { s with precision := n }
  | .expandCofactors b, s => { s with expandCofactors := b }

/-- The names of the settings. -/
def names : List String :=
  ["epsilon", "max_size", "precision", "expand_cofactors"]

/-- **`c.InJson v`** — `v` is the value of the choice `c` in JSON. -/
inductive InJson : Choice → Json → Prop where
  | epsilon {numeral : Json.Numeral} {x : Float} : numeral.toFloat? = some x →
      InJson (.epsilon x) (.number numeral)
  | maxSize {numeral : Json.Numeral} {n : Nat} : numeral.toNat? = some n →
      InJson (.maxSize n) (.number numeral)
  | precision {numeral : Json.Numeral} {n : Nat} : numeral.toNat? = some n →
      InJson (.precision n) (.number numeral)
  | expandCofactors (b : Bool) : InJson (.expandCofactors b) (.bool b)

/-- **`c.InToml v`** — `v` is the value of the choice `c` in TOML. -/
inductive InToml : Choice → Toml.Value → Prop where
  | epsilon (x : Float) : InToml (.epsilon x) (.float x)
  /-- A whole number, which stands for the nearest one. -/
  | epsilonWhole (n : Int) :
      InToml (.epsilon (Decimal.toFloat (decide (n < 0)) ⟨n.natAbs, 0⟩)) (.integer n)
  | maxSize (n : Nat) : InToml (.maxSize n) (.integer n)
  | precision (n : Nat) : InToml (.precision n) (.integer n)
  | expandCofactors (b : Bool) : InToml (.expandCofactors b) (.boolean b)

end Choice

/-- The settings with choices made one after another. -/
def choose (cs : List Choice) (s : Settings Float) : Settings Float :=
  cs.foldl (fun s c => c.make s) s

/-! ## The places of choices -/

/-- A setting as a place that choices of one name fill. -/
structure Field (β : Type) where
  name : String
  /-- What a choice puts into it. -/
  of? : Choice → Option β
  /-- What settings have in it. -/
  get : Settings Float → β
  get_make : ∀ c s, get (c.make s) = (of? c).getD (get s)
  of?_eq_none_iff : ∀ c, of? c = none ↔ c.name ≠ name
  known : name ∈ Choice.names

namespace Field

/-- The tolerance. -/
def epsilon : Field Float where
  name := "epsilon"
  of? := fun | .epsilon x => some x | _ => none
  get := Settings.epsilon
  get_make := by rintro (_ | _ | _ | _) s <;> rfl
  of?_eq_none_iff := by rintro (_ | _ | _ | _) <;> simp [Choice.name]
  known := by simp [Choice.names]

/-- The size bound. -/
def maxSize : Field Nat where
  name := "max_size"
  of? := fun | .maxSize n => some n | _ => none
  get := Settings.maxSize
  get_make := by rintro (_ | _ | _ | _) s <;> rfl
  of?_eq_none_iff := by rintro (_ | _ | _ | _) <;> simp [Choice.name]
  known := by simp [Choice.names]

/-- The number of decimals. -/
def precision : Field Nat where
  name := "precision"
  of? := fun | .precision n => some n | _ => none
  get := Settings.precision
  get_make := by rintro (_ | _ | _ | _) s <;> rfl
  of?_eq_none_iff := by rintro (_ | _ | _ | _) <;> simp [Choice.name]
  known := by simp [Choice.names]

/-- Whether determinants are expanded. -/
def expandCofactors : Field Bool where
  name := "expand_cofactors"
  of? := fun | .expandCofactors b => some b | _ => none
  get := Settings.expandCofactors
  get_make := by rintro (_ | _ | _ | _) s <;> rfl
  of?_eq_none_iff := by rintro (_ | _ | _ | _) <;> simp [Choice.name]
  known := by simp [Choice.names]

variable {β : Type} (f : Field β) {cs : List Choice}

/-- **A place that no choice names** keeps what it has. -/
theorem get_choose_of_forall_ne (h : ∀ c ∈ cs, c.name ≠ f.name) (s : Settings Float) :
    f.get (choose cs s) = f.get s := by
  induction cs generalizing s with
  | nil => rfl
  | cons c cs ih =>
    obtain ⟨first, others⟩ := List.forall_mem_cons.mp h
    show f.get (choose cs (c.make s)) = f.get s
    rw [ih others, f.get_make, (f.of?_eq_none_iff c).mpr first]
    rfl

/-- **A place that one choice names** gets what it says. -/
theorem get_choose_of_mem (apart : (cs.map Choice.name).Nodup) {c : Choice} (mem : c ∈ cs) {b : β}
    (value : f.of? c = some b) (s : Settings Float) : f.get (choose cs s) = b := by
  induction cs generalizing s with
  | nil => exact absurd mem List.not_mem_nil
  | cons c' cs ih =>
    rw [List.map_cons, List.nodup_cons] at apart
    obtain ⟨notAgain, apart⟩ := apart
    show f.get (choose cs (c'.make s)) = b
    rcases List.mem_cons.mp mem with rfl | mem
    · have named : c.name = f.name := by
        have filled : ¬ c.name ≠ f.name := by
          rw [← f.of?_eq_none_iff, value]
          exact Option.some_ne_none b
        exact Classical.not_not.mp filled
      have others : ∀ c' ∈ cs, c'.name ≠ f.name := by
        intro c' hc' same
        exact notAgain (List.mem_map.mpr ⟨c', hc', same.trans named.symm⟩)
      rw [f.get_choose_of_forall_ne others, f.get_make, value]
      rfl
    · exact ih apart mem _

/-! ## What is read -/

section Read

variable {α : Type} {look : String → Option α} {means : Choice → α → Prop}

/-- **`Holds look means cs`** — under the names of the choices `cs`, and of no others, `look` finds
values that mean them. -/
structure Holds (look : String → Option α) (means : Choice → α → Prop) (cs : List Choice) :
    Prop where
  apart : (cs.map Choice.name).Nodup
  chosen : ∀ c ∈ cs, ∃ v, look c.name = some v ∧ means c v
  others : ∀ name ∈ Choice.names, (∀ c ∈ cs, c.name ≠ name) → look name = none

/-- **What is read for a place** is what the choices leave in it. -/
theorem exists_read (h : Holds look means cs) (read : α → Option β)
    (reads : ∀ {c v b}, means c v → f.of? c = some b → read v = some b) :
    ∃ b?, Changes.optional? read (look f.name) = some b? ∧
      ∀ s, b?.getD (f.get s) = f.get (choose cs s) := by
  by_cases named : ∃ c ∈ cs, c.name = f.name
  · obtain ⟨c, mem, same⟩ := named
    obtain ⟨v, found, meant⟩ := h.chosen c mem
    obtain ⟨b, value⟩ : ∃ b, f.of? c = some b :=
      Option.ne_none_iff_exists'.mp fun none => (f.of?_eq_none_iff c).mp none same
    refine ⟨some b, ?_, fun s => (f.get_choose_of_mem h.apart mem value s).symm⟩
    rw [← same, found, Changes.optional?, reads meant value]
    rfl
  · have unnamed : ∀ c ∈ cs, c.name ≠ f.name := fun c mem same => named ⟨c, mem, same⟩
    refine ⟨none, ?_, fun s => (f.get_choose_of_forall_ne unnamed s).symm⟩
    rw [h.others f.name f.known unnamed]
    rfl

end Read

end Field

/-- **Choices are read** from the values that mean them, as changes that make them. -/
theorem exists_changes {α : Type} {look : String → Option α} {means : Choice → α → Prop}
    (real : α → Option Float) (count : α → Option Nat) (flag : α → Option Bool) {cs : List Choice}
    (h : Field.Holds look means cs) (hepsilon : ∀ {x v}, means (.epsilon x) v → real v = some x)
    (hmaxSize : ∀ {n v}, means (.maxSize n) v → count v = some n)
    (hprecision : ∀ {n v}, means (.precision n) v → count v = some n)
    (hexpand : ∀ {b v}, means (.expandCofactors b) v → flag v = some b) :
    ∃ changes, Changes.ofValues? real count flag (look "epsilon") (look "max_size")
        (look "precision") (look "expand_cofactors") = some changes ∧
      ∀ s, changes.apply s = choose cs s := by
  obtain ⟨x?, readEpsilon, getEpsilon⟩ := Field.epsilon.exists_read h real
    (by rintro (_ | _ | _ | _) v x meant value <;> cases value; exact hepsilon meant)
  obtain ⟨n?, readMaxSize, getMaxSize⟩ := Field.maxSize.exists_read h count
    (by rintro (_ | _ | _ | _) v n meant value <;> cases value; exact hmaxSize meant)
  obtain ⟨p?, readPrecision, getPrecision⟩ := Field.precision.exists_read h count
    (by rintro (_ | _ | _ | _) v n meant value <;> cases value; exact hprecision meant)
  obtain ⟨b?, readExpand, getExpand⟩ := Field.expandCofactors.exists_read h flag
    (by rintro (_ | _ | _ | _) v b meant value <;> cases value; exact hexpand meant)
  refine ⟨⟨x?, n?, p?, b?⟩, ?_, fun s => ?_⟩
  · have read : Changes.ofValues? real count flag (look Field.epsilon.name)
        (look Field.maxSize.name) (look Field.precision.name) (look Field.expandCofactors.name) =
          some ⟨x?, n?, p?, b?⟩ := by
      rw [Changes.ofValues?, readEpsilon, readMaxSize, readPrecision, readExpand]
      rfl
    exact read
  · show (⟨x?.getD (Field.epsilon.get s), n?.getD (Field.maxSize.get s),
      p?.getD (Field.precision.get s), b?.getD (Field.expandCofactors.get s)⟩ : Settings Float) = _
    rw [getEpsilon, getMaxSize, getPrecision, getExpand]
    rfl

end Settings

end Chalkboard
