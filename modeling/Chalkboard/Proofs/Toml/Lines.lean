import Chalkboard.Proofs.Toml.Reading
import Chalkboard.Proofs.Toml.Runs

/-!
# Documents of plain lines

A plain line is a bare word, an equals sign with a blank on either side, and a run. A document of
such lines, with no word twice, is read as its words with what the runs denote, in their order.

* `Line` — a word and a run.
* `parse?_lines` — what a document of lines is read as.
-/

namespace Chalkboard

namespace Toml

/-- A word, a run and what the run denotes. -/
structure Line where
  name : String
  run : List Char
  value : Value

namespace Line

/-- The line as it is written. -/
def chars (l : Line) : List Char :=
  l.name.toList ++ ' ' :: '=' :: ' ' :: (l.run ++ ['\n'])

/-- A line as text. -/
theorem ofList_chars (l : Line) :
    String.ofList l.chars = l.name ++ " = " ++ String.ofList l.run ++ "\n" := by
  rw [← String.toList_inj, chars]
  simp

/-- The line as it is read. -/
def entry (l : Line) : String × Value :=
  (l.name, l.value)

/-- The assignment that the line makes. -/
def assignment (l : Line) : Assignment :=
  ⟨[], l.name, l.value⟩

/-- **`l.Plain`** — a bare word, and a run that denotes what it is said to. -/
structure Plain (l : Line) : Prop where
  named : l.name.toList ≠ []
  bare : ∀ c ∈ l.name.toList, isBare c = true
  filled : l.run ≠ []
  run : IsRun l.run
  denotes : ofRun? l.run = some l.value

end Line

/-! ## Runs as values -/

/-- No character of a run ends it. -/
theorem not_endsRun_of_isRunChar {c : Char} (h : isRunChar c = true) : endsRun c = false := by
  have other (d : Char) (hd : isRunChar d = false) : decide (c = d) = false :=
    decide_eq_false (ne_of_class h hd)
  rw [endsRun, isBlank, other ' ' (by decide), other '\t' (by decide), other '\n' (by decide),
    other '#' (by decide), other ',' (by decide), other ']' (by decide), other '\x7d' (by decide)]
  rfl

theorem IsRun.isWord {cs : List Char} (h : IsRun cs) (ne : cs ≠ []) : IsWord cs := by
  obtain ⟨c, r, rfl⟩ := List.exists_cons_of_ne_nil ne
  have first : isRunChar c = true := h c List.mem_cons_self
  refine ⟨⟨c, r, rfl, ?_, ?_, ?_, ?_⟩, fun c hc => not_endsRun_of_isRunChar (h c hc)⟩ <;>
    exact ne_of_class first (by decide)

/-- A whole number is written as its digits. -/
theorem atomSpelled_digits {n : Nat} (h : n < integerBound) : AtomSpelled (.integer n) (digits n) :=
  .scalar (.run ((isRun_of_allDigits (Decimal.allDigits_digits n)).isWord
    (Json.isWhole_digits n).ne_nil) (ofRun?_whole h))

/-! ## Lines as rows -/

variable {l : Line}

/-- **A line** is a row with its assignment. -/
theorem rowSpelled_line (h : l.Plain) (depth : Nat) :
    RowSpelled maxKeyParts depth (some l.assignment)
      (l.name.toList ++ ' ' :: '=' :: ' ' :: l.run) := by
  have key : KeySpelled [] l.name l.name.toList := .last (keyPartSpelled_bare h.named h.bare)
  have value : ValueSpelled maxKeyParts depth l.value l.run :=
    (AtomSpelled.scalar (.run (h.run.isWord h.filled) h.denotes)).valueSpelled _ depth
  exact rowSpelled_assignment _ _ key (by decide : 1 ≤ maxKeyParts) value

/-- **Lines** are rows with their assignments, and an empty row behind them. -/
theorem rowsSpelled_lines {lines : List Line} (h : ∀ l ∈ lines, l.Plain) (depth : Nat) :
    RowsSpelled maxKeyParts depth (lines.map Line.assignment) (lines.flatMap Line.chars) := by
  induction lines with
  | nil => exact .last (.blank (List.forall_mem_nil _) .none)
  | cons l lines ih =>
    obtain ⟨first, others⟩ := List.forall_mem_cons.mp h
    have rows := RowsSpelled.cons (rowSpelled_line first depth) (ih others)
    simpa [Line.chars] using rows

/-- Lines have no carriage return. -/
theorem return_not_mem_chars (h : l.Plain) : '\r' ∉ l.chars := by
  have inName : '\r' ∉ l.name.toList := fun hr => absurd (h.bare _ hr) (by decide)
  have inRun : '\r' ∉ l.run := fun hr => absurd (h.run _ hr) (by decide)
  simp [Line.chars, inName, inRun]

/-! ## Lines as entries -/

variable {d : Draft}

/-- A new word is added to the document itself. -/
theorem assign_top (top : d.current = []) (new : d.entries.get? l.name = none) :
    d.assign l.assignment = some { d with entries := d.entries ++ [l.entry] } := by
  rw [Line.assignment, Draft.assign, Draft.add, top, Entries.enterHeader, Entries.enter,
    Entries.insertDotted, Entries.enter]
  simp [Entries.insert?, new, Line.entry]

/-- **All lines** add their entries, if no word is there twice. -/
theorem foldlM_assign_lines {lines : List Line} (top : d.current = [])
    (new : ∀ l ∈ lines, d.entries.get? l.name = none) (apart : (lines.map Line.name).Nodup) :
    (lines.map Line.assignment).foldlM Draft.assign d =
      some { d with entries := d.entries ++ lines.map Line.entry } := by
  induction lines generalizing d with
  | nil =>
    rw [List.map_nil, List.map_nil, List.append_nil]
    rfl
  | cons l lines ih =>
    obtain ⟨newFirst, newOthers⟩ := List.forall_mem_cons.mp new
    rw [List.map_cons, List.nodup_cons] at apart
    obtain ⟨notAgain, apart⟩ := apart
    have stillNew : ∀ l' ∈ lines, Entries.get? (d.entries ++ [l.entry]) l'.name = none := by
      intro l' hl'
      have other : l'.name ≠ l.name := by
        intro same
        exact notAgain (same ▸ List.mem_map_of_mem hl')
      have before : List.lookup l'.name d.entries = none := newOthers l' hl'
      have differs : (l'.name == l.name) = false := beq_false_of_ne other
      rw [Entries.get?, List.lookup_append, before]
      simp only [Line.entry, List.lookup, differs, Option.or_none]
    have others := ih (d := { d with entries := d.entries ++ [l.entry] }) top stillNew apart
    rw [List.append_assoc, List.singleton_append] at others
    rw [List.map_cons, List.foldlM_cons, assign_top top newFirst, List.map_cons]
    exact others

/-! ## Documents -/

/-- **A document of plain lines** is read as its entries. -/
theorem parse?_lines {lines : List Line} (h : ∀ l ∈ lines, l.Plain)
    (apart : (lines.map Line.name).Nodup) :
    parse? (String.ofList (lines.flatMap Line.chars)) = some (lines.map Line.entry) := by
  have noReturn : '\r' ∉ lines.flatMap Line.chars := by
    rw [List.mem_flatMap]
    rintro ⟨l, hl, hr⟩
    exact return_not_mem_chars (h l hl) hr
  have document : Document maxKeyParts maxDepth (lines.map Line.assignment)
      (String.ofList (lines.flatMap Line.chars)) :=
    .rows (.inl rfl) (rowsSpelled_lines h maxDepth) (lineEnds_self noReturn) String.toList_ofList
  rw [parse?_document document, foldlM_assign_lines rfl (fun _ _ => rfl) apart]
  rfl

end Toml

end Chalkboard
