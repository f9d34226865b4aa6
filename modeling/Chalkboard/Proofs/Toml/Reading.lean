import Chalkboard.Proofs.Toml.Values

/-!
# Documents of assignments are read row by row

Blank rows leave a document as it is, and an assignment is added to it. So reading a document is
adding its assignments one after another, as far as that is possible. A document with longer keys or
deeper values than the reader admits is refused, or it is read in the same way.

* `readLines?_rows` — rows, from any draft on.
* `parse?_agrees` — documents; `parse?_document` — documents within the bounds.
* `parse?_nestedRow`, `parse?_dottedRow` — documents beyond either bound.
-/

namespace Chalkboard

namespace Toml

variable {most depth : Nat}

/-- **`Within most depth`** — the reader admits keys of `most` parts, and values `depth` deep. -/
def Within (most depth : Nat) : Prop :=
  most ≤ maxKeyParts ∧ depth ≤ maxDepth

/-- Adds an assignment to the current table. -/
def Draft.assign (d : Draft) (a : Assignment) : Option Draft :=
  d.add (a.path, a.name) a.value

/-! ## One row -/

/-- **`RowEnd behind next`** — `behind` is the end of the text, or a line feed with `next` behind
it. -/
inductive RowEnd : List Char → List Char → Prop where
  | last : RowEnd [] []
  | feed {next : List Char} : RowEnd ('\n' :: next) next

/-- **Blanks and a comment** end a row. -/
theorem afterLine?_append {blanks comment behind next : List Char} (hblanks : Blanks blanks)
    (hcomment : Comment comment) (h : RowEnd behind next) :
    afterLine? (blanks ++ (comment ++ behind)) = some next := by
  have front : (blanks ++ (comment ++ behind)).dropWhile isBlank = comment ++ behind := by
    refine dropWhile_blanks hblanks fun c hc => ?_
    cases hcomment <;> cases h <;> cases hc <;> rfl
  rw [afterLine?, front]
  cases hcomment with
  | none =>
    cases h with
    | last => rfl
    | feed => rfl
  | text plain =>
    have ends : ∀ c ∈ behind.head?, isPlain c = false := by
      cases h with
      | last => exact fun c hc => nomatch hc
      | feed =>
        intro c hc
        cases hc
        rfl
    simp only [List.cons_append, dropWhile_append_of_stop plain ends]
    cases h with
    | last => rfl
    | feed => rfl

/-- A row does not end where a key begins. -/
theorem afterLine?_key {blanks rest : List Char} {c : Char} (hblanks : Blanks blanks)
    (opens : opensKey c = true) : afterLine? (blanks ++ c :: rest) = none := by
  have front : (blanks ++ c :: rest).dropWhile isBlank = c :: rest := by
    refine dropWhile_blanks hblanks fun d hd => ?_
    cases hd
    exact not_isBlank_of_opensKey opens
  have comment : c ≠ '#' := ne_of_class opens (by decide)
  have feed : c ≠ '\n' := ne_of_class opens (by decide)
  rw [afterLine?, front]
  simp only
  split
  · next same =>
    injection same with first _
    exact absurd first comment
  · exact if_neg feed

theorem Assignment.Spelled.first {item : Value → List Char → Prop} {a : Assignment}
    {word : List Char} (h : a.Spelled most item word) :
    ∃ c cs, word = c :: cs ∧ opensKey c = true := by
  cases h with
  | intro key =>
    obtain ⟨c, cs, rfl, opens⟩ := key.first
    exact ⟨c, _, rfl, opens⟩

/-- **An assignment** is read with the rest of its row, if the draft takes it. -/
theorem readLine?_assignment {a : Assignment} {word blanks comment behind next : List Char}
    (ha : a.Spelled most (ValueSpelled most depth) word) (hblanks : Blanks blanks)
    (hcomment : Comment comment) (h : RowEnd behind next) (d : Draft) :
    Agrees (Within most depth) (readLine? d (word ++ (blanks ++ (comment ++ behind))))
      ((d.assign a).map (·, next)) := by
  have none : Blanks [] := List.forall_mem_nil _
  have ends : ∀ c ∈ (comment ++ behind).head?, isBlank c = false ∧ endsRun c = true := by
    intro c hc
    cases hcomment <;> cases h <;> cases hc <;> decide
  have taken := scanKeyValue?_append (takes_valueSpelled most depth maxDepth) And.left none ha
    hblanks ends
  have rowEnds : afterLine? (comment ++ behind) = some next := afterLine?_append none hcomment h
  obtain ⟨c, cs, rfl, opens⟩ := ha.first
  have bracket : c ≠ '[' := ne_of_class opens (by decide)
  rw [List.nil_append] at taken
  rw [List.cons_append] at taken ⊢
  rw [readLine?]
  · rcases taken with taken | ⟨unsure, none⟩
    · apply Agrees.of_eq
      simp only [taken, Assignment.pair, rowEnds]
      show (do let d ← d.assign a; return (d, next)) = (d.assign a).map (·, next)
      cases d.assign a <;> rfl
    · apply Agrees.of_none unsure
      rw [none]
  · rintro r same
    injection same with first _
    exact bracket first
  · rintro r same
    injection same with first _
    exact bracket first

/-! ## All rows -/

theorem RowEnd.length_le {behind next : List Char} (h : RowEnd behind next) :
    next.length ≤ behind.length := by
  cases h with
  | last => exact le_rfl
  | feed => exact Nat.le_succ _

theorem readLines?_nil (d : Draft) : readLines? d [] = some d := by
  rw [readLines?]
  rfl

/-- **A blank row** is passed over. -/
theorem readLines?_blank {row behind next : List Char} (hrow : RowSpelled most depth none row)
    (h : RowEnd behind next) (d : Draft) : readLines? d (row ++ behind) = readLines? d next := by
  cases hrow with
  | @blank blanks comment hblanks hcomment =>
    have ends : afterLine? (blanks ++ comment ++ behind) = some next := by
      rw [List.append_assoc]
      exact afterLine?_append hblanks hcomment h
    cases next with
    | nil =>
      rw [readLines?_nil, readLines?, ends]
    | cons c cs =>
      have shorter : (c :: cs).length < (blanks ++ comment ++ behind).length := by
        cases h
        simp only [List.length_append, List.length_cons]
        omega
      rw [readLines?, ends]
      exact if_pos shorter

/-- **An assignment** is added before the other rows are read. -/
theorem readLines?_assignment {a : Assignment} {row behind next : List Char}
    (hrow : RowSpelled most depth (some a) row) (h : RowEnd behind next) (d : Draft) :
    Agrees (Within most depth) (readLines? d (row ++ behind))
      ((d.assign a).bind fun d => readLines? d next) := by
  cases hrow with
  | @assignment _ before word blanks comment hbefore ha hblanks hcomment =>
    have text : before ++ (word ++ (blanks ++ comment)) ++ behind =
        before ++ (word ++ (blanks ++ (comment ++ behind))) := by simp
    have read := readLine?_assignment ha hblanks hcomment h d
    obtain ⟨c, cs, rfl, opens⟩ := ha.first
    have goesOn : afterLine? (before ++ (c :: cs ++ (blanks ++ (comment ++ behind)))) = none :=
      afterLine?_key hbefore opens
    have front : (before ++ (c :: cs ++ (blanks ++ (comment ++ behind)))).dropWhile isBlank =
        c :: cs ++ (blanks ++ (comment ++ behind)) := by
      refine dropWhile_blanks hbefore fun d hd => ?_
      cases hd
      exact not_isBlank_of_opensKey opens
    have shorter :
        next.length < (before ++ (c :: cs ++ (blanks ++ (comment ++ behind)))).length := by
      have := h.length_le
      simp only [List.length_append, List.length_cons]
      omega
    rw [text, readLines?, goesOn, front]
    simp only
    rcases read with read | ⟨unsure, none⟩
    · apply Agrees.of_eq
      rw [read]
      cases d.assign a with
      | none => rfl
      | some d => exact if_pos shorter
    · apply Agrees.of_none unsure
      rw [none]

/-- **Reading rows is adding their assignments**, from any draft on. -/
theorem readLines?_rows {as : List Assignment} {cs : List Char} (h : RowsSpelled most depth as cs)
    (d : Draft) : Agrees (Within most depth) (readLines? d cs) (as.foldlM Draft.assign d) := by
  have row {a? : Option Assignment} {row behind next : List Char}
      (hrow : RowSpelled most depth a? row) (h : RowEnd behind next) (d : Draft) :
      Agrees (Within most depth) (readLines? d (row ++ behind))
        ((a?.toList.foldlM Draft.assign d).bind fun d => readLines? d next) := by
    cases a? with
    | none => exact .of_eq (readLines?_blank hrow h d)
    | some a =>
      have single : [a].foldlM Draft.assign d = d.assign a := by
        rw [List.foldlM_cons]
        cases d.assign a <;> rfl
      rw [Option.toList_some, single]
      exact readLines?_assignment hrow h d
  induction h generalizing d with
  | last hrow =>
    have read := row hrow .last d
    simp only [readLines?_nil, Option.bind_fun_some, List.append_nil] at read
    exact read
  | cons hrow _ ih =>
    rw [List.foldlM_append]
    exact (row hrow .feed d).trans (Agrees.bind (.of_eq rfl) ih)

/-! ## Documents -/

/-- **Carriage returns before line feeds** do not count. -/
theorem dropReturns_of_lineEnds {cs text : List Char} (h : LineEnds cs text) :
    dropReturns text = cs := by
  induction h with
  | nil => rfl
  | char other _ ih =>
    rw [dropReturns, ih]
    rintro r rfl -
    exact other rfl
  | returned _ ih => rw [dropReturns, ih]

/-- What a row with what follows it may begin with. -/
def opensRow (c : Char) : Bool :=
  opensKey c || isBlank c || c = '#' || c = '\n' || c = '\r'

theorem opensRow_of_row {a? : Option Assignment} {row behind next : List Char}
    (hrow : RowSpelled most depth a? row) (h : RowEnd behind next) :
    ∀ c ∈ (row ++ behind).head?, opensRow c = true := by
  have blank {blanks rest : List Char} (hblanks : Blanks blanks)
      (hrest : ∀ c ∈ rest.head?, opensRow c = true) :
      ∀ c ∈ (blanks ++ rest).head?, opensRow c = true := by
    cases blanks with
    | nil => exact hrest
    | cons d ds =>
      intro c hc
      cases hc
      rw [opensRow, hblanks d List.mem_cons_self]
      simp only [Bool.or_true, Bool.true_or]
  cases hrow with
  | blank hblanks hcomment =>
    rw [List.append_assoc]
    refine blank hblanks fun c hc => ?_
    cases hcomment <;> cases h <;> cases hc <;> rfl
  | assignment hbefore ha _ _ =>
    rw [List.append_assoc]
    refine blank hbefore fun c hc => ?_
    obtain ⟨d, ds, rfl, opens⟩ := ha.first
    cases hc
    rw [opensRow, opens]
    rfl

theorem opensRow_of_rows {as : List Assignment} {cs : List Char}
    (h : RowsSpelled most depth as cs) : ∀ c ∈ cs.head?, opensRow c = true := by
  cases h with
  | last hrow =>
    have opens := opensRow_of_row hrow .last
    rwa [List.append_nil] at opens
  | cons hrow _ => exact opensRow_of_row hrow .feed

/-- No row begins with a byte order mark, so none is taken from it. -/
theorem ne_mark_of_lineEnds {cs body : List Char} (opens : ∀ c ∈ cs.head?, opensRow c = true)
    (h : LineEnds cs body) : ∀ c ∈ body.head?, c.toNat ≠ 0xFEFF := by
  have plain {c : Char} (hc : opensRow c = true) : c.toNat ≠ 0xFEFF := by
    intro mark
    have same : c = '\ufeff' := Char.toNat_inj.mp mark
    exact ne_of_class hc (by decide) same
  cases h with
  | nil => exact fun c hc => nomatch hc
  | char _ _ => exact fun c hc => plain (opens c hc)
  | returned _ =>
    intro c hc
    cases hc
    decide

/-- **A document** is read as what adding its assignments to nothing gives, or it is refused for its
size. -/
theorem parse?_agrees {as : List Assignment} {text : String} (h : Document most depth as text) :
    Agrees (Within most depth) (parse? text)
      ((as.foldlM Draft.assign ⟨[], []⟩).map Draft.entries) := by
  cases h with
  | @rows mark cs body hmark hrows hends htext =>
    have read : Agrees (Within most depth)
        ((readLines? ⟨[], []⟩ (dropReturns body)).map Draft.entries)
        ((as.foldlM Draft.assign ⟨[], []⟩).map Draft.entries) := by
      rw [dropReturns_of_lineEnds hends]
      exact (readLines?_rows hrows _).map _
    rw [parse?, htext]
    rcases hmark with rfl | rfl
    · have unmarked := ne_mark_of_lineEnds (opensRow_of_rows hrows) hends
      cases body with
      | nil => exact read
      | cons c cs =>
        simp only [List.nil_append, if_neg (unmarked c rfl)]
        exact read
    · exact read

/-- **A document within the bounds** is read as what adding its assignments to nothing gives. -/
theorem parse?_document {as : List Assignment} {text : String}
    (h : Document maxKeyParts maxDepth as text) :
    parse? text = (as.foldlM Draft.assign ⟨[], []⟩).map Draft.entries :=
  (parse?_agrees h).eq_of_sure ⟨le_rfl, le_rfl⟩

/-! ## One row -/

/-- A row without line ends is a document. -/
theorem document_row {a : Assignment} {row : List Char} (hrow : RowSpelled most depth (some a) row)
    (returns : '\r' ∉ row) : Document most depth [a] (String.ofList row) :=
  .rows (.inl rfl) (.last hrow) (lineEnds_self returns) String.toList_ofList

/-- **A row whose key or value is not taken** makes a document unreadable. -/
theorem parse?_row_eq_none {c : Char} {cs : List Char} (opens : opensKey c = true)
    (returns : '\r' ∉ c :: cs) (refused : scanKeyValue? (scanValue? maxDepth) (c :: cs) = none) :
    parse? (String.ofList (c :: cs)) = none := by
  have bracket : c ≠ '[' := ne_of_class opens (by decide)
  have mark : c.toNat ≠ 0xFEFF := fun same =>
    ne_of_class opens (by decide) (Char.toNat_inj.mp same : c = '\ufeff')
  have line : readLine? ⟨[], []⟩ (c :: cs) = none := by
    rw [readLine?, refused] <;> simp [bracket]
  have goesOn : afterLine? (c :: cs) = none := afterLine?_key (List.forall_mem_nil _) opens
  have front : (c :: cs).dropWhile isBlank = c :: cs := by
    rw [List.dropWhile_cons_of_neg (by simp [not_isBlank_of_opensKey opens])]
  have lines : readLines? ⟨[], []⟩ (c :: cs) = none := by
    rw [readLines?, goesOn, front]
    simp only [line]
  rw [parse?, String.toList_ofList]
  simp only [if_neg mark, dropReturns_of_lineEnds (lineEnds_self returns), lines, Option.map_none]

theorem keyPartSpelled_x : KeyPartSpelled "x" ['x'] :=
  .bare (List.cons_ne_nil _ _) (List.forall_mem_singleton.mpr rfl)

/-! ## Values that are nested too deep -/

/-- An array in `n` others. -/
def nestedValue : Nat → Value
  | 0 => .array []
  | n + 1 => .array [nestedValue n]

/-- The brackets of an array in `n` others. -/
def nestedText : Nat → List Char
  | 0 => ['[', ']']
  | n + 1 => '[' :: (nestedText n ++ [']'])

/-- A row that assigns an array in `n` others. -/
def nestedRow (n : Nat) : List Char :=
  ['x'] ++ ' ' :: '=' :: ' ' :: nestedText n

theorem valueSpelled_nested (most n : Nat) :
    ValueSpelled most (n + 1) (nestedValue n) (nestedText n) := by
  induction n with
  | zero => exact .inr (.array (.close .nil))
  | succ n ih => exact .inr (.array (.last .nil ih .nil))

theorem return_not_mem_nestedRow (n : Nat) : '\r' ∉ nestedRow n := by
  have brackets : '\r' ∉ nestedText n := by
    induction n with
    | zero => decide
    | succ n ih => simp [nestedText, ih]
  simp [nestedRow, brackets]

/-- An array in others is assigned as any value is. -/
theorem document_nestedRow {most : Nat} (positive : 1 ≤ most) (n : Nat) :
    Document most (n + 1) [⟨[], "x", nestedValue n⟩] (String.ofList (nestedRow n)) := by
  have row : RowSpelled most (n + 1) (some ⟨[], "x", nestedValue n⟩) (nestedRow n) :=
    rowSpelled_assignment _ _ (.last keyPartSpelled_x) positive (valueSpelled_nested most n)
  exact document_row row (return_not_mem_nestedRow n)

/-- **Too many brackets** are no value: each of them takes one off the depth that is left. -/
theorem scanValue?_nested {depth n : Nat} (deep : depth ≤ n) (rest : List Char) :
    scanValue? depth (nestedText n ++ rest) = none := by
  induction depth generalizing n rest with
  | zero => cases n <;> rfl
  | succ depth ih =>
    cases n with
    | zero => exact absurd deep (Nat.not_succ_le_zero depth)
    | succ n =>
      have text : nestedText (n + 1) ++ rest = '[' :: (nestedText n ++ ']' :: rest) := by
        simp [nestedText]
      obtain ⟨cs, hcs⟩ : ∃ cs, nestedText n ++ ']' :: rest = '[' :: cs := by
        cases n <;> exact ⟨_, rfl⟩
      have inner := ih (Nat.le_of_succ_le_succ deep) (']' :: rest)
      have here : skipSpace false ('[' :: cs) = some ('[' :: cs) := rfl
      have items : scanItems? (scanValue? depth) ('[' :: cs) = none := by
        rw [hcs] at inner
        rw [scanItems?, here]
        simp only [inner, Option.bind_none]
        rfl
      rw [text, hcs, scanValue?, if_neg (by decide), if_pos rfl, items]
      rfl

/-- **A document with a value that is nested too deep** is unreadable. -/
theorem parse?_nestedRow {n : Nat} (deep : maxDepth ≤ n) :
    parse? (String.ofList (nestedRow n)) = none := by
  have key : scanKey? (nestedRow n) = some (([], "x"), '=' :: ' ' :: nestedText n) :=
    scanKey?_append (.last keyPartSpelled_x) (List.forall_mem_nil _)
      (List.forall_mem_singleton.mpr rfl) _
  have front : (' ' :: nestedText n).dropWhile isBlank = nestedText n := by cases n <;> rfl
  have value : scanValue? maxDepth (nestedText n) = none := by
    have refused := scanValue?_nested deep []
    rwa [List.append_nil] at refused
  have pair : scanKeyValue? (scanValue? maxDepth) (nestedRow n) = none := by
    rw [scanKeyValue?, key]
    simp only [front, value, Option.map_none]
  exact parse?_row_eq_none rfl (return_not_mem_nestedRow n) pair

/-! ## Keys with too many parts -/

/-- A key with `n` parts before its last one. -/
def dottedKey : Nat → List Char
  | 0 => ['x']
  | n + 1 => 'x' :: '.' :: dottedKey n

/-- A row that assigns an array to a key with `n` parts before its last one. -/
def dottedRow (n : Nat) : List Char :=
  dottedKey n ++ ' ' :: '=' :: ' ' :: ['[', ']']

theorem keySpelled_dotted (n : Nat) : KeySpelled (List.replicate n "x") "x" (dottedKey n) := by
  have none : Blanks [] := List.forall_mem_nil _
  induction n with
  | zero => exact .last keyPartSpelled_x
  | succ n ih => exact .dotted keyPartSpelled_x none none ih

theorem return_not_mem_dottedRow (n : Nat) : '\r' ∉ dottedRow n := by
  have key : '\r' ∉ dottedKey n := by
    induction n with
    | zero => decide
    | succ n ih => simp [dottedKey, ih]
  simp [dottedRow, key]

/-- A key with many parts is assigned as any key is. -/
theorem document_dottedRow {n : Nat} (few : n + 1 ≤ most) :
    Document most (depth + 1) [⟨List.replicate n "x", "x", .array []⟩]
      (String.ofList (dottedRow n)) := by
  have parts : (Assignment.mk (List.replicate n "x") "x" (.array [])).parts.length ≤ most := by
    rw [Assignment.parts, List.length_append, List.length_replicate]
    exact few
  have row : RowSpelled most (depth + 1) (some ⟨List.replicate n "x", "x", .array []⟩)
      (dottedRow n) :=
    rowSpelled_assignment _ _ (keySpelled_dotted n) parts (.inr (.array (.close .nil)))
  exact document_row row (return_not_mem_dottedRow n)

/-- **A document with a key of too many parts** is unreadable. -/
theorem parse?_dottedRow {n : Nat} (many : maxKeyParts ≤ n) :
    parse? (String.ofList (dottedRow n)) = none := by
  have parts : maxKeyParts < (List.replicate n "x" ++ ["x"]).length := by
    rw [List.length_append, List.length_replicate]
    exact Nat.lt_succ_of_le many
  have key : scanKey? (dottedRow n) = none := by
    have taken := scanKey?_append (keySpelled_dotted n) (List.forall_mem_nil _)
      (List.forall_mem_singleton.mpr rfl : Blanks [' ']) (' ' :: ['[', ']'])
    rwa [if_pos parts] at taken
  have pair : scanKeyValue? (scanValue? maxDepth) (dottedRow n) = none := by
    rw [scanKeyValue?, key]
  obtain ⟨c, cs, hcs, opens⟩ := (keySpelled_dotted n).first
  have returns := return_not_mem_dottedRow n
  rw [dottedRow, hcs, List.cons_append] at pair returns ⊢
  exact parse?_row_eq_none opens returns pair

end Toml

end Chalkboard
