/-!
# Runs over the rows of a grid

The methods visit the indices below `n` one after the other, upwards or downwards, and some of them
may halt on the way. `Ends` says what is known of such a run, `Together` what relates two of them
that halt at the same time. The loop rules below get either from what one step preserves; the
invariant of a loop is indexed by the number of indices that are done, or, downwards, that are left.
-/

namespace Chalkboard

universe u v

variable {ε : Type u} {σ τ : Type v} {n : Nat}

/-! ## What is known of a run that may halt -/

/-- **`Ends halted done x`** — a halt of `x` satisfies `halted`, and a result of `x` satisfies
`done`. -/
def Ends (halted : ε → Prop) (done : σ → Prop) : Except ε σ → Prop
  | .error e => halted e
  | .ok s => done s

section Ends

variable {halted halted' : ε → Prop} {done : σ → Prop} {done' : τ → Prop} {x : Except ε σ}

theorem Ends.of_ok {s : σ} (h : Ends halted done x) (hx : x = .ok s) : done s := by
  rw [hx] at h
  exact h

theorem Ends.of_error {e : ε} (h : Ends halted done x) (hx : x = .error e) : halted e := by
  rw [hx] at h
  exact h

/-- A pure step after a run. -/
theorem Ends.map {f : σ → τ} (h : Ends halted done x) (step : ∀ s, done s → done' (f s)) :
    Ends halted done' (x.map f) := by
  cases x with
  | error e => exact h
  | ok s => exact step s h

/-- A step that may halt, after a run that may halt. -/
theorem Ends.bind {f : σ → Except ε τ} (h : Ends halted done x)
    (step : ∀ s, done s → Ends halted done' (f s)) : Ends halted done' (x >>= f) := by
  cases x with
  | error e => exact h
  | ok s => exact step s h

/-- Weaker knowledge of a halt and of a result. -/
theorem Ends.imp {done'' : σ → Prop} (h : Ends halted done x) (stop : ∀ e, halted e → halted' e)
    (step : ∀ s, done s → done'' s) : Ends halted' done'' x := by
  cases x with
  | error e => exact stop e h
  | ok s => exact step s h

/-- Two things known of one run. -/
theorem Ends.and {done'' : σ → Prop} (h : Ends halted done x) (h' : Ends halted' done'' x) :
    Ends (fun e => halted e ∧ halted' e) (fun s => done s ∧ done'' s) x := by
  cases x with
  | error e => exact ⟨h, h'⟩
  | ok s => exact ⟨h, h'⟩

end Ends

/-! ## Two runs side by side -/

section Together

universe u' v' w

variable {ε' : Type u'} {σ' τ' : Type v'}

/-- **`Together halted done x y`** — `x` and `y` both halt and `halted` relates the halts, or both
have results and `done` relates these. -/
def Together (halted : ε → ε' → Prop) (done : σ → σ' → Prop) : Except ε σ → Except ε' σ' → Prop
  | .error e, .error e' => halted e e'
  | .ok s, .ok s' => done s s'
  | _, _ => False

variable {halted : ε → ε' → Prop} {done : σ → σ' → Prop} {done' : τ → τ' → Prop}
  {x : Except ε σ} {y : Except ε' σ'}

/-- Two runs of which it is known apart that they cannot end differently. -/
theorem Together.of_ends {halted : ε → Prop} {halted' : ε' → Prop} {done : σ → Prop}
    {done' : σ' → Prop} (hx : Ends halted done x) (hy : Ends halted' done' y)
    (left : ∀ e s', halted e → ¬ done' s') (right : ∀ s e', done s → ¬ halted' e') :
    Together (fun e e' => halted e ∧ halted' e') (fun s s' => done s ∧ done' s') x y := by
  cases x with
  | error e =>
    cases y with
    | error e' => exact ⟨hx, hy⟩
    | ok s' => exact left e s' hx hy
  | ok s =>
    cases y with
    | error e' => exact right s e' hx hy
    | ok s' => exact ⟨hx, hy⟩

/-- **Two runs side by side end alike**: both halt, or both have results. -/
theorem Together.endings (h : Together halted done x y) :
    (∃ e e', x = .error e ∧ y = .error e' ∧ halted e e') ∨
      ∃ s s', x = .ok s ∧ y = .ok s' ∧ done s s' := by
  cases x with
  | error e =>
    cases y with
    | error e' => exact .inl ⟨e, e', rfl, rfl, h⟩
    | ok s' => exact h.elim
  | ok s =>
    cases y with
    | error e' => exact h.elim
    | ok s' => exact .inr ⟨s, s', rfl, rfl, h⟩

/-- Weaker relations between the halts and between the results. -/
theorem Together.imp {halted' : ε → ε' → Prop} {done'' : σ → σ' → Prop}
    (h : Together halted done x y) (stop : ∀ e e', halted e e' → halted' e e')
    (step : ∀ s s', done s s' → done'' s s') : Together halted' done'' x y := by
  obtain ⟨e, e', rfl, rfl, h⟩ | ⟨s, s', rfl, rfl, h⟩ := h.endings
  · exact stop e e' h
  · exact step s s' h

/-- Two runs side by side have results together. -/
theorem Together.ok_iff (h : Together halted done x y) :
    (∃ s, x = .ok s) ↔ ∃ s', y = .ok s' := by
  obtain ⟨e, e', rfl, rfl, h⟩ | ⟨s, s', rfl, rfl, h⟩ := h.endings
  · exact ⟨nofun, nofun⟩
  · exact ⟨fun _ => ⟨s', rfl⟩, fun _ => ⟨s, rfl⟩⟩

/-- With a result of the first run, the second has one that belongs to it. -/
theorem Together.of_ok {s : σ} (h : Together halted done x y) (hx : x = .ok s) :
    ∃ s', y = .ok s' ∧ done s s' := by
  subst hx
  cases y with
  | error e' => exact h.elim
  | ok s' => exact ⟨s', rfl, h⟩

/-- What is read off the endings of two runs is the same if their endings give the same. -/
theorem Together.eq_of_ends {β : Type w} {f : ε → β} {f' : ε' → β} {g : σ → β} {g' : σ' → β}
    {v v' : β} (h : Together (fun e e' => f e = f' e') (fun s s' => g s = g' s') x y)
    (hx : Ends (fun e => v = f e) (fun s => v = g s) x)
    (hy : Ends (fun e => v' = f' e) (fun s => v' = g' s) y) : v = v' := by
  obtain ⟨e, e', rfl, rfl, h⟩ | ⟨s, s', rfl, rfl, h⟩ := h.endings
  · exact hx.trans (h.trans hy.symm)
  · exact hx.trans (h.trans hy.symm)

/-- A pure step after each of two runs. -/
theorem Together.map {f : σ → τ} {g : σ' → τ'} (h : Together halted done x y)
    (step : ∀ s s', done s s' → done' (f s) (g s')) :
    Together halted done' (x.map f) (y.map g) := by
  obtain ⟨e, e', rfl, rfl, h⟩ | ⟨s, s', rfl, rfl, h⟩ := h.endings
  · exact h
  · exact step s s' h

/-- A step that may halt, after each of two runs that may halt. -/
theorem Together.bind {f : σ → Except ε τ} {g : σ' → Except ε' τ'} (h : Together halted done x y)
    (step : ∀ s s', done s s' → Together halted done' (f s) (g s')) :
    Together halted done' (x >>= f) (y >>= g) := by
  obtain ⟨e, e', rfl, rfl, h⟩ | ⟨s, s', rfl, rfl, h⟩ := h.endings
  · exact h
  · exact step s s' h

/-- **The rule of two upward loops side by side.** The relation `R i` holds when the indices below
`i` are done in both. -/
theorem together_foldlM_finRange (R : Nat → σ → σ' → Prop) {step : σ → Fin n → Except ε σ}
    {step' : σ' → Fin n → Except ε' σ'} {s : σ} {s' : σ'} (start : R 0 s s')
    (keep : ∀ (i : Fin n) s s', R i s s' → Together halted (R (i + 1)) (step s i) (step' s' i)) :
    Together halted (R n) ((List.finRange n).foldlM step s)
      ((List.finRange n).foldlM step' s') := by
  -- the indices from `k` on are left; the induction is on their number
  suffices H : ∀ (d k : Nat) (s : σ) (s' : σ'), k + d = n → R k s s' →
      Together halted (R n) (((List.finRange n).drop k).foldlM step s)
        (((List.finRange n).drop k).foldlM step' s') from
    H n 0 s s' (Nat.zero_add n) start
  intro d
  induction d with
  | zero =>
    intro k s s' hk hs
    rw [List.drop_eq_nil_of_le (by rw [List.length_finRange]; omega)]
    have : k = n := by omega
    rw [this] at hs
    exact hs
  | succ d ih =>
    intro k s s' hk hs
    have hlt : k < n := by omega
    rw [List.drop_eq_getElem_cons (by rw [List.length_finRange]; exact hlt), List.foldlM_cons,
      List.foldlM_cons, List.getElem_finRange]
    exact (keep ⟨k, hlt⟩ s s' hs).bind fun t t' ht => ih (k + 1) t t' (by omega) ht

end Together

/-! ## Loops -/

/-- A run is known by being run beside itself. -/
theorem ends_iff_together {halted : ε → Prop} {done : σ → Prop} {x : Except ε σ} :
    Ends halted done x ↔
      Together (fun e _ => halted e) (fun s s' => done s ∧ s = s') x x := by
  cases x with
  | error e => exact Iff.rfl
  | ok s => exact (and_iff_left rfl).symm

/-- **The rule of an upward loop that may halt.** The invariant `P i` holds when the indices below
`i` are done. -/
theorem ends_foldlM_finRange {halted : ε → Prop} (P : Nat → σ → Prop)
    {step : σ → Fin n → Except ε σ} {s : σ} (start : P 0 s)
    (keep : ∀ (i : Fin n) s, P i s → Ends halted (P (i + 1)) (step s i)) :
    Ends halted (P n) ((List.finRange n).foldlM step s) := by
  rw [ends_iff_together]
  refine together_foldlM_finRange (fun i s s' => P i s ∧ s = s') ⟨start, rfl⟩ ?_
  rintro i s _ ⟨hs, rfl⟩
  exact ends_iff_together.mp (keep i s hs)

/-- **The rule of a downward loop that may halt.** The invariant `P i` holds when the indices from
`i` on are done. -/
theorem ends_foldlM_finRange_reverse {halted : ε → Prop} (P : Nat → σ → Prop)
    {step : σ → Fin n → Except ε σ} {s : σ} (start : P n s)
    (keep : ∀ (i : Fin n) s, P (i + 1) s → Ends halted (P i) (step s i)) :
    Ends halted (P 0) ((List.finRange n).reverse.foldlM step s) := by
  rw [List.finRange_reverse, List.foldlM_map]
  have keep' : ∀ (i : Fin n) s, P (n - i) s → Ends halted (P (n - (i + 1))) (step s i.rev) := by
    intro i s hs
    have hi : (i.rev : Nat) + 1 = n - i := by rw [Fin.val_rev]; omega
    have hi' : n - (i + 1) = (i.rev : Nat) := by rw [Fin.val_rev]
    rw [hi']
    rw [← hi] at hs
    exact keep i.rev s hs
  have upward := ends_foldlM_finRange (fun k s => P (n - k) s) start keep'
  rw [Nat.sub_self] at upward
  exact upward

/-- **The rule of an upward loop.** -/
theorem foldl_finRange (P : Nat → σ → Prop) {step : σ → Fin n → σ} {s : σ} (start : P 0 s)
    (keep : ∀ (i : Fin n) s, P i s → P (i + 1) (step s i)) :
    P n ((List.finRange n).foldl step s) := by
  have run : Ends (fun _ : Empty => False) (P n)
      ((List.finRange n).foldlM (fun s i => pure (step s i)) s) :=
    ends_foldlM_finRange P start keep
  rw [List.foldlM_pure] at run
  exact run

/-! ## Two runs with different tests -/

section Tests

/-- **`StopsFirst place x y`** — `x` and `y` are the same, or `x` halts and `y` does not halt before
a later place. -/
def StopsFirst (place : ε → Nat) (x y : Except ε σ) : Prop :=
  x = y ∨ ∃ e, x = .error e ∧ Ends (fun e' => place e < place e') (fun _ => True) y

variable {place : ε → Nat} {x y : Except ε σ}

/-- A pure step after both runs. -/
theorem StopsFirst.map (h : StopsFirst place x y) (f : σ → τ) :
    StopsFirst place (x.map f) (y.map f) := by
  rcases h with rfl | ⟨e, rfl, later⟩
  · exact .inl rfl
  · exact .inr ⟨e, rfl, later.map fun _ _ => trivial⟩

/-- A loop whose steps halt at their own place halts at the place of one of its steps. -/
theorem ends_foldlM_place {step : σ → Fin n → Except ε σ}
    (own : ∀ s (i : Fin n), Ends (fun e => place e = (i : Nat)) (fun _ => True) (step s i))
    (l : List (Fin n)) :
    ∀ s, Ends (fun e => ∃ i ∈ l, place e = (i : Nat)) (fun _ => True) (l.foldlM step s) := by
  induction l with
  | nil => exact fun _ => trivial
  | cons i l ih =>
    intro s
    rw [List.foldlM_cons]
    have first : Ends (fun e => ∃ j ∈ i :: l, place e = (j : Nat)) (fun _ => True) (step s i) :=
      (own s i).imp (fun _ h => ⟨i, List.mem_cons_self, h⟩) fun _ _ => trivial
    refine first.bind fun t _ => (ih t).imp ?_ fun _ _ => trivial
    rintro e ⟨j, hj, h⟩
    exact ⟨j, List.mem_cons_of_mem i hj, h⟩

/-- **The rule of two upward loops with different tests.** Up to the first test on which they differ
the two are the same, and from there on only the second goes on. -/
theorem stopsFirst_foldlM_finRange {step step' : σ → Fin n → Except ε σ}
    (own : ∀ s (i : Fin n), Ends (fun e => place e = (i : Nat)) (fun _ => True) (step s i))
    (own' : ∀ s (i : Fin n), Ends (fun e => place e = (i : Nat)) (fun _ => True) (step' s i))
    (first : ∀ s i, StopsFirst place (step s i) (step' s i)) (s : σ) :
    StopsFirst place ((List.finRange n).foldlM step s) ((List.finRange n).foldlM step' s) := by
  suffices H : ∀ (l : List (Fin n)), l.Pairwise (· < ·) → ∀ s,
      StopsFirst place (l.foldlM step s) (l.foldlM step' s) from
    H _ (List.pairwise_lt_finRange n) s
  intro l
  induction l with
  | nil => exact fun _ _ => .inl rfl
  | cons i l ih =>
    intro sorted s
    obtain ⟨above, sorted'⟩ := List.pairwise_cons.mp sorted
    rw [List.foldlM_cons, List.foldlM_cons]
    rcases first s i with same | ⟨e, he, later⟩
    · -- one step is the same in both
      rw [same]
      cases step' s i with
      | error e => exact .inl rfl
      | ok t => exact ih sorted' t
    · -- the tests differ; all places behind this one are later
      have hplace := (own s i).of_error he
      rw [he]
      refine .inr ⟨e, rfl, ?_⟩
      cases ht : step' s i with
      | error e' => exact later.of_error ht
      | ok t =>
        refine (ends_foldlM_place own' l t).imp ?_ fun _ _ => trivial
        rintro e' ⟨j, hj, hplace'⟩
        rw [hplace, hplace']
        exact above j hj

end Tests

/-! ## A run that leads another -/

section Leads

universe u' v'

variable {ε' : Type u'} {σ' : Type v'}

/-- **`Leads strict plain halted done x y`** — if `x` halts, and the halt is `strict`, then `y`
halts and `halted` relates the halts; if `x` has a `plain` result, then `y` has a result and `done`
relates the two. -/
def Leads (strict : ε → Prop) (plain : σ → Prop) (halted : ε → ε' → Prop) (done : σ → σ' → Prop)
    (x : Except ε σ) (y : Except ε' σ') : Prop :=
  Ends (fun e => strict e → ∃ e', y = .error e' ∧ halted e e')
    (fun s => plain s → ∃ s', y = .ok s' ∧ done s s') x

variable {strict : ε → Prop} {plain : σ → Prop} {halted : ε → ε' → Prop}

/-- The first `i + 1` steps of a loop are the first `i` and one more. -/
theorem foldlM_take_succ {step : σ' → Fin n → Except ε' σ'} {s t : σ'} (i : Fin n)
    (run : ((List.finRange n).take i).foldlM step s = .ok t) :
    ((List.finRange n).take (i + 1)).foldlM step s = step t i := by
  have hi : (i : Nat) < (List.finRange n).length := by rw [List.length_finRange]; exact i.isLt
  rw [List.take_succ_eq_append_getElem hi, List.foldlM_append, run, List.getElem_finRange]
  exact bind_pure (step t i)

/-- A loop halts as soon as one of its steps does. -/
theorem foldlM_of_take {step : σ' → Fin n → Except ε' σ'} {s : σ'} {e : ε'} (i : Nat)
    (run : ((List.finRange n).take i).foldlM step s = .error e) :
    (List.finRange n).foldlM step s = .error e := by
  rw [← List.take_append_drop i (List.finRange n), List.foldlM_append, run]
  rfl

/-- **The rule of an upward loop that leads another.** As long as the first stays plain, the
relation `R i` holds when the indices below `i` are done in both. What is plain has been plain all
along. -/
theorem leads_foldlM_finRange (R : Nat → σ → σ' → Prop) {step : σ → Fin n → Except ε σ}
    {step' : σ' → Fin n → Except ε' σ'} {s : σ} {s' : σ'} (start : R 0 s s')
    (back : ∀ s i, Ends (fun e => strict e → plain s) (fun t => plain t → plain s) (step s i))
    (keep : ∀ (i : Fin n) s s', R i s s' →
      Leads strict plain halted (R (i + 1)) (step s i) (step' s' i)) :
    Leads strict plain halted (R n) ((List.finRange n).foldlM step s)
      ((List.finRange n).foldlM step' s') := by
  -- the second loop has come as far as the first, if this is plain
  have along : Ends
      (fun e => strict e → ∃ e', (List.finRange n).foldlM step' s' = .error e' ∧ halted e e')
      (fun t => plain t →
        ∃ t', ((List.finRange n).take n).foldlM step' s' = .ok t' ∧ R n t t')
      ((List.finRange n).foldlM step s) := by
    refine ends_foldlM_finRange (fun i t => plain t →
      ∃ t', ((List.finRange n).take i).foldlM step' s' = .ok t' ∧ R i t t')
      (fun _ => ⟨s', rfl, start⟩) fun i t h => ?_
    have hback := back t i
    cases ht : step t i with
    | error e =>
      intro he
      obtain ⟨t', done', hR⟩ := h (hback.of_error ht he)
      obtain ⟨e', he', hhalted⟩ := (keep i t t' hR).of_error ht he
      exact ⟨e', foldlM_of_take (i + 1) ((foldlM_take_succ i done').trans he'), hhalted⟩
    | ok u =>
      intro hu
      obtain ⟨t', done', hR⟩ := h (hback.of_ok ht hu)
      obtain ⟨u', hu', hR'⟩ := (keep i t t' hR).of_ok ht hu
      exact ⟨u', (foldlM_take_succ i done').trans hu', hR'⟩
  rwa [List.take_of_length_le (Nat.le_of_eq List.length_finRange)] at along

end Leads

/-! ## Runs in step with each other -/

section Map

universe u' v'

variable {ε' : Type u'} {τ' : Type v'} {ι : Type}

/-- A run with other data in its endings. -/
def mapEndings (f : ε → ε') (g : σ → τ') : Except ε σ → Except ε' τ'
  | .error e => .error (f e)
  | .ok s => .ok (g s)

/-- **Two loops in step.** If one step of the second does to the images of states what one step of
the first does to the states, so does the whole loop. -/
theorem foldlM_mapEndings (f : ε → ε') (g : σ → τ') {step : σ → ι → Except ε σ}
    {step' : τ' → ι → Except ε' τ'} (inStep : ∀ s i, step' (g s) i = mapEndings f g (step s i))
    (l : List ι) : ∀ s, l.foldlM step' (g s) = mapEndings f g (l.foldlM step s) := by
  induction l with
  | nil =>
    intro s
    rfl
  | cons i l ih =>
    intro s
    rw [List.foldlM_cons, List.foldlM_cons, inStep]
    cases step s i with
    | error e => rfl
    | ok s' => exact ih s'

/-- A run that gives no reason for its halt. -/
def orHalt : Option σ → Except Unit σ
  | none => .error ()
  | some s => .ok s

/-- A loop that gives no reason for its halt. -/
theorem foldlM_orHalt (step : σ → ι → Option σ) (l : List ι) :
    ∀ s, orHalt (l.foldlM step s) = l.foldlM (fun s i => orHalt (step s i)) s := by
  induction l with
  | nil =>
    intro s
    rfl
  | cons i l ih =>
    intro s
    rw [List.foldlM_cons, List.foldlM_cons]
    cases step s i with
    | none => rfl
    | some s' => exact ih s'

/-- Runs with the same image end alike, with endings of the same image. -/
theorem Together.of_mapEndings {ε'' : Type u'} {σ'' : Type v'} {f : ε → ε''} {f' : ε' → ε''}
    {g : σ → σ''} {g' : τ' → σ''} {x : Except ε σ} {y : Except ε' τ'}
    (h : mapEndings f g x = mapEndings f' g' y) :
    Together (fun e e' => f e = f' e') (fun s s' => g s = g' s') x y := by
  cases x with
  | error e =>
    cases y with
    | error e' => exact Except.error.inj h
    | ok s' => nomatch h
  | ok s =>
    cases y with
    | error e' => nomatch h
    | ok s' => exact Except.ok.inj h

end Map

end Chalkboard
