import Mathlib.Data.List.Basic
import Chalkboard.Json.Basic

/-!
# JSON values are taken apart

What the small readers of JSON values accept, and nothing else: texts, lists, and the members of an
object by their names.

* `Json.namedMembers?_eq_some_iff` — the members of an object, if their names are texts.
* `Json.uniqueMember?_eq_some_iff` — the members of one name are none or one.
-/

namespace Chalkboard

theorem mapM_eq_some_iff {α β : Type} {f : α → Option β} {g : β → α}
    (h : ∀ x y, f x = some y ↔ x = g y) {xs : List α} {ys : List β} :
    xs.mapM f = some ys ↔ xs = ys.map g := by
  induction xs generalizing ys with
  | nil => cases ys <;> simp
  | cons x xs ih =>
    rw [List.mapM_cons]
    constructor
    · intro read
      obtain ⟨y, hy, read⟩ := Option.bind_eq_some_iff.mp read
      obtain ⟨rest, hrest, read⟩ := Option.bind_eq_some_iff.mp read
      cases read
      rw [List.map_cons, (h x y).mp hy, ih.mp hrest]
    · intro eq
      cases ys with
      | nil => exact nomatch eq
      | cons y ys =>
        injection eq with head tail
        rw [(h x y).mpr head, ih.mpr tail]
        rfl

namespace Json

theorem text?_eq_some_iff {v : Json} {s : String} : v.text? = some s ↔ v = ofString s := by
  cases v <;> simp [text?, ofString]

theorem items?_eq_some_iff {v : Json} {items : List Json} :
    v.items? = some items ↔ v = .array items := by
  cases v <;> simp [items?]

theorem namedMembers?_eq_some_iff {members : List (Option String × Json)}
    {named : List (String × Json)} :
    namedMembers? members = some named ↔ Json.object members = ofFields named := by
  rw [ofFields, Json.object.injEq]
  refine mapM_eq_some_iff fun m p => ?_
  obtain ⟨name, v⟩ := m
  cases name <;> simp [Prod.ext_iff]

/-- The members of one name are none or one. -/
theorem uniqueMember?_eq_some_iff {members : List (String × Json)} {name : String}
    {v? : Option Json} :
    uniqueMember? members name = some v? ↔
      members.filter (·.1 = name) = v?.toList.map (name, ·) := by
  have named : ∀ m ∈ members.filter (·.1 = name), m.1 = name := by simp
  unfold uniqueMember?
  split
  · next none =>
    cases v? <;> simp [none]
  · next m one =>
    have first : m.1 = name := named m (one ▸ List.mem_singleton_self m)
    cases v? <;> simp [one, Prod.ext_iff, first]
  · next several notNone notOne =>
    refine iff_of_false (fun absurd => nomatch absurd) fun eq => ?_
    cases v? with
    | none => exact notNone eq
    | some v => exact notOne _ eq

/-- Members are counted under their names. -/
theorem countP_eq_length_filter (named : List (String × Json)) (name : String) :
    (named.map fun p => (some p.1, p.2)).countP (·.1 = some name) =
      (named.filter (·.1 = name)).length := by
  rw [List.countP_map, List.countP_eq_length_filter]
  refine congrArg List.length (List.filter_congr fun m _ => ?_)
  simp

/-- **A repeated name** has no only member. -/
theorem uniqueMember?_eq_none_of_repeated {members : List (Option String × Json)}
    {named : List (String × Json)} {name : String} (h : namedMembers? members = some named)
    (repeated : 2 ≤ members.countP (·.1 = some name)) : uniqueMember? named name = none := by
  rw [Option.eq_none_iff_forall_ne_some]
  intro v? unique
  have same : members = named.map fun p => (some p.1, p.2) :=
    Json.object.inj (namedMembers?_eq_some_iff.mp h)
  have few : (named.filter (·.1 = name)).length ≤ 1 := by
    rw [uniqueMember?_eq_some_iff.mp unique, List.length_map]
    cases v? <;> simp
  rw [same, countP_eq_length_filter] at repeated
  omega

end Json

end Chalkboard
