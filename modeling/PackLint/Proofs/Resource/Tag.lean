import PackLint.Resource.Basic

/-! # Entries of tags

    A tag lists values, and each value names an id or is passed over.  What the content of a
    tag lists is `HasValues`, what a value names is `NamesId`, and `Entries` is what is left
    of a list of values.  One value has no part in what the others come to, so the entries
    of a list are those of its parts. -/

namespace PackLint

/-- A value of a tag names this id: it is this string, or an object that has this string as
    its `id`. -/
inductive NamesId : Json → String → Prop
  | str (id : String) : NamesId (.str id) id
  | object {members : List (String × Json)} {id : String}
      (hid : members.lookup "id" = some (.str id)) : NamesId (.obj members) id

/-- The ids that these values name, in their order.  A value that names none is passed
    over. -/
inductive Entries : List Json → List String → Prop
  | nil : Entries [] []
  | entry {v : Json} {id : String} {values : List Json} {ids : List String}
      (hid : NamesId v id) (h : Entries values ids) : Entries (v :: values) (id :: ids)
  | passOver {v : Json} {values : List Json} {ids : List String}
      (hv : ∀ id, ¬NamesId v id) (h : Entries values ids) : Entries (v :: values) ids

/-- The content of a tag lists these values: it is an object that has them as its `values`, or
    an array that has their array as its only item. -/
inductive HasValues : Json → List Json → Prop
  | object {members : List (String × Json)} {values : List Json}
      (hvalues : members.lookup "values" = some (.arr values)) : HasValues (.obj members) values
  | array (values : List Json) : HasValues (.arr [.arr values]) values

namespace Document

variable {v content : Json} {id : String} {values : List Json} {ids : List String}

/-- An entry names an id if it is a string, or an object with this id. -/
theorem namesId_iff : NamesId v id ↔ tagEntry? v = some id := by
  constructor
  · intro h
    cases h with
    | str id => rfl
    | @object members id hid =>
        show (members.lookup "id").bind Json.string? = some id
        rw [hid]
        rfl
  · intro h
    cases v with
    | str s =>
        obtain rfl : s = id := Option.some.inj h
        exact .str s
    | obj members =>
        obtain ⟨w, hw, hid⟩ := Option.bind_eq_some_iff.mp h
        cases w with
        | str s =>
            obtain rfl : s = id := Option.some.inj hid
            exact .object hw
        | _ => exact nomatch hid
    | _ => exact nomatch h

/-- The entries of a list of values are the ids of those that name one, in order. -/
theorem entries_filterMap (values : List Json) :
    Entries values (values.filterMap fun v => tagEntry? v) := by
  induction values with
  | nil => exact .nil
  | cons v values ih =>
      cases hv : tagEntry? v with
      | none =>
          rw [List.filterMap_cons_none hv]
          refine .passOver ?_ ih
          intro id hid
          exact Option.some_ne_none id ((namesId_iff.mp hid).symm.trans hv)
      | some id =>
          rw [List.filterMap_cons_some hv]
          exact .entry (namesId_iff.mpr hv) ih

/-- The values of a tag are the items of its list. -/
theorem tagValues_of_hasValues (h : HasValues content values) : tagValues content = values := by
  cases h with
  | object hvalues => simp only [tagValues, hvalues]
  | array => rfl

/-- Content that lists no values is taken for an empty list. -/
theorem tagValues_eq_nil (h : ∀ values, ¬HasValues content values) : tagValues content = [] := by
  unfold tagValues
  split
  · split
    · rename_i hvalues
      exact absurd (.object hvalues) (h _)
    · rfl
  · exact absurd (.array _) (h _)
  · rfl

/-- The entries of a tag with values are the ids that these name. -/
theorem tagEntries_of_hasValues {d : Document} (h : HasValues d.content values) :
    d.tagEntries = values.filterMap fun v => tagEntry? v := by
  rw [tagEntries, tagValues_of_hasValues h]

/-- A tag without a list of values has no entries. -/
theorem tagEntries_eq_nil {d : Document} (h : ∀ values, ¬HasValues d.content values) :
    d.tagEntries = [] := by
  rw [tagEntries, tagValues_eq_nil h]
  rfl

/-- A tag that lists some values and then some others has the entries of both. -/
theorem tagEntries_append {d d₁ d₂ : Document} {xs ys : List Json}
    (h : HasValues d.content (xs ++ ys)) (h₁ : HasValues d₁.content xs)
    (h₂ : HasValues d₂.content ys) : d.tagEntries = d₁.tagEntries ++ d₂.tagEntries := by
  rw [tagEntries_of_hasValues h, tagEntries_of_hasValues h₁, tagEntries_of_hasValues h₂,
    List.filterMap_append]

/-- A value that names no id may stand anywhere. -/
theorem tagEntries_insert {d d' : Document} {xs ys : List Json} (hv : ∀ id, ¬NamesId v id)
    (h : HasValues d.content (xs ++ ys)) (h' : HasValues d'.content (xs ++ v :: ys)) :
    d'.tagEntries = d.tagEntries := by
  have hnone : tagEntry? v = none := by
    refine Option.eq_none_iff_forall_ne_some.mpr ?_
    intro id hid
    exact hv id (namesId_iff.mpr hid)
  rw [tagEntries_of_hasValues h, tagEntries_of_hasValues h', List.filterMap_append,
    List.filterMap_append, List.filterMap_cons_none hnone]

end Document

end PackLint
