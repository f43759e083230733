import PackLint.Proofs.Json.Layout

/-! # Strings in values

    The strings of a value are its strings at any depth and the names of the members of its
    objects.  They are the strings among its tokens, and no others are. -/

namespace PackLint.Json

variable {v : Json} {s : String}

/-- The string is a value at some depth, or the name of a member of some object. -/
def HasString (v : Json) (s : String) : Prop :=
  Occurs (.str s) v ∨ ∃ members w, Occurs (.obj members) v ∧ (s, w) ∈ members

/-- A string has itself only. -/
theorem hasString_str_iff {s' : String} : HasString (.str s') s ↔ s = s' := by
  constructor
  · rintro (h | ⟨members, w, h, -⟩)
    · cases h with
      | here => rfl
    · cases h
  · rintro rfl
    exact .inl .here

/-- An array has the strings of its items. -/
theorem hasString_arr_iff {items : List Json} :
    HasString (.arr items) s ↔ ∃ v ∈ items, v.HasString s := by
  constructor
  · rintro (h | ⟨members, w, h, hmem⟩)
    · cases h with
      | item hv h => exact ⟨_, hv, .inl h⟩
    · cases h with
      | item hv h => exact ⟨_, hv, .inr ⟨members, w, h, hmem⟩⟩
  · rintro ⟨v, hv, h | ⟨members, w, h, hmem⟩⟩
    · exact .inl (.item hv h)
    · exact .inr ⟨members, w, .item hv h, hmem⟩

/-- An object has its names, and the strings of its members. -/
theorem hasString_obj_iff {members : List (String × Json)} :
    HasString (.obj members) s ↔ ∃ m ∈ members, m.1 = s ∨ m.2.HasString s := by
  constructor
  · rintro (h | ⟨_, w, h, hmem⟩)
    · cases h with
      | member hv h => exact ⟨_, hv, .inr (.inl h)⟩
    · cases h with
      | here => exact ⟨_, hmem, .inl rfl⟩
      | member hv h => exact ⟨_, hv, .inr (.inr ⟨_, w, h, hmem⟩)⟩
  · rintro ⟨⟨name, v⟩, hv, rfl | h | ⟨_, w, h, hmem⟩⟩
    · exact .inr ⟨members, v, .here, hv⟩
    · exact .inl (.member hv h)
    · exact .inr ⟨_, w, .member hv h, hmem⟩

theorem str_mem_nameTokens_iff {n : String} :
    .str s ∈ Token.str n :: .colon :: v.tokens ↔ n = s ∨ .str s ∈ v.tokens := by
  rw [List.mem_cons, List.mem_cons, Token.str.injEq, eq_comm]
  exact or_congr_right (or_iff_right Token.noConfusion)

-- The three statements follow the three functions that list the tokens.
mutual

/-- The strings among the tokens of a value are those that it has. -/
theorem str_mem_tokens_iff : ∀ v : Json, .str s ∈ v.tokens ↔ v.HasString s
  | .null | .bool _ | .int _ | .float _ => by
      refine iff_of_false ?_ ?_
      · intro h
        exact Token.noConfusion (List.mem_singleton.mp h)
      · rintro (h | ⟨members, w, h, -⟩) <;> cases h
  | .str s' => by
      rw [tokens, List.mem_singleton, Token.str.injEq, hasString_str_iff]
  | .arr items => by
      rw [hasString_arr_iff, ← str_mem_itemTokens_iff items, tokens, List.cons_append]
      simp
  | .obj members => by
      rw [hasString_obj_iff, ← str_mem_memberTokens_iff members, tokens, List.cons_append]
      simp

/-- The same for the items of an array. -/
theorem str_mem_itemTokens_iff : ∀ items : List Json,
    .str s ∈ itemTokens items ↔ ∃ v ∈ items, v.HasString s
  | [] => by
      simp only [itemTokens, List.not_mem_nil, false_and, exists_false]
  | [v] => by
      simp only [itemTokens, str_mem_tokens_iff v, List.mem_singleton, exists_eq_left]
  | v :: w :: rest => by
      rw [List.exists_mem_cons_iff, ← str_mem_tokens_iff v, ← str_mem_itemTokens_iff (w :: rest),
        itemTokens]
      simp

/-- The same for the members of an object, names included. -/
theorem str_mem_memberTokens_iff : ∀ members : List (String × Json),
    .str s ∈ memberTokens members ↔ ∃ m ∈ members, m.1 = s ∨ m.2.HasString s
  | [] => by
      simp only [memberTokens, List.not_mem_nil, false_and, exists_false]
  | [(n, v)] => by
      simp only [memberTokens, str_mem_nameTokens_iff, str_mem_tokens_iff v, List.mem_singleton,
        exists_eq_left]
  | (n, v) :: m :: rest => by
      rw [List.exists_mem_cons_iff, ← str_mem_tokens_iff v,
        ← str_mem_memberTokens_iff (m :: rest), memberTokens, List.mem_append,
        str_mem_nameTokens_iff]
      simp

end

end PackLint.Json
