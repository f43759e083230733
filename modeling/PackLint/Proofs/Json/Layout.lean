import Mathlib.Data.List.Infix
import PackLint.Proofs.Json.Token
import PackLint.Proofs.Text.Trim
import PackLint.Resource.Basic

/-! # Laying out values

    A value may be written with any white space between its tokens.  Which of its objects
    have a string as a member can be read off the tokens: a name, a colon and a string in
    a row stand in them for such a member, and for nothing else. -/

namespace PackLint.Json

open Text

variable {v u : Json} {name s : String} {t : Token} {ts : List Token}

/-! ## Tokens with gaps -/

/-- The white space in front of each token. -/
structure Gaps where
  chars : Nat → List Char
  isSpace_of_mem : ∀ n, ∀ c ∈ chars n, isSpace c = true

/-- No white space at all. -/
def Gaps.none : Gaps :=
  ⟨fun _ => [], fun _ _ h => absurd h List.not_mem_nil⟩

/-- The gaps behind the first one. -/
def Gaps.tail (gaps : Gaps) : Gaps :=
  ⟨fun n => gaps.chars (n + 1), fun n => gaps.isSpace_of_mem (n + 1)⟩

/-- The text of these tokens with a gap in front of each, and one behind the last. -/
def layOut (gaps : Gaps) : List Token → List Char
  | [] => gaps.chars 0
  | t :: ts => gaps.chars 0 ++ (t.text ++ layOut gaps.tail ts)

/-- Without gaps the tokens are written one right behind the other. -/
theorem layOut_none (ts : List Token) : layOut .none ts = ts.flatMap Token.text := by
  induction ts with
  | nil => rfl
  | cons t ts ih =>
      rw [List.flatMap_cons, ← ih]
      rfl

/-- The space that JSON allows is blank to patterns as well. -/
theorem isBlank_of_isSpace {c : Char} (h : isSpace c = true) : isBlank c = true := by
  simp only [isSpace, Bool.or_eq_true, beq_iff_eq] at h
  rcases h with ((rfl | rfl) | rfl) | rfl <;> decide

/-- Gaps are blank. -/
theorem Gaps.allBlank (gaps : Gaps) (n : Nat) : AllBlank (gaps.chars n) := fun c hc =>
  isBlank_of_isSpace (gaps.isSpace_of_mem n c hc)

/-- No gap has a quote in it. -/
theorem Gaps.quote_notMem (gaps : Gaps) (n : Nat) : '"' ∉ gaps.chars n := by
  intro h
  exact absurd (gaps.isSpace_of_mem n '"' h) (by decide)

/-- A token begins with no blank. -/
theorem Token.Written.startsSolid_append {cs : List Char} (h : t.Written cs) (ds : List Char) :
    StartsSolid (cs ++ ds) := by
  cases h with
  | str s => exact startsSolid_cons.mpr rfl
  | colon => exact startsSolid_cons.mpr rfl
  | plain _ _ h => exact startsSolid_cons.mpr (isBlank_of_isPlain (h _ List.mem_cons_self))

/-- The characters with which white space and tokens begin. -/
def mayBegin (c : Char) : Bool :=
  isSpace c || (isPlain c || (c == ':' || c == '"'))

/-- A token is written with at least one character, and one that a token may begin with. -/
theorem Token.Written.exists_eq_cons {cs : List Char} (h : t.Written cs) :
    ∃ c cs', cs = c :: cs' ∧ mayBegin c = true := by
  cases h with
  | str s => exact ⟨'"', _, rfl, rfl⟩
  | colon => exact ⟨':', _, rfl, rfl⟩
  | plain _ _ h =>
      refine ⟨_, _, rfl, ?_⟩
      rw [mayBegin, h _ List.mem_cons_self, Bool.true_or, Bool.or_true]

/-- Only a string is written with a quote in front. -/
theorem Token.Written.head?_eq_quote_iff {cs : List Char} (h : t.Written cs) (ds : List Char) :
    (cs ++ ds).head? = some '"' ↔ ∃ s, t = .str s := by
  cases h with
  | str s => exact iff_of_true rfl ⟨s, rfl⟩
  | colon => exact iff_of_false (fun h => absurd (Option.some.inj h) (by decide)) nofun
  | plain hstr _ h =>
      exact iff_of_false (fun hhead => h.ne rfl (Option.some.inj hhead)) fun ⟨s, hs⟩ => hstr s hs

/-- Only the colon is written as a colon. -/
theorem Token.Written.head?_eq_colon_iff {cs : List Char} (h : t.Written cs) (ds : List Char) :
    (cs ++ ds).head? = some ':' ↔ t = .colon := by
  cases h with
  | str s => exact iff_of_false (fun h => absurd (Option.some.inj h) (by decide)) nofun
  | colon => exact iff_of_true rfl rfl
  | plain _ hcolon h => exact iff_of_false (fun hhead => h.ne rfl (Option.some.inj hhead)) hcolon

/-! ## The beginning of a layout -/

/-- Where no token is left, there is nothing behind the gap. -/
theorem skipBlanks_layOut_nil (gaps : Gaps) : skipBlanks (layOut gaps []) = [] :=
  skipBlanks_of_allBlank (gaps.allBlank 0)

/-- Behind the gap in front the next token stands, and then the others with their gaps. -/
theorem skipBlanks_layOut_cons (gaps : Gaps) (t : Token) (ts : List Token) :
    skipBlanks (layOut gaps (t :: ts)) = t.text ++ layOut gaps.tail ts := by
  rw [layOut, skipBlanks_append (gaps.allBlank 0),
    skipBlanks_of_startsSolid (t.written_text.startsSolid_append _)]

/-- Behind the gap there is a quote exactly if the next token is a string. -/
theorem head?_skipBlanks_layOut_eq_quote_iff {gaps : Gaps} :
    (skipBlanks (layOut gaps ts)).head? = some '"' ↔ ∃ s, ts.head? = some (.str s) := by
  cases ts with
  | nil =>
      rw [skipBlanks_layOut_nil]
      exact iff_of_false nofun nofun
  | cons t ts =>
      rw [skipBlanks_layOut_cons, t.written_text.head?_eq_quote_iff]
      simp only [List.head?_cons, Option.some.injEq]

/-- The characters of a gap may stand in front of tokens. -/
theorem Gaps.mayBegin (gaps : Gaps) (n : Nat) : ∀ c ∈ gaps.chars n, mayBegin c = true := by
  intro c hc
  rw [Json.mayBegin, gaps.isSpace_of_mem n c hc, Bool.true_or]

/-- Whatever stands first in a layout, a gap or a token, may stand there. -/
theorem mayBegin_of_layOut_eq_cons {gaps : Gaps} {c : Char} {cs : List Char}
    (h : layOut gaps ts = c :: cs) : mayBegin c = true := by
  cases ts with
  | nil =>
      rw [layOut] at h
      exact gaps.mayBegin 0 c (h ▸ List.mem_cons_self)
  | cons t ts =>
      rw [layOut] at h
      cases hgap : gaps.chars 0 with
      | nil =>
          obtain ⟨c', cs', htext, hc'⟩ := t.written_text.exists_eq_cons
          rw [hgap, htext] at h
          exact (List.cons.inj h).1 ▸ hc'
      | cons c' gap =>
          rw [hgap] at h
          exact (List.cons.inj h).1 ▸ gaps.mayBegin 0 c' (hgap ▸ List.mem_cons_self)

/-- Without gaps that is the text of the document with this content. -/
theorem layOut_none_tokens (id : String) (v : Json) :
    layOut .none v.tokens = (Document.ofContent id v).raw.toList := by
  rw [layOut_none]
  exact String.toList_ofList.symm

/-! ## Members at any depth -/

/-- A value occurs in another at some depth, be it the other one itself. -/
inductive Occurs (u : Json) : Json → Prop
  | here : Occurs u u
  | item {items : List Json} {v : Json} (hmem : v ∈ items) (h : Occurs u v) :
      Occurs u (.arr items)
  | member {members : List (String × Json)} {name : String} {v : Json}
      (hmem : (name, v) ∈ members) (h : Occurs u v) : Occurs u (.obj members)

/-- Some object at any depth has a member with this name and this string. -/
def HasField (v : Json) (name s : String) : Prop :=
  ∃ members, Occurs (.obj members) v ∧ (name, .str s) ∈ members

/-- An array has a field exactly if one of its items has it. -/
theorem hasField_arr_iff {items : List Json} :
    HasField (.arr items) name s ↔ ∃ v ∈ items, v.HasField name s := by
  constructor
  · rintro ⟨members, hoccurs, hmem⟩
    cases hoccurs with
    | item hv h => exact ⟨_, hv, members, h, hmem⟩
  · rintro ⟨v, hv, members, h, hmem⟩
    exact ⟨members, .item hv h, hmem⟩

/-- An object has a field as its own member or in the value of a member. -/
theorem hasField_obj_iff {members : List (String × Json)} :
    HasField (.obj members) name s
      ↔ (name, .str s) ∈ members ∨ ∃ m ∈ members, m.2.HasField name s := by
  constructor
  · rintro ⟨_, hoccurs, hmem⟩
    cases hoccurs with
    | here => exact .inl hmem
    | member hv h => exact .inr ⟨_, hv, _, h, hmem⟩
  · rintro (hmem | ⟨⟨name', v⟩, hv, _, h, hmem⟩)
    · exact ⟨members, .here, hmem⟩
    · exact ⟨_, .member hv h, hmem⟩

/-! ## Names, colons and strings in a row -/

/-- The tokens of a member with this name and this string. -/
def fieldTokens (name s : String) : List Token :=
  [.str name, .colon, .str s]

/-- A field is written with strings and a colon only. -/
theorem notMem_fieldTokens {t : Token} (hcolon : t ≠ .colon) (hstr : ∀ s, t ≠ .str s) :
    t ∉ fieldTokens name s := by
  intro h
  simp only [fieldTokens, List.mem_cons, List.not_mem_nil, or_false] at h
  rcases h with rfl | rfl | rfl
  · exact hstr name rfl
  · exact hcolon rfl
  · exact hstr s rfl

/-- A token of another kind breaks no member, since it stands in none. -/
theorem infix_append_cons_iff {t : Token} {ts ts' : List Token} (ht : t ∉ fieldTokens name s) :
    fieldTokens name s <:+: ts ++ t :: ts'
      ↔ fieldTokens name s <:+: ts ∨ fieldTokens name s <:+: ts' := by
  constructor
  · intro h
    rcases List.infix_append_iff.mp h with h | h | ⟨ts₁, ts₂, heq, h₁, h₂⟩
    · exact .inl h
    · rcases List.infix_cons_iff.mp h with h | h
      · obtain ⟨rfl, -⟩ := List.cons_prefix_cons.mp h
        exact absurd List.mem_cons_self ht
      · exact .inr h
    · rw [heq] at ht ⊢
      rcases List.prefix_cons_iff.mp h₂ with rfl | ⟨ts₂, rfl, -⟩
      · rw [List.append_nil]
        exact .inl h₁.isInfix
      · exact absurd (List.mem_append_right ts₁ List.mem_cons_self) ht
  · rintro (h | h)
    · exact h.trans (List.infix_append [] ts (t :: ts'))
    · exact (h.trans (List.suffix_cons t ts').isInfix).trans (List.suffix_append ts _).isInfix

theorem not_fieldTokens_infix_nil : ¬fieldTokens name s <:+: [] := by
  intro h
  exact List.cons_ne_nil _ _ (List.infix_nil.mp h)

theorem not_fieldTokens_infix_singleton {t : Token} : ¬fieldTokens name s <:+: [t] := by
  intro h
  exact absurd h.length_le (show ¬3 ≤ 1 by decide)

/-- Only a string begins with the token of a string. -/
theorem head?_tokens_eq_some_str_iff : v.tokens.head? = some (.str s) ↔ v = .str s := by
  cases v <;> simp [tokens]

/-- Brackets around tokens make no member, and break none. -/
theorem infix_brackets_iff {left right : Token} {ts : List Token}
    (hleft : left ∉ fieldTokens name s) (hright : right ∉ fieldTokens name s) :
    fieldTokens name s <:+: left :: ts ++ [right] ↔ fieldTokens name s <:+: ts := by
  rw [infix_append_cons_iff hright, ← List.nil_append (left :: ts), infix_append_cons_iff hleft]
  simp only [not_fieldTokens_infix_nil, false_or, or_false]

/-- No field begins with a token that is no string. -/
theorem infix_cons_iff_of_ne_str (hstr : ∀ s, t ≠ .str s) :
    fieldTokens name s <:+: t :: ts ↔ fieldTokens name s <:+: ts := by
  rw [List.infix_cons_iff]
  refine or_iff_right ?_
  intro h
  exact hstr name (List.cons_prefix_cons.mp h).1.symm

/-- A field begins with a string exactly if the string is its name and its value follows. -/
theorem infix_str_cons_iff {n : String} :
    fieldTokens name s <:+: .str n :: ts
      ↔ name = n ∧ [.colon, .str s] <+: ts ∨ fieldTokens name s <:+: ts := by
  rw [List.infix_cons_iff, fieldTokens, List.cons_prefix_cons, Token.str.injEq]

/-- A member with a string has these tokens, and any other has them in its value only. -/
theorem infix_nameTokens_iff {n : String} :
    fieldTokens name s <:+: .str n :: .colon :: v.tokens
      ↔ (name, .str s) = (n, v) ∨ fieldTokens name s <:+: v.tokens := by
  rw [infix_str_cons_iff, infix_cons_iff_of_ne_str (t := .colon) nofun, List.cons_prefix_cons,
    List.singleton_prefix_iff_head?_eq_some, head?_tokens_eq_some_str_iff, Prod.mk.injEq,
    eq_comm (a := Json.str s)]
  simp only [true_and]

-- The three statements follow the three functions that list the tokens.
mutual

/-- The tokens of a field stand in those of a value exactly if the value has the field. -/
theorem infix_tokens_iff : ∀ v : Json,
    fieldTokens name s <:+: v.tokens ↔ v.HasField name s
  | .null | .bool _ | .int _ | .float _ | .str _ => by
      refine iff_of_false not_fieldTokens_infix_singleton ?_
      rintro ⟨members, h, -⟩
      cases h
  | .arr items => by
      rw [tokens, infix_brackets_iff (notMem_fieldTokens nofun nofun : .openArray ∉ _)
        (notMem_fieldTokens nofun nofun : .closeArray ∉ _), infix_itemTokens_iff items,
        hasField_arr_iff]
  | .obj members => by
      rw [tokens, infix_brackets_iff (notMem_fieldTokens nofun nofun : .openObject ∉ _)
        (notMem_fieldTokens nofun nofun : .closeObject ∉ _), infix_memberTokens_iff members,
        hasField_obj_iff]

/-- The same for the items of an array, which commas keep apart. -/
theorem infix_itemTokens_iff : ∀ items : List Json,
    fieldTokens name s <:+: itemTokens items ↔ ∃ v ∈ items, v.HasField name s
  | [] => by
      simp only [itemTokens, not_fieldTokens_infix_nil, List.not_mem_nil, false_and, exists_false]
  | [v] => by
      simp only [itemTokens, infix_tokens_iff v, List.mem_singleton, exists_eq_left]
  | v :: w :: rest => by
      rw [List.exists_mem_cons_iff, itemTokens,
        infix_append_cons_iff (notMem_fieldTokens nofun nofun : .comma ∉ _), infix_tokens_iff v,
        infix_itemTokens_iff (w :: rest)]

/-- The same for the members of an object, whose names may be those of the field. -/
theorem infix_memberTokens_iff : ∀ members : List (String × Json),
    fieldTokens name s <:+: memberTokens members
      ↔ (name, .str s) ∈ members ∨ ∃ m ∈ members, m.2.HasField name s
  | [] => by
      simp only [memberTokens, not_fieldTokens_infix_nil, List.not_mem_nil, false_and, exists_false,
        or_false]
  | [(n, v)] => by
      simp only [memberTokens, infix_nameTokens_iff, infix_tokens_iff v, List.mem_singleton,
        exists_eq_left]
  | (n, v) :: m :: rest => by
      rw [List.mem_cons, List.exists_mem_cons_iff, memberTokens,
        infix_append_cons_iff (notMem_fieldTokens nofun nofun : .comma ∉ _),
        infix_nameTokens_iff, infix_tokens_iff v, infix_memberTokens_iff (m :: rest), or_or_or_comm]

end

end PackLint.Json
