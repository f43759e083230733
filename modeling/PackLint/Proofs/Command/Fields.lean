import PackLint.Proofs.Command.Partition
import PackLint.Proofs.Command.Respaced
import PackLint.Proofs.Text.Fields

/-! # Fields and tokens

    A token without blanks is a field.  So a pattern that passes over fields goes from
    one such token to the next, and is at an end where there are no more tokens. -/

namespace PackLint.Token

open Text

variable {offset : Nat} {cs : List Char} {t : Token} {ts : List Token} {m : Nesting}

/-- A word stops at a gap or at the end. -/
theorem Stops.atGap (h : Stops m cs) : AtGap cs := by
  intro c hc
  cases cs with
  | nil => exact absurd hc.symm (Option.some_ne_none c)
  | cons d cs =>
      obtain rfl : d = c := Option.some.inj hc
      exact h.isBlank

/-- What stands in a line from this offset on, behind one of its tokens: these tokens. -/
structure Remaining (offset : Nat) (cs : List Char) (tokens : List Token) : Prop where
  stops : ∃ m, Stops m cs
  endsSolid : EndsSolid cs
  notMem : '\n' ∉ cs
  ofChars_eq : ofChars offset cs = tokens

namespace Remaining

/-- What is left stands at a gap or at the end. -/
theorem atGap (h : Remaining offset cs ts) : AtGap cs := by
  obtain ⟨m, hs⟩ := h.stops
  exact hs.atGap

/-- A line ends with its last token. -/
theorem eq_nil (h : Remaining offset cs []) : cs = [] := by
  obtain ⟨m, hs⟩ := h.stops
  rcases eq_nil_or_exists_gap hs h.notMem h.endsSolid with hnil | ⟨-, -, hskip, -⟩
  · exact hnil
  · exact absurd (skipBlanks_of_ofChars_eq_nil h.ofChars_eq) hskip

/-- The next token stands behind a gap. -/
theorem exists_cons (h : Remaining offset cs (t :: ts)) :
    ∃ g rest m, g ≠ [] ∧ AllBlank g ∧ cs = g ++ (t.text.toList ++ rest)
      ∧ t.offset = offset + byteLength g ∧ nesting? t.text.toList = some m
      ∧ Remaining t.endOffset rest ts := by
  obtain ⟨k, hk⟩ := h.stops
  obtain ⟨g, w, rest, m, hg, hw, hs, rfl, rfl, rfl⟩ :=
    exists_append_of_ofChars_eq_cons h.ofChars_eq
  have hnotMem := h.notMem
  simp only [List.mem_append, not_or] at hnotMem
  refine ⟨g, rest, m, ?_, hg, ?_, rfl, ?_, ⟨⟨m, hs⟩, h.endsSolid.of_append.of_append,
    hnotMem.2.2, ?_⟩⟩
  · -- without blanks the token in front would go on
    rintro rfl
    obtain ⟨c, w, rfl, hc, -⟩ := exists_cons_of_nesting? hw
    exact Bool.false_ne_true (hc.symm.trans hk.isBlank)
  · rw [String.toList_ofList]
  · rwa [String.toList_ofList]
  · rw [endOffset, ← byteLength_eq_utf8ByteSize, byteLength_append, Nat.add_assoc]

/-! ## Reading fields -/

/-- Where no token is left, no field is. -/
theorem afterField_nil (h : Remaining offset cs []) : afterField cs = none := by
  rw [h.eq_nil]
  rfl

/-- Where no token is left, there is nothing behind the blanks. -/
theorem afterBlanks_nil (h : Remaining offset cs []) : afterBlanks cs = none := by
  rw [h.eq_nil]
  rfl

/-- A token without blanks is a field, and the others are left behind it. -/
theorem exists_afterField (h : Remaining offset cs (t :: ts))
    (ht : ∀ c ∈ t.text.toList, isBlank c = false) :
    ∃ front rest, cs = front ++ rest ∧ t.endOffset = offset + byteLength front
      ∧ afterField cs = some rest ∧ Remaining t.endOffset rest ts := by
  obtain ⟨g, rest, m, hne, hg, rfl, hoffset, hw, hrest⟩ := h.exists_cons
  refine ⟨g ++ t.text.toList, rest, ?_, ?_, ?_, hrest⟩
  · rw [List.append_assoc]
  · rw [endOffset, hoffset, byteLength_append, byteLength_toList, Nat.add_assoc]
  · exact afterField_append hne hg ⟨ne_nil_of_nesting? hw, ht⟩ hrest.atGap

/-- Behind the blanks there is the next token. -/
theorem exists_afterBlanks (h : Remaining offset cs (t :: ts)) :
    ∃ g rest, AllBlank g ∧ cs = g ++ (t.text.toList ++ rest)
      ∧ t.offset = offset + byteLength g ∧ t.text.toList ≠ []
      ∧ afterBlanks cs = some (t.text.toList ++ rest) := by
  obtain ⟨g, rest, m, hne, hg, rfl, hoffset, hw, -⟩ := h.exists_cons
  have hsolid := startsSolid_of_nesting? hw
  have hword := ne_nil_of_nesting? hw
  exact ⟨g, rest, hg, rfl, hoffset, hword, afterBlanks_append hne hg (hsolid.append hword)⟩

end Remaining

end PackLint.Token
