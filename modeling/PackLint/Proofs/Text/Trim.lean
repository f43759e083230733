import Mathlib.Data.List.DropRight
import PackLint.Text.Blank

/-! # Trimming

    Blanks around a text are all that trimming takes away, and a text that neither
    begins nor ends with a blank is left as it is.  So a text is trimmed once and
    for all, and blanks added at its ends make no difference. -/

namespace PackLint.Text

variable {cs ds g : List Char}

/-- The text consists of blanks. -/
def AllBlank (cs : List Char) : Prop :=
  ∀ c ∈ cs, isBlank c = true

/-- The text does not begin with a blank. -/
def StartsSolid (cs : List Char) : Prop :=
  ∀ c ∈ cs.head?, isBlank c = false

/-- The text does not end with a blank. -/
def EndsSolid (cs : List Char) : Prop :=
  ∀ c ∈ cs.getLast?, isBlank c = false

instance (cs : List Char) : Decidable (AllBlank cs) :=
  decidable_of_iff (cs.all isBlank = true) List.all_eq_true

@[simp] theorem AllBlank.nil : AllBlank [] := fun _ h => nomatch h

theorem AllBlank.append (hc : AllBlank cs) (hd : AllBlank ds) : AllBlank (cs ++ ds) := by
  intro c h
  rcases List.mem_append.mp h with h | h
  · exact hc c h
  · exact hd c h

theorem startsSolid_cons {c : Char} : StartsSolid (c :: cs) ↔ isBlank c = false := by
  simp [StartsSolid]

/-- How a text ends is decided by its last part. -/
theorem endsSolid_append (h : ds ≠ []) : EndsSolid (cs ++ ds) ↔ EndsSolid ds := by
  rw [EndsSolid, EndsSolid, List.getLast?_append_of_ne_nil cs h]

/-! ## The beginning -/

/-- Blanks in front are skipped together with those that follow. -/
theorem skipBlanks_append (hg : AllBlank g) : skipBlanks (g ++ cs) = skipBlanks cs :=
  List.dropWhile_append_of_pos hg

/-- Nothing is left of a blank text. -/
theorem skipBlanks_of_allBlank (hg : AllBlank g) : skipBlanks g = [] :=
  List.dropWhile_eq_nil_iff.mpr hg

/-- Where a text starts solid, nothing is skipped. -/
theorem skipBlanks_of_startsSolid (h : StartsSolid cs) : skipBlanks cs = cs := by
  cases cs with
  | nil => rfl
  | cons c cs =>
      have hc := startsSolid_cons.mp h
      rw [skipBlanks, List.dropWhile_cons_of_neg (Bool.eq_false_iff.mp hc)]

/-- What is left starts solid. -/
theorem startsSolid_skipBlanks : StartsSolid (skipBlanks cs) := by
  intro c hc
  have hne : skipBlanks cs ≠ [] := by
    intro h
    rw [h] at hc
    exact nomatch hc
  have hhead : (skipBlanks cs).head hne = c := by
    rw [Option.mem_def, List.head?_eq_some_head hne] at hc
    exact Option.some.inj hc
  rw [← hhead]
  exact List.head_dropWhile_not isBlank hne

/-- Skipping takes away blanks only. -/
theorem exists_blank_append_skipBlanks (cs : List Char) :
    ∃ g, AllBlank g ∧ cs = g ++ skipBlanks cs := by
  refine ⟨cs.takeWhile isBlank, ?_, List.takeWhile_append_dropWhile.symm⟩
  intro c hc
  exact List.mem_takeWhile_imp hc

/-! ## The end -/

/-- The last character goes if it is a blank, and else nothing does. -/
theorem trimRight_concat (cs : List Char) (c : Char) :
    trimRight (cs ++ [c]) = if isBlank c then trimRight cs else cs ++ [c] := by
  induction cs with
  | nil => by_cases hc : isBlank c <;> simp [trimRight, hc]
  | cons d cs ih =>
      rw [List.cons_append, trimRight_cons, ih, trimRight_cons]
      by_cases hc : isBlank c
      · rw [if_pos hc, if_pos hc]
      · rw [if_neg hc, if_neg hc]
        simp

/-- Trimming at the end is dropping blanks from the end. -/
theorem trimRight_eq_rdropWhile (cs : List Char) : trimRight cs = cs.rdropWhile isBlank := by
  induction cs using List.reverseRecOn with
  | nil => rfl
  | append_singleton cs c ih => rw [trimRight_concat, List.rdropWhile_concat, ih]

/-- Blanks at the end do not matter. -/
theorem trimRight_append (hg : AllBlank g) : trimRight (cs ++ g) = trimRight cs := by
  rw [trimRight_eq_rdropWhile, trimRight_eq_rdropWhile, List.rdropWhile, List.rdropWhile,
    List.reverse_append, List.dropWhile_append_of_pos]
  intro c hc
  exact hg c (List.mem_reverse.mp hc)

/-- Where a text ends solid, nothing is trimmed. -/
theorem trimRight_of_endsSolid (h : EndsSolid cs) : trimRight cs = cs := by
  rw [trimRight_eq_rdropWhile, List.rdropWhile_eq_self_iff]
  intro hne
  rw [h _ (List.getLast?_eq_some_getLast hne)]
  exact Bool.false_ne_true

/-- What is left ends solid. -/
theorem endsSolid_trimRight : EndsSolid (trimRight cs) := by
  intro c hc
  rw [trimRight_eq_rdropWhile] at hc
  have hne : cs.rdropWhile isBlank ≠ [] := by
    intro h
    rw [h] at hc
    exact nomatch hc
  rw [Option.mem_def, List.getLast?_eq_some_getLast hne] at hc
  rw [← Option.some.inj hc]
  exact Bool.eq_false_iff.mpr (List.rdropWhile_last_not isBlank cs hne)

/-- Trimming on the right takes away blanks only. -/
theorem exists_trimRight_append_blank (cs : List Char) :
    ∃ g, AllBlank g ∧ cs = trimRight cs ++ g := by
  refine ⟨cs.rtakeWhile isBlank, ?_, ?_⟩
  · intro c hc
    exact List.mem_rtakeWhile_imp hc
  · rw [trimRight_eq_rdropWhile]
    exact List.rdropWhile_append_rtakeWhile.symm

/-- The last part of a text that ends solid ends solid. -/
theorem EndsSolid.of_append (h : EndsSolid (cs ++ ds)) : EndsSolid ds := by
  by_cases hne : ds = []
  · rw [hne]
    exact fun _ h => nomatch h
  · exact (endsSolid_append hne).mp h

/-- The first part of a text that starts solid starts solid. -/
theorem StartsSolid.of_append (h : StartsSolid (cs ++ ds)) (hne : cs ≠ []) :
    StartsSolid cs := by
  cases cs with
  | nil => exact absurd rfl hne
  | cons c cs => exact h

/-- What follows does not change how a text starts. -/
theorem StartsSolid.append (h : StartsSolid cs) (hne : cs ≠ []) : StartsSolid (cs ++ ds) := by
  cases cs with
  | nil => exact absurd rfl hne
  | cons c cs => exact h

theorem startsSolid_nil : StartsSolid [] := fun _ h => nomatch h

/-! ## Both ends -/

/-- A text without blanks at its ends is left as it is. -/
theorem trim_of_solid (hs : StartsSolid cs) (he : EndsSolid cs) : trim cs = cs := by
  rw [trim, skipBlanks_of_startsSolid hs, trimRight_of_endsSolid he]

/-- A trimmed text ends solid. -/
theorem endsSolid_trim : EndsSolid (trim cs) := endsSolid_trimRight

/-- A trimmed text starts solid. -/
theorem startsSolid_trim : StartsSolid (trim cs) := by
  obtain ⟨g, -, hg⟩ := exists_trimRight_append_blank (skipBlanks cs)
  by_cases hne : trimRight (skipBlanks cs) = []
  · rw [trim, hne]
    exact startsSolid_nil
  · have hs : StartsSolid (trimRight (skipBlanks cs) ++ g) := hg ▸ startsSolid_skipBlanks
    exact hs.of_append hne

@[simp] theorem trim_trim : trim (trim cs) = trim cs :=
  trim_of_solid startsSolid_trim endsSolid_trim

/-- Blanks at both ends are trimmed away. -/
theorem trim_append_append {g₁ g₂ : List Char} (h₁ : AllBlank g₁) (h₂ : AllBlank g₂) :
    trim (g₁ ++ cs ++ g₂) = trim cs := by
  rw [List.append_assoc, trim, skipBlanks_append h₁, trim]
  -- where nothing but blanks is in between, the two runs of blanks are one
  by_cases hb : AllBlank cs
  · rw [skipBlanks_of_allBlank (hb.append h₂), skipBlanks_of_allBlank hb]
  · have hne : ¬(cs.dropWhile isBlank).isEmpty = true := by
      rw [List.isEmpty_iff, List.dropWhile_eq_nil_iff]
      exact hb
    rw [skipBlanks, List.dropWhile_append, if_neg hne, trimRight_append h₂, skipBlanks]

/-- Trimming takes away blanks only. -/
theorem exists_blank_append_trim_append_blank (cs : List Char) :
    ∃ g₁ g₂, AllBlank g₁ ∧ AllBlank g₂ ∧ cs = g₁ ++ trim cs ++ g₂ := by
  obtain ⟨g₁, h₁, hs⟩ := exists_blank_append_skipBlanks cs
  obtain ⟨g₂, h₂, he⟩ := exists_trimRight_append_blank (skipBlanks cs)
  refine ⟨g₁, g₂, h₁, h₂, ?_⟩
  rw [List.append_assoc, trim, ← he]
  exact hs

/-- Trimming adds no character. -/
theorem trim_subset (cs : List Char) : trim cs ⊆ cs := by
  obtain ⟨g₁, g₂, -, -, hcs⟩ := exists_blank_append_trim_append_blank cs
  intro c hc
  rw [hcs]
  exact List.mem_append_left _ (List.mem_append_right _ hc)

end PackLint.Text
