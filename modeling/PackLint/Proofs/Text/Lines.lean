import PackLint.Proofs.Text.Trim
import PackLint.Text.Lines

/-! # Cutting texts into lines

    A text that ends with a line feed consists of whole lines, as many as it has line
    feeds.  What stands behind it has lines of its own.  Carriage returns in front of the
    line feeds are blanks at the ends of the lines. -/

namespace PackLint.Text

variable {a b cs : List Char} {c : Char}

/-- A text that is not empty has lines. -/
theorem lines_ne_nil (hne : cs ≠ []) : lines cs ≠ [] := by
  cases cs with
  | nil => exact absurd rfl hne
  | cons c cs =>
      rw [lines]
      split
      · exact List.cons_ne_nil _ _
      · split <;> exact List.cons_ne_nil _ _

/-- A character in front of a text stands in its first line. -/
theorem lines_cons (hc : c ≠ '\n') {line : List Char} {rest : List (List Char)}
    (h : lines cs = line :: rest) : lines (c :: cs) = (c :: line) :: rest := by
  rw [lines, if_neg hc, h]

/-- The text is empty, or its last character is a line feed. -/
def WholeLines (cs : List Char) : Prop :=
  ∀ c ∈ cs.getLast?, c = '\n'

instance (cs : List Char) : Decidable (WholeLines cs) :=
  decidable_of_iff (cs.getLast?.all (· == '\n') = true)
    (by simp only [WholeLines, Option.all_eq_true, Option.mem_def, beq_iff_eq])

/-- Without its first character, a text of whole lines is one still. -/
theorem WholeLines.tail (h : WholeLines (c :: cs)) : WholeLines cs := by
  cases cs with
  | nil =>
      intro c hc
      exact absurd hc.symm (Option.some_ne_none c)
  | cons d cs =>
      intro e he
      refine h e ?_
      rw [Option.mem_def, List.getLast?_cons_cons]
      exact he

/-- Only a line feed makes whole lines by itself. -/
theorem WholeLines.ne_nil (h : WholeLines (c :: cs)) (hc : c ≠ '\n') : cs ≠ [] := by
  rintro rfl
  exact hc (h c rfl)

/-- Behind whole lines a text is cut as if it stood alone. -/
theorem lines_append (h : WholeLines a) (b : List Char) : lines (a ++ b) = lines a ++ lines b := by
  induction a with
  | nil => rfl
  | cons c a ih =>
      have ih := ih h.tail
      by_cases hc : c = '\n'
      · subst hc
        rw [List.cons_append, lines_lineFeed, lines_lineFeed, ih, List.cons_append]
      · obtain ⟨line, rest, ha⟩ := List.exists_cons_of_ne_nil (lines_ne_nil (h.ne_nil hc))
        rw [ha, List.cons_append] at ih
        rw [List.cons_append, lines_cons hc ih, lines_cons hc ha, List.cons_append]

/-- There is one whole line for each line feed. -/
theorem length_lines (h : WholeLines a) : (lines a).length = a.count '\n' := by
  induction a with
  | nil => rfl
  | cons c a ih =>
      have ih := ih h.tail
      by_cases hc : c = '\n'
      · subst hc
        rw [lines_lineFeed, List.length_cons, ih, List.count_cons_self]
      · obtain ⟨line, rest, ha⟩ := List.exists_cons_of_ne_nil (lines_ne_nil (h.ne_nil hc))
        rw [ha] at ih
        rw [lines_cons hc ha, List.count_cons_of_ne hc, ← ih]
        rfl

/-- The text with a carriage return in front of each line feed. -/
def withReturns (cs : List Char) : List Char :=
  cs.flatMap fun c => if c = '\n' then ['\r', '\n'] else [c]

theorem withReturns_cons (hc : c ≠ '\n') (cs : List Char) :
    withReturns (c :: cs) = c :: withReturns cs := by
  rw [withReturns, List.flatMap_cons, if_neg hc]
  rfl

/-- The carriage returns are gone when blanks are trimmed off the ends of the lines. -/
theorem map_trimRight_lines_withReturns (cs : List Char) :
    (lines (withReturns cs)).map trimRight = (lines cs).map trimRight := by
  induction cs with
  | nil => rfl
  | cons c cs ih =>
      by_cases hc : c = '\n'
      · subst hc
        show [] :: (lines (withReturns cs)).map trimRight = [] :: (lines cs).map trimRight
        rw [ih]
      · -- the rests of the first lines are trimmed to the same, so the first lines are, too
        rw [withReturns_cons hc, lines, lines, if_neg hc, if_neg hc]
        cases hcs : lines cs with
        | nil =>
            rw [hcs, List.map_nil, List.map_eq_nil_iff] at ih
            rw [ih]
        | cons line rest =>
            rw [hcs, List.map_cons] at ih
            obtain ⟨line', rest', hcs', hline, hrest⟩ := List.map_eq_cons_iff.mp ih
            rw [hcs']
            simp only [List.map_cons, trimRight_cons, hline, hrest]

/-- What trimming on the right takes away, trimming on both sides does, too. -/
theorem trim_trimRight (cs : List Char) : trim (trimRight cs) = trim cs := by
  obtain ⟨g, hg, hcs⟩ := exists_trimRight_append_blank cs
  have htrim : trim ([] ++ trimRight cs ++ g) = trim (trimRight cs) :=
    trim_append_append AllBlank.nil hg
  rw [List.nil_append, ← hcs] at htrim
  exact htrim.symm

end PackLint.Text
