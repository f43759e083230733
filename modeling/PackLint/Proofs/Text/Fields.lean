import PackLint.Proofs.Text.Respaced

/-! # Fields of a text

    A pattern reads a text from left to right: a phrase, blanks, or a field, which goes
    on up to the next blank.  Where the part in front ends at a gap, what is read from it
    does not depend on the text behind. -/

namespace PackLint.Text

variable {cs w g phrase : List Char}

/-- The text is at an end, or it goes on with a blank. -/
def AtGap (cs : List Char) : Prop :=
  ∀ c ∈ cs.head?, isBlank c = true

/-- A gap begins with a blank. -/
theorem AtGap.isBlank {c : Char} (h : AtGap (c :: cs)) : isBlank c = true :=
  h c rfl

/-! ## Phrases and words in front of a gap -/

/-- A phrase without blanks that begins in front of a gap ends in front of it. -/
theorem afterPhrase_append (hphrase : ∀ c ∈ phrase, isBlank c = false) (h : AtGap cs)
    (w : List Char) : afterPhrase phrase (w ++ cs) = (afterPhrase phrase w).map (· ++ cs) := by
  induction phrase generalizing w with
  | nil => cases w <;> cases cs <;> rfl
  | cons p phrase ih =>
      obtain ⟨hp, hphrase⟩ := List.forall_mem_cons.mp hphrase
      cases w with
      | nil =>
          cases cs with
          | nil => rfl
          | cons c cs =>
              show afterPhrase (p :: phrase) (c :: cs) = none
              rw [afterPhrase, if_neg (ne_of_isBlank hp h.isBlank)]
      | cons c w =>
          rw [List.cons_append, afterPhrase, afterPhrase]
          split
          · exact ih hphrase w
          · rfl

/-- What stands at a gap does not continue a word. -/
theorem wordMayEnd_append (h : AtGap cs) (w : List Char) :
    wordMayEnd (w ++ cs) = wordMayEnd w := by
  cases w with
  | cons c w => rfl
  | nil =>
      cases cs with
      | nil => rfl
      | cons c cs =>
          show (!isWord c) = true
          rw [isWord_of_isBlank h.isBlank]
          rfl

/-! ## Blanks and fields -/

/-- Behind the blanks the solid text stands. -/
theorem afterBlanks_append (hne : g ≠ []) (hg : AllBlank g) (h : StartsSolid cs) :
    afterBlanks (g ++ cs) = some cs := by
  obtain ⟨c, g, rfl⟩ := List.exists_cons_of_ne_nil hne
  obtain ⟨hc, hg⟩ := List.forall_mem_cons.mp hg
  rw [List.cons_append, afterBlanks, if_pos hc, skipBlanks_append hg,
    skipBlanks_of_startsSolid h]

/-- In front of a solid text there are no blanks. -/
theorem afterBlanks_of_startsSolid (h : StartsSolid cs) : afterBlanks cs = none := by
  cases cs with
  | nil => rfl
  | cons c cs => rw [afterBlanks, if_neg (Bool.eq_false_iff.mp (startsSolid_cons.mp h))]

/-- A solid word is taken up to the gap. -/
theorem afterSolid_append (hw : IsSolid w) (h : AtGap cs) : afterSolid (w ++ cs) = some cs := by
  obtain ⟨c, w, rfl⟩ := List.exists_cons_of_ne_nil hw.1
  obtain ⟨hc, hw⟩ := List.forall_mem_cons.mp hw.2
  rw [List.cons_append, afterSolid, if_neg (Bool.eq_false_iff.mp hc),
    List.dropWhile_append_of_pos fun d hd => by rw [hw d hd]; rfl]
  cases cs with
  | nil => rfl
  | cons d cs => rw [List.dropWhile_cons_of_neg (by simp [h.isBlank])]

/-- A field is the next stretch without blanks. -/
theorem afterField_append (hne : g ≠ []) (hg : AllBlank g) (hw : IsSolid w) (h : AtGap cs) :
    afterField (g ++ (w ++ cs)) = some cs := by
  have hsolid : StartsSolid w := by
    obtain ⟨c, w, rfl⟩ := List.exists_cons_of_ne_nil hw.1
    exact startsSolid_cons.mpr (hw.2 c List.mem_cons_self)
  rw [afterField, afterBlanks_append hne hg (hsolid.append hw.1), Option.bind_some,
    afterSolid_append hw h]

/-! ## Words behind a gap -/

/-- Blanks in front of a text have no part in its words. -/
theorem exists_wordAt_append_iff (hphrase : IsSolid phrase) (hg : AllBlank g) :
    (∃ place, WordAt phrase place (g ++ cs)) ↔ ∃ place, WordAt phrase place cs := by
  by_cases hne : g = []
  · rw [hne, List.nil_append]
  · have hnone : ∀ place, ¬WordAt phrase place [] := by
      intro place hplace
      have hle := hplace.place_add_length_le
      have hpos := List.length_pos_of_ne_nil hphrase.1
      rw [List.length_nil] at hle
      omega
    have hcut : ∀ place, WordAt phrase place (g ++ cs)
        ↔ ∃ j, place = ([] ++ g).length + j ∧ WordAt phrase j cs := by
      intro place
      rw [← List.nil_append (g ++ cs), wordAt_append_iff hphrase.1 hphrase.2 hne hg]
      exact or_iff_right (hnone place)
    constructor
    · rintro ⟨place, hplace⟩
      obtain ⟨j, -, hj⟩ := (hcut place).mp hplace
      exact ⟨j, hj⟩
    · rintro ⟨j, hj⟩
      exact ⟨_, (hcut _).mpr ⟨j, rfl, hj⟩⟩

end PackLint.Text
