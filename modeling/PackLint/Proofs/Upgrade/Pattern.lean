import PackLint.Proofs.Upgrade.Respaced

/-! # What patterns match

    Each pattern, said as the parts that a text it matches is put together from. -/

namespace PackLint.Upgrade

open Text

variable {cs rest phrase : List Char}

/-! ## Values -/

/-- The phrase is found in any case, and the rest is what stands behind it. -/
theorem afterPhraseAnyCase_eq_some_iff :
    afterPhraseAnyCase phrase cs = some rest
      ↔ ∃ value, cs = value ++ rest ∧ value.map Char.toLower = phrase := by
  induction phrase generalizing cs with
  | nil =>
      rw [afterPhraseAnyCase, Option.some.injEq]
      constructor
      · rintro rfl
        exact ⟨[], rfl, rfl⟩
      · rintro ⟨value, rfl, hvalue⟩
        rw [List.map_eq_nil_iff.mp hvalue, List.nil_append]
  | cons p phrase ih =>
      cases cs with
      | nil =>
          refine iff_of_false (Option.some_ne_none _ ·.symm) ?_
          rintro ⟨value, hcs, hvalue⟩
          rw [(List.append_eq_nil_iff.mp hcs.symm).1] at hvalue
          exact List.cons_ne_nil _ _ hvalue.symm
      | cons c cs =>
          rw [afterPhraseAnyCase]
          by_cases hc : p = c.toLower
          · rw [if_pos hc, ih]
            constructor
            · rintro ⟨value, rfl, rfl⟩
              exact ⟨c :: value, rfl, by rw [List.map_cons, ← hc]⟩
            · rintro ⟨value, hcs, hvalue⟩
              obtain ⟨d, value, rfl, -, rfl⟩ := List.map_eq_cons_iff.mp hvalue
              obtain ⟨-, rfl⟩ := List.cons.inj hcs
              exact ⟨value, rfl, rfl⟩
          · rw [if_neg hc]
            refine iff_of_false (Option.some_ne_none _ ·.symm) ?_
            rintro ⟨value, hcs, hvalue⟩
            obtain ⟨d, value, rfl, rfl, -⟩ := List.map_eq_cons_iff.mp hvalue
            obtain ⟨rfl, -⟩ := List.cons.inj hcs
            exact hc rfl

/-- What was found is followed by no character of a word. -/
theorem any_wordMayEnd_iff {o : Option (List Char)} :
    o.any wordMayEnd = true ↔ ∃ back, o = some back ∧ ∀ c ∈ back.head?, isWord c = false := by
  cases o with
  | none => simp
  | some back =>
      rw [Option.any_some, wordMayEnd, not_any_isWord_iff]
      simp

/-- The ways to say yes, in lower case. -/
def IsYes (value : List Char) : Prop :=
  value = "1b".toList ∨ value = "true".toList

/-- A value that says yes stands here as a whole word. -/
theorem isSet_eq_true_iff :
    isSet cs = true ↔ ∃ value back, cs = value ++ back ∧ IsYes (value.map Char.toLower)
      ∧ ∀ c ∈ back.head?, isWord c = false := by
  simp only [isSet, Bool.or_eq_true, any_wordMayEnd_iff, afterPhraseAnyCase_eq_some_iff, IsYes]
  constructor
  · rintro (⟨back, ⟨value, rfl, hvalue⟩, hback⟩ | ⟨back, ⟨value, rfl, hvalue⟩, hback⟩)
    · exact ⟨value, back, rfl, .inl hvalue, hback⟩
    · exact ⟨value, back, rfl, .inr hvalue, hback⟩
  · rintro ⟨value, back, rfl, hvalue | hvalue, hback⟩
    · exact .inl ⟨back, ⟨value, rfl, hvalue⟩, hback⟩
    · exact .inr ⟨back, ⟨value, rfl, hvalue⟩, hback⟩

/-- Such a value begins with no blank. -/
theorem startsSolid_of_isSet (h : isSet cs = true) : StartsSolid cs := by
  obtain ⟨value, back, rfl, hvalue, -⟩ := isSet_eq_true_iff.mp h
  cases value with
  | nil => rcases hvalue with hvalue | hvalue <;> exact absurd hvalue (by decide)
  | cons c value =>
      refine startsSolid_cons.mpr (Bool.eq_false_iff.mpr ?_)
      intro hblank
      -- a blank has no other case, and the values begin with none
      rcases hvalue with hvalue | hvalue <;>
      · have hc := (List.cons.inj hvalue).1
        rw [toLower_of_isBlank hblank] at hc
        rw [hc] at hblank
        exact absurd hblank (by decide)

/-! ## Characters behind blanks -/

/-- What is looked for behind a character is found behind this character only. -/
theorem head?_of_behind {k : Char} {value : List Char → Bool} (h : behind k value cs = true) :
    cs.head? = some k := by
  cases cs with
  | nil => exact absurd h Bool.false_ne_true
  | cons c cs =>
      rw [behind, Bool.and_eq_true, beq_iff_eq] at h
      rw [List.head?_cons, h.1]

/-- Behind blanks stands a character, and behind it what is asked for. -/
theorem behind_skipBlanks_iff {k : Char} (hk : isBlank k = false) {value : List Char → Bool} :
    behind k value (skipBlanks cs) = true
      ↔ ∃ gap rest, AllBlank gap ∧ cs = gap ++ k :: rest ∧ value rest = true := by
  constructor
  · intro h
    obtain ⟨gap, hgap, hcs⟩ := exists_blank_append_skipBlanks cs
    cases hskip : skipBlanks cs with
    | nil =>
        rw [hskip] at h
        exact absurd h Bool.false_ne_true
    | cons c rest =>
        rw [hskip, behind, Bool.and_eq_true, beq_iff_eq] at h
        obtain ⟨rfl, hvalue⟩ := h
        exact ⟨gap, rest, hgap, hskip ▸ hcs, hvalue⟩
  · rintro ⟨gap, rest, hgap, rfl, hvalue⟩
    rw [skipBlanks_append hgap, skipBlanks_of_startsSolid (startsSolid_cons.mpr hk), behind,
      beq_self_eq_true, hvalue]
    rfl

/-! ## Markers -/

/-- At its beginning the text names `Marker` and sets it. -/
def SetsMarkerHere (cs : List Char) : Prop :=
  ∃ gap gap' value back, cs = "Marker".toList ++ (gap ++ ':' :: (gap' ++ (value ++ back)))
    ∧ AllBlank gap ∧ AllBlank gap' ∧ IsYes (value.map Char.toLower)
    ∧ ∀ c ∈ back.head?, isWord c = false

/-- Somewhere in the text stands `Marker`, with no word character in front, and is set. -/
def SetsMarker (cs : List Char) : Prop :=
  ∃ front rest, cs = front ++ rest ∧ (∀ c ∈ front.getLast?, isWord c = false)
    ∧ SetsMarkerHere rest

/-- The pattern finds `Marker` as a word that is set here. -/
theorem markerSet_eq_true_iff {before : Option Char} :
    markerSet before cs = true ↔ (∀ c ∈ before, isWord c = false) ∧ SetsMarkerHere cs := by
  rw [markerSet_eq, Bool.and_eq_true, wordMayBegin, not_any_isWord_iff]
  refine and_congr_right fun _ => ?_
  rw [Option.any_eq_true]
  simp only [afterPhrase_eq_some_iff, behind_skipBlanks_iff (show isBlank ':' = false from rfl)]
  constructor
  · rintro ⟨rest, rfl, gap, behindColon, hgap, rfl, hset⟩
    obtain ⟨gap', hgap', hvalue⟩ := exists_blank_append_skipBlanks behindColon
    obtain ⟨value, back, hskip, hyes, hback⟩ := isSet_eq_true_iff.mp hset
    exact ⟨gap, gap', value, back, by rw [hvalue, hskip], hgap, hgap', hyes, hback⟩
  · rintro ⟨gap, gap', value, back, rfl, hgap, hgap', hyes, hback⟩
    have hset : isSet (value ++ back) = true :=
      isSet_eq_true_iff.mpr ⟨value, back, rfl, hyes, hback⟩
    refine ⟨_, rfl, gap, _, hgap, rfl, ?_⟩
    rw [skipBlanks_append hgap', skipBlanks_of_startsSolid (startsSolid_of_isSet hset)]
    exact hset

/-- In a line, `Marker` is set behind a character that ends no word. -/
theorem occursOnLine_markerSet_iff {k : Char} (hk : isWord k = false) (hline : '\n' ∉ cs) :
    occursOnLine markerSet (some k) cs = true ↔ SetsMarker cs := by
  rw [IgnoresGaps.occursOnLine_eq_search hline, search_eq_true_iff]
  simp only [markerSet_eq_true_iff]
  refine exists_congr fun front => exists_congr fun rest => and_congr_right fun _ => ?_
  refine and_congr_left fun _ => ?_
  cases hlast : front.getLast? with
  | none => simpa using hk
  | some c => simp

end PackLint.Upgrade
