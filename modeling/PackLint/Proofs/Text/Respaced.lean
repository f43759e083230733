import PackLint.Proofs.Option
import PackLint.Proofs.Text.WordAt

/-! # Texts with other gaps

    Two lines are respaced if they differ in the blanks within their gaps only: where one
    has a gap, the other one has a gap, and everything else is the same.  What is read
    from a line without looking into its gaps is then the same, and behind it the lines
    are respaced again. -/

namespace PackLint.Text

/-- A blank is no solid character. -/
theorem ne_of_isBlank {c d : Char} (hc : isBlank c = false) (hd : isBlank d = true) : c ≠ d := by
  rintro rfl
  exact Bool.false_ne_true (hc.symm.trans hd)

/-- Blanks between two parts of one line. -/
structure IsLineGap (g : List Char) : Prop where
  ne_nil : g ≠ []
  allBlank : AllBlank g
  notMem : '\n' ∉ g

/-- The lines are equal but for the blanks in their gaps. -/
inductive Respaced : List Char → List Char → Prop
  | nil : Respaced [] []
  | solid {c : Char} {cs ds : List Char} (hc : isBlank c = false) (h : Respaced cs ds) :
      Respaced (c :: cs) (c :: ds)
  | gap {g g' cs ds : List Char} (hg : IsLineGap g) (hg' : IsLineGap g') (h : Respaced cs ds) :
      Respaced (g ++ cs) (g' ++ ds)

namespace Respaced

variable {cs ds : List Char}

/-- Both lines are at an end, or both go on with the same character, or both with a gap. -/
inductive Fronts : List Char → List Char → Prop
  | nil : Fronts [] []
  | solid {c : Char} {cs ds : List Char} (hc : isBlank c = false) (h : Respaced cs ds) :
      Fronts (c :: cs) (c :: ds)
  | blank {c d : Char} {cs ds : List Char} (hc : isBlank c = true) (hd : isBlank d = true)
      (h : Respaced (skipBlanks cs) (skipBlanks ds)) : Fronts (c :: cs) (d :: ds)

/-- Behind the blanks in front, the texts still differ by their spacing only. -/
theorem skipBlanks (h : Respaced cs ds) : Respaced (skipBlanks cs) (skipBlanks ds) := by
  induction h with
  | nil => exact .nil
  | @solid c cs ds hc h ih =>
      rw [skipBlanks_of_startsSolid (startsSolid_cons.mpr hc),
        skipBlanks_of_startsSolid (startsSolid_cons.mpr hc)]
      exact .solid hc h
  | gap hg hg' h ih => rwa [skipBlanks_append hg.allBlank, skipBlanks_append hg'.allBlank]

/-- Respaced texts begin with the same solid character, or both with a blank, or both are
    empty. -/
theorem fronts (h : Respaced cs ds) : Fronts cs ds := by
  cases h with
  | nil => exact .nil
  | solid hc h => exact .solid hc h
  | @gap g g' cs ds hg hg' h =>
      obtain ⟨c, g, rfl⟩ := List.exists_cons_of_ne_nil hg.ne_nil
      obtain ⟨d, g', rfl⟩ := List.exists_cons_of_ne_nil hg'.ne_nil
      have hblank := hg.allBlank
      have hblank' := hg'.allBlank
      refine .blank (hblank c List.mem_cons_self) (hblank' d List.mem_cons_self) ?_
      show Respaced (Text.skipBlanks (g ++ cs)) (Text.skipBlanks (g' ++ ds))
      rw [skipBlanks_append fun e he => hblank e (List.mem_cons_of_mem c he),
        skipBlanks_append fun e he => hblank' e (List.mem_cons_of_mem d he)]
      exact h.skipBlanks

/-- Only the empty text is the empty text respaced. -/
theorem eq_nil_iff (h : Respaced cs ds) : cs = [] ↔ ds = [] := by
  cases h.fronts <;> simp

/-- Respaced texts begin with the same solid character, if with any. -/
theorem head?_eq_iff (h : Respaced cs ds) {c : Char} (hc : isBlank c = false) :
    cs.head? = some c ↔ ds.head? = some c := by
  cases h.fronts with
  | nil => rfl
  | solid _ _ => rfl
  | blank hd he _ => simp [(ne_of_isBlank hc hd).symm, (ne_of_isBlank hc he).symm]

/-- Texts that are respaced stand on one line. -/
theorem notMem_left (h : Respaced cs ds) : '\n' ∉ cs := by
  induction h with
  | nil => exact List.not_mem_nil
  | solid hc _ ih =>
      rw [List.mem_cons]
      rintro (rfl | hmem)
      · exact absurd hc (by decide)
      · exact ih hmem
  | gap hg _ _ ih => exact fun hmem => (List.mem_append.mp hmem).elim hg.notMem ih

/-- Respacing can be undone. -/
theorem symm (h : Respaced cs ds) : Respaced ds cs := by
  induction h with
  | nil => exact .nil
  | solid hc _ ih => exact .solid hc ih
  | gap hg hg' _ ih => exact .gap hg' hg ih

/-- The same text in front of respaced texts, without a line break, keeps them respaced. -/
theorem append_left {w : List Char} (hw : '\n' ∉ w) (h : Respaced cs ds) :
    Respaced (w ++ cs) (w ++ ds) := by
  induction w with
  | nil => exact h
  | cons c w ih =>
      rw [List.mem_cons, not_or] at hw
      obtain ⟨hc, hw⟩ := hw
      cases hblank : isBlank c with
      | false => exact .solid hblank (ih hw)
      | true =>
          have hgap : IsLineGap [c] :=
            ⟨List.cons_ne_nil _ _, fun d hd => List.mem_singleton.mp hd ▸ hblank,
              fun hmem => hc (List.mem_singleton.mp hmem)⟩
          show Respaced ([c] ++ (w ++ cs)) ([c] ++ (w ++ ds))
          exact .gap hgap hgap (ih hw)

end Respaced

/-! ## Phrases -/

/-- The phrase has no blanks, and it is not empty. -/
def IsSolid (phrase : List Char) : Prop :=
  phrase ≠ [] ∧ ∀ c ∈ phrase, isBlank c = false

instance (phrase : List Char) : Decidable (IsSolid phrase) :=
  decidable_of_iff ((phrase != [] && !phrase.any isBlank) = true) (by simp [IsSolid])

/-- A phrase that begins with no blank is not found in front of a blank. -/
theorem IsSolid.afterPhrase_eq_none {phrase : List Char} (h : IsSolid phrase) {c : Char}
    (hc : isBlank c = true) (cs : List Char) : afterPhrase phrase (c :: cs) = none := by
  obtain ⟨p, ps, rfl⟩ := List.exists_cons_of_ne_nil h.1
  rw [afterPhrase, if_neg (ne_of_isBlank (h.2 p List.mem_cons_self) hc)]

/-- The text behind a phrase that it begins with, where its characters are compared in
    another form. -/
def afterPhraseAs (form : Char → Char) : (phrase cs : List Char) → Option (List Char)
  | [], cs => some cs
  | _ :: _, [] => none
  | p :: ps, c :: cs => if p = form c then afterPhraseAs form ps cs else none

theorem afterPhrase_eq (phrase cs : List Char) :
    afterPhrase phrase cs = afterPhraseAs id phrase cs := by
  induction phrase generalizing cs with
  | nil => cases cs <;> rfl
  | cons p phrase ih =>
      cases cs with
      | nil => rfl
      | cons c cs => rw [afterPhrase, afterPhraseAs, ih, id]

theorem afterPhraseAnyCase_eq (phrase cs : List Char) :
    afterPhraseAnyCase phrase cs = afterPhraseAs Char.toLower phrase cs := by
  induction phrase generalizing cs with
  | nil => cases cs <;> rfl
  | cons p phrase ih =>
      cases cs with
      | nil => rfl
      | cons c cs => rw [afterPhraseAnyCase, afterPhraseAs, ih]

/-- No blank has another case. -/
theorem toLower_of_isBlank {c : Char} (h : isBlank c = true) : c.toLower = c := by
  have hblanks : (blanks.all fun c => c.toLower == c) = true := by
    decide +kernel
  exact beq_iff_eq.mp (List.all_eq_true.mp hblanks c (isBlank_iff.mp h))

namespace Respaced

variable {cs ds phrase : List Char}

/-- A phrase without blanks does not match where a gap begins. -/
theorem afterPhraseAs {form : Char → Char} (hform : ∀ c, isBlank c = true → form c = c)
    (hphrase : ∀ c ∈ phrase, isBlank c = false) (h : Respaced cs ds) :
    Option.Rel Respaced (afterPhraseAs form phrase cs) (afterPhraseAs form phrase ds) := by
  induction phrase generalizing cs ds with
  | nil => cases h.fronts <;> exact .some h
  | cons p phrase ih =>
      obtain ⟨hp, hphrase⟩ := List.forall_mem_cons.mp hphrase
      have hne : ∀ {c}, isBlank c = true → p ≠ form c := by
        intro c hc
        rw [hform c hc]
        exact ne_of_isBlank hp hc
      cases h.fronts with
      | nil => exact .none
      | solid hc hrest =>
          rw [Text.afterPhraseAs, Text.afterPhraseAs]
          split
          · exact ih hphrase hrest
          · exact .none
      | blank hc hd hrest =>
          rw [Text.afterPhraseAs, Text.afterPhraseAs, if_neg (hne hc), if_neg (hne hd)]
          exact .none

/-- A solid phrase is in front of both texts or of neither, and what is left is respaced. -/
theorem afterPhrase (hphrase : IsSolid phrase) (h : Respaced cs ds) :
    Option.Rel Respaced (afterPhrase phrase cs) (afterPhrase phrase ds) := by
  rw [afterPhrase_eq, afterPhrase_eq]
  exact h.afterPhraseAs (fun _ _ => rfl) hphrase.2

/-- The same in any case. -/
theorem afterPhraseAnyCase (hphrase : IsSolid phrase) (h : Respaced cs ds) :
    Option.Rel Respaced (afterPhraseAnyCase phrase cs) (afterPhraseAnyCase phrase ds) := by
  rw [afterPhraseAnyCase_eq, afterPhraseAnyCase_eq]
  exact h.afterPhraseAs (fun _ => toLower_of_isBlank) hphrase.2

/-! ## Blanks, fields and words -/

/-- What is behind one blank or more is respaced, if there is one. -/
theorem afterBlanks (h : Respaced cs ds) :
    Option.Rel Respaced (afterBlanks cs) (afterBlanks ds) := by
  cases h.fronts with
  | nil => exact .none
  | solid hc hrest =>
      rw [Text.afterBlanks, Text.afterBlanks, hc]
      exact .none
  | blank hc hd hrest =>
      rw [Text.afterBlanks, Text.afterBlanks, if_pos hc, if_pos hd]
      exact .some hrest

/-- What is behind the solid characters in front is respaced. -/
theorem dropSolid (h : Respaced cs ds) :
    Respaced (cs.dropWhile fun c => !isBlank c) (ds.dropWhile fun c => !isBlank c) := by
  have hgap : ∀ {g rest : List Char}, IsLineGap g →
      (g ++ rest).dropWhile (fun c => !isBlank c) = g ++ rest := by
    intro g rest hg
    obtain ⟨c, g, rfl⟩ := List.exists_cons_of_ne_nil hg.ne_nil
    have hc : isBlank c = true := hg.allBlank c List.mem_cons_self
    exact List.dropWhile_cons_of_neg (by simp [hc])
  induction h with
  | nil => exact .nil
  | solid hc _ ih =>
      rw [List.dropWhile_cons_of_pos (by simp [hc]), List.dropWhile_cons_of_pos (by simp [hc])]
      exact ih
  | gap hg hg' h _ =>
      rw [hgap hg, hgap hg']
      exact .gap hg hg' h

/-- What is behind a word is respaced, if there is a word. -/
theorem afterSolid (h : Respaced cs ds) :
    Option.Rel Respaced (afterSolid cs) (afterSolid ds) := by
  cases h.fronts with
  | nil => exact .none
  | solid hc hrest =>
      rw [Text.afterSolid, Text.afterSolid, hc]
      exact .some hrest.dropSolid
  | blank hc hd hrest =>
      rw [Text.afterSolid, Text.afterSolid, if_pos hc, if_pos hd]
      exact .none

/-- What is behind a field is respaced, if there is a field. -/
theorem afterField (h : Respaced cs ds) :
    Option.Rel Respaced (afterField cs) (afterField ds) :=
  rel_bind h.afterBlanks fun _ _ hrest => hrest.afterSolid

/-- A word may end in front of both texts, or in front of neither. -/
theorem wordMayEnd (h : Respaced cs ds) : wordMayEnd cs = wordMayEnd ds := by
  cases h.fronts with
  | nil => rfl
  | solid hc hrest => rfl
  | blank hc hd hrest =>
      show (!isWord _) = (!isWord _)
      rw [isWord_of_isBlank hc, isWord_of_isBlank hd]

end Respaced

/-! ## Searches -/

/-- The test fails where a gap begins, and it does not see the blanks of the gaps behind, nor
    what stands before but for whether a word may begin. -/
structure IgnoresGaps (test : PlaceTest) : Prop where
  eq_false : ∀ before c cs, isBlank c = true → test before (c :: cs) = false
  eq : ∀ before before' cs ds, wordMayBegin before = wordMayBegin before' → Respaced cs ds →
    test before cs = test before' ds

namespace IgnoresGaps

variable {test : PlaceTest} {cs ds g : List Char} {before before' : Option Char}

/-- A word may begin behind a blank. -/
theorem wordMayBegin_of_isBlank {c : Char} (h : isBlank c = true) :
    wordMayBegin (some c) = true := by
  show (!isWord c) = true
  rw [isWord_of_isBlank h]
  rfl

/-- Nothing is found in a gap, and behind it a word may begin. -/
theorem exists_search_gap (h : IgnoresGaps test) (hg : AllBlank g)
    (hbefore : wordMayBegin before = true) :
    ∃ last, wordMayBegin last = true
      ∧ search (fun _ => true) test before (g ++ cs) = search (fun _ => true) test last cs := by
  induction g generalizing before with
  | nil => exact ⟨before, hbefore, rfl⟩
  | cons c g ih =>
      have hc := hg c List.mem_cons_self
      obtain ⟨last, hlast, hsearch⟩ :=
        ih (fun d hd => hg d (List.mem_cons_of_mem c hd)) (wordMayBegin_of_isBlank hc)
      refine ⟨last, hlast, ?_⟩
      rw [List.cons_append, search, h.eq_false _ _ _ hc, Bool.false_or, Bool.true_and, hsearch]

/-- A search passes over a gap and comes out where a word may begin. -/
theorem exists_search_lineGap (h : IgnoresGaps test) (hg : IsLineGap g) (before : Option Char)
    (cs : List Char) :
    ∃ last, wordMayBegin last = true
      ∧ search (fun _ => true) test before (g ++ cs) = search (fun _ => true) test last cs := by
  obtain ⟨c, g, rfl⟩ := List.exists_cons_of_ne_nil hg.ne_nil
  have hblank := hg.allBlank
  have hc := hblank c List.mem_cons_self
  rw [List.cons_append, search, h.eq_false _ _ _ hc, Bool.false_or, Bool.true_and]
  exact h.exists_search_gap (fun d hd => hblank d (List.mem_cons_of_mem c hd))
    (wordMayBegin_of_isBlank hc)

/-- A search that ignores gaps comes to the same end in respaced texts. -/
theorem search_eq (h : IgnoresGaps test) (hr : Respaced cs ds)
    (hbefore : wordMayBegin before = wordMayBegin before') :
    search (fun _ => true) test before cs = search (fun _ => true) test before' ds := by
  induction hr generalizing before before' with
  | nil => exact h.eq before before' [] [] hbefore .nil
  | solid hc hr ih =>
      rw [search, search, h.eq _ _ _ _ hbefore (.solid hc hr), ih rfl]
  | @gap g g' cs ds hg hg' hr ih =>
      obtain ⟨last, hlast, hsearch⟩ := h.exists_search_lineGap hg before cs
      obtain ⟨last', hlast', hsearch'⟩ := h.exists_search_lineGap hg' before' ds
      rw [hsearch, hsearch']
      exact ih (hlast.trans hlast'.symm)

/-- What ignores gaps occurs in both texts or in neither. -/
theorem occurs_eq (h : IgnoresGaps test) (hr : Respaced cs ds) : occurs test cs = occurs test ds :=
  h.search_eq hr rfl

/-- A search of one line does not come to a line feed. -/
theorem occursOnLine_eq_search (h : '\n' ∉ cs) :
    occursOnLine test before cs = search (fun _ => true) test before cs := by
  induction cs generalizing before with
  | nil => rfl
  | cons c cs ih =>
      rw [List.mem_cons, not_or] at h
      have hsearch : occursOnLine test (some c) cs = _ := ih h.2
      rw [occursOnLine] at hsearch ⊢
      rw [search, search, hsearch, bne_iff_ne.mpr (Ne.symm h.1)]

/-- What ignores gaps occurs on the line of both texts or of neither. -/
theorem occursOnLine_eq (h : IgnoresGaps test) (hr : Respaced cs ds) :
    occursOnLine test before cs = occursOnLine test before ds := by
  rw [occursOnLine_eq_search hr.notMem_left, occursOnLine_eq_search hr.symm.notMem_left]
  exact h.search_eq hr rfl

end IgnoresGaps

/-- The search for a solid word ignores gaps. -/
theorem ignoresGaps_wordHere {phrase : List Char} (h : IsSolid phrase) :
    IgnoresGaps (wordHere phrase) where
  eq_false before c cs hc := by
    rw [wordHere, h.afterPhrase_eq_none hc]
    exact Bool.and_false _
  eq before before' cs ds hbefore hr := by
    rw [wordHere, wordHere, hbefore,
      any_eq_of_rel (hr.afterPhrase h) fun _ _ hrest => hrest.wordMayEnd]

/-- Respaced texts have the same solid words. -/
theorem Respaced.hasWord_eq {cs ds phrase : List Char} (hr : Respaced cs ds)
    (h : IsSolid phrase) : hasWord phrase cs = hasWord phrase ds :=
  (ignoresGaps_wordHere h).occurs_eq hr

end PackLint.Text
