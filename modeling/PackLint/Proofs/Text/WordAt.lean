import Mathlib.Data.List.Basic
import PackLint.Proofs.Text.Trim
import PackLint.Text.Search

/-! # Words and the places where they stand

    A phrase stands at a place of a text as a word if no word character stands on
    either side of it.  Where a text is cut at characters that are in no word, as blanks
    are, the words of its parts are its own words, each in one of the parts. -/

namespace PackLint.Text

variable {phrase a b g cs : List Char} {place : Nat}

/-- The phrase stands behind this many characters of the text, and no word character
    stands on either side of it. -/
def WordAt (phrase : List Char) (place : Nat) (cs : List Char) : Prop :=
  ∃ front back, cs = front ++ (phrase ++ back) ∧ front.length = place
    ∧ (∀ c ∈ front.getLast?, isWord c = false) ∧ ∀ c ∈ back.head?, isWord c = false

/-- A word ends where the text does, or in front of it. -/
theorem WordAt.place_add_length_le (h : WordAt phrase place cs) :
    place + phrase.length ≤ cs.length := by
  obtain ⟨front, back, rfl, rfl, _, _⟩ := h
  rw [List.length_append, List.length_append]
  omega

/-! ## Searching -/

/-- There is no character of a word here, or none at all. -/
theorem not_any_isWord_iff {o : Option Char} :
    (!o.any isWord) = true ↔ ∀ c ∈ o, isWord c = false := by
  cases o <;> simp

/-- A word is here if the phrase is, with no character of a word at either end. -/
theorem wordHere_eq_true_iff {before : Option Char} :
    wordHere phrase before cs = true
      ↔ (∀ c ∈ before, isWord c = false)
        ∧ ∃ back, cs = phrase ++ back ∧ ∀ c ∈ back.head?, isWord c = false := by
  rw [wordHere, Bool.and_eq_true, wordMayBegin, not_any_isWord_iff]
  refine and_congr_right fun _ => ?_
  cases hback : afterPhrase phrase cs with
  | none =>
      refine iff_of_false Bool.false_ne_true ?_
      rintro ⟨back, hcs, _⟩
      rw [afterPhrase_eq_some_iff.mpr hcs] at hback
      exact nomatch hback
  | some rest =>
      obtain rfl := afterPhrase_eq_some_iff.mp hback
      rw [Option.any_some, wordMayEnd, not_any_isWord_iff]
      constructor
      · intro h
        exact ⟨rest, rfl, h⟩
      · rintro ⟨back, hcs, h⟩
        rwa [List.append_cancel_left hcs]

theorem getLast?_or_some (c : Char) (front : List Char) (before : Option Char) :
    front.getLast?.or (some c) = (c :: front).getLast?.or before := by
  rw [List.getLast?_cons]
  cases front.getLast? <;> rfl

/-- A search that may pass over every character looks at every place. -/
theorem search_eq_true_iff {test : PlaceTest} {before : Option Char} :
    search (fun _ => true) test before cs = true
      ↔ ∃ front back, cs = front ++ back ∧ test (front.getLast?.or before) back = true := by
  induction cs generalizing before with
  | nil => simp [search]
  | cons c cs ih =>
      rw [search, Bool.or_eq_true, Bool.true_and, ih]
      constructor
      · rintro (h | ⟨front, back, rfl, h⟩)
        · exact ⟨[], c :: cs, rfl, h⟩
        · exact ⟨c :: front, back, rfl, getLast?_or_some c front before ▸ h⟩
      · rintro ⟨front, back, hcs, h⟩
        cases front with
        | nil => exact .inl (hcs ▸ h)
        | cons d front =>
            obtain ⟨rfl, rfl⟩ := List.cons.inj hcs
            exact .inr ⟨front, back, rfl, getLast?_or_some c front before ▸ h⟩

/-- A text has a word exactly if the word stands at some place of it. -/
theorem hasWord_eq_true_iff : hasWord phrase cs = true ↔ ∃ place, WordAt phrase place cs := by
  simp only [hasWord, occurs, search_eq_true_iff, Option.or_none, wordHere_eq_true_iff]
  constructor
  · rintro ⟨front, _, rfl, hfront, back, rfl, hback⟩
    exact ⟨front.length, front, back, rfl, rfl, hfront, hback⟩
  · rintro ⟨_, front, back, rfl, rfl, hfront, hback⟩
    exact ⟨front, _, rfl, hfront, back, rfl, hback⟩

instance (phrase cs : List Char) : Decidable (∃ place, WordAt phrase place cs) :=
  decidable_of_iff _ hasWord_eq_true_iff

/-- The empty text has no words. -/
theorem hasWord_nil (hphrase : phrase ≠ []) : hasWord phrase [] = false := by
  refine Bool.eq_false_iff.mpr ?_
  intro h
  obtain ⟨place, hplace⟩ := hasWord_eq_true_iff.mp h
  have hle := hplace.place_add_length_le
  have hpos := List.length_pos_of_ne_nil hphrase
  rw [List.length_nil] at hle
  omega

/-! ## Cutting between words -/

/-- Where a text goes on with what is in no word, a word may end. -/
theorem forall_mem_head?_append (hg : g ≠ []) (hgap : ∀ c ∈ g, isWord c = false)
    (h : ∀ c ∈ a.head?, isWord c = false) : ∀ c ∈ (a ++ (g ++ b)).head?, isWord c = false := by
  intro c hc
  cases a with
  | cons d a => exact h c hc
  | nil =>
      cases g with
      | nil => exact absurd rfl hg
      | cons d g =>
          obtain rfl := Option.some.inj hc
          exact hgap d List.mem_cons_self

/-- Where what is in no word stands in front of a text, a word may begin. -/
theorem forall_mem_getLast?_append (hg : g ≠ []) (hgap : ∀ c ∈ g, isWord c = false)
    (h : ∀ c ∈ b.getLast?, isWord c = false) :
    ∀ c ∈ (a ++ (g ++ b)).getLast?, isWord c = false := by
  intro c hc
  by_cases hb : b = []
  · rw [hb, List.append_nil, List.getLast?_append_of_ne_nil _ hg] at hc
    exact hgap c (List.mem_of_mem_getLast? hc)
  · rw [← List.append_assoc, List.getLast?_append_of_ne_nil _ hb] at hc
    exact h c hc

/-- A stretch of a text in which no character of the first one occurs stands behind the
    first one. -/
theorem exists_of_append_eq_append {xs ys front back : List Char} (hys : ys ≠ [])
    (hdisjoint : ∀ c ∈ ys, c ∉ xs) (h : xs ++ b = front ++ (ys ++ back)) :
    ∃ rest, front = xs ++ rest ∧ b = rest ++ (ys ++ back) := by
  rcases List.append_eq_append_iff.mp h with ⟨rest, hfront, hb⟩ | ⟨rest, hxs, hb⟩
  · exact ⟨rest, hfront, hb⟩
  · cases rest with
    | nil => exact ⟨[], by rw [hxs, List.append_nil, List.append_nil], hb.symm⟩
    | cons c rest =>
        obtain ⟨d, ys, rfl⟩ := List.exists_cons_of_ne_nil hys
        obtain ⟨rfl, _⟩ := List.cons.inj hb
        refine absurd ?_ (hdisjoint d List.mem_cons_self)
        rw [hxs]
        exact List.mem_append_right front List.mem_cons_self

/-- A phrase stands as a word in a text that is cut at characters that are in no word and not
    in the phrase, if it stands as a word in one of the two parts. -/
theorem wordAt_cut_iff (hphrase : phrase ≠ []) (hapart : ∀ c ∈ phrase, c ∉ g) (hg : g ≠ [])
    (hgap : ∀ c ∈ g, isWord c = false) :
    WordAt phrase place (a ++ (g ++ b))
      ↔ WordAt phrase place a
        ∨ ∃ j, place = (a ++ g).length + j ∧ WordAt phrase j b := by
  constructor
  · rintro ⟨front, back, h, rfl, hfront, hback⟩
    -- the word begins behind the first part, and so behind the gap, or in the first part,
    -- and then it ends before the gap
    rcases List.append_eq_append_iff.mp h with ⟨behind, rfl, htail⟩ | ⟨ahead, rfl, htail⟩
    · obtain ⟨rest, rfl, rfl⟩ := exists_of_append_eq_append hphrase hapart htail
      refine .inr ⟨rest.length, ?_, rest, back, rfl, rfl, ?_, hback⟩
      · simp only [List.length_append, Nat.add_assoc]
      · intro c hc
        refine hfront c ?_
        rw [← List.append_assoc, Option.mem_def, List.getLast?_append, Option.mem_def.mp hc]
        rfl
    · have hdisjoint : ∀ c ∈ g, c ∉ phrase := fun c hc hmem => hapart c hmem hc
      obtain ⟨rest, rfl, rfl⟩ := exists_of_append_eq_append hg hdisjoint htail
      refine .inl ⟨front, rest, rfl, rfl, hfront, ?_⟩
      intro c hc
      refine hback c ?_
      rw [Option.mem_def, List.head?_append, Option.mem_def.mp hc]
      rfl
  · rintro (⟨front, back, rfl, rfl, hfront, hback⟩ | ⟨j, rfl, front, back, rfl, rfl, hfront, hback⟩)
    · refine ⟨front, back ++ (g ++ b), by simp only [List.append_assoc], rfl, hfront, ?_⟩
      exact forall_mem_head?_append hg hgap hback
    · refine ⟨a ++ (g ++ front), back, by simp only [List.append_assoc], ?_, ?_, hback⟩
      · simp only [List.length_append, Nat.add_assoc]
      · exact forall_mem_getLast?_append hg hgap hfront

/-- A blank is no character of a word. -/
theorem isWord_of_isBlank {c : Char} (h : isBlank c = true) : isWord c = false := by
  have hblanks : blanks.any isWord = false := by
    decide +kernel
  exact Bool.eq_false_iff.mpr (List.any_eq_false.mp hblanks c (isBlank_iff.mp h))

/-- A word of a text that is cut at blanks is a word of one of the two parts, for no
    blank is in it. -/
theorem wordAt_append_iff (hphrase : phrase ≠ []) (hsolid : ∀ c ∈ phrase, isBlank c = false)
    (hg : g ≠ []) (hblank : AllBlank g) :
    WordAt phrase place (a ++ (g ++ b))
      ↔ WordAt phrase place a
        ∨ ∃ j, place = (a ++ g).length + j ∧ WordAt phrase j b := by
  have hapart : ∀ c ∈ phrase, c ∉ g := by
    intro c hc hmem
    exact absurd (hblank c hmem) (Bool.eq_false_iff.mp (hsolid c hc))
  exact wordAt_cut_iff hphrase hapart hg fun c hc => isWord_of_isBlank (hblank c hc)

/-- At a character that is in no word and not in the phrase a text can be cut. -/
theorem hasWord_append_cons_iff {c : Char} (hphrase : phrase ≠ []) (hc : c ∉ phrase)
    (hword : isWord c = false) :
    hasWord phrase (a ++ c :: b) = true ↔ hasWord phrase a = true ∨ hasWord phrase b = true := by
  have hcut : ∀ place, WordAt phrase place (a ++ c :: b)
      ↔ WordAt phrase place a ∨ ∃ j, place = (a ++ [c]).length + j ∧ WordAt phrase j b := by
    intro place
    refine wordAt_cut_iff hphrase ?_ (List.cons_ne_nil c []) (List.forall_mem_singleton.mpr hword)
    intro d hd hmem
    rw [List.mem_singleton.mp hmem] at hd
    exact hc hd
  simp only [hasWord_eq_true_iff, hcut, exists_or]
  refine or_congr Iff.rfl ?_
  constructor
  · rintro ⟨_, j, -, hj⟩
    exact ⟨j, hj⟩
  · rintro ⟨j, hj⟩
    exact ⟨_, j, rfl, hj⟩

/-- Characters that the phrase does not begin with may stand in front of a text that does not
    begin with the phrase. -/
theorem hasWord_append_iff_of_notMem {c : Char} (hphrase : phrase.head? = some c) (ha : c ∉ a)
    (hb : b.head? ≠ some c) : hasWord phrase (a ++ b) = true ↔ hasWord phrase b = true := by
  obtain ⟨rest, rfl⟩ := List.head?_eq_some_iff.mp hphrase
  -- the word begins behind the first character of the second part
  have hne : ∀ front back, b = front ++ (c :: rest ++ back) → front ≠ [] := by
    rintro _ back rfl rfl
    exact hb rfl
  simp only [hasWord_eq_true_iff]
  constructor
  · rintro ⟨_, front, back, h, -, hfront, hback⟩
    rcases List.append_eq_append_iff.mp h with ⟨ahead, rfl, rfl⟩ | ⟨ahead, rfl, htail⟩
    · rw [List.getLast?_append_of_ne_nil _ (hne ahead back rfl)] at hfront
      exact ⟨_, ahead, back, rfl, rfl, hfront, hback⟩
    · cases ahead with
      | nil => exact absurd (congrArg List.head? htail.symm) hb
      | cons d ahead =>
          obtain ⟨rfl, -⟩ := List.cons.inj htail
          exact absurd (List.mem_append_right front List.mem_cons_self) ha
  · rintro ⟨_, front, back, rfl, -, hfront, hback⟩
    refine ⟨_, a ++ front, back, (List.append_assoc a front _).symm, rfl, ?_, hback⟩
    rw [List.getLast?_append_of_ne_nil _ (hne front back rfl)]
    exact hfront

end PackLint.Text
