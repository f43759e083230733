import Mathlib.Data.List.Lex
import Mathlib.Data.String.Basic

/-! # The order of paths

    A directory is walked name by name, and the names are compared as a whole: what
    is in the directory `a` stands in front of the file `a-b`.  On the text of paths
    this is the order of texts in which a slash comes before every other character.
    It is not the order of characters, nor does it look at a path without what is cut
    off from its end; `Overtakes` says where the difference shows. -/

namespace PackLint.Text

/-! ## Walking by name -/

/-- A slash comes before every other character. -/
def WalkBefore (a b : Char) : Prop :=
  b ≠ '/' ∧ (a = '/' ∨ a < b)

/-- The order of the texts of paths in which directories are walked. -/
def WalkLt (p q : List Char) : Prop :=
  List.Lex WalkBefore p q

instance (a b : Char) : Decidable (WalkBefore a b) :=
  inferInstanceAs (Decidable (_ ∧ _))

instance (p q : List Char) : Decidable (WalkLt p q) :=
  inferInstanceAs (Decidable (List.Lex WalkBefore p q))

/-- No character comes before itself. -/
theorem WalkBefore.irrefl (a : Char) : ¬WalkBefore a a := by
  rintro ⟨hne, heq | hlt⟩
  · exact hne heq
  · exact lt_irrefl a hlt

/-- Of two characters at most one comes first. -/
theorem WalkBefore.asymm {a b : Char} (h : WalkBefore a b) : ¬WalkBefore b a := by
  rintro ⟨hne, heq | hlt⟩
  · exact h.1 heq
  · rcases h.2 with heq | hgt
    · exact hne heq
    · exact lt_asymm hlt hgt

/-- No path is walked before itself. -/
theorem WalkLt.irrefl (p : List Char) : ¬WalkLt p p :=
  List.lex_irrefl WalkBefore.irrefl p

/-- Of two paths at most one is walked first. -/
theorem WalkLt.asymm {p q : List Char} (h : WalkLt p q) : ¬WalkLt q p :=
  List.lex_asymm WalkBefore.asymm h

/-- A common front does not change the order. -/
theorem WalkLt.append_left {p q : List Char} (h : WalkLt p q) (w : List Char) :
    WalkLt (w ++ p) (w ++ q) :=
  List.Lex.append_left _ h w

/-! ## Names with slashes between them -/

/-- The text of the path with these names. -/
def joined (names : List (List Char)) : List Char :=
  ['/'].intercalate names

theorem joined_singleton (x : List Char) : joined [x] = x :=
  List.intercalate_singleton

theorem joined_cons_cons (x y : List Char) (ys : List (List Char)) :
    joined (x :: y :: ys) = x ++ '/' :: joined (y :: ys) := by
  rw [joined, List.intercalate_cons_cons, List.append_assoc]
  rfl

/-- Behind the first name there is a slash, if there are more. -/
theorem joined_cons_of_ne_nil (x : List Char) {xs : List (List Char)} (h : xs ≠ []) :
    joined (x :: xs) = x ++ '/' :: joined xs := by
  obtain ⟨y, ys, rfl⟩ := List.exists_cons_of_ne_nil h
  exact joined_cons_cons x y ys

/-- The text of a path ends with its last name. -/
theorem joined_concat_append (xs : List (List Char)) (y s : List Char) :
    joined (xs ++ [y ++ s]) = joined (xs ++ [y]) ++ s := by
  induction xs with
  | nil => rw [List.nil_append, List.nil_append, joined_singleton, joined_singleton]
  | cons x xs ih =>
      have h : ∀ z : List Char, xs ++ [z] ≠ [] := fun z => List.concat_ne_nil z xs
      rw [List.cons_append, List.cons_append, joined_cons_of_ne_nil x (h _),
        joined_cons_of_ne_nil x (h _), ih, List.append_assoc, List.cons_append]

/-- What stands behind the first name of a path. -/
theorem exists_joined_cons (x : List Char) (xs : List (List Char)) :
    ∃ s, joined (x :: xs) = x ++ s ∧ (s = [] ∨ s.head? = some '/') := by
  cases xs with
  | nil => exact ⟨[], by rw [joined_singleton, List.append_nil], .inl rfl⟩
  | cons y ys => exact ⟨_, joined_cons_cons x y ys, .inr rfl⟩

/-- A smaller name leads to a smaller path, whatever stands behind a slash. -/
theorem WalkLt.of_name_lt {x y : List Char} (h : x < y) (hy : '/' ∉ y) {s : List Char}
    (hs : s = [] ∨ s.head? = some '/') (t : List Char) : WalkLt (x ++ s) (y ++ t) := by
  induction h with
  | @nil b ys =>
      have hb : b ≠ '/' := fun heq => hy (heq ▸ List.mem_cons_self)
      -- here the shorter name ends, and no slash stands at this place of the longer one
      cases s with
      | nil => exact .nil
      | cons a s =>
          rcases hs with hs | hs
          · exact absurd hs (List.cons_ne_nil a s)
          · exact .rel ⟨hb, .inl (Option.some.inj hs)⟩
  | cons _ ih => exact .cons (ih fun hmem => hy (List.mem_cons_of_mem _ hmem))
  | @rel a xs b ys hab =>
      have hb : b ≠ '/' := fun heq => hy (heq ▸ List.mem_cons_self)
      exact .rel ⟨hb, .inr hab⟩

/-- Paths that are compared name by name are compared as texts in the walking order. -/
theorem WalkLt.of_lex {xs ys : List (List Char)} (h : xs < ys) (hne : ∀ y ∈ ys, y ≠ [])
    (hys : ∀ y ∈ ys, '/' ∉ y) : WalkLt (joined xs) (joined ys) := by
  induction h with
  | @nil y ys =>
      -- no name is empty, so the longer path has a text
      obtain ⟨s, hs, _⟩ := exists_joined_cons y ys
      obtain ⟨b, bs, rfl⟩ := List.exists_cons_of_ne_nil (hne y List.mem_cons_self)
      rw [hs]
      exact .nil
  | @cons x xs ys hlex ih =>
      have ih := ih (fun y hy => hne y (List.mem_cons_of_mem x hy))
        fun y hy => hys y (List.mem_cons_of_mem x hy)
      obtain ⟨y, ys, rfl⟩ : ∃ y zs, ys = y :: zs := by
        cases ys with
        | nil => exact absurd hlex List.not_lex_nil
        | cons y zs => exact ⟨y, zs, rfl⟩
      rw [joined_cons_cons]
      cases xs with
      | nil =>
          have h : WalkLt (x ++ []) (x ++ '/' :: joined (y :: ys)) :=
            WalkLt.append_left .nil x
          rw [joined_singleton]
          rwa [List.append_nil] at h
      | cons z zs =>
          rw [joined_cons_cons]
          exact WalkLt.append_left (.cons ih) x
  | @rel x xs y ys hxy =>
      obtain ⟨s, hs, hslash⟩ := exists_joined_cons x xs
      obtain ⟨t, ht, _⟩ := exists_joined_cons y ys
      rw [hs, ht]
      exact WalkLt.of_name_lt hxy (hys y List.mem_cons_self) hslash t

/-! ## Texts that the walk has in another order -/

/-- One path overtakes another: it is walked first, and yet the part of it in front of
    what is cut off is the larger one.  Either the first difference between these parts
    is a slash against a character below the slash, or the other part is continued here
    by something that, with what is cut off behind it, comes first. -/
def Overtakes (p s q t : List Char) : Prop :=
  (∃ w u v c, c < '/' ∧ p = w ++ '/' :: u ∧ q = w ++ c :: v)
    ∨ ∃ r, r ≠ [] ∧ p = q ++ r ∧ WalkLt (r ++ s) t

/-- A character in front of both paths changes nothing about overtaking. -/
theorem Overtakes.cons {p s q t : List Char} (h : Overtakes p s q t) (a : Char) :
    Overtakes (a :: p) s (a :: q) t := by
  rcases h with ⟨w, u, v, c, hc, rfl, rfl⟩ | ⟨r, hr, rfl, hwalk⟩
  · exact .inl ⟨a :: w, u, v, c, hc, rfl, rfl⟩
  · exact .inr ⟨r, hr, rfl, hwalk⟩

/-- A common first character does not decide the order. -/
theorem WalkLt.of_cons {a : Char} {p q : List Char} (h : WalkLt (a :: p) (a :: q)) :
    WalkLt p q := by
  cases h with
  | cons h => exact h
  | rel h => exact absurd h (WalkBefore.irrefl a)

/-- A path that is walked first and is the larger one overtakes. -/
theorem overtakes_of_lt {p s q t : List Char} (hwalk : WalkLt (p ++ s) (q ++ t)) (h : q < p) :
    Overtakes p s q t := by
  induction h with
  | @nil a p => exact .inr ⟨a :: p, List.cons_ne_nil a p, rfl, hwalk⟩
  | cons _ ih => exact (ih hwalk.of_cons).cons _
  | @rel b q a p hba =>
      -- the walk has `a` first, although it is the larger character
      have ha : a = '/' := by
        cases hwalk with
        | cons _ => exact absurd hba (lt_irrefl b)
        | rel hab =>
            rcases hab.2 with heq | hlt
            · exact heq
            · exact absurd hlt (lt_asymm hba)
      subst ha
      exact .inl ⟨[], p, q, b, hba, rfl, rfl⟩

/-- Overtaking is being walked first and being the larger one. -/
theorem overtakes_iff {p s q t : List Char} :
    Overtakes p s q t ↔ WalkLt (p ++ s) (q ++ t) ∧ q < p := by
  constructor
  · rintro (⟨w, u, v, c, hc, rfl, rfl⟩ | ⟨r, hr, rfl, hwalk⟩)
    · rw [List.append_assoc, List.append_assoc]
      refine ⟨WalkLt.append_left (.rel ⟨ne_of_lt hc, .inl rfl⟩) w, ?_⟩
      exact List.append_left_lt (List.Lex.rel hc)
    · rw [List.append_assoc]
      refine ⟨hwalk.append_left q, ?_⟩
      obtain ⟨a, r, rfl⟩ := List.exists_cons_of_ne_nil hr
      have h : q ++ [] < q ++ a :: r := List.append_left_lt (List.nil_lt_cons a r)
      rwa [List.append_nil] at h
  · rintro ⟨hwalk, h⟩
    exact overtakes_of_lt hwalk h

instance (p s q t : List Char) : Decidable (Overtakes p s q t) :=
  decidable_of_iff _ overtakes_iff.symm

/-- What is in a directory overtakes the file beside the directory. -/
example : Overtakes "a/b".toList ".json".toList "a".toList ".json".toList := by
  decide

end PackLint.Text
