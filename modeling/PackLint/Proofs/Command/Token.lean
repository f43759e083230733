import PackLint.Command.Token
import PackLint.Proofs.Text.Trim

/-! # Where tokens begin and end

    In front of every token nothing is open, so a text can be cut there: the part
    in front has the tokens in front, and the part behind has the others.

    `Nesting.run?` follows the nesting along a stretch of text that stays in one
    token.  A text is the text of a token if `nesting?` is defined on it, and of a
    closed one if nothing is open at its end. -/

namespace PackLint.Token

open Text

/-- The nesting behind a stretch of text, if no blank in it ends the token. -/
def Nesting.run? (n : Nesting) : List Char → Option Nesting
  | [] => some n
  | c :: cs => if n.ends c then Option.none else (n.next false c).run? cs

/-- The nesting behind a token with these characters, if a token can have them. -/
def nesting? : List Char → Option Nesting
  | [] => Option.none
  | c :: cs => if isBlank c then Option.none else (Nesting.none.next true c).run? cs

/-- The text is a token at the end of which nothing is open. -/
def IsClosed (w : String) : Prop :=
  nesting? w.toList = some .none

instance (w : String) : Decidable (IsClosed w) :=
  inferInstanceAs (Decidable (nesting? w.toList = some .none))

/-- A token that has this nesting is over where this text follows. -/
def Stops (n : Nesting) (cs : List Char) : Prop :=
  ∀ c ∈ cs.head?, n.ends c = true

variable {n m : Nesting} {c : Char} {cs w g : List Char} {offset : Nat}

theorem stops_nil : Stops n [] := fun _ h => nomatch h

/-- Outside of any nesting a word stops at a gap. -/
theorem stops_none (hg : AllBlank g) (hne : g ≠ []) : Stops .none (g ++ cs) := by
  cases g with
  | nil => exact absurd rfl hne
  | cons c g =>
      intro d hd
      obtain rfl : c = d := Option.some.inj hd
      show (Nesting.none == Nesting.none && isBlank c) = true
      rw [hg c (List.mem_cons_self ..)]
      rfl

/-- A word stops at blanks only, or at the end. -/
theorem Stops.isBlank (h : Stops n (c :: cs)) : isBlank c = true := by
  have h' : (n == .none && Text.isBlank c) = true := h c rfl
  exact (Bool.and_eq_true _ _ |>.mp h').2

/-- The first character of a word is followed outside of any nesting. -/
theorem nesting?_cons (hc : Text.isBlank c = false) :
    nesting? (c :: cs) = (Nesting.none.next true c).run? cs := by
  rw [nesting?, if_neg (Bool.eq_false_iff.mp hc)]

/-- A token has a first character, and that is no blank. -/
theorem exists_cons_of_nesting? (h : nesting? w = some m) :
    ∃ c cs, w = c :: cs ∧ Text.isBlank c = false
      ∧ (Nesting.none.next true c).run? cs = some m := by
  cases w with
  | nil => exact absurd h.symm (Option.some_ne_none m)
  | cons c cs =>
      cases hc : Text.isBlank c with
      | true =>
          rw [nesting?, if_pos hc] at h
          exact absurd h.symm (Option.some_ne_none m)
      | false => exact ⟨c, cs, rfl, hc, nesting?_cons hc ▸ h⟩

/-- A word is not empty. -/
theorem ne_nil_of_nesting? (h : nesting? w = some m) : w ≠ [] := by
  obtain ⟨c, cs, rfl, -, -⟩ := exists_cons_of_nesting? h
  exact List.cons_ne_nil c cs

/-- A word starts with a character that is no blank. -/
theorem startsSolid_of_nesting? (h : nesting? w = some m) : StartsSolid w := by
  obtain ⟨c, cs, rfl, hc, -⟩ := exists_cons_of_nesting? h
  exact startsSolid_cons.mpr hc

/-! ## Scanning one token -/

/-- Where a word stops, the scan takes nothing more. -/
theorem scan_of_stops (h : Stops n cs) : scan n cs = ([], cs) := by
  cases cs with
  | nil => rfl
  | cons c cs => rw [scan, if_pos (h c rfl)]

/-- The scan takes a word as far as it stops, and leaves the rest. -/
theorem scan_append_of_run? (h : n.run? w = some m) (hs : Stops m cs) :
    scan n (w ++ cs) = (w, cs) := by
  induction w generalizing n with
  | nil =>
      obtain rfl : n = m := Option.some.inj h
      exact scan_of_stops hs
  | cons c w ih =>
      rw [Nesting.run?] at h
      by_cases hc : n.ends c
      · rw [if_pos hc] at h
        exact nomatch h
      · rw [if_neg hc] at h
        rw [List.cons_append, scan, if_neg hc, ih h]

/-- What the scan takes can be followed to its end, and there a word stops. -/
theorem run?_scan (n : Nesting) (cs : List Char) :
    ∃ m, n.run? (scan n cs).1 = some m ∧ Stops m (scan n cs).2 := by
  induction cs generalizing n with
  | nil => exact ⟨n, rfl, stops_nil⟩
  | cons c cs ih =>
      by_cases hc : n.ends c
      · have hs : Stops n (c :: cs) := by
          intro d hd
          obtain rfl : c = d := Option.some.inj hd
          exact hc
        rw [scan_of_stops hs]
        exact ⟨n, rfl, hs⟩
      · obtain ⟨m, hm, hs⟩ := ih (n.next false c)
        rw [scan, if_neg hc]
        refine ⟨m, ?_, hs⟩
        show (c :: (scan (n.next false c) cs).1 |> n.run?) = some m
        rw [Nesting.run?, if_neg hc]
        exact hm

/-! ## The tokens of a text -/

@[simp] theorem byteLength_nil : byteLength [] = 0 := rfl

@[simp] theorem byteLength_append (cs ds : List Char) :
    byteLength (cs ++ ds) = byteLength cs + byteLength ds := by
  induction cs with
  | nil => exact (Nat.zero_add _).symm
  | cons c cs ih => rw [List.cons_append, byteLength_cons, byteLength_cons, ih, Nat.add_assoc]

/-- The length of a text in bytes is that of its characters. -/
theorem byteLength_eq_utf8ByteSize (cs : List Char) :
    byteLength cs = (String.ofList cs).utf8ByteSize := by
  induction cs with
  | nil => rfl
  | cons c cs ih =>
      rw [byteLength_cons, ih, String.ofList_cons, String.utf8ByteSize_append,
        String.utf8ByteSize_singleton]

/-- Blanks in front only move the tokens. -/
theorem ofChars_append_of_allBlank (hg : AllBlank g) :
    ofChars offset (g ++ cs) = ofChars (offset + byteLength g) cs := by
  induction g generalizing offset with
  | nil => rfl
  | cons c g ih =>
      rw [List.cons_append, ofChars, if_pos (hg c (List.mem_cons_self ..)),
        ih fun d hd => hg d (List.mem_cons_of_mem c hd), byteLength_cons, Nat.add_assoc]

/-- A text that begins with a token has it, and then the tokens of the rest. -/
theorem ofChars_append_of_nesting? (hw : nesting? w = some m) (hs : Stops m cs) :
    ofChars offset (w ++ cs)
      = ⟨offset, String.ofList w⟩ :: ofChars (offset + byteLength w) cs := by
  obtain ⟨c, w, rfl, hc, hrun⟩ := exists_cons_of_nesting? hw
  rw [List.cons_append, ofChars, if_neg (Bool.eq_false_iff.mp hc),
    scan_append_of_run? hrun hs]

/-- A word by itself is one token. -/
theorem ofChars_of_nesting? (offset : Nat) (hw : nesting? w = some m) :
    ofChars offset w = [⟨offset, String.ofList w⟩] := by
  have h : ofChars offset (w ++ []) = _ := ofChars_append_of_nesting? hw stops_nil
  rwa [List.append_nil, ofChars_nil] at h

/-- The first token of a text, the blanks in front of it, and the rest. -/
theorem exists_append_of_ofChars_eq_cons {t : Token} {ts : List Token}
    (h : ofChars offset cs = t :: ts) :
    ∃ g w rest m, AllBlank g ∧ nesting? w = some m ∧ Stops m rest ∧ cs = g ++ (w ++ rest)
      ∧ t = ⟨offset + byteLength g, String.ofList w⟩
      ∧ ts = ofChars (offset + byteLength (g ++ w)) rest := by
  fun_induction ofChars offset cs with
  | case1 => exact absurd h.symm (List.cons_ne_nil t ts)
  | case2 offset c cs hc ih =>
      obtain ⟨g, w, rest, m, hg, hw, hs, rfl, rfl, rfl⟩ := ih h
      refine ⟨c :: g, w, rest, m, ?_, hw, hs, rfl, ?_, ?_⟩
      · intro d hd
        rcases List.mem_cons.mp hd with rfl | hd
        · exact hc
        · exact hg d hd
      · rw [byteLength_cons, Nat.add_assoc]
      · rw [List.cons_append, byteLength_cons, Nat.add_assoc]
  | case3 offset c cs hc parts ih =>
      obtain ⟨rfl, rfl⟩ := List.cons.inj h
      obtain ⟨m, hm, hs⟩ := run?_scan (Nesting.none.next true c) cs
      have hc' : Text.isBlank c = false := Bool.eq_false_iff.mpr hc
      refine ⟨[], c :: parts.1, parts.2, m, AllBlank.nil, ?_, hs, ?_, rfl, rfl⟩
      · rw [nesting?_cons hc']
        exact hm
      · rw [List.nil_append, List.cons_append, scan_append]

/-- A text that starts solid has tokens. -/
theorem ofChars_ne_nil (hs : StartsSolid cs) (hne : cs ≠ []) : ofChars offset cs ≠ [] := by
  cases cs with
  | nil => exact absurd rfl hne
  | cons c cs =>
      have hc := startsSolid_cons.mp hs
      rw [ofChars, if_neg (Bool.eq_false_iff.mp hc)]
      exact List.cons_ne_nil _ _

/-- The same token further on in a text. -/
def shift (k : Nat) (t : Token) : Token :=
  { t with offset := k + t.offset }

@[simp] theorem shift_text (k : Nat) (t : Token) : (t.shift k).text = t.text := rfl

/-- The tokens of a text do not depend on where it begins, but for their places. -/
theorem ofChars_add (k offset : Nat) (cs : List Char) :
    ofChars (k + offset) cs = (ofChars offset cs).map (shift k) := by
  fun_induction ofChars offset cs with
  | case1 => exact ofChars_nil _
  | case2 offset c cs hc ih => rw [ofChars, if_pos hc, Nat.add_assoc, ih]
  | case3 offset c cs hc parts ih =>
      rw [ofChars, if_neg hc, List.map_cons, ← ih, ← Nat.add_assoc]
      rfl

/-- The texts of the tokens do not depend on where the text begins. -/
theorem map_text_ofChars (offset : Nat) (cs : List Char) :
    (ofChars offset cs).map text = (ofChars 0 cs).map text := by
  have h := ofChars_add offset 0 cs
  rw [Nat.add_zero] at h
  rw [h, List.map_map]
  rfl

/-- A text is cut between two tokens: the tokens up to the first of them are those of
    the text up to its end, and the others those of the text behind. -/
theorem exists_append_of_ofChars_eq_append {front : List Token} {last t : Token}
    {back : List Token} (h : ofChars offset cs = front ++ last :: t :: back) :
    ∃ a g b, cs = a ++ last.text.toList ++ (g ++ b) ∧ g ≠ [] ∧ AllBlank g
      ∧ b ≠ [] ∧ StartsSolid b
      ∧ last.offset = offset + byteLength a
      ∧ t.offset = offset + byteLength (a ++ last.text.toList ++ g)
      ∧ ofChars offset (a ++ last.text.toList) = front ++ [last]
      ∧ ofChars t.offset b = t :: back := by
  -- the tokens in front of the cut are split off one by one
  induction front generalizing offset cs with
  | nil =>
      obtain ⟨g₁, w₁, rest₁, m₁, hg₁, hw₁, hs₁, rfl, rfl, h₁⟩ :=
        exists_append_of_ofChars_eq_cons h
      obtain ⟨g₂, w₂, rest₂, m₂, hg₂, hw₂, hs₂, rfl, rfl, rfl⟩ :=
        exists_append_of_ofChars_eq_cons h₁.symm
      have hw₂' := startsSolid_of_nesting? hw₂
      have hne₂ := ne_nil_of_nesting? hw₂
      refine ⟨g₁, g₂, w₂ ++ rest₂, ?_, ?_, hg₂, ?_, hw₂'.append hne₂, rfl, ?_, ?_, ?_⟩
      · simp
      · -- without blanks between them the first token would go on
        rintro rfl
        obtain ⟨c, w, rfl, hc, -⟩ := exists_cons_of_nesting? hw₂
        have hs : Stops m₁ (c :: (w ++ rest₂)) := hs₁
        exact Bool.false_ne_true (hc.symm.trans hs.isBlank)
      · simp [hne₂]
      · simp [Nat.add_assoc]
      · have hlast := ofChars_of_nesting? (offset + byteLength g₁) hw₁
        rw [String.toList_ofList, ofChars_append_of_allBlank hg₁, hlast]
        rfl
      · rw [ofChars_append_of_nesting? hw₂ hs₂]
        simp [Nat.add_assoc]
  | cons first front ih =>
      obtain ⟨g₁, w₁, rest₁, m₁, hg₁, hw₁, hs₁, rfl, rfl, h₁⟩ :=
        exists_append_of_ofChars_eq_cons h
      obtain ⟨a, g, b, rfl, hne, hg, hb, hbs, hlast, hoff, hfront, hback⟩ := ih h₁.symm
      refine ⟨g₁ ++ (w₁ ++ a), g, b, ?_, hne, hg, hb, hbs, ?_, ?_, ?_, hback⟩
      · simp
      · rw [hlast]
        simp [Nat.add_assoc]
      · rw [hoff]
        simp [Nat.add_assoc]
      · have hstop : Stops m₁ (a ++ last.text.toList) := by
          intro c hc
          refine hs₁ c ?_
          cases hl : a ++ last.text.toList with
          | nil => rw [hl] at hc; exact nomatch hc
          | cons d l => rw [hl] at hc; exact hc
        rw [List.append_assoc, List.append_assoc, ofChars_append_of_allBlank hg₁,
          ofChars_append_of_nesting? hw₁ hstop, List.cons_append, ← hfront]
        simp [Nat.add_assoc]

end PackLint.Token
