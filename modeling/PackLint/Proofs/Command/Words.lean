import PackLint.Proofs.Command.Chain
import PackLint.Proofs.Text.WordAt

/-! # Words in the commands of a chain

    The own texts of the commands of a chain lie behind each other in the text of the
    line, with blanks between them.  So every word of the line is a word of one of the
    own texts, of no other one, and their words are words of the line. -/

namespace PackLint.Command

open Text

variable {phrase : List Char} {place : Nat} {c d n : Command}

/-- Every command of the chain divides its text with the one nested in it. -/
def Divides (c : Command) : Prop :=
  ∀ d ∈ c.chain, ∀ n, d.run? = some n → Nests d n

/-- Each command of a line that was read divides its text from that of the nested one. -/
theorem divides_ofChars (line : Nat) (cs : List Char) : (ofChars line cs).Divides := by
  intro d hd n hn
  obtain ⟨ds, rfl⟩ := exists_ofChars_of_mem_chain hd
  exact nests_ofChars hn

/-- The place in the text of a command at which the text of one of its chain begins. -/
def placeOf (c d : Command) : Nat :=
  c.raw.length - d.raw.length

/-- The stretch of this length is in the own text of a command of the chain. -/
def Covers (c d : Command) (place length : Nat) : Prop :=
  c.placeOf d ≤ place ∧ place + length ≤ c.placeOf d + d.ownText.length

/-- The text of a command begins at its own beginning. -/
theorem placeOf_self (c : Command) : c.placeOf c = 0 :=
  Nat.sub_self _

/-- If no command is nested, the whole text is its own. -/
theorem ownText_of_run?_eq_none (h : c.run? = none) : c.ownText = c.raw := by
  rw [ownText, h]

namespace Divides

/-- The nested command divides its text as well. -/
theorem of_run? (h : c.Divides) (hn : c.run? = some n) : n.Divides := by
  intro d hd
  refine h d ?_
  rw [chain_of_run?_eq_some hn]
  exact List.mem_cons_of_mem c hd

/-- The command itself nests the one that it runs. -/
theorem nests (h : c.Divides) (hn : c.run? = some n) : Nests c n :=
  h c (mem_chain_self c) n hn

end Divides

/-- The own text and blanks stand in front of the text of the nested command. -/
theorem Nests.exists_raw_eq (h : Nests c n) :
    ∃ gap : List Char, gap ≠ [] ∧ AllBlank gap
      ∧ c.raw.toList = c.ownText.toList ++ (gap ++ n.raw.toList) := by
  obtain ⟨gap, hne, hblank, hraw⟩ := h.raw_eq
  refine ⟨gap.toList, String.toList_eq_nil_iff.not.mpr hne, hblank, ?_⟩
  rw [hraw, String.toList_append, String.toList_append, List.append_assoc]

/-- The own text and the nested one do not fill the text, as blanks part them. -/
theorem Nests.ownText_length_lt (h : Nests c n) :
    c.ownText.length + n.raw.length < c.raw.length := by
  obtain ⟨gap, hgap, _, hraw⟩ := h.exists_raw_eq
  have hlength := congrArg List.length hraw
  have hpos := List.length_pos_of_ne_nil hgap
  simp only [List.length_append, String.length_toList] at hlength
  omega

/-- An induction along a chain: what holds of a command that nests none, and of a command
    if it holds of the nested one, holds of every command. -/
theorem run?_induction {P : Command → Prop} (hnone : ∀ c, c.run? = none → P c)
    (hsome : ∀ c n, c.run? = some n → P n → P c) (c : Command) : P c := by
  induction c with
  | execute line raw args run ih => exact hsome _ run rfl ih
  | _ => exact hnone _ rfl

/-- A command that nests none is a chain by itself. -/
theorem chain_of_run?_eq_none (h : c.run? = none) : c.chain = [c] := by
  cases c with
  | execute line raw args run => exact nomatch h
  | _ => rfl

/-- No command of a chain is longer than the line. -/
theorem Divides.raw_length_le (h : c.Divides) : ∀ d ∈ c.chain, d.raw.length ≤ c.raw.length := by
  induction c using run?_induction with
  | hnone c hc =>
      rw [chain_of_run?_eq_none hc]
      exact List.forall_mem_singleton.mpr (Nat.le_refl _)
  | hsome c n hn ih =>
      rw [chain_of_run?_eq_some hn]
      refine List.forall_mem_cons.mpr ⟨Nat.le_refl _, ?_⟩
      intro d hd
      exact Nat.le_trans (ih (h.of_run? hn) d hd) (Nat.le_of_lt (h.nests hn).raw_shorter)

/-- The own text of a command ends before the text of any command behind it begins. -/
theorem Divides.pairwise_chain (h : c.Divides) :
    c.chain.Pairwise fun d e => d.ownText.length + e.raw.length < d.raw.length := by
  induction c using run?_induction with
  | hnone c hc =>
      rw [chain_of_run?_eq_none hc]
      exact List.pairwise_singleton _ _
  | hsome c n hn ih =>
      rw [chain_of_run?_eq_some hn]
      refine List.pairwise_cons.mpr ⟨?_, ih (h.of_run? hn)⟩
      intro d hd
      have hle := (h.of_run? hn).raw_length_le d hd
      have hlt := (h.nests hn).ownText_length_lt
      omega

/-- A stretch is in the own text of one command of the chain only. -/
theorem Divides.eq_of_covers (h : c.Divides) {length : Nat} (hlength : 0 < length) :
    ∀ d ∈ c.chain, ∀ e ∈ c.chain, c.Covers d place length → c.Covers e place length → d = e := by
  have hle := h.raw_length_le
  have hapart : c.chain.Pairwise fun d e =>
      ¬(c.Covers d place length ∧ c.Covers e place length) := by
    refine h.pairwise_chain.imp_of_mem ?_
    rintro d e hd he hlt ⟨hcd, hce⟩
    have hcdle := hle d hd
    have hcele := hle e he
    simp only [Covers, placeOf] at hcd hce
    omega
  apply List.Pairwise.forall_of_forall_of_flip
  · intro d _ _ _
    rfl
  · exact hapart.imp fun hnot hcd hce => absurd ⟨hcd, hce⟩ hnot
  · exact hapart.imp fun hnot hce hcd => absurd ⟨hcd, hce⟩ hnot

/-- The words of the text of a command are those of the own texts of its chain. -/
theorem Divides.wordAt_raw_iff (h : c.Divides) (hphrase : phrase ≠ [])
    (hsolid : ∀ a ∈ phrase, isBlank a = false) :
    WordAt phrase place c.raw.toList
      ↔ ∃ d ∈ c.chain, ∃ j, place = c.placeOf d + j ∧ WordAt phrase j d.ownText.toList := by
  induction c using run?_induction generalizing place with
  | hnone c hc =>
      simp only [chain_of_run?_eq_none hc, List.mem_singleton, exists_eq_left, placeOf_self,
        ownText_of_run?_eq_none hc, Nat.zero_add, exists_eq_left']
  | hsome c n hn ih =>
      obtain ⟨gap, hgap, hblank, hraw⟩ := (h.nests hn).exists_raw_eq
      have hlength := congrArg List.length hraw
      simp only [List.length_append, String.length_toList] at hlength
      -- the nested chain keeps its places, behind the own text and the gap
      have hplace : ∀ d ∈ n.chain, c.placeOf d
          = (c.ownText.toList ++ gap).length + n.placeOf d := by
        intro d hd
        have hle := (h.of_run? hn).raw_length_le d hd
        rw [placeOf, placeOf, List.length_append, String.length_toList]
        omega
      rw [hraw, wordAt_append_iff hphrase hsolid hgap hblank, chain_of_run?_eq_some hn]
      simp only [List.mem_cons, exists_eq_or_imp, placeOf_self, Nat.zero_add, exists_eq_left']
      refine or_congr_right ?_
      constructor
      · rintro ⟨i, rfl, hi⟩
        obtain ⟨d, hd, j, rfl, hj⟩ := (ih (h.of_run? hn)).mp hi
        exact ⟨d, hd, j, by rw [hplace d hd, Nat.add_assoc], hj⟩
      · rintro ⟨d, hd, j, rfl, hj⟩
        exact ⟨n.placeOf d + j, by rw [hplace d hd, Nat.add_assoc],
          (ih (h.of_run? hn)).mpr ⟨d, hd, j, rfl, hj⟩⟩

/-- How the commands of a chain share the places out at which a phrase stands in the
    text of the line as a word. -/
structure SharesWords (phrase : List Char) (c : Command) : Prop where
  /-- Every word of the line is in the own text of exactly one command of the chain. -/
  existsUnique_covers : ∀ place, WordAt phrase place c.raw.toList →
    ∃! d, d ∈ c.chain ∧ c.Covers d place phrase.length
  /-- There it is a word as well. -/
  wordAt_ownText : ∀ place, WordAt phrase place c.raw.toList → ∀ d ∈ c.chain,
    c.Covers d place phrase.length → WordAt phrase (place - c.placeOf d) d.ownText.toList
  /-- Every word of the own text of a command is a word of the line. -/
  wordAt_raw : ∀ d ∈ c.chain, ∀ j, WordAt phrase j d.ownText.toList →
    WordAt phrase (c.placeOf d + j) c.raw.toList

/-- Every word of the line is in the own text of exactly one command, and is a word there. -/
theorem Divides.sharesWords (h : c.Divides) (hphrase : phrase ≠ [])
    (hsolid : ∀ a ∈ phrase, isBlank a = false) : SharesWords phrase c := by
  have hpos := List.length_pos_of_ne_nil hphrase
  have hcovers : ∀ d : Command, ∀ j, WordAt phrase j d.ownText.toList →
      c.Covers d (c.placeOf d + j) phrase.length := by
    intro d j hj
    have hle := hj.place_add_length_le
    rw [String.length_toList] at hle
    exact ⟨Nat.le_add_right _ _, by omega⟩
  refine ⟨?_, ?_, ?_⟩
  · intro place hplace
    obtain ⟨d, hd, j, rfl, hj⟩ := (h.wordAt_raw_iff hphrase hsolid).mp hplace
    refine ⟨d, ⟨hd, hcovers d j hj⟩, ?_⟩
    rintro e ⟨he, hce⟩
    exact h.eq_of_covers hpos e he d hd hce (hcovers d j hj)
  · intro place hplace d hd hcd
    obtain ⟨e, he, j, rfl, hj⟩ := (h.wordAt_raw_iff hphrase hsolid).mp hplace
    obtain rfl := h.eq_of_covers hpos d hd e he hcd (hcovers e j hj)
    rwa [Nat.add_sub_cancel_left]
  · intro d hd j hj
    exact (h.wordAt_raw_iff hphrase hsolid).mpr ⟨d, hd, j, rfl, hj⟩

/-- The line has a word exactly if the own text of a command of its chain has it. -/
theorem Divides.hasWord_raw_iff (h : c.Divides) (hphrase : phrase ≠ [])
    (hsolid : ∀ a ∈ phrase, isBlank a = false) :
    hasWord phrase c.raw.toList = true
      ↔ ∃ d ∈ c.chain, hasWord phrase d.ownText.toList = true := by
  simp only [hasWord_eq_true_iff, h.wordAt_raw_iff hphrase hsolid]
  constructor
  · rintro ⟨_, d, hd, j, rfl, hj⟩
    exact ⟨d, hd, j, hj⟩
  · rintro ⟨d, hd, j, hj⟩
    exact ⟨_, d, hd, j, rfl, hj⟩

end PackLint.Command
