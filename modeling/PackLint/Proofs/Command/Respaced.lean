import PackLint.Proofs.Command.Chain
import PackLint.Proofs.Text.Respaced

/-! # Commands with other gaps

    Two lines with the same tokens are respaced, and so is each command of the chain of
    the one to the command at the same place in the chain of the other, with its own text. -/

namespace PackLint

open Text

/-! ## Lines with the same tokens -/

namespace Token

variable {cs ds rest : List Char} {m : Nesting}

/-- Behind a token there is nothing, or a gap and something, if the line has a solid end. -/
theorem eq_nil_or_exists_gap (hstops : Stops m rest) (hline : '\n' ∉ rest)
    (hend : EndsSolid rest) :
    rest = [] ∨ ∃ g, IsLineGap g ∧ skipBlanks rest ≠ [] ∧ rest = g ++ skipBlanks rest := by
  obtain ⟨g, hg, hrest⟩ := exists_blank_append_skipBlanks rest
  by_cases hnil : rest = []
  · exact .inl hnil
  · refine .inr ⟨g, ⟨?_, hg, ?_⟩, ?_, hrest⟩
    · -- a blank ends the token, so the gap is not empty
      rintro rfl
      rw [List.nil_append] at hrest
      obtain ⟨c, cs, rfl⟩ := List.exists_cons_of_ne_nil hnil
      have hsolid : StartsSolid (c :: cs) := hrest ▸ startsSolid_skipBlanks
      exact Bool.false_ne_true ((startsSolid_cons.mp hsolid).symm.trans hstops.isBlank)
    · intro hmem
      rw [hrest] at hline
      exact hline (List.mem_append_left _ hmem)
    · intro hskip
      rw [hskip, List.append_nil] at hrest
      have hlast := hend _ (List.getLast?_eq_some_getLast hnil)
      have hblank : AllBlank rest := hrest.symm ▸ hg
      exact Bool.false_ne_true (hlast.symm.trans (hblank _ (List.getLast_mem hnil)))

/-- A text without tokens is blank. -/
theorem skipBlanks_of_ofChars_eq_nil {offset : Nat} (h : ofChars offset cs = []) :
    skipBlanks cs = [] := by
  obtain ⟨g, hg, hcs⟩ := exists_blank_append_skipBlanks cs
  by_contra hne
  rw [hcs, ofChars_append_of_allBlank hg] at h
  exact ofChars_ne_nil startsSolid_skipBlanks hne h

/-- Lines with the same tokens are respaced, but for the blanks in front of them. -/
theorem respaced_of_map_text_eq (hline : '\n' ∉ cs) (hline' : '\n' ∉ ds) (hend : EndsSolid cs)
    (hend' : EndsSolid ds) {offset offset' : Nat}
    (h : (ofChars offset cs).map text = (ofChars offset' ds).map text) :
    Respaced (skipBlanks cs) (skipBlanks ds) := by
  generalize hts : ofChars offset cs = ts at h
  induction ts generalizing cs ds offset offset' with
  | nil =>
      have hts' : ofChars offset' ds = [] := List.map_eq_nil_iff.mp h.symm
      rw [skipBlanks_of_ofChars_eq_nil hts, skipBlanks_of_ofChars_eq_nil hts']
      exact .nil
  | cons t ts ih =>
      obtain ⟨t', ts', hts', ht, htexts⟩ := List.map_eq_cons_iff.mp h.symm
      obtain ⟨g, w, rest, m, hg, hw, hstops, rfl, rfl, hback⟩ :=
        exists_append_of_ofChars_eq_cons hts
      obtain ⟨g', w', rest', m', hg', hw', hstops', rfl, rfl, rfl⟩ :=
        exists_append_of_ofChars_eq_cons hts'
      obtain rfl : w' = w := String.ofList_injective ht
      simp only [List.mem_append, not_or] at hline hline'
      have hend := hend.of_append.of_append
      have hend' := hend'.of_append.of_append
      have hrest : Respaced (skipBlanks rest) (skipBlanks rest') :=
        ih hline.2.2 hline'.2.2 hend hend' hback.symm htexts.symm
      have hsolid := startsSolid_of_nesting? hw
      have hne := ne_nil_of_nesting? hw
      rw [skipBlanks_append hg, skipBlanks_append hg',
        skipBlanks_of_startsSolid (hsolid.append hne),
        skipBlanks_of_startsSolid (hsolid.append hne)]
      refine .append_left hline.2.1 ?_
      -- either both lines end with the token, or both go on behind a gap
      rcases eq_nil_or_exists_gap hstops hline.2.2 hend with rfl | ⟨gap, hgap, hskip, heq⟩
      · rcases eq_nil_or_exists_gap hstops' hline'.2.2 hend' with rfl | ⟨_, _, hskip', _⟩
        · exact .nil
        · exact absurd (hrest.eq_nil_iff.mp rfl) hskip'
      · rcases eq_nil_or_exists_gap hstops' hline'.2.2 hend' with rfl | ⟨gap', hgap', _, heq'⟩
        · exact absurd (hrest.eq_nil_iff.mpr rfl) hskip
        · rw [heq, heq']
          exact .gap hgap hgap' hrest

/-- Lines without blanks at their ends are respaced if their tokens have the same texts. -/
theorem respaced_of_solid (hline : '\n' ∉ cs) (hline' : '\n' ∉ ds) (hstart : StartsSolid cs)
    (hstart' : StartsSolid ds) (hend : EndsSolid cs) (hend' : EndsSolid ds)
    (h : (ofChars 0 cs).map text = (ofChars 0 ds).map text) : Respaced cs ds := by
  have hr := respaced_of_map_text_eq hline hline' hend hend' h
  rwa [skipBlanks_of_startsSolid hstart, skipBlanks_of_startsSolid hstart'] at hr

end Token

namespace Command

variable {line : Nat} {cs ds : List Char}

/-! ## Cutting at `run` -/

/-- The text of the token that begins the nested command is told by the texts of tokens. -/
theorem map_text_nestedToken? (key : Token) (args : List Token) :
    (nestedToken? key args).map Token.text
      = if key.text = "execute" then
          (Execute.runIndex? 0 (args.map Token.text)).bind fun i => (args.map Token.text)[i + 1]?
        else none := by
  rw [nestedToken?]
  split
  · rw [Option.map_bind]
    refine congrArg _ (funext fun i => ?_)
    rw [Function.comp_apply, List.getElem?_map]
  · rfl

/-- A line with this key and these arguments is an `execute` that is cut behind its keyword
    `run`: into its own text with the tokens up to it, and the text of the nested command with
    the others. -/
structure Cut (line : Nat) (cs : List Char) (key : String) (args : List String)
    (own nested : List Char) (index : Nat) : Prop where
  ofChars_eq : ofChars line cs
    = .execute line (String.ofList (trim cs)) args (ofChars line nested)
  ownText_eq : (ofChars line cs).ownText = String.ofList own
  own_subset : own ⊆ trim cs
  own_starts : StartsSolid own
  own_ends : EndsSolid own
  nested_subset : nested ⊆ trim cs
  trim_nested : trim nested = nested
  nested_shorter : nested.length < (trim cs).length
  runIndex?_eq : Execute.runIndex? 0 args = some index
  own_tokens : (Token.ofChars 0 own).map Token.text = key :: args.take (index + 1)
  nested_tokens : (Token.ofChars 0 nested).map Token.text = args.drop (index + 1)

/-- A line that nests a command is cut into its own text, blanks and the nested one. -/
theorem exists_cut_of_nestedToken? (line : Nat) {key start : Token} {args : List Token}
    (htokens : Token.ofChars 0 (trim cs) = key :: args) (hhead : (trim cs).head? ≠ some '#')
    (hnested : nestedToken? key args = some start) :
    ∃ own nested index, Cut line cs key.text (args.map Token.text) own nested index := by
  obtain ⟨a, g, b, front, back, hcs, hg, hgb, hb, hbs, htext, rfl, hindex, hown, hback⟩ :=
    exists_append_of_nestedToken? htokens hnested
  have hread : ofChars line cs = _ := (Reads.execute htokens hhead hnested).ofChars_eq
  rw [htext] at hread
  have hsolid : StartsSolid (a ++ "run".toList ++ (g ++ b)) := hcs ▸ startsSolid_trim
  have hend : EndsSolid (a ++ "run".toList ++ (g ++ b)) := hcs ▸ endsSolid_trim
  have htrim : trim b = b := trim_of_solid hbs hend.of_append.of_append
  have hne : a ++ "run".toList ≠ [] := List.append_ne_nil_of_right_ne_nil a (by decide)
  have hargs : (front ++ ⟨Token.byteLength a, "run"⟩ :: start :: back).map Token.text
      = front.map Token.text ++ ["run"] ++ start.text :: back.map Token.text := by
    simp
  have hfront : (front.map Token.text ++ ["run"]).length = front.length + 1 := by
    simp
  refine ⟨a ++ "run".toList, b, front.length,
    { ofChars_eq := hread
      ownText_eq := ?_
      own_subset := ?_
      own_starts := hsolid.of_append hne
      own_ends := endsSolid_run a
      nested_subset := ?_
      trim_nested := htrim
      nested_shorter := ?_
      runIndex?_eq := hindex
      own_tokens := ?_
      nested_tokens := ?_ }⟩
  · have hrun : (ofChars line cs).run? = some (ofChars line b) := by
      rw [hread]
      rfl
    refine Command.ownText_eq hrun ?_ hgb (endsSolid_run a)
    rw [toList_raw_ofChars, toList_raw_ofChars, htrim, hcs]
  · rw [hcs]
    exact List.subset_append_left _ _
  · rw [hcs]
    exact List.subset_append_of_subset_right _ (List.subset_append_right _ _)
  · have hlength := congrArg List.length hcs
    have hpos := List.length_pos_of_ne_nil hne
    simp only [List.length_append] at hlength hpos
    omega
  · rw [hown, hargs, List.take_left' hfront, List.cons_append, List.map_cons, List.map_append]
    rfl
  · rw [← Token.map_text_ofChars start.offset, hback, hargs, List.drop_left' hfront, List.map_cons]

namespace Cut

variable {key : String} {args : List String} {own nested own' nested' : List Char}
  {index index' : Nat}

/-- The keyword is found among the texts of the tokens. -/
theorem index_eq (h : Cut line cs key args own nested index)
    (h' : Cut line ds key args own' nested' index') : index = index' :=
  Option.some.inj (h.runIndex?_eq.symm.trans h'.runIndex?_eq)

/-- The own texts of lines with the same tokens are respaced. -/
theorem respaced_own (h : Cut line cs key args own nested index)
    (h' : Cut line ds key args own' nested' index') (hline : '\n' ∉ trim cs)
    (hline' : '\n' ∉ trim ds) : Respaced own own' := by
  refine Token.respaced_of_solid (fun hmem => hline (h.own_subset hmem))
    (fun hmem => hline' (h'.own_subset hmem)) h.own_starts h'.own_starts h.own_ends h'.own_ends ?_
  rw [h.own_tokens, h'.own_tokens, h.index_eq h']

/-- The nested texts of lines with the same tokens have the same tokens. -/
theorem map_text_nested (h : Cut line cs key args own nested index)
    (h' : Cut line ds key args own' nested' index') :
    (Token.ofChars 0 (trim nested)).map Token.text
      = (Token.ofChars 0 (trim nested')).map Token.text := by
  rw [h.trim_nested, h'.trim_nested, h.nested_tokens, h'.nested_tokens, h.index_eq h']

/-- The nested text stands on one line. -/
theorem notMem_trim_nested (h : Cut line cs key args own nested index)
    (hline : '\n' ∉ trim cs) : '\n' ∉ trim nested := by
  rw [h.trim_nested]
  exact fun hmem => hline (h.nested_subset hmem)

end Cut

/-! ## Chains -/

/-- What commands agree in that are equal but for their gaps. -/
structure Agrees (c d : Command) : Prop where
  kind_eq : c.kind = d.kind
  key?_eq : c.key? = d.key?
  args_eq : c.args = d.args
  raw : Respaced c.raw.toList d.raw.toList
  ownText : Respaced c.ownText.toList d.ownText.toList

/-- A command that nests no other agrees with one with the same gaps around its tokens. -/
theorem Agrees.of_run?_eq_none {c d : Command} (hkind : c.kind = d.kind) (hkey : c.key? = d.key?)
    (hargs : c.args = d.args) (hraw : Respaced c.raw.toList d.raw.toList) (hc : c.run? = none)
    (hd : d.run? = none) : Agrees c d := by
  refine ⟨hkind, hkey, hargs, hraw, ?_⟩
  rwa [Command.ownText, Command.ownText, hc, hd]

/-- Lines with the same tokens agree command by command. -/
theorem forall₂_agrees_chain (hline : '\n' ∉ trim cs) (hline' : '\n' ∉ trim ds)
    (h : (Token.ofChars 0 (trim cs)).map Token.text
      = (Token.ofChars 0 (trim ds)).map Token.text) :
    List.Forall₂ Agrees (ofChars line cs).chain (ofChars line ds).chain := by
  induction hn : (trim cs).length using Nat.strong_induction_on generalizing cs ds with
  | _ n ih =>
      have hr : Respaced (trim cs) (trim ds) :=
        Token.respaced_of_solid hline hline' startsSolid_trim startsSolid_trim endsSolid_trim
          endsSolid_trim h
      have hraw : Respaced (String.ofList (trim cs)).toList (String.ofList (trim ds)).toList := by
        rwa [String.toList_ofList, String.toList_ofList]
      have hhash := hr.head?_eq_iff (c := '#') (by decide)
      have hread := reads_ofChars line cs
      generalize hc : ofChars line cs = c at hread ⊢
      cases hread with
      | blank hnil =>
          rw [(Reads.blank (hr.eq_nil_iff.mp hnil)).ofChars_eq]
          exact .cons (.of_run?_eq_none rfl rfl rfl .nil rfl rfl) .nil
      | comment hhead =>
          rw [(Reads.comment (hhash.mp hhead)).ofChars_eq]
          exact .cons (.of_run?_eq_none rfl rfl rfl hraw rfl rfl) .nil
      | @plain key args htokens hhead hnested =>
          rw [htokens] at h
          obtain ⟨key', args', htokens', hkey, hargs⟩ := List.map_eq_cons_iff.mp h.symm
          have hnested' : nestedToken? key' args' = none := by
            rw [← Option.map_eq_none_iff, map_text_nestedToken?, hkey, hargs,
              ← map_text_nestedToken?, hnested, Option.map_none]
          rw [(Reads.plain htokens' (hhash.not.mp hhead) hnested').ofChars_eq]
          exact .cons (.of_run?_eq_none rfl (congrArg some hkey.symm) hargs.symm hraw rfl rfl) .nil
      | @execute key start args htokens hhead hnested =>
          rw [htokens] at h
          obtain ⟨key', args', htokens', hkey, hargs⟩ := List.map_eq_cons_iff.mp h.symm
          obtain ⟨start', hnested', _⟩ :
              ∃ start', nestedToken? key' args' = some start' ∧ start'.text = start.text := by
            rw [← Option.map_eq_some_iff, map_text_nestedToken?, hkey, hargs,
              ← map_text_nestedToken?, hnested, Option.map_some]
          obtain ⟨own, nested, index, hcut⟩ := exists_cut_of_nestedToken? line htokens hhead hnested
          obtain ⟨own', nested', index', hcut'⟩ :=
            exists_cut_of_nestedToken? line htokens' (hhash.not.mp hhead) hnested'
          rw [hkey, hargs] at hcut'
          have hshorter : (trim nested).length < n := by
            rw [hcut.trim_nested, ← hn]
            exact hcut.nested_shorter
          have hchain := ih _ hshorter (hcut.notMem_trim_nested hline)
            (hcut'.notMem_trim_nested hline') (hcut.map_text_nested hcut') rfl
          have hown := hcut.ownText_eq
          have hown' := hcut'.ownText_eq
          rw [hcut.ofChars_eq] at hown
          rw [hcut'.ofChars_eq] at hown'
          rw [← hc, hcut.ofChars_eq, hcut'.ofChars_eq]
          refine .cons ⟨rfl, rfl, rfl, hraw, ?_⟩ hchain
          rw [hown, hown', String.toList_ofList, String.toList_ofList]
          exact hcut.respaced_own hcut' hline hline'

end Command

end PackLint
