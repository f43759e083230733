import Mathlib.Data.List.Chain
import PackLint.Proofs.Command.Basic

/-! # The chain of a command

    A command and the ones nested in it divide the text of their line: the text of
    each is its own text, which ends with the token `run`, then blanks, and then the
    text of the next.  What one step inwards does is `Nests`; every step of a chain
    does it, since every command of a chain is read from its own text. -/

namespace PackLint.Command

open Text

/-! ## Any chain -/

@[simp] theorem head?_chain (c : Command) : c.chain.head? = some c := by
  cases c <;> rfl

/-- A command is in its own chain. -/
theorem mem_chain_self (c : Command) : c ∈ c.chain :=
  List.mem_of_mem_head? (head?_chain c)

/-- A chain has at least one command. -/
theorem chain_ne_nil (c : Command) : c.chain ≠ [] := by
  cases c <;> exact List.cons_ne_nil _ _

/-- The chain goes on with the one of the nested command. -/
theorem chain_of_run?_eq_some {c n : Command} (h : c.run? = some n) :
    c.chain = c :: n.chain := by
  cases c with
  | execute line raw args run =>
      obtain rfl : run = n := Option.some.inj h
      rfl
  | _ => exact nomatch h

/-- A command that nests another is an `execute`. -/
theorem kind_and_key?_of_run?_eq_some {c n : Command} (h : c.run? = some n) :
    c.kind = .command ∧ c.key? = some "execute" := by
  cases c with
  | execute line raw args run => exact ⟨rfl, rfl⟩
  | _ => exact nomatch h

/-- What holds of a command, and passes from a command to the one nested in it, holds of the
    whole chain. -/
theorem forall_mem_chain {P : Command → Prop} (hstep : ∀ c n, P c → c.run? = some n → P n)
    {c : Command} (hc : P c) : ∀ d ∈ c.chain, P d := by
  induction c with
  | execute line raw args run ih =>
      intro d hd
      rcases List.mem_cons.mp hd with rfl | hd
      · exact hc
      · exact ih (hstep _ run hc rfl) d hd
  | _ =>
      intro d hd
      rw [List.mem_singleton.mp hd]
      exact hc

/-- Each command of a chain but the first is nested in the one before it. -/
theorem isChain_chain (c : Command) : c.chain.IsChain fun d n => d.run? = some n := by
  induction c with
  | execute line raw args run ih =>
      refine List.isChain_cons.mpr ⟨?_, ih⟩
      intro n hn
      rw [head?_chain] at hn
      exact hn
  | _ => exact List.isChain_singleton _

/-- The last command of a chain nests none. -/
theorem run?_getLast?_chain (c : Command) : ∀ d ∈ c.chain.getLast?, d.run? = none := by
  induction c with
  | execute line raw args run ih =>
      intro d hd
      rw [chain, List.getLast?_cons_of_ne_nil (chain_ne_nil run)] at hd
      exact ih d hd
  | _ =>
      intro d hd
      obtain rfl := Option.some.inj hd
      rfl

/-- All commands of a chain but the last nest another. -/
theorem exists_run?_of_mem_dropLast_chain {c d : Command} (h : d ∈ c.chain.dropLast) :
    ∃ n, d.run? = some n := by
  induction c with
  | execute line raw args run ih =>
      rw [chain, List.dropLast_cons_of_ne_nil (chain_ne_nil run)] at h
      rcases List.mem_cons.mp h with rfl | h
      · exact ⟨run, rfl⟩
      · exact ih h
  | _ => exact nomatch h

/-- The chain is closed under nesting. -/
theorem mem_chain_of_run? {c d n : Command} (hd : d ∈ c.chain) (h : d.run? = some n) :
    n ∈ c.chain := by
  induction c with
  | execute line raw args run ih =>
      rcases List.mem_cons.mp hd with rfl | hd
      · obtain rfl : run = n := Option.some.inj h
        exact List.mem_cons_of_mem _ (mem_chain_self run)
      · exact List.mem_cons_of_mem _ (ih hd)
  | _ =>
      rw [List.mem_singleton.mp hd] at h
      exact nomatch h

/-! ## One step inwards -/

/-- How a command and the one nested in it divide a text. -/
structure Nests (c n : Command) : Prop where
  line_eq : n.line = c.line
  kind_ne_blank : n.kind ≠ .blank
  raw_ne_empty : n.raw ≠ ""
  raw_suffix : n.raw.toList <:+ c.raw.toList
  raw_shorter : n.raw.length < c.raw.length
  /-- The text of the command is at least as long as that of the nested one also in bytes. -/
  bytes_le : n.raw.utf8ByteSize ≤ c.raw.utf8ByteSize
  /-- Where the text of the nested command begins, no character is cut. -/
  cut_valid : String.Pos.Raw.IsValid c.raw ⟨c.raw.utf8ByteSize - n.raw.utf8ByteSize⟩
  /-- Between the own text of the command and the nested one there are only blanks. -/
  raw_eq : ∃ gap : String, gap ≠ "" ∧ AllBlank gap.toList ∧ c.raw = c.ownText ++ gap ++ n.raw
  /-- The last token of the own text is `run`, and the own text ends with it. -/
  ownText_ends : ∃ front place, Token.ofText c.ownText = front ++ [⟨place, "run"⟩]
    ∧ place + "run".utf8ByteSize = c.ownText.utf8ByteSize
  /-- The arguments of the command end with `run` and the tokens of the nested one. -/
  args_eq : n.kind = .command →
    ∃ front key, n.key? = some key ∧ c.args = front ++ "run" :: key :: n.args

/-- A text that ends with `run` ends solid. -/
theorem endsSolid_run (a : List Char) : EndsSolid (a ++ "run".toList) := by
  rw [endsSolid_append (by decide)]
  intro c hc
  obtain rfl : 'n' = c := Option.some.inj hc
  rfl

/-- The own text of a command is what stands before the blanks in front of the nested one. -/
theorem ownText_eq {c n : Command} {own gap : List Char} (hrun : c.run? = some n)
    (hraw : c.raw.toList = own ++ (gap ++ n.raw.toList)) (hgap : AllBlank gap)
    (hown : EndsSolid own) : c.ownText = String.ofList own := by
  have hlen : c.raw.length - n.raw.length = (own ++ gap).length := by
    rw [← String.length_toList, hraw, ← List.append_assoc, List.length_append,
      String.length_toList, Nat.add_sub_cancel]
  rw [ownText, hrun]
  show String.ofList (trimRight (c.raw.toList.take (c.raw.length - n.raw.length))) = _
  rw [hlen, hraw, ← List.append_assoc, List.take_left, trimRight_append hgap,
    trimRight_of_endsSolid hown]

/-- Where a command that is read nests another: the texts and the tokens on both sides. -/
theorem exists_append_of_run?_ofChars {line : Nat} {cs : List Char} {n : Command}
    (h : (ofChars line cs).run? = some n) :
    ∃ a g b, trim cs = a ++ "run".toList ++ (g ++ b) ∧ g ≠ [] ∧ AllBlank g
      ∧ b ≠ [] ∧ trim b = b ∧ n = ofChars line b
      ∧ (∃ front, Token.ofChars 0 (a ++ "run".toList) = front ++ [⟨Token.byteLength a, "run"⟩])
      ∧ ∃ front offset, (ofChars line cs).args
        = front ++ "run" :: (Token.ofChars offset b).map Token.text := by
  generalize hc : ofChars line cs = c at h ⊢
  cases hc ▸ reads_ofChars line cs with
  | blank hnil => exact nomatch h
  | comment hhead => exact nomatch h
  | plain htokens hhead hnested => exact nomatch h
  | @execute key start args htokens hhead hnested =>
      obtain ⟨a, g, b, front, back, hcs, hg, hgb, hb, hbs, htext, rfl, -, hown, hback⟩ :=
        exists_append_of_nestedToken? htokens hnested
      -- the nested text is a solid end of a trimmed one, so it is trimmed itself
      have hbe : EndsSolid b := by
        have he : EndsSolid (trim cs) := endsSolid_trim
        rwa [hcs, ← List.append_assoc, endsSolid_append hb] at he
      refine ⟨a, g, b, hcs, hg, hgb, hb, trim_of_solid hbs hbe, ?_, ⟨_, hown⟩,
        front.map Token.text, start.offset, ?_⟩
      · rw [← htext]
        exact (Option.some.inj h).symm
      · rw [hback, args, List.map_append]
        rfl

/-- Every command that is read, and nests another, divides its text with it. -/
theorem nests_ofChars {line : Nat} {cs : List Char} {n : Command}
    (h : (ofChars line cs).run? = some n) : Nests (ofChars line cs) n := by
  obtain ⟨a, g, b, hcs, hg, hgb, hb, htrim, rfl, ⟨front, hown⟩, front', offset, hargs⟩ :=
    exists_append_of_run?_ofChars h
  obtain ⟨gap, rfl⟩ : ∃ gap : String, gap.toList = g :=
    ⟨String.ofList g, String.toList_ofList⟩
  have hnraw : (ofChars line b).raw.toList = b := by rw [toList_raw_ofChars, htrim]
  have hownText : (ofChars line cs).ownText = String.ofList (a ++ "run".toList) := by
    refine ownText_eq h ?_ hgb (endsSolid_run a)
    rw [hnraw, toList_raw_ofChars, hcs]
  have hownChars : (ofChars line cs).ownText.toList = a ++ "run".toList := by
    rw [hownText, String.toList_ofList]
  have hraw : (ofChars line cs).raw = (ofChars line cs).ownText ++ gap ++ (ofChars line b).raw := by
    apply String.toList_injective
    rw [String.toList_append, String.toList_append, hownChars, hnraw, toList_raw_ofChars, hcs,
      List.append_assoc _ gap.toList]
  -- the bytes of the three parts add up, so the subtraction takes nothing from zero
  have hbytes := congrArg String.utf8ByteSize hraw
  rw [String.utf8ByteSize_append] at hbytes
  refine
    { line_eq := by rw [line_ofChars, line_ofChars]
      kind_ne_blank := kind_ofChars_ne_blank (by rwa [htrim])
      raw_ne_empty := ?_
      raw_suffix := ?_
      raw_shorter := ?_
      bytes_le := by omega
      cut_valid := ?_
      raw_eq := ⟨gap, ?_, hgb, hraw⟩
      ownText_ends := ⟨front, Token.byteLength a, ?_, ?_⟩
      args_eq := ?_ }
  · rw [Ne, ← String.toList_inj, hnraw]
    exact hb
  · rw [hraw, String.toList_append]
    exact List.suffix_append _ _
  · have hlength := congrArg List.length hcs
    have hpos := List.length_pos_of_ne_nil hg
    rw [List.length_append, List.length_append, List.length_append] at hlength
    rw [← String.length_toList, ← String.length_toList, hnraw, toList_raw_ofChars]
    omega
  · refine String.Pos.Raw.isValid_iff_exists_append.mpr ⟨_, _, hraw, ?_⟩
    apply String.Pos.Raw.ext
    rw [String.byteIdx_rawEndPos]
    show (ofChars line cs).raw.utf8ByteSize - (ofChars line b).raw.utf8ByteSize = _
    omega
  · rw [Ne, ← String.toList_inj]
    exact hg
  · rw [Token.ofText, hownChars, hown]
  · rw [hownText, String.ofList_append, String.utf8ByteSize_append,
      Token.byteLength_eq_utf8ByteSize]
    rfl
  · intro hkind
    obtain ⟨key, args, htokens, hkey, hnargs⟩ := exists_key_of_kind_ofChars hkind
    refine ⟨front', key.text, hkey, ?_⟩
    rw [hargs, hnargs, Token.map_text_ofChars, ← htrim, htokens]
    rfl

/-! ## The chain of a line -/

/-- Every command of the chain of a line is read from a text. -/
theorem exists_ofChars_of_mem_chain {line : Nat} {cs : List Char} {c : Command}
    (h : c ∈ (ofChars line cs).chain) : ∃ ds, c = ofChars line ds := by
  refine forall_mem_chain (P := fun c => ∃ ds, c = ofChars line ds) ?_ ⟨cs, rfl⟩ c h
  rintro _ n ⟨ds, rfl⟩ hrun
  obtain ⟨a, g, b, -, -, -, -, -, hn, -⟩ := exists_append_of_run?_ofChars hrun
  exact ⟨b, hn⟩

/-- A chain has at most one command more than its text has characters. -/
theorem length_chain_le {c : Command}
    (h : ∀ d ∈ c.chain, ∀ n, d.run? = some n → n.raw.length < d.raw.length) :
    c.chain.length ≤ c.raw.length + 1 := by
  induction c with
  | execute line raw args run ih =>
      have hrun : run.raw.length < raw.length :=
        h (execute line raw args run) (mem_chain_self _) run rfl
      have hle := ih fun d hd => h d (List.mem_cons_of_mem _ hd)
      show run.chain.length + 1 ≤ raw.length + 1
      omega
  | _ => exact Nat.succ_le_succ (Nat.zero_le _)

/-- **The chain of a line.**  It is finite and begins with the command on the line, whose
    text is the line without the blanks around it.  Each command of it but the last is an
    `execute`, and the next one is nested in it and divides its text with it; the last nests
    none.  Each is read again from its own text. -/
theorem chain_ofText (line : Nat) (text : String) :
    (ofText line text).chain.head? = some (ofText line text)
      ∧ (ofText line text).raw.toList = trim text.toList
      ∧ (ofText line text).chain.length ≤ (ofText line text).raw.length + 1
      ∧ (ofText line text).chain.IsChain (fun c n => c.run? = some n)
      ∧ (∀ c ∈ (ofText line text).chain, ∀ n, c.run? = some n →
          n ∈ (ofText line text).chain ∧ Nests c n)
      ∧ (∀ c ∈ (ofText line text).chain.dropLast,
          c.kind = .command ∧ c.key? = some "execute")
      ∧ (∀ c ∈ (ofText line text).chain.getLast?, c.run? = none)
      ∧ ∀ c ∈ (ofText line text).chain, ofText line c.raw = c := by
  -- every command of the chain was read from some text, so each step is one of reading
  have hnests : ∀ c ∈ (ofText line text).chain, ∀ n, c.run? = some n → Nests c n := by
    intro c hc n hn
    obtain ⟨ds, rfl⟩ := exists_ofChars_of_mem_chain hc
    exact nests_ofChars hn
  refine ⟨head?_chain _, toList_raw_ofChars, length_chain_le ?_, isChain_chain _, ?_, ?_,
    run?_getLast?_chain _, ?_⟩
  · intro c hc n hn
    exact (hnests c hc n hn).raw_shorter
  · intro c hc n hn
    exact ⟨mem_chain_of_run? hc hn, hnests c hc n hn⟩
  · intro c hc
    obtain ⟨n, hn⟩ := exists_run?_of_mem_dropLast_chain hc
    exact kind_and_key?_of_run?_eq_some hn
  · intro c hc
    obtain ⟨ds, rfl⟩ := exists_ofChars_of_mem_chain hc
    exact ofChars_raw

/-- An `execute` nests another one, and the arguments of the inner command end those of the
    outer one. -/
theorem nests_execute_in_execute :
    (ofText 4 "  execute as @a run execute at @s run say hi").run?
        = some (ofText 4 "execute at @s run say hi")
      ∧ Nests (ofText 4 "  execute as @a run execute at @s run say hi")
        (ofText 4 "execute at @s run say hi")
      ∧ ∃ front key, (ofText 4 "execute at @s run say hi").key? = some key
        ∧ (ofText 4 "  execute as @a run execute at @s run say hi").args
          = front ++ "run" :: key :: (ofText 4 "execute at @s run say hi").args := by
  have hrun : (ofText 4 "  execute as @a run execute at @s run say hi").run?
      = some (ofText 4 "execute at @s run say hi") := by
    decide +kernel
  have hkind : (ofText 4 "execute at @s run say hi").kind = .command := by
    decide +kernel
  have hchain := chain_ofText 4 "  execute as @a run execute at @s run say hi"
  have hnests := (hchain.2.2.2.2.1 _ (mem_chain_self _) _ hrun).2
  exact ⟨hrun, hnests, hnests.args_eq hkind⟩

end PackLint.Command
