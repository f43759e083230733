import PackLint.Proofs.Json.Layout
import PackLint.Proofs.Upgrade.Pattern

/-! # Members of predicates

    The check of predicates looks for a key in quotes, a colon and a quote in a text.  In
    the text of a value that is what a member with a string looks like, however the value is
    laid out.  Only a name that ends with a quote and the key is taken for the key, too. -/

namespace PackLint.Upgrade

open Json Text

variable {key : String} {cs rest : List Char}

/-! ## The pattern -/

/-- A colon comes next, and behind it a string begins. -/
def stringFollows (cs : List Char) : Bool :=
  behind ':' (fun cs => (skipBlanks cs).head? == some '"') (skipBlanks cs)

/-- The pattern is a key in quotes and then what makes it a member with a string. -/
theorem stringMemberHere_eq (key : String) (before : Option Char) (cs : List Char) :
    stringMemberHere key before cs
      = (afterPhrase ('"' :: key.toList ++ ['"']) cs).any stringFollows := by
  rw [stringMemberHere]
  cases afterPhrase ('"' :: key.toList ++ ['"']) cs with
  | none => rfl
  | some cs => exact match_colon_eq_behind _ _

/-- At its beginning the text has this key in quotes, and a string follows. -/
def MemberHere (key : String) (cs : List Char) : Prop :=
  ∃ rest, cs = '"' :: (key.toList ++ '"' :: rest) ∧ stringFollows rest = true

/-- The pattern tests whether there is a member here. -/
theorem stringMemberHere_eq_true_iff {before : Option Char} :
    stringMemberHere key before cs = true ↔ MemberHere key cs := by
  rw [stringMemberHere_eq, Option.any_eq_true, MemberHere]
  simp only [afterPhrase_eq_some_iff, List.cons_append, List.append_assoc, List.nil_append]

/-- The search finds a member wherever there is one. -/
theorem hasStringMember_eq_true_iff :
    hasStringMember key cs = true ↔ ∃ front back, cs = front ++ back ∧ MemberHere key back := by
  simp only [hasStringMember, occurs, search_eq_true_iff, stringMemberHere_eq_true_iff]

theorem hasStringMember_nil : hasStringMember key [] = false := rfl

/-- A member is here or further on. -/
theorem hasStringMember_cons_iff {c : Char} :
    hasStringMember key (c :: cs) = true
      ↔ MemberHere key (c :: cs) ∨ hasStringMember key cs = true := by
  rw [hasStringMember_eq_true_iff, hasStringMember_eq_true_iff]
  constructor
  · rintro ⟨front, back, hcs, hback⟩
    cases front with
    | nil => exact .inl (hcs ▸ hback)
    | cons d front =>
        obtain ⟨rfl, rfl⟩ := List.cons.inj hcs
        exact .inr ⟨front, back, rfl, hback⟩
  · rintro (h | ⟨front, back, rfl, hback⟩)
    · exact ⟨[], c :: cs, rfl, h⟩
    · exact ⟨c :: front, back, rfl, hback⟩

/-- The pattern begins at a quote. -/
theorem hasStringMember_append_iff {w : List Char} (hw : '"' ∉ w) :
    hasStringMember key (w ++ cs) = true ↔ hasStringMember key cs = true := by
  induction w with
  | nil => rfl
  | cons c w ih =>
      have hc : '"' ≠ c := List.ne_of_not_mem_cons hw
      have hw : '"' ∉ w := List.not_mem_of_not_mem_cons hw
      have hhere : ¬MemberHere key (c :: (w ++ cs)) := by
        rintro ⟨rest, hcs, -⟩
        exact hc (List.cons.inj hcs).1.symm
      rw [List.cons_append, hasStringMember_cons_iff, ih hw]
      exact or_iff_right hhere

/-! ## Strings -/

/-- A name passes for this key if it is the key, or if it ends with a quote and the key. -/
def PassesFor (key name : String) : Prop :=
  name = key ∨ '"' :: key.toList <:+ name.toList

/-- What is written like these characters, up to the closing quote, is these characters. -/
theorem escape_append_eq_iff {key name : List Char} (hkey : ∀ c ∈ key, escapeChar c = [c]) :
    name.flatMap escapeChar ++ '"' :: cs = key ++ '"' :: rest ↔ name = key ∧ cs = rest := by
  induction key generalizing name with
  | nil =>
      cases name with
      | nil => simp
      | cons c name =>
          obtain ⟨d, ds, hd⟩ := exists_escapeChar_eq_cons c
          rw [List.flatMap_cons, hd, List.append_assoc]
          refine iff_of_false ?_ fun h => List.cons_ne_nil _ _ h.1
          intro h
          exact escapeChar_ne_quote_cons ((List.cons.inj h).1 ▸ hd)
  | cons k key ih =>
      obtain ⟨hk, htail⟩ := List.forall_mem_cons.mp hkey
      cases name with
      | nil =>
          refine iff_of_false ?_ fun h => List.cons_ne_nil _ _ h.1.symm
          intro h
          obtain ⟨rfl, -⟩ := List.cons.inj h
          exact escapeChar_ne_quote_cons hk
      | cons c name =>
          obtain ⟨d, ds, hd⟩ := exists_escapeChar_eq_cons c
          rw [List.flatMap_cons, hd, List.append_assoc, List.cons_append, List.cons_append,
            List.cons.injEq, List.cons.injEq]
          constructor
          · rintro ⟨rfl, h⟩
            obtain ⟨rfl, rfl⟩ := eq_of_escapeChar_eq_cons hk hd
            obtain ⟨rfl, rfl⟩ := (ih htail).mp h
            exact ⟨⟨rfl, rfl⟩, rfl⟩
          · rintro ⟨⟨rfl, rfl⟩, rfl⟩
            obtain ⟨rfl, rfl⟩ := List.cons.inj (hd.symm.trans hk)
            exact ⟨rfl, (ih htail).mpr ⟨rfl, rfl⟩⟩

section Key

variable {name : List Char} (hkey : ∀ c ∈ key.toList, escapeChar c = [c])
include hkey

/-- A quoted name is the key of a member exactly if it is this key and a string follows. -/
theorem memberHere_escape_iff :
    MemberHere key ('"' :: (name.flatMap escapeChar ++ '"' :: cs))
      ↔ name = key.toList ∧ stringFollows cs = true := by
  simp only [MemberHere, List.cons.injEq, true_and, escape_append_eq_iff hkey]
  constructor
  · rintro ⟨rest, ⟨hname, rfl⟩, hfollows⟩
    exact ⟨hname, hfollows⟩
  · rintro ⟨hname, hfollows⟩
    exact ⟨cs, ⟨hname, rfl⟩, hfollows⟩

/-- Inside of a string the pattern begins at quotes with a backslash in front. -/
theorem hasStringMember_escape_iff (hcs : ¬key.toList <+: cs) :
    hasStringMember key (name.flatMap escapeChar ++ '"' :: cs) = true
      ↔ '"' :: key.toList <:+ name ∧ stringFollows cs = true ∨ hasStringMember key cs = true := by
  induction name with
  | nil =>
      have hhere : ¬MemberHere key ('"' :: cs) := by
        rintro ⟨rest, heq, -⟩
        exact hcs ⟨_, (List.cons.inj heq).2.symm⟩
      have hsuffix : ¬('"' :: key.toList <:+ []) := fun h =>
        List.cons_ne_nil _ _ (List.suffix_nil.mp h)
      rw [List.flatMap_nil, List.nil_append, hasStringMember_cons_iff]
      simp only [hhere, hsuffix, false_and, false_or]
  | cons c name ih =>
      rw [List.flatMap_cons, List.append_assoc, List.suffix_cons_iff]
      by_cases hc : c = '"'
      · subst hc
        have hhere : ∀ cs, ¬MemberHere key ('\\' :: cs) := by
          rintro cs ⟨rest, heq, -⟩
          exact absurd (List.cons.inj heq).1 (by decide)
        show hasStringMember key ('\\' :: '"' :: (name.flatMap escapeChar ++ '"' :: cs)) = true ↔ _
        rw [hasStringMember_cons_iff, hasStringMember_cons_iff, memberHere_escape_iff hkey, ih]
        simp only [hhere, false_or, List.cons.injEq, true_and, or_and_right, or_assoc,
          eq_comm (a := key.toList)]
      · have hne : '"' :: key.toList ≠ c :: name := fun h => hc (List.cons.inj h).1.symm
        rw [hasStringMember_append_iff (quote_notMem_escapeChar hc), ih]
        simp only [hne, false_or]

/-- In front of a text, a quoted name adds a member if it passes for the key and a string
    follows. -/
theorem hasStringMember_quote_iff {name : String} (hcs : ¬key.toList <+: cs) :
    hasStringMember key (quote name.toList ++ cs) = true
      ↔ PassesFor key name ∧ stringFollows cs = true ∨ hasStringMember key cs = true := by
  have hquote : quote name.toList ++ cs
      = '"' :: (name.toList.flatMap escapeChar ++ '"' :: cs) := by
    rw [quote, List.append_assoc]
    rfl
  rw [hquote, hasStringMember_cons_iff, memberHere_escape_iff hkey,
    hasStringMember_escape_iff hkey hcs, PassesFor, String.toList_inj, or_and_right, or_assoc]

end Key

/-! ## Laid out values -/

/-- In a layout a string follows exactly if the next tokens are a colon and a string. -/
theorem stringFollows_layOut_iff {gaps : Gaps} {ts : List Json.Token} :
    stringFollows (layOut gaps ts) = true ↔ ∃ s, [.colon, .str s] <+: ts := by
  cases ts with
  | nil =>
      rw [stringFollows, skipBlanks_layOut_nil]
      refine iff_of_false Bool.false_ne_true ?_
      rintro ⟨s, h⟩
      exact List.cons_ne_nil _ _ (List.prefix_nil.mp h)
  | cons t ts =>
      have hcolon := t.written_text.head?_eq_colon_iff (layOut gaps.tail ts)
      rw [stringFollows, skipBlanks_layOut_cons]
      by_cases ht : t = .colon
      · subst ht
        show ((skipBlanks (layOut gaps.tail ts)).head? == some '"') = true ↔ _
        simp only [beq_iff_eq, head?_skipBlanks_layOut_eq_quote_iff, List.cons_prefix_cons,
          true_and, List.singleton_prefix_iff_head?_eq_some]
      · refine iff_of_false ?_ ?_
        · intro h
          exact ht (hcolon.mp (head?_of_behind h))
        · rintro ⟨s, h⟩
          exact ht (List.cons_prefix_cons.mp h).1.symm

/-- A key that is written as it is, and that neither white space nor a token begins with. -/
structure IsFieldKey (key : String) : Prop where
  escapeChar_eq : ∀ c ∈ key.toList, escapeChar c = [c]
  exists_head : ∃ c cs, key.toList = c :: cs ∧ mayBegin c = false

/-- No layout begins with the key, so quotes that close a string open no key. -/
theorem IsFieldKey.not_prefix_layOut (h : IsFieldKey key) (gaps : Gaps) (ts : List Json.Token) :
    ¬key.toList <+: layOut gaps ts := by
  obtain ⟨c, cs, hkey, hc⟩ := h.exists_head
  rw [hkey]
  rintro ⟨rest, hrest⟩
  exact absurd (hc.symm.trans (mayBegin_of_layOut_eq_cons hrest.symm)) Bool.false_ne_true

/-- The pattern matches what the tokens of a member are laid out as, and nothing else. -/
theorem hasStringMember_layOut_iff (h : IsFieldKey key) {gaps : Gaps} {ts : List Json.Token} :
    hasStringMember key (layOut gaps ts) = true
      ↔ ∃ name s, PassesFor key name ∧ fieldTokens name s <:+: ts := by
  induction ts generalizing gaps with
  | nil =>
      have hgap : '"' ∉ gaps.chars 0 := gaps.quote_notMem 0
      rw [layOut, ← List.append_nil (gaps.chars 0), hasStringMember_append_iff hgap]
      refine iff_of_false (hasStringMember_nil ▸ Bool.false_ne_true) ?_
      rintro ⟨name, s, -, hfield⟩
      exact not_fieldTokens_infix_nil hfield
  | cons t ts ih =>
      rw [layOut, hasStringMember_append_iff (gaps.quote_notMem 0)]
      have hwritten := t.written_text
      generalize t.text = cs at hwritten ⊢
      cases hwritten with
      | str n =>
          rw [hasStringMember_quote_iff h.escapeChar_eq (h.not_prefix_layOut _ _), ih,
            stringFollows_layOut_iff]
          simp only [infix_str_cons_iff]
          constructor
          · rintro (⟨hpasses, s, hs⟩ | ⟨name, s, hpasses, hfield⟩)
            · exact ⟨n, s, hpasses, .inl ⟨rfl, hs⟩⟩
            · exact ⟨name, s, hpasses, .inr hfield⟩
          · rintro ⟨name, s, hpasses, ⟨rfl, hs⟩ | hfield⟩
            · exact .inl ⟨hpasses, s, hs⟩
            · exact .inr ⟨name, s, hpasses, hfield⟩
      | colon =>
          rw [hasStringMember_append_iff (by decide), ih]
          have hstr : ∀ s, Json.Token.colon ≠ .str s := fun _ => Json.Token.noConfusion
          simp only [infix_cons_iff_of_ne_str hstr]
      | plain hstr _ hplain =>
          rw [hasStringMember_append_iff hplain.quote_notMem, ih]
          simp only [infix_cons_iff_of_ne_str hstr]

/-! ## The check -/

/-- The keys that gave way to lists can be told from layout. -/
theorem isFieldKey_of_mem_listedMembers {m : String × String × String} (hm : m ∈ listedMembers) :
    IsFieldKey m.2.1 := by
  have hall : ∀ m ∈ listedMembers, (m.2.1.toList.all fun c => escapeChar c == [c]) = true
      ∧ (m.2.1.toList.head?.any fun c => !mayBegin c) = true := by
    decide
  obtain ⟨hescape, hhead⟩ := hall m hm
  obtain ⟨c, hc, hbegin⟩ := Option.any_eq_true _ _ |>.mp hhead
  obtain ⟨cs, hcs⟩ := List.head?_eq_some_iff.mp hc
  exact
    { escapeChar_eq := fun c hc => beq_iff_eq.mp (List.all_eq_true.mp hescape c hc)
      exists_head := ⟨c, cs, hcs, (Bool.not_eq_true' _).mp hbegin⟩ }

/-- A key is reported exactly if the text has it as a member with a string. -/
theorem mem_conditionIssues_iff {m : String × String × String} (hm : m ∈ listedMembers)
    {text : String} :
    .listedMember m.1 m.2.1 m.2.2 ∈ conditionIssues text
      ↔ hasStringMember m.2.1 text.toList = true := by
  rw [conditionIssues, List.mem_map]
  constructor
  · rintro ⟨m', hm', hissue⟩
    obtain ⟨h₁, h₂, h₃⟩ := Issue.listedMember.inj hissue
    obtain rfl : m' = m := Prod.ext h₁ (Prod.ext h₂ h₃)
    exact (List.mem_filter.mp hm').2
  · intro h
    exact ⟨m, List.mem_filter.mpr ⟨hm, h⟩, rfl⟩

/-- In a layout of a value a key is reported exactly if the value has a field that passes for
    it. -/
theorem mem_conditionIssues_layOut_iff {m : String × String × String} (hm : m ∈ listedMembers)
    (v : Json) (gaps : Gaps) :
    .listedMember m.1 m.2.1 m.2.2 ∈ conditionIssues (String.ofList (layOut gaps v.tokens))
      ↔ ∃ name s, v.HasField name s ∧ PassesFor m.2.1 name := by
  rw [mem_conditionIssues_iff hm, String.toList_ofList,
    hasStringMember_layOut_iff (isFieldKey_of_mem_listedMembers hm)]
  refine exists_congr fun name => exists_congr fun s => ?_
  rw [infix_tokens_iff, and_comm]

/-- Each key is reported at most once, and in the order of the table. -/
theorem conditionIssues_sublist (text : String) :
    (conditionIssues text).Sublist (listedMembers.map fun m => .listedMember m.1 m.2.1 m.2.2) :=
  List.filter_sublist.map _

/-- **The check of predicates agrees with the values, whatever the layout.**  A value may be
    written with any white space between its tokens; without any it is the text of the
    document with this content.  In each layout the check says that `block` gave way to a
    list exactly if some object at any depth has a string as a member with a name that
    passes for `block`, and the same of `item`.  It says either once at most, and that of
    `block` first. -/
theorem conditionIssues_layOut (v : Json) :
    (∀ id, String.ofList (layOut .none v.tokens) = (Document.ofContent id v).raw)
      ∧ ∀ gaps : Gaps,
        let issues := conditionIssues (String.ofList (layOut gaps v.tokens))
        (.listedMember "block" "block" "blocks" ∈ issues
            ↔ ∃ name s, v.HasField name s
              ∧ (name = "block" ∨ "\"block".toList <:+ name.toList))
          ∧ (.listedMember "item" "item" "items" ∈ issues
            ↔ ∃ name s, v.HasField name s
              ∧ (name = "item" ∨ "\"item".toList <:+ name.toList))
          ∧ issues.Sublist [.listedMember "block" "block" "blocks",
            .listedMember "item" "item" "items"] := by
  constructor
  · intro id
    rw [layOut_none_tokens id v, String.ofList_toList]
  · intro gaps issues
    have hblock := mem_conditionIssues_layOut_iff
      (show ("block", "block", "blocks") ∈ listedMembers from List.mem_cons_self) v gaps
    have hitem := mem_conditionIssues_layOut_iff
      (show ("item", "item", "items") ∈ listedMembers from List.mem_cons_of_mem _ List.mem_cons_self)
      v gaps
    exact ⟨hblock, hitem, conditionIssues_sublist _⟩

-- the quote in the name is written with a backslash, and the pattern begins at it
example :
    conditionIssues "\x7b\"x\\\"block\" :\n\"stone\", \"blocks\": \"item\"\x7d"
      = [.listedMember "block" "block" "blocks"] := by
  decide +kernel

end PackLint.Upgrade
