import PackLint.Proofs.Upgrade.Function

/-! # Unfolding an `execute`

    An `execute` with complete subcommands and then `run` runs the command behind
    `run`, whatever the arguments are called and however the words are spaced.  What
    is found in the line is what is found in that command, behind the ids that stand
    in the text up to `run`. -/

namespace PackLint

open Text

/-- A text of blanks that keeps two words apart. -/
def IsGap (g : String) : Prop :=
  g ≠ "" ∧ AllBlank g.toList

instance (g : String) : Decidable (IsGap g) :=
  inferInstanceAs (Decidable (g ≠ "" ∧ AllBlank g.toList))

/-- The text consists of these words, each of them a closed token with a gap in front. -/
inductive Spaced : List String → String → Prop
  | nil : Spaced [] ""
  | cons {g w : String} {ws : List String} {text : String} (hg : IsGap g)
      (hw : Token.IsClosed w) (htext : Spaced ws text) : Spaced (w :: ws) (g ++ w ++ text)

/-- A gap has at least one blank. -/
theorem IsGap.toList_ne_nil {g : String} (hg : IsGap g) : g.toList ≠ [] := by
  intro h
  exact hg.1 (String.toList_injective h)

/-! ## Tokens -/

/-- A text of spaced words is empty or begins with a blank. -/
theorem Spaced.stops {ws : List String} {text : String} (h : Spaced ws text) {rest : List Char}
    (hrest : Token.Stops .none rest) : Token.Stops .none (text.toList ++ rest) := by
  cases h with
  | nil => exact hrest
  | cons hg hw htext =>
      rw [String.toList_append, String.toList_append, List.append_assoc, List.append_assoc]
      exact Token.stops_none hg.2 hg.toList_ne_nil

/-- Spaced words are the tokens of their text. -/
theorem Spaced.exists_tokens {ws : List String} {text : String} (h : Spaced ws text)
    {rest : List Char} (hrest : Token.Stops .none rest) (offset : Nat) :
    ∃ ts, ts.map Token.text = ws ∧ Token.ofChars offset (text.toList ++ rest)
      = ts ++ Token.ofChars (offset + Token.byteLength text.toList) rest := by
  induction h generalizing offset with
  | nil => exact ⟨[], rfl, rfl⟩
  | @cons g w ws text hg hw htext ih =>
      obtain ⟨ts, rfl, hts⟩ := ih (offset + Token.byteLength g.toList + Token.byteLength w.toList)
      refine ⟨⟨offset + Token.byteLength g.toList, w⟩ :: ts, rfl, ?_⟩
      rw [String.toList_append, String.toList_append, List.append_assoc, List.append_assoc,
        Token.ofChars_append_of_allBlank hg.2,
        Token.ofChars_append_of_nesting? hw (htext.stops hrest), hts, String.ofList_toList,
        Token.byteLength_append, Token.byteLength_append, List.cons_append]
      simp only [Nat.add_assoc]

/-- The word `execute` leaves no nesting. -/
theorem isClosed_execute : Token.IsClosed "execute" := by
  decide

/-- The word `run` leaves no nesting. -/
theorem isClosed_run : Token.IsClosed "run" := by
  decide

/-- A text that does not begin with a blank has its first token at its beginning. -/
theorem Token.exists_ofChars_eq_cons {cs : List Char} (hs : StartsSolid cs) (hne : cs ≠ [])
    (offset : Nat) : ∃ start back, Token.ofChars offset cs = start :: back
      ∧ start.offset = offset := by
  cases cs with
  | nil => exact absurd rfl hne
  | cons c cs =>
      rw [Token.ofChars, if_neg (Bool.eq_false_iff.mp (startsSolid_cons.mp hs))]
      exact ⟨_, _, rfl, rfl⟩

/-! ## The nested command -/

namespace Command

/-- Behind complete subcommands and `run` the nested command begins. -/
theorem nestedToken?_of_complete {S : List (List String)} (hS : ∀ ws ∈ S, Execute.Complete ws)
    {key start : Token} {ts back : List Token} (hkey : key.text = "execute")
    (hts : ts.map Token.text = S.flatten) (place : Nat) :
    nestedToken? key (ts ++ ⟨place, "run"⟩ :: start :: back) = some start := by
  have hlen : ts.length = S.flatten.length := by rw [← hts, List.length_map]
  rw [nestedToken?, if_pos hkey, List.map_append, hts, List.map_cons,
    Execute.runIndex?_flatten_append hS, ← hlen]
  show (ts ++ ⟨place, "run"⟩ :: start :: back)[ts.length + 1]? = some start
  rw [List.getElem?_append_right (Nat.le_add_right ..), Nat.add_sub_cancel_left]
  rfl

/-- The text of an `execute` up to and with its `run`. -/
def runText (args gap : String) : String :=
  "execute" ++ args ++ gap ++ "run"

/-- The text up to `run` ends with no blank. -/
theorem endsSolid_runText (args gap : String) : EndsSolid (runText args gap).toList := by
  rw [runText, String.toList_append]
  exact endsSolid_run _

/-- The text up to `run` begins with no blank. -/
theorem startsSolid_runText (args gap : String) (cs : List Char) :
    StartsSolid ((runText args gap).toList ++ cs) := by
  rw [runText, String.toList_append, String.toList_append, String.toList_append,
    List.append_assoc, List.append_assoc, List.append_assoc]
  exact startsSolid_cons.mpr rfl

/-- The tokens of an `execute` with complete subcommands, a `run` and a solid text behind. -/
theorem exists_tokens_runText {ws : List String} {args gap : String} (hargs : Spaced ws args)
    (hgap : IsGap gap) {g b : List Char} (hg : AllBlank g) (hne : g ≠ []) :
    ∃ key ts place, key.text = "execute" ∧ ts.map Token.text = ws
      ∧ Token.ofChars 0 ((runText args gap).toList ++ (g ++ b))
        = key :: (ts ++ ⟨place, "run"⟩
          :: Token.ofChars (Token.byteLength ((runText args gap).toList ++ g)) b) := by
  have hrest : Token.Stops .none (gap.toList ++ ("run".toList ++ (g ++ b))) :=
    Token.stops_none hgap.2 hgap.toList_ne_nil
  obtain ⟨ts, hts, htokens⟩ :=
    hargs.exists_tokens hrest (0 + Token.byteLength "execute".toList)
  refine ⟨⟨0, "execute"⟩, ts, 0 + Token.byteLength "execute".toList
    + Token.byteLength args.toList + Token.byteLength gap.toList, rfl, hts, ?_⟩
  have hlist : (runText args gap).toList ++ (g ++ b)
      = "execute".toList ++ (args.toList ++ (gap.toList ++ ("run".toList ++ (g ++ b)))) := by
    simp only [runText, String.toList_append, List.append_assoc]
  rw [hlist, Token.ofChars_append_of_nesting? isClosed_execute (hargs.stops hrest), htokens,
    Token.ofChars_append_of_allBlank hgap.2,
    Token.ofChars_append_of_nesting? isClosed_run (Token.stops_none hg hne),
    Token.ofChars_append_of_allBlank hg]
  simp only [runText, String.toList_append, Token.byteLength_append, Nat.add_assoc,
    Nat.zero_add, String.ofList_toList]

/-- Trimmed, the line is its own text, blanks, and the trimmed text of the nested command. -/
theorem exists_trim_runText_append (args gap₁ : String) {gap₂ text : String}
    (hgap₂ : IsGap gap₂) (htext : ¬AllBlank text.toList) :
    ∃ g, AllBlank g ∧ g ≠ [] ∧ trim text.toList ≠ []
      ∧ trim (runText args gap₁ ++ gap₂ ++ text).toList
        = (runText args gap₁).toList ++ (g ++ trim text.toList) := by
  obtain ⟨p, q, hp, hq, hpq⟩ := exists_blank_append_trim_append_blank text.toList
  have hne : trim text.toList ≠ [] := by
    intro hnil
    rw [hnil, List.append_nil] at hpq
    exact htext (hpq ▸ hp.append hq)
  -- the blanks in front of the nested text join the gap, those behind it are trimmed
  refine ⟨gap₂.toList ++ p, hgap₂.2.append hp, ?_, hne, ?_⟩
  · intro hnil
    exact hgap₂.toList_ne_nil (List.append_eq_nil_iff.mp hnil).1
  · have hwhole : (runText args gap₁ ++ gap₂ ++ text).toList
        = [] ++ ((runText args gap₁).toList ++ (gap₂.toList ++ p ++ trim text.toList)) ++ q := by
      rw [String.toList_append, String.toList_append, List.nil_append]
      nth_rewrite 1 [hpq]
      simp only [List.append_assoc]
    rw [hwhole, trim_append_append AllBlank.nil hq]
    refine trim_of_solid (startsSolid_runText _ _ _) ?_
    rw [← List.append_assoc, endsSolid_append hne]
    exact endsSolid_trim

/-- The line nests the command that the text behind `run` is by itself. -/
theorem run?_ofText_runText {S : List (List String)} (hS : ∀ ws ∈ S, Execute.Complete ws)
    {args gap₁ gap₂ text : String} (hargs : Spaced S.flatten args) (hgap₁ : IsGap gap₁)
    (hgap₂ : IsGap gap₂) (htext : ¬AllBlank text.toList) (line : Nat) :
    (ofText line (runText args gap₁ ++ gap₂ ++ text)).run? = some (ofText line text) := by
  obtain ⟨g, hg, hgne, hne, htrim⟩ := exists_trim_runText_append args gap₁ hgap₂ htext
  obtain ⟨key, ts, place, hkey, hts, htokens⟩ :=
    exists_tokens_runText (b := trim text.toList) hargs hgap₁ hg hgne
  obtain ⟨start, back, hb, hstart⟩ := Token.exists_ofChars_eq_cons startsSolid_trim hne
    (Token.byteLength ((runText args gap₁).toList ++ g))
  rw [hb, ← htrim] at htokens
  have hhead : (trim (runText args gap₁ ++ gap₂ ++ text).toList).head? ≠ some '#' := by
    rw [htrim]
    simp [runText]
  have hrun : (ofText line (runText args gap₁ ++ gap₂ ++ text)).run? = _ :=
    run?_ofChars htokens hhead (nestedToken?_of_complete hS hkey hts place)
  rw [hstart, htrim, ← List.append_assoc _ g, textFrom_append, ofChars_trim] at hrun
  exact hrun

/-- **Unfolding.**  A line with `execute`, complete subcommands, `run` and a text that is not
    blank nests the command that the text is by itself, and its own text ends with `run`.
    The findings in the line are those about ids in its own text, and then those in that
    command as if it were the line. -/
theorem execute_unfolds {S : List (List String)} (hS : ∀ ws ∈ S, Execute.Complete ws)
    {args gap₁ gap₂ text : String} (hargs : Spaced S.flatten args) (hgap₁ : IsGap gap₁)
    (hgap₂ : IsGap gap₂) (htext : ¬AllBlank text.toList) (line : Nat) :
    let c := ofText line (runText args gap₁ ++ gap₂ ++ text)
    c.run? = some (ofText line text) ∧ c.ownText = runText args gap₁
      ∧ ∀ (id : String) (before after : List Command),
        Upgrade.functionFindings Upgrade.commandChecks Upgrade.idChecks
            ⟨id, before ++ c :: after⟩
          = Upgrade.functionFindings Upgrade.commandChecks Upgrade.idChecks ⟨id, before⟩
            ++ ((Upgrade.idIssues (runText args gap₁)).map fun issue =>
              .error (.command ⟨.function, id⟩ line c.raw) issue.message)
            ++ Upgrade.functionFindings Upgrade.commandChecks Upgrade.idChecks
              ⟨id, ofText line text :: after⟩ := by
  intro c
  have hrun : c.run? = some (ofText line text) :=
    run?_ofText_runText hS hargs hgap₁ hgap₂ htext line
  obtain ⟨g, hg, -, -, htrim⟩ := exists_trim_runText_append args gap₁ hgap₂ htext
  have hraw : c.raw.toList
      = (runText args gap₁).toList ++ (g ++ (ofText line text).raw.toList) := by
    rw [show c = ofChars line (runText args gap₁ ++ gap₂ ++ text).toList from rfl,
      toList_raw_ofChars, htrim, ofText, toList_raw_ofChars]
  have hown : c.ownText = runText args gap₁ := by
    rw [ownText_eq hrun hraw hg (endsSolid_runText _ _), String.ofList_toList]
  refine ⟨hrun, hown, ?_⟩
  intro id before after
  have hexecute : "execute".toList <+: c.raw.toList := by
    rw [hraw, runText, String.toList_append, String.toList_append, String.toList_append,
      List.append_assoc, List.append_assoc, List.append_assoc]
    exact List.prefix_append _ _
  rw [Upgrade.functionFindings_append, Upgrade.functionFindings_cons_of_run? hrun,
    Upgrade.commandFindings_of_key?_eq_execute (kind_and_key?_of_run?_eq_some hrun).2 hexecute,
    hown, show c.line = line from line_ofChars, List.append_assoc]

/-- The target of `positioned as` may be called `run`, and a blank in a selector parts no
    words.  The id in the selector is found in the line, and the one behind `run` in the command
    that is nested. -/
theorem execute_unfolds_target_named_run :
    let c := ofText 3 "execute positioned as run\tat @s[name='grass_path b']  run  say grass_path "
    let renamed := "The id grass_path has been renamed to dirt_path."
    c.run? = some (ofText 3 "say grass_path ")
      ∧ c.ownText = "execute positioned as run\tat @s[name='grass_path b']  run"
      ∧ Upgrade.functionFindings Upgrade.commandChecks Upgrade.idChecks ⟨"m:f", [c]⟩
        = [.error (.command ⟨.function, "m:f"⟩ 3 c.raw) renamed,
          .error (.command ⟨.function, "m:f"⟩ 3 "say grass_path") renamed] := by
  intro c renamed
  have hS : ∀ ws ∈ [["positioned", "as", "run"], ["at", "@s[name='grass_path b']"]],
      Execute.Complete ws := by
    intro ws hws
    fin_cases hws
    · exact .positionedAs _
    · exact .single (by decide)
  have hargs : Spaced [["positioned", "as", "run"], ["at", "@s[name='grass_path b']"]].flatten
      (" " ++ "positioned" ++ (" " ++ "as" ++ (" " ++ "run" ++ ("\t" ++ "at"
        ++ (" " ++ "@s[name='grass_path b']" ++ ""))))) :=
    .cons (by decide) (by decide) (.cons (by decide) (by decide) (.cons (by decide) (by decide)
      (.cons (by decide) (by decide) (.cons (by decide) (by decide) .nil))))
  have htext : ¬AllBlank "say grass_path ".toList := by
    decide
  obtain ⟨hrun, hown, hfindings⟩ := execute_unfolds hS hargs (show IsGap "  " by decide)
    (show IsGap "  " by decide) htext 3
  refine ⟨hrun, hown, (hfindings "m:f" [] []).trans ?_⟩
  have hnested : Upgrade.functionFindings Upgrade.commandChecks Upgrade.idChecks
      ⟨"m:f", [ofText 3 "say grass_path "]⟩
        = [.error (.command ⟨.function, "m:f"⟩ 3 "say grass_path") renamed] := by
    decide +kernel
  rw [hnested]
  decide +kernel

end Command

end PackLint
