import PackLint.Proofs.Command.Respaced
import PackLint.Upgrade.Walker

/-! # Findings and gaps

    No pattern for a command looks at the blanks in a gap: what it finds in a line, it
    finds in the line with other gaps.  So the same is found in two lines with the same
    tokens, command by command. -/

namespace PackLint.Upgrade

open Text

variable {cs ds : List Char}

/-! ## Summoning -/

/-- The default namespace is dropped from both texts or from neither. -/
theorem respaced_dropDefaultNamespace (h : Respaced cs ds) :
    Respaced (dropDefaultNamespace cs) (dropDefaultNamespace ds) :=
  getD_of_rel (h.afterPhrase (by decide)) h

/-- The same entity is summoned in both texts, and what follows is respaced. -/
theorem rel_afterSummon (h : Respaced cs ds) {entity : String} (hentity : IsSolid entity.toList) :
    Option.Rel Respaced (afterSummon entity cs) (afterSummon entity ds) := by
  refine rel_bind (h.afterPhrase (by decide)) fun _ _ h => ?_
  refine rel_bind h.afterBlanks fun _ _ h => ?_
  exact (respaced_dropDefaultNamespace h).afterPhrase hentity

/-- Both texts have a position with something behind it, or neither has. -/
theorem rel_afterPosition (h : Respaced cs ds) :
    Option.Rel Respaced (afterPosition cs) (afterPosition ds) := by
  refine rel_bind h.afterField fun _ _ h => ?_
  refine rel_bind h.afterField fun _ _ h => ?_
  exact rel_bind h.afterField fun _ _ h => h.afterBlanks

/-- The value is set in both texts or in neither. -/
theorem isSet_eq (h : Respaced cs ds) : isSet cs = isSet ds := by
  rw [isSet, isSet, any_eq_of_rel (h.afterPhraseAnyCase (by decide)) fun _ _ h => h.wordMayEnd,
    any_eq_of_rel (h.afterPhraseAnyCase (by decide)) fun _ _ h => h.wordMayEnd]

/-- What holds of the text behind this character, if the text begins with it. -/
def behind (k : Char) (value : List Char → Bool) : List Char → Bool
  | [] => false
  | c :: cs => c == k && value cs

/-- Behind a solid character, a check that sees no spacing finds the same. -/
theorem behind_eq {k : Char} (hk : isBlank k = false) {value : List Char → Bool}
    (hvalue : ∀ cs ds, Respaced cs ds → value cs = value ds) (h : Respaced cs ds) :
    behind k value cs = behind k value ds := by
  have hne : ∀ {c}, isBlank c = true → (c == k) = false :=
    fun hc => beq_eq_false_iff_ne.mpr (ne_of_isBlank hk hc).symm
  cases h.fronts with
  | nil => rfl
  | solid hc hrest => rw [behind, behind, hvalue _ _ hrest]
  | blank hc hd hrest => rw [behind, behind, hne hc, hne hd, Bool.false_and, Bool.false_and]

/-- To look behind a colon is to look behind a character. -/
theorem match_colon_eq_behind (value : List Char → Bool) (cs : List Char) :
    (match cs with
      | ':' :: cs => value cs
      | _ => false) = behind ':' value cs := by
  cases cs with
  | nil => rfl
  | cons c cs =>
      by_cases hc : c = ':'
      · subst hc
        rfl
      · rw [behind, beq_false_of_ne hc]
        simp [hc]

/-- The pattern for `Marker` put together from steps that each see no spacing. -/
theorem markerSet_eq (before : Option Char) (cs : List Char) :
    markerSet before cs = (wordMayBegin before && (afterPhrase "Marker".toList cs).any
      fun cs => behind ':' (fun cs => isSet (skipBlanks cs)) (skipBlanks cs)) := by
  rw [markerSet]
  cases afterPhrase "Marker".toList cs with
  | none => rfl
  | some cs => exact congrArg _ (match_colon_eq_behind _ _)

/-- A search for `Marker` passes over gaps. -/
theorem ignoresGaps_markerSet : IgnoresGaps markerSet where
  eq_false before c cs hc := by
    have hsolid : IsSolid "Marker".toList := by decide
    rw [markerSet_eq, hsolid.afterPhrase_eq_none hc]
    exact Bool.and_false _
  eq before before' cs ds hbefore h := by
    rw [markerSet_eq, markerSet_eq, hbefore]
    refine congrArg _ (any_eq_of_rel (h.afterPhrase (by decide)) fun _ _ h => ?_)
    exact behind_eq (by decide) (fun _ _ h => isSet_eq h.skipBlanks) h.skipBlanks

/-- The pattern for marker armor stands put together from steps that each see no spacing. -/
theorem summonsMarkerArmorStand_eq_any (cs : List Char) :
    summonsMarkerArmorStand cs = ((afterSummon "armor_stand" cs).bind afterPosition).any
      (behind '{' (occursOnLine markerSet (some '{'))) := by
  rw [summonsMarkerArmorStand]
  match (afterSummon "armor_stand" cs).bind afterPosition with
  | none | some [] => rfl
  | some (c :: cs) =>
      by_cases hc : c = '{'
      · subst hc
        rfl
      · rw [Option.any_some, behind, beq_false_of_ne hc]
        simp [hc]

/-- Spacing does not hide a marker armor stand. -/
theorem summonsMarkerArmorStand_eq (h : Respaced cs ds) :
    summonsMarkerArmorStand cs = summonsMarkerArmorStand ds := by
  rw [summonsMarkerArmorStand_eq_any, summonsMarkerArmorStand_eq_any]
  refine any_eq_of_rel (rel_bind (rel_afterSummon h (by decide)) fun _ _ => rel_afterPosition) ?_
  exact fun _ _ h => behind_eq (by decide) (fun _ _ => ignoresGaps_markerSet.occursOnLine_eq) h

/-! ## Clouds -/

/-- Spacing does not hide a cloud. -/
theorem summonsCloud_eq (h : Respaced cs ds) : summonsCloud cs = summonsCloud ds :=
  any_eq_of_rel (rel_afterSummon h (by decide)) fun _ _ h => h.wordMayEnd

/-- Spacing does not hide a cloud that cannot be seen. -/
theorem summonsInvisibleCloud_eq (h : Respaced cs ds) :
    summonsInvisibleCloud cs = summonsInvisibleCloud ds := by
  have hcloud : IsSolid "area_effect_cloud".toList := by decide
  have hposition := rel_bind (rel_afterSummon h hcloud) fun _ _ => rel_afterPosition
  rw [summonsInvisibleCloud, summonsInvisibleCloud]
  generalize (afterSummon "area_effect_cloud" cs).bind afterPosition = x,
    (afterSummon "area_effect_cloud" ds).bind afterPosition = y at hposition
  cases hposition with
  | none => rfl
  | @some cs ds hrest =>
      have hline : cs.contains '\n' = ds.contains '\n' := by
        rw [List.contains_eq_mem, List.contains_eq_mem, decide_eq_false hrest.notMem_left,
          decide_eq_false hrest.symm.notMem_left]
      have hsolid : ∀ name ∈ visibleData, IsSolid name.toList := by decide
      have hvisible : visibleData.any (fun name => hasWord name.toList cs)
          = visibleData.any fun name => hasWord name.toList ds := by
        rw [Bool.eq_iff_iff, List.any_eq_true, List.any_eq_true]
        refine exists_congr fun name => and_congr_right fun hname => ?_
        rw [hrest.hasWord_eq (hsolid name hname)]
      show (!cs.contains '\n' && !visibleData.any _) = (!ds.contains '\n' && !visibleData.any _)
      rw [hline, hvisible]

/-! ## Statistics -/

/-- A search for the statistic passes over gaps. -/
theorem ignoresGaps_playTimeHere : IgnoresGaps playTimeHere where
  eq_false before c cs hc := by
    have hsolid : IsSolid "minecraft.custom:".toList := by decide
    rw [playTimeHere, hsolid.afterPhrase_eq_none hc]
    exact Bool.and_false _
  eq before before' cs ds hbefore h := by
    have hsolid : IsSolid "minecraft.custom:".toList := by decide
    have hcustom := h.afterPhrase hsolid
    rw [playTimeHere, playTimeHere, hbefore]
    generalize afterPhrase "minecraft.custom:".toList cs = x,
      afterPhrase "minecraft.custom:".toList ds = y at hcustom
    refine congrArg _ ?_
    cases hcustom with
    | none => rfl
    | some hrest =>
        have hdefault : IsSolid "minecraft.".toList := by decide
        have hname := getD_of_rel (hrest.afterPhrase hdefault) hrest
        exact any_eq_of_rel (hname.afterPhrase (by decide)) fun _ _ h => h.wordMayEnd

/-- Spacing does not hide the statistic. -/
theorem namesPlayTime_eq (h : Respaced cs ds) : namesPlayTime cs = namesPlayTime ds :=
  ignoresGaps_playTimeHere.occurs_eq h

/-! ## Checks of commands -/

section Checks

variable {c d : Command}

/-- Commands that agree have the same entity issues. -/
theorem entityIssues_eq (h : c.Agrees d) : entityIssues c = entityIssues d := by
  simp only [entityIssues, summonsMarkerArmorStand_eq h.raw, summonsInvisibleCloud_eq h.raw,
    summonsCloud_eq h.raw, h.args_eq]

/-- Commands that agree have the same command issues. -/
theorem commandIssues_eq (h : c.Agrees d) : commandIssues c = commandIssues d := by
  rw [commandIssues, commandIssues, h.key?_eq]

/-- Commands that agree have the same statistic issues. -/
theorem statisticIssues_eq (h : c.Agrees d) : statisticIssues c = statisticIssues d := by
  rw [statisticIssues, statisticIssues, addsObjective, addsObjective, h.key?_eq, h.args_eq,
    namesPlayTime_eq h.raw]

/-- Respaced texts have the same renamed ids. -/
theorem idIssues_eq {text other : String} (h : Respaced text.toList other.toList) :
    idIssues text = idIssues other := by
  have hsolid : ∀ r ∈ renamedIds, IsSolid r.1.toList := by decide
  rw [idIssues, idIssues]
  refine congrArg _ (List.filter_congr fun r hr => ?_)
  exact h.hasWord_eq (hsolid r hr)

end Checks

/-- **Reformatting a command does not change what is found.**  If two lines have the same
    tokens, their chains have the same number of commands, and commands at the same place
    agree in what they are, in their keys and arguments and in what each check finds. -/
theorem checks_eq_of_same_tokens {text other : String} (hline : '\n' ∉ text.toList)
    (hother : '\n' ∉ other.toList)
    (htokens : (Token.ofChars 0 (trim text.toList)).map Token.text
      = (Token.ofChars 0 (trim other.toList)).map Token.text) (line : Nat) :
    List.Forall₂
      (fun c d : Command => c.kind = d.kind ∧ c.key? = d.key? ∧ c.args = d.args
        ∧ (∀ check ∈ commandChecks, check c = check d)
        ∧ ∀ check ∈ idChecks, check c.ownText = check d.ownText)
      (Command.ofText line text).chain (Command.ofText line other).chain := by
  refine (Command.forall₂_agrees_chain (fun hmem => hline (trim_subset _ hmem))
    (fun hmem => hother (trim_subset _ hmem)) htokens).imp ?_
  intro c d h
  refine ⟨h.kind_eq, h.key?_eq, h.args_eq, ?_, ?_⟩
  · simp only [commandChecks, List.forall_mem_cons]
    exact ⟨entityIssues_eq h, commandIssues_eq h, statisticIssues_eq h, nofun⟩
  · simp only [idChecks, List.forall_mem_cons]
    exact ⟨idIssues_eq h.ownText, nofun⟩

/-- With other blanks between the tokens a marker is found in the nested command, too.  The
    blank in the data belongs to a token and stays. -/
theorem checks_eq_of_same_tokens_marker :
    let text := "execute run summon armor_stand ~ ~ ~ \x7bMarker: 1b\x7d"
    let other := " execute  run\tsummon armor_stand ~ ~  ~\u00a0\x7bMarker: 1b\x7d\t"
    (Token.ofChars 0 (trim text.toList)).map Token.text
        = (Token.ofChars 0 (trim other.toList)).map Token.text
      ∧ ((Command.ofText 1 text).chain.map entityIssues) = [[], [.markerArmorStand]]
      ∧ ((Command.ofText 1 other).chain.map entityIssues) = [[], [.markerArmorStand]] := by
  intro text other
  have htokens : (Token.ofChars 0 (trim text.toList)).map Token.text
      = (Token.ofChars 0 (trim other.toList)).map Token.text := by
    decide +kernel
  have hissues : (Command.ofText 1 text).chain.map entityIssues = [[], [.markerArmorStand]] := by
    decide +kernel
  have hchecks := checks_eq_of_same_tokens (by decide) (by decide) htokens 1
  refine ⟨htokens, hissues, ?_⟩
  rw [← hissues, eq_comm, ← List.forall₂_eq_eq_eq, List.forall₂_map_left_iff,
    List.forall₂_map_right_iff]
  exact hchecks.imp fun _ _ h => h.2.2.2.1 entityIssues List.mem_cons_self

end PackLint.Upgrade
