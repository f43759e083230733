import PackLint.Proofs.Command.Forms

/-! # What the search for `run` decides

    The words behind `execute` fall into complete subcommands, one behind the other, up to
    a place where no complete subcommand begins.  This place is the same however the words
    are split, and what stands there decides the search: `Stop` lists the cases. -/

namespace PackLint.Execute

variable {word : String} {args words rest : List String} {S : List (List String)} {n : Nat}

/-! ## Steps -/

/-- The words are complete subcommands, one behind the other, and then the rest. -/
structure Steps (words : List String) (S : List (List String)) (rest : List String) : Prop where
  complete : ∀ ws ∈ S, Complete ws
  eq_append : words = S.flatten ++ rest

/-- No complete subcommand begins here. -/
def Halts (words : List String) : Prop :=
  ∀ ws, Complete ws → ¬ws <+: words

/-- A text has one complete subcommand at its beginning at most. -/
theorem Complete.eq_of_append_eq {ws vs more : List String} (hws : Complete ws) (hvs : Complete vs)
    (h : ws ++ rest = vs ++ more) : ws = vs ∧ rest = more := by
  obtain ⟨word, args, rfl, hform⟩ := hws.exists_ofWord rest
  obtain ⟨other, others, rfl, hother⟩ := hvs.exists_ofWord more
  obtain ⟨rfl, happend⟩ : word = other ∧ args ++ rest = others ++ more := List.cons.inj h
  rw [happend, hother] at hform
  obtain ⟨rfl, rfl⟩ := List.append_inj happend (Subcommand.known.inj hform).symm
  exact ⟨rfl, rfl⟩

/-- A complete subcommand has at least one word. -/
theorem Complete.ne_nil {ws : List String} (h : Complete ws) : ws ≠ [] := by
  obtain ⟨word, args, rfl, -⟩ := h.exists_ofWord []
  exact List.cons_ne_nil _ _

namespace Steps

/-- No step has been made. -/
theorem nil (words : List String) : Steps words [] words :=
  ⟨List.forall_mem_nil _, rfl⟩

/-- One more subcommand in front is one more step. -/
theorem cons {ws : List String} (hws : Complete ws) (h : Steps words S rest) :
    Steps (ws ++ words) (ws :: S) rest := by
  refine ⟨List.forall_mem_cons.mpr ⟨hws, h.complete⟩, ?_⟩
  rw [h.eq_append, List.flatten_cons, List.append_assoc]

/-- Over steps, the search goes on as at the beginning. -/
theorem runIndex?_eq (h : Steps words S rest) :
    runIndex? 0 words = (runIndex? 0 rest).map (· + S.flatten.length) := by
  rw [h.eq_append, runIndex?_append_of_complete h.complete]

/-- Of two splits of the same words, one goes as far as the other and then further. -/
theorem exists_append_eq {S' : List (List String)} {rest' : List String}
    (h : Steps words S rest) (h' : Steps words S' rest') :
    (∃ T, S' = S ++ T ∧ Steps rest T rest') ∨ ∃ T, S = S' ++ T ∧ Steps rest' T rest := by
  obtain ⟨hS, rfl⟩ := h
  obtain ⟨hS', heq⟩ := h'
  induction S generalizing S' with
  | nil => exact .inl ⟨S', rfl, hS', heq⟩
  | cons ws S ih =>
      cases S' with
      | nil => exact .inr ⟨ws :: S, rfl, hS, heq.symm⟩
      | cons vs S' =>
          obtain ⟨hws, htail⟩ := List.forall_mem_cons.mp hS
          obtain ⟨hvs, htail'⟩ := List.forall_mem_cons.mp hS'
          rw [List.flatten_cons, List.flatten_cons, List.append_assoc, List.append_assoc] at heq
          obtain ⟨rfl, hrest⟩ := hws.eq_of_append_eq hvs heq
          obtain ⟨T, rfl, hT⟩ | ⟨T, rfl, hT⟩ := ih htail htail' hrest
          · exact .inl ⟨T, rfl, hT⟩
          · exact .inr ⟨T, rfl, hT⟩

/-- No step leads away from where the search halts. -/
theorem eq_nil_of_halts (h : Steps words S rest) (hhalts : Halts words) : S = [] := by
  obtain ⟨hS, rfl⟩ := h
  cases S with
  | nil => rfl
  | cons ws S =>
      refine absurd ?_ (hhalts ws (hS ws List.mem_cons_self))
      rw [List.flatten_cons, List.append_assoc]
      exact List.prefix_append _ _

/-- Steps that take no words are no steps. -/
theorem eq_nil_of_length_eq (h : Steps words S rest) (hlen : words.length = rest.length) :
    S = [] := by
  obtain ⟨hS, rfl⟩ := h
  cases S with
  | nil => rfl
  | cons ws S =>
      have hpos := List.length_pos_iff.mpr (hS ws List.mem_cons_self).ne_nil
      rw [List.flatten_cons, List.length_append, List.length_append] at hlen
      omega

/-- Two splits up to one place are the same, and so are two splits up to a place where no
    complete subcommand begins. -/
theorem unique {S' : List (List String)} {rest' : List String} (h : Steps words S rest)
    (h' : Steps words S' rest')
    (hend : rest.length = rest'.length ∨ Halts rest ∧ Halts rest') : S = S' := by
  obtain ⟨T, rfl, hT⟩ | ⟨T, rfl, hT⟩ := h.exists_append_eq h'
  · have hnil : T = [] := hend.elim hT.eq_nil_of_length_eq fun h => hT.eq_nil_of_halts h.1
    rw [hnil, List.append_nil]
  · have hnil : T = [] := hend.elim (fun h => hT.eq_nil_of_length_eq h.symm)
      fun h => hT.eq_nil_of_halts h.2
    rw [hnil, List.append_nil]

end Steps

/-! ## Where the steps stop -/

/-- What stands where no complete subcommand begins, and the place behind it that the search
    finds. -/
inductive Stop : List String → Option Nat → Prop
  | run (back : List String) : Stop ("run" :: back) (some 0)
  | fallback {word : String} (hword : IsUnknown word) {between : List String}
      (hbetween : "run" ∉ between) (back : List String) :
      Stop (word :: (between ++ "run" :: back)) (some (between.length + 1))
  | lost {word : String} (hword : IsUnknown word) {back : List String} (hback : "run" ∉ back) :
      Stop (word :: back) none
  | ended : Stop [] none
  | truncated {words : List String} (h : Truncated words) : Stop words none
  | unlisted {words : List String} (h : Unlisted words) : Stop words none

/-- A word that begins no known subcommand begins no complete one. -/
theorem not_prefix_of_ofWord_ne {ws : List String} (hws : Complete ws)
    (h : ∀ n, Subcommand.ofWord word args ≠ .known n) : ¬ws <+: word :: args := by
  rintro ⟨more, happend⟩
  obtain ⟨first, others, rfl, hform⟩ := hws.exists_ofWord more
  obtain ⟨rfl, rfl⟩ := List.cons.inj happend
  exact h _ hform

/-- The search halts at an unknown word. -/
theorem IsUnknown.halts (h : IsUnknown word) (args : List String) : Halts (word :: args) := by
  intro ws hws
  refine not_prefix_of_ofWord_ne hws ?_
  intro n
  rw [Subcommand.ofWord_eq_unknown_iff.mpr h]
  exact nofun

/-- The search halts where it stops. -/
theorem Stop.halts {found : Option Nat} (h : Stop words found) : Halts words := by
  intro ws hws
  cases h with
  | run back => exact not_prefix_of_ofWord_ne hws fun _ => nofun
  | fallback hword _ back => exact hword.halts _ ws hws
  | lost hword _ => exact hword.halts _ ws hws
  | ended => exact fun h => hws.ne_nil (List.prefix_nil.mp h)
  | truncated h =>
      obtain ⟨-, more, hmore, hfull⟩ := h
      rintro ⟨back, rfl⟩
      have hcut : ws ++ (back ++ more) = ws ++ back ++ more ++ [] := by
        rw [List.append_nil, List.append_assoc]
      obtain ⟨heq, -⟩ := hws.eq_of_append_eq hfull hcut
      have hlen := congrArg List.length heq
      rw [List.length_append, List.length_append] at hlen
      exact hmore (List.length_eq_zero_iff.mp (by omega))
  | unlisted h =>
      obtain ⟨word, args, rfl, hform⟩ := h.exists_ofWord
      refine not_prefix_of_ofWord_ne hws ?_
      intro n
      rw [hform]
      exact nofun

/-- Where a subcommand is truncated nothing is found. -/
theorem Truncated.runIndex?_eq_none (h : Truncated words) : runIndex? 0 words = none := by
  have hhalts : Halts words := (Stop.truncated h).halts
  obtain ⟨hne, more, -, hfull⟩ := h
  obtain ⟨word, args, rfl⟩ := List.exists_cons_of_ne_nil hne
  obtain ⟨_, others, heq, hknown⟩ := hfull.exists_ofWord []
  obtain ⟨rfl, -⟩ := List.cons.inj heq
  cases hform : Subcommand.ofWord word args with
  | run =>
      obtain rfl := Subcommand.ofWord_eq_run_iff.mp hform
      cases hknown
  | malformed => rw [runIndex?, hform]
  | unknown =>
      have hword := Subcommand.ofWord_eq_unknown_iff.mp hform
      rw [Subcommand.ofWord_eq_unknown_iff.mpr hword] at hknown
      cases hknown
  | known n =>
      have hlen : args.length < n := by
        by_contra hge
        refine hhalts (word :: args.take n) ?_ ⟨args.drop n, ?_⟩
        · exact complete_take_of_ofWord hform (Nat.le_of_not_lt hge)
        · rw [List.cons_append, List.take_append_drop]
      rw [runIndex?_zero_cons_of_known hform, List.drop_eq_nil_of_le (Nat.le_of_lt hlen)]
      rfl

/-- The first place of a word, where none stands in front of it. -/
theorem idxOf?_append_cons {between : List String} (h : word ∉ between) (back : List String) :
    (between ++ word :: back).idxOf? word = some between.length := by
  rw [List.idxOf?_eq_some_iff]
  refine ⟨by simp, by simp, ?_⟩
  intro j hj heq
  rw [List.getElem_append_left hj] at heq
  exact h (heq ▸ List.getElem_mem hj)

/-- Where the search stops, it has found what the stop says. -/
theorem Stop.runIndex?_eq {found : Option Nat} (h : Stop words found) :
    runIndex? 0 words = found := by
  cases h with
  | run back => rfl
  | @fallback word hword between hbetween back =>
      rw [runIndex?, Subcommand.ofWord_eq_unknown_iff.mpr hword]
      show ((between ++ "run" :: back).idxOf? "run").map (· + 1) = _
      rw [idxOf?_append_cons hbetween]
      rfl
  | @lost word hword back hback =>
      rw [runIndex?, Subcommand.ofWord_eq_unknown_iff.mpr hword]
      show (back.idxOf? "run").map (· + 1) = none
      rw [List.idxOf?_eq_none_iff.mpr hback]
      rfl
  | ended => rfl
  | truncated h => exact h.runIndex?_eq_none
  | unlisted h =>
      obtain ⟨word, args, rfl, hform⟩ := h.exists_ofWord
      rw [runIndex?, hform]

/-- In front of any words there is a complete subcommand, or the search stops. -/
theorem exists_complete_or_stop (words : List String) :
    (∃ ws rest, Complete ws ∧ words = ws ++ rest) ∨ ∃ found, Stop words found := by
  cases words with
  | nil => exact .inr ⟨_, .ended⟩
  | cons word args =>
      cases hform : Subcommand.ofWord word args with
      | run =>
          rw [Subcommand.ofWord_eq_run_iff.mp hform]
          exact .inr ⟨_, .run args⟩
      | known n =>
          rcases Nat.lt_or_ge args.length n with hlen | hlen
          · exact .inr ⟨_, .truncated (truncated_of_ofWord hform hlen)⟩
          · refine .inl ⟨word :: args.take n, args.drop n, complete_take_of_ofWord hform hlen, ?_⟩
            rw [List.cons_append, List.take_append_drop]
      | malformed => exact .inr ⟨_, .unlisted (Subcommand.unlisted_of_ofWord hform)⟩
      | unknown =>
          have hword := Subcommand.ofWord_eq_unknown_iff.mp hform
          by_cases hrun : "run" ∈ args
          · obtain ⟨between, back, rfl, hbetween⟩ := List.eq_append_cons_of_mem hrun
            exact .inr ⟨_, .fallback hword hbetween back⟩
          · exact .inr ⟨_, .lost hword hrun⟩

/-- All words are steps up to a stop. -/
theorem exists_steps (words : List String) :
    ∃ S rest found, Steps words S rest ∧ Stop rest found := by
  induction hlen : words.length using Nat.strong_induction_on generalizing words with
  | _ n ih =>
      rcases exists_complete_or_stop words with ⟨ws, more, hws, rfl⟩ | ⟨found, hstop⟩
      · have hshorter : more.length < n := by
          have := List.length_pos_iff.mpr hws.ne_nil
          rw [List.length_append] at hlen
          omega
        obtain ⟨S, rest, found, hsteps, hstop⟩ := ih more.length hshorter more rfl
        exact ⟨ws :: S, rest, found, hsteps.cons hws, hstop⟩
      · exact ⟨[], words, found, .nil words, hstop⟩

/-- The search finds what the stop says. -/
theorem runIndex?_eq_iff {found : Option Nat} :
    runIndex? 0 words = found
      ↔ ∃ S rest place, Steps words S rest ∧ Stop rest place
        ∧ found = place.map (· + S.flatten.length) := by
  constructor
  · rintro rfl
    obtain ⟨S, rest, place, hsteps, hstop⟩ := exists_steps words
    exact ⟨S, rest, place, hsteps, hstop, by rw [hsteps.runIndex?_eq, hstop.runIndex?_eq]⟩
  · rintro ⟨S, rest, place, hsteps, hstop, rfl⟩
    rw [hsteps.runIndex?_eq, hstop.runIndex?_eq]

/-! ## The search by places -/

/-- A place beyond the end of some words. -/
structure OutOfRange where
  place : Nat

/-- The words from a place on, which must not lie beyond their end. -/
def wordsFrom (words : List String) (place : Nat) : Except OutOfRange (List String) :=
  if place ≤ words.length then .ok (words.drop place) else .error ⟨place⟩

/-- The place of the keyword `run`, for a search that keeps the place of the next subcommand. -/
def runPlace (words : List String) (place : Nat) : Except OutOfRange (Option Nat) :=
  match _h : words[place]? with
  | none => .ok none
  | some word =>
      match Subcommand.ofWord word (words.drop (place + 1)) with
      | .run => .ok (some place)
      | .known arity => runPlace words (place + (arity + 1))
      | .malformed => .ok none
      | .unknown => do
          let rest ← wordsFrom words place
          pure ((rest.idxOf? "run").map (place + ·))
termination_by words.length - place
decreasing_by
  have := (List.getElem?_eq_some_iff.mp _h).1
  omega

/-- Every place that the search looks at is one of the words, and it finds what is found in the
    words that are left. -/
theorem runPlace_eq (words : List String) (place : Nat) :
    runPlace words place = .ok ((runIndex? 0 (words.drop place)).map (place + ·)) := by
  fun_induction runPlace words place with
  | case1 place h =>
      rw [List.drop_eq_nil_of_le (List.getElem?_eq_none_iff.mp h)]
      rfl
  | case2 place word h hform =>
      obtain ⟨hlt, rfl⟩ := List.getElem?_eq_some_iff.mp h
      rw [List.drop_eq_getElem_cons hlt, runIndex?, hform]
      rfl
  | case3 place word h arity hform ih =>
      obtain ⟨hlt, rfl⟩ := List.getElem?_eq_some_iff.mp h
      have hdrop : (words.drop (place + 1)).drop arity = words.drop (place + (arity + 1)) := by
        rw [List.drop_drop, Nat.add_assoc, Nat.add_comm 1]
      rw [ih, List.drop_eq_getElem_cons hlt, runIndex?_zero_cons_of_known hform, hdrop,
        Option.map_map]
      congr 2
      funext i
      simp only [Function.comp_apply]
      omega
  | case4 place word h hform =>
      obtain ⟨hlt, rfl⟩ := List.getElem?_eq_some_iff.mp h
      rw [List.drop_eq_getElem_cons hlt, runIndex?, hform]
      rfl
  | case5 place word h hform =>
      obtain ⟨hlt, rfl⟩ := List.getElem?_eq_some_iff.mp h
      have hrun : words[place] ≠ "run" := (Subcommand.ofWord_eq_unknown_iff.mp hform).1
      rw [wordsFrom, if_pos (Nat.le_of_lt hlt), List.drop_eq_getElem_cons hlt, runIndex?, hform]
      show Except.ok (((words[place] :: words.drop (place + 1)).idxOf? "run").map (place + ·)) = _
      rw [List.idxOf?_cons, if_neg (by simpa using hrun)]

/-! ## What is found -/

/-- Two lists that agree on the length of a front have this front in common. -/
theorem exists_append_of_take_eq {words' : List String} (front back : List String)
    (h : words'.take front.length = (front ++ back).take front.length) :
    ∃ back', words' = front ++ back' := by
  rw [List.take_left] at h
  refine ⟨words'.drop front.length, ?_⟩
  conv_lhs => rw [← List.take_append_drop front.length words', h]

/-- The search finds the `run` that follows complete subcommands, or the next one behind an
    unknown word. -/
theorem runIndex?_eq_some_iff {p : Nat} :
    runIndex? 0 words = some p
      ↔ (∃ S back, Steps words S ("run" :: back) ∧ p = S.flatten.length)
        ∨ ∃ S word between back, Steps words S (word :: (between ++ "run" :: back))
          ∧ IsUnknown word ∧ "run" ∉ between ∧ p = S.flatten.length + (between.length + 1) := by
  rw [runIndex?_eq_iff]
  constructor
  · rintro ⟨S, rest, place, hsteps, hstop, heq⟩
    cases hstop with
    | run back =>
        obtain rfl := Option.some.inj heq
        exact .inl ⟨S, back, hsteps, Nat.zero_add _⟩
    | fallback hword hbetween back =>
        obtain rfl := Option.some.inj heq
        exact .inr ⟨S, _, _, back, hsteps, hword, hbetween, Nat.add_comm _ _⟩
    | lost => exact nomatch heq
    | ended => exact nomatch heq
    | truncated => exact nomatch heq
    | unlisted => exact nomatch heq
  · rintro (⟨S, back, hsteps, rfl⟩ | ⟨S, word, between, back, hsteps, hword, hbetween, rfl⟩)
    · exact ⟨S, _, _, hsteps, .run back, congrArg some (Nat.zero_add _).symm⟩
    · exact ⟨S, _, _, hsteps, .fallback hword hbetween back, congrArg some (Nat.add_comm _ _)⟩

/-- The search finds nothing where the steps end the words, break off, or meet an unknown word
    with no `run` behind it. -/
theorem runIndex?_eq_none_iff :
    runIndex? 0 words = none
      ↔ ∃ S rest, Steps words S rest ∧ (rest = [] ∨ Truncated rest ∨ Unlisted rest
        ∨ ∃ word back, rest = word :: back ∧ IsUnknown word ∧ "run" ∉ back) := by
  rw [runIndex?_eq_iff]
  constructor
  · rintro ⟨S, rest, place, hsteps, hstop, heq⟩
    refine ⟨S, rest, hsteps, ?_⟩
    cases hstop with
    | run back => exact nomatch heq
    | fallback hword hbetween back => exact nomatch heq
    | lost hword hback => exact .inr (.inr (.inr ⟨_, _, rfl, hword, hback⟩))
    | ended => exact .inl rfl
    | truncated h => exact .inr (.inl h)
    | unlisted h => exact .inr (.inr (.inl h))
  · rintro ⟨S, rest, hsteps, rfl | h | h | ⟨word, back, rfl, hword, hback⟩⟩
    · exact ⟨S, _, _, hsteps, .ended, rfl⟩
    · exact ⟨S, _, _, hsteps, .truncated h, rfl⟩
    · exact ⟨S, _, _, hsteps, .unlisted h, rfl⟩
    · exact ⟨S, _, _, hsteps, .lost hword hback, rfl⟩

/-- What stands behind the place that is found plays no part in the search. -/
theorem runIndex?_eq_some_of_take_eq {words' : List String} {p : Nat}
    (h : runIndex? 0 words = some p) (htake : words'.take (p + 1) = words.take (p + 1)) :
    runIndex? 0 words' = some p := by
  rw [runIndex?_eq_some_iff] at h ⊢
  obtain ⟨S, back, ⟨hS, rfl⟩, rfl⟩ | ⟨S, word, between, back, ⟨hS, rfl⟩, hword, hbetween, rfl⟩ := h
  · obtain ⟨back', rfl⟩ := exists_append_of_take_eq (S.flatten ++ ["run"]) back
      (by simpa using htake)
    exact .inl ⟨S, back', ⟨hS, by simp⟩, rfl⟩
  · obtain ⟨back', rfl⟩ := exists_append_of_take_eq
      (S.flatten ++ word :: (between ++ ["run"])) back (by simpa [Nat.add_assoc] using htake)
    exact .inr ⟨S, word, between, back', ⟨hS, by simp⟩, hword, hbetween, rfl⟩

/-- **What the search for `run` decides.**  It ends for all words, and it looks at no place beyond
    them.  It finds the `run` behind complete subcommands, and where an unknown word stands
    behind these, the next `run`.  It finds nothing if the words end there or within a
    subcommand, if no `run` follows the unknown word, and behind a `store`, `if` or `unless`
    in no listed form.  The subcommands are the same for every split of the words, and the
    words behind the place that is found may be any. -/
theorem search_decides :
    (∀ tokens : List String,
        runPlace tokens 1 = .ok ((runIndex? 0 tokens.tail).map (1 + ·)))
      ∧ (∀ (words : List String) (p : Nat), runIndex? 0 words = some p
        ↔ (∃ S back, Steps words S ("run" :: back) ∧ p = S.flatten.length)
          ∨ ∃ S word between back, Steps words S (word :: (between ++ "run" :: back))
            ∧ IsUnknown word ∧ "run" ∉ between ∧ p = S.flatten.length + (between.length + 1))
      ∧ (∀ words : List String, runIndex? 0 words = none
        ↔ ∃ S rest, Steps words S rest ∧ (rest = [] ∨ Truncated rest ∨ Unlisted rest
          ∨ ∃ word back, rest = word :: back ∧ IsUnknown word ∧ "run" ∉ back))
      ∧ (∀ (words : List String) (S S' : List (List String)) (rest rest' : List String),
        Steps words S rest → Steps words S' rest' →
        (rest.length = rest'.length
          ∨ (∃ found, Stop rest found) ∧ ∃ found, Stop rest' found) → S = S')
      ∧ ∀ (words words' : List String) (p : Nat), runIndex? 0 words = some p →
        words'.take (p + 1) = words.take (p + 1) → runIndex? 0 words' = some p := by
  refine ⟨?_, fun _ _ => runIndex?_eq_some_iff, fun _ => runIndex?_eq_none_iff, ?_, ?_⟩
  · intro tokens
    rw [runPlace_eq, List.drop_one]
  · intro words S S' rest rest' h h' hend
    refine h.unique h' (hend.imp_right ?_)
    rintro ⟨⟨_, hstop⟩, _, hstop'⟩
    exact ⟨hstop.halts, hstop'.halts⟩
  · intro words words' p h htake
    exact runIndex?_eq_some_of_take_eq h htake

/-- Behind `positioned as run` an unknown word stands, and the next `run` is taken. -/
theorem search_decides_unknown_behind_complete :
    let words := ["positioned", "as", "run", "on", "passengers", "run", "say", "run"]
    runPlace ("execute" :: words) 1 = .ok (some 6)
      ∧ runIndex? 0 words = some 5
      ∧ runIndex? 0 ["positioned", "as", "run", "on", "passengers", "run", "if"] = some 5
      ∧ runIndex? 0 ["positioned", "as", "run", "store", "result", "to", "run"] = none
      ∧ ∀ S rest found, Steps words S rest → Stop rest found → S = [["positioned", "as", "run"]] := by
  intro words
  obtain ⟨hplace, hsome, hnone, hunique, hstable⟩ := search_decides
  have hS : ∀ ws ∈ [["positioned", "as", "run"]], Complete ws :=
    List.forall_mem_singleton.mpr (.positionedAs "run")
  have hon : IsUnknown "on" := ⟨by decide, by decide⟩
  have hsteps : Steps words [["positioned", "as", "run"]]
      ("on" :: (["passengers"] ++ "run" :: ["say", "run"])) := ⟨hS, rfl⟩
  have hfound : runIndex? 0 words = some 5 :=
    (hsome words 5).mpr (.inr ⟨_, "on", ["passengers"], _, hsteps, hon, by decide, rfl⟩)
  refine ⟨?_, hfound, hstable words _ 5 hfound rfl, ?_, ?_⟩
  · rw [hplace, List.tail_cons, hfound]
    rfl
  · refine (hnone _).mpr ⟨_, ["store", "result", "to", "run"], ⟨hS, rfl⟩, ?_⟩
    refine .inr (.inr (.inl (.store ?_)))
    intro what hwhat
    obtain rfl : "to" = what := Option.some.inj hwhat
    decide
  · intro S rest found h hstop
    exact hunique words S _ rest _ h hsteps (.inr ⟨⟨_, hstop⟩, _, .fallback hon (by decide) _⟩)

end PackLint.Execute
