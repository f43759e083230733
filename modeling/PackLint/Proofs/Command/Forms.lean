import PackLint.Proofs.Command.Execute

/-! # Forms of subcommands

    What the word at the place of a subcommand is, said without the table of arities: with
    as many words behind it as its arity says it is a complete subcommand, with fewer of
    them it is the beginning of one, and the words of no known arity are the ones that no
    subcommand begins with and the ones that are in no listed form. -/

namespace PackLint.Execute

variable {word : String} {args words rest : List String} {n : Nat}

/-! ## Words of no known arity -/

/-- The words that begin a subcommand. -/
def subcommandNames : List String :=
  ["align", "anchored", "as", "at", "in", "facing", "positioned", "rotated", "store", "if",
    "unless"]

/-- The word is neither the keyword nor the beginning of a subcommand. -/
def IsUnknown (word : String) : Prop :=
  word ≠ "run" ∧ word ∉ subcommandNames

/-- The words that name what is stored to. -/
def storeTargets : List String :=
  ["block", "bossbar", "score", "entity", "storage"]

/-- The words that name what is tested. -/
def conditionNames : List String :=
  ["block", "blocks", "data", "entity", "predicate", "score"]

/-- A `store`, `if` or `unless` that is in no listed form. -/
inductive Unlisted : List String → Prop
  | store {args : List String} (h : ∀ what, args[1]? = some what → what ∉ storeTargets) :
      Unlisted ("store" :: args)
  | condition {test : String} (htest : test ∈ ["if", "unless"]) {args : List String}
      (h : ∀ what, args[0]? = some what → what ∉ conditionNames) : Unlisted (test :: args)

/-- The words begin a subcommand and end before it does. -/
def Truncated (words : List String) : Prop :=
  words ≠ [] ∧ ∃ more, more ≠ [] ∧ Complete (words ++ more)

/-- A `store` has no form exactly if its target is none of the table. -/
theorem storeForm_eq_malformed_iff {target : Option String} :
    storeForm target = .malformed ↔ ∀ what, target = some what → what ∉ storeTargets := by
  unfold storeForm
  split
  case h_6 hblock hbossbar hscore hentity hstorage =>
    refine iff_of_true rfl ?_
    rintro what rfl
    simp_all [storeTargets]
  all_goals exact iff_of_false nofun fun h => h _ rfl (by decide)

/-- A condition has no form exactly if its name is none of the table. -/
theorem conditionForm_eq_malformed_iff :
    conditionForm args = .malformed ↔ ∀ what, args[0]? = some what → what ∉ conditionNames := by
  unfold conditionForm
  generalize args[0]? = first
  split
  case h_7 hblock hblocks hdata hentity hpredicate hscore =>
    refine iff_of_true rfl ?_
    rintro what rfl
    simp_all [conditionNames]
  all_goals exact iff_of_false nofun fun h => h _ rfl (by decide)

theorem storeForm_ne_unknown (target : Option String) : storeForm target ≠ .unknown := by
  unfold storeForm
  split <;> exact Subcommand.noConfusion

/-- A condition is a known subcommand, well formed or not. -/
theorem conditionForm_ne_unknown (args : List String) : conditionForm args ≠ .unknown := by
  unfold conditionForm
  split <;> exact Subcommand.noConfusion

/-- The words that begin no subcommand are the unknown ones. -/
theorem Subcommand.ofWord_eq_unknown_iff :
    Subcommand.ofWord word args = .unknown ↔ IsUnknown word := by
  unfold Subcommand.ofWord
  split
  case h_1 => exact iff_of_false nofun fun h => h.1 rfl
  case h_10 => exact iff_of_false (storeForm_ne_unknown _) fun h => h.2 (by decide)
  case h_11 => exact iff_of_false (conditionForm_ne_unknown _) fun h => h.2 (by decide)
  case h_12 => exact iff_of_false (conditionForm_ne_unknown _) fun h => h.2 (by decide)
  case h_13 => exact iff_of_true rfl (by simp_all [IsUnknown, subcommandNames])
  all_goals exact iff_of_false nofun fun h => h.2 (by decide)

/-- A subcommand without a form is one that the table does not list. -/
theorem Subcommand.unlisted_of_ofWord (h : Subcommand.ofWord word args = .malformed) :
    Unlisted (word :: args) := by
  unfold Subcommand.ofWord at h
  split at h
  case h_10 => exact .store (storeForm_eq_malformed_iff.mp h)
  case h_11 => exact .condition (by decide) (conditionForm_eq_malformed_iff.mp h)
  case h_12 => exact .condition (by decide) (conditionForm_eq_malformed_iff.mp h)
  all_goals exact nomatch h

/-- What the table does not list has no form. -/
theorem Unlisted.exists_ofWord (h : Unlisted words) :
    ∃ word args, words = word :: args ∧ Subcommand.ofWord word args = .malformed := by
  cases h with
  | store h => exact ⟨_, _, rfl, storeForm_eq_malformed_iff.mpr h⟩
  | condition htest h =>
      refine ⟨_, _, rfl, ?_⟩
      rw [Subcommand.ofWord_of_mem_conditions htest]
      exact conditionForm_eq_malformed_iff.mpr h

/-! ## Complete and truncated subcommands -/

/-- The number of arguments of `store`, by its target. -/
theorem storeForm_eq_known_iff {target : Option String} :
    storeForm target = .known n
      ↔ target = some "block" ∧ n = 8
        ∨ (target = some "bossbar" ∨ target = some "score") ∧ n = 4
        ∨ (target = some "entity" ∨ target = some "storage") ∧ n = 6 := by
  unfold storeForm
  split <;> simp_all [eq_comm]

/-- The number of arguments of a condition, by its name and further arguments. -/
theorem conditionForm_eq_known_iff :
    conditionForm args = .known n
      ↔ args[0]? = some "block" ∧ n = 5
        ∨ args[0]? = some "blocks" ∧ n = 11
        ∨ args[0]? = some "data" ∧ n = (if args[1]? = some "block" then 6 else 4)
        ∨ (args[0]? = some "entity" ∨ args[0]? = some "predicate") ∧ n = 2
        ∨ args[0]? = some "score" ∧ n = (if args[3]? = some "matches" then 5 else 6) := by
  unfold conditionForm
  generalize args[0]? = first
  split <;> simp_all [eq_comm]

/-- As many arguments as the form of `store` asks for complete it. -/
theorem complete_of_storeForm (h : storeForm (args ++ rest)[1]? = .known args.length) :
    Complete ("store" :: args) := by
  rw [storeForm_eq_known_iff] at h
  rcases args with _ | ⟨r, _ | ⟨what, xs⟩⟩
  · simp at h
  · simp at h
  · simp only [List.cons_append, List.getElem?_cons_succ, List.getElem?_cons_zero,
      Option.some.injEq, List.length_cons] at h
    obtain ⟨rfl, hxs⟩ | ⟨hwhat, hxs⟩ | ⟨hwhat, hxs⟩ := h
    · exact .storeBlock r (by omega)
    · exact .storeCount r (by simpa using hwhat) (by omega)
    · exact .storeData r (by simpa using hwhat) (by omega)

/-- As many arguments as the form of the condition asks for complete it. -/
theorem complete_of_conditionForm {test : String} (htest : test ∈ ["if", "unless"])
    (h : conditionForm (args ++ rest) = .known args.length) : Complete (test :: args) := by
  rw [conditionForm_eq_known_iff] at h
  rcases args with _ | ⟨what, xs⟩
  · grind
  · simp only [List.cons_append, List.getElem?_cons_succ, List.getElem?_cons_zero,
      Option.some.injEq, List.length_cons] at h
    obtain ⟨rfl, hxs⟩ | ⟨rfl, hxs⟩ | ⟨rfl, hxs⟩ | ⟨hwhat, hxs⟩ | ⟨rfl, hxs⟩ := h
    · exact .block htest (by omega)
    · exact .blocks htest (by omega)
    · rcases xs with _ | ⟨k, xs⟩
      · grind
      · by_cases hk : k = "block"
        · subst hk
          exact .dataBlock htest (by simpa using hxs)
        · exact .data htest hk (by simpa [hk] using hxs)
    · obtain ⟨x, rfl⟩ := List.length_eq_one_iff.mp (Nat.succ.inj hxs)
      exact .presence htest (by simpa using hwhat) x
    · rcases xs with _ | ⟨a, _ | ⟨b, _ | ⟨op, xs⟩⟩⟩
      iterate 3 grind
      by_cases hop : op = "matches"
      · subst hop
        obtain ⟨v, rfl⟩ : ∃ v, xs = [v] := List.length_eq_one_iff.mp (by simpa using hxs)
        exact .scoreMatches htest a b v
      · obtain ⟨c, d, rfl⟩ : ∃ c d, xs = [c, d] :=
          List.length_eq_two.mp (by simpa [hop] using hxs)
        exact .score htest hop a b c d

/-- Two arguments complete `positioned as`, and three complete any other `positioned`. -/
theorem complete_of_positioned (rest : List String)
    (h : (args ++ rest)[0]? = some "as" ∧ args.length = 2
      ∨ (args ++ rest)[0]? ≠ some "as" ∧ args.length = 3) : Complete ("positioned" :: args) := by
  obtain ⟨hfirst, hlen⟩ | ⟨hfirst, hlen⟩ := h
  · obtain ⟨w, x, rfl⟩ := List.length_eq_two.mp hlen
    obtain rfl : w = "as" := Option.some.inj hfirst
    exact .positionedAs x
  · obtain ⟨x, y, z, rfl⟩ := List.length_eq_three.mp hlen
    exact .positioned (fun h => hfirst (congrArg some h)) y z

/-- What has as many arguments as its form says is a complete subcommand. -/
theorem complete_of_ofWord (rest : List String)
    (h : Subcommand.ofWord word (args ++ rest) = .known args.length) :
    Complete (word :: args) := by
  unfold Subcommand.ofWord at h
  split at h
  case h_1 => exact nomatch h
  case h_7 =>
    obtain ⟨x, y, z, rfl⟩ := List.length_eq_three.mp (Subcommand.known.inj h).symm
    exact .facing x y z
  case h_8 =>
    refine complete_of_positioned rest ?_
    grind
  case h_9 =>
    obtain ⟨x, y, rfl⟩ := List.length_eq_two.mp (Subcommand.known.inj h).symm
    exact .rotated x y
  case h_10 => exact complete_of_storeForm h
  case h_11 => exact complete_of_conditionForm (by decide) h
  case h_12 => exact complete_of_conditionForm (by decide) h
  case h_13 => exact nomatch h
  all_goals
    obtain ⟨x, rfl⟩ := List.length_eq_one_iff.mp (Subcommand.known.inj h).symm
    exact .single (by decide)

/-- As many arguments as the form of a subcommand asks for complete it. -/
theorem complete_take_of_ofWord (h : Subcommand.ofWord word args = .known n)
    (hlen : n ≤ args.length) : Complete (word :: args.take n) := by
  refine complete_of_ofWord (args.drop n) ?_
  rw [List.take_append_drop, List.length_take_of_le hlen, h]

/-- Empty words do not change the form of a subcommand that they are put behind. -/
theorem Subcommand.ofWord_append_replicate (k : Nat)
    (h : Subcommand.ofWord word args = .known n) :
    Subcommand.ofWord word (args ++ List.replicate k "") = .known n := by
  have hget : ∀ (i : Nat) (w : String), w ≠ "" →
      ((args ++ List.replicate k "")[i]? = some w ↔ args[i]? = some w) := by
    intro i w hw
    grind
  unfold Subcommand.ofWord at h ⊢
  split at h
  case h_8 => rwa [if_congr (hget 0 "as" (by decide)) rfl rfl]
  case h_10 =>
    rw [storeForm_eq_known_iff] at h ⊢
    simpa (disch := decide) only [hget] using h
  case h_11 =>
    rw [conditionForm_eq_known_iff] at h ⊢
    simpa (disch := decide) only [hget] using h
  case h_12 =>
    rw [conditionForm_eq_known_iff] at h ⊢
    simpa (disch := decide) only [hget] using h
  all_goals exact h

/-- A subcommand with too few arguments is the beginning of a complete one. -/
theorem truncated_of_ofWord (h : Subcommand.ofWord word args = .known n)
    (hlen : args.length < n) : Truncated (word :: args) := by
  refine ⟨List.cons_ne_nil _ _, List.replicate (n - args.length) "", ?_, ?_⟩
  · intro hnil
    have := congrArg List.length hnil
    rw [List.length_replicate, List.length_nil] at this
    omega
  · have hfull : (args ++ List.replicate (n - args.length) "").length = n := by
      rw [List.length_append, List.length_replicate]
      omega
    show Complete (word :: (args ++ List.replicate (n - args.length) ""))
    apply complete_of_ofWord []
    rw [List.append_nil, hfull]
    exact Subcommand.ofWord_append_replicate _ h

end PackLint.Execute
