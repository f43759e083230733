import Mathlib.Tactic.FinCases
import PackLint.Command.Execute

/-! # Stepping over the arguments of `execute`

    The search for `run` passes over the arguments of a subcommand as a whole, so it
    steps from one subcommand to the next; where it ends, there is the word `run`.

    `Complete` lists the forms of a subcommand with all of its arguments, whatever
    words these are.  Behind complete subcommands the search goes on as at the
    beginning, so it finds the `run` that follows them. -/

namespace PackLint.Execute

theorem storeForm_ne_run (target : Option String) : storeForm target ≠ .run := by
  unfold storeForm
  split <;> exact Subcommand.noConfusion

theorem conditionForm_ne_run (args : List String) : conditionForm args ≠ .run := by
  unfold conditionForm
  split <;> exact Subcommand.noConfusion

/-- Only the word `run` is the keyword. -/
theorem Subcommand.ofWord_eq_run_iff {word : String} {args : List String} :
    Subcommand.ofWord word args = .run ↔ word = "run" := by
  constructor
  · intro h
    unfold Subcommand.ofWord at h
    split at h
    case h_1 => rfl
    case h_10 => exact absurd h (storeForm_ne_run _)
    case h_11 => exact absurd h (conditionForm_ne_run _)
    case h_12 => exact absurd h (conditionForm_ne_run _)
    all_goals exact nomatch h
  · rintro rfl
    rfl

/-- The search ends at a word `run`. -/
theorem getElem?_of_runIndex? {passing i : Nat} {words : List String}
    (h : runIndex? passing words = some i) : words[i]? = some "run" := by
  fun_induction runIndex? passing words generalizing i with
  | case1 => exact nomatch h
  | case2 passing word rest ih =>
      obtain ⟨j, hj, rfl⟩ := Option.map_eq_some_iff.mp h
      exact ih hj
  | case3 word rest hword =>
      obtain rfl : 0 = i := Option.some.inj h
      rw [Subcommand.ofWord_eq_run_iff.mp hword]
      rfl
  | case4 word rest arity hword ih =>
      obtain ⟨j, hj, rfl⟩ := Option.map_eq_some_iff.mp h
      exact ih hj
  | case5 => exact nomatch h
  | case6 word rest hword =>
      obtain ⟨j, hj, rfl⟩ := Option.map_eq_some_iff.mp h
      obtain ⟨hlt, hget, -⟩ := List.idxOf?_eq_some_iff.mp hj
      rw [List.getElem?_cons_succ, List.getElem?_eq_getElem hlt, hget]

/-! ## Complete subcommands -/

/-- The words of a subcommand with all of its arguments. -/
inductive Complete : List String → Prop
  | single {word x : String} (hword : word ∈ ["align", "anchored", "as", "at", "in"]) :
      Complete [word, x]
  | facing (x y z : String) : Complete ["facing", x, y, z]
  | positionedAs (x : String) : Complete ["positioned", "as", x]
  | positioned {x : String} (hx : x ≠ "as") (y z : String) : Complete ["positioned", x, y, z]
  | rotated (x y : String) : Complete ["rotated", x, y]
  | storeBlock (r : String) {xs : List String} (hxs : xs.length = 6) :
      Complete ("store" :: r :: "block" :: xs)
  | storeCount (r : String) {what : String} (hwhat : what ∈ ["bossbar", "score"])
      {xs : List String} (hxs : xs.length = 2) : Complete ("store" :: r :: what :: xs)
  | storeData (r : String) {what : String} (hwhat : what ∈ ["entity", "storage"])
      {xs : List String} (hxs : xs.length = 4) : Complete ("store" :: r :: what :: xs)
  | block {test : String} (htest : test ∈ ["if", "unless"]) {xs : List String}
      (hxs : xs.length = 4) : Complete (test :: "block" :: xs)
  | blocks {test : String} (htest : test ∈ ["if", "unless"]) {xs : List String}
      (hxs : xs.length = 10) : Complete (test :: "blocks" :: xs)
  | dataBlock {test : String} (htest : test ∈ ["if", "unless"]) {xs : List String}
      (hxs : xs.length = 4) : Complete (test :: "data" :: "block" :: xs)
  | data {test k : String} (htest : test ∈ ["if", "unless"]) (hk : k ≠ "block")
      {xs : List String} (hxs : xs.length = 2) : Complete (test :: "data" :: k :: xs)
  | presence {test what : String} (htest : test ∈ ["if", "unless"])
      (hwhat : what ∈ ["entity", "predicate"]) (x : String) : Complete [test, what, x]
  | scoreMatches {test : String} (htest : test ∈ ["if", "unless"]) (a b v : String) :
      Complete [test, "score", a, b, "matches", v]
  | score {test op : String} (htest : test ∈ ["if", "unless"]) (hop : op ≠ "matches")
      (a b c d : String) : Complete [test, "score", a, b, op, c, d]

/-- Both words of a condition are treated alike. -/
theorem Subcommand.ofWord_of_mem_conditions {test : String} (htest : test ∈ ["if", "unless"])
    (args : List String) : Subcommand.ofWord test args = conditionForm args := by
  rcases List.mem_cons.mp htest with rfl | htest
  · rfl
  · rw [List.mem_singleton.mp htest]
    rfl

/-- A complete subcommand has as many arguments as its form says, whatever follows. -/
theorem Complete.exists_ofWord {ws : List String} (h : Complete ws) (rest : List String) :
    ∃ word args, ws = word :: args
      ∧ Subcommand.ofWord word (args ++ rest) = .known args.length := by
  cases h with
  | @single word x hword =>
      refine ⟨word, [x], rfl, ?_⟩
      fin_cases hword <;> rfl
  | facing x y z => exact ⟨_, _, rfl, rfl⟩
  | positionedAs x => exact ⟨_, _, rfl, rfl⟩
  | @positioned x hx y z =>
      refine ⟨_, _, rfl, ?_⟩
      show Subcommand.known (if some x = some "as" then 2 else 3) = .known 3
      rw [if_neg (by simpa using hx)]
  | rotated x y => exact ⟨_, _, rfl, rfl⟩
  | storeBlock r hxs =>
      refine ⟨_, _, rfl, ?_⟩
      rw [List.length_cons, List.length_cons, hxs]
      rfl
  | storeCount r hwhat hxs =>
      refine ⟨_, _, rfl, ?_⟩
      rw [List.length_cons, List.length_cons, hxs]
      fin_cases hwhat <;> rfl
  | storeData r hwhat hxs =>
      refine ⟨_, _, rfl, ?_⟩
      rw [List.length_cons, List.length_cons, hxs]
      fin_cases hwhat <;> rfl
  | block htest hxs =>
      refine ⟨_, _, rfl, ?_⟩
      rw [Subcommand.ofWord_of_mem_conditions htest, List.length_cons, hxs]
      rfl
  | blocks htest hxs =>
      refine ⟨_, _, rfl, ?_⟩
      rw [Subcommand.ofWord_of_mem_conditions htest, List.length_cons, hxs]
      rfl
  | dataBlock htest hxs =>
      refine ⟨_, _, rfl, ?_⟩
      rw [Subcommand.ofWord_of_mem_conditions htest, List.length_cons, List.length_cons, hxs]
      rfl
  | @data test k htest hk xs hxs =>
      refine ⟨_, _, rfl, ?_⟩
      rw [Subcommand.ofWord_of_mem_conditions htest, List.length_cons, List.length_cons, hxs]
      show Subcommand.known (if some k = some "block" then 6 else 4) = .known 4
      rw [if_neg (by simpa using hk)]
  | presence htest hwhat x =>
      refine ⟨_, _, rfl, ?_⟩
      rw [Subcommand.ofWord_of_mem_conditions htest]
      fin_cases hwhat <;> rfl
  | scoreMatches htest a b v =>
      refine ⟨_, _, rfl, ?_⟩
      rw [Subcommand.ofWord_of_mem_conditions htest]
      rfl
  | @score test op htest hop a b c d =>
      refine ⟨_, _, rfl, ?_⟩
      rw [Subcommand.ofWord_of_mem_conditions htest]
      show Subcommand.known (if some op = some "matches" then 5 else 6) = .known 6
      rw [if_neg (by simpa using hop)]

/-- Some words are passed over, and the search begins behind them. -/
theorem runIndex?_eq_drop (n : Nat) (words : List String) :
    runIndex? n words = (runIndex? 0 (words.drop n)).map (· + n) := by
  induction words generalizing n with
  | nil => cases n <;> rfl
  | cons word words ih =>
      cases n with
      | zero => exact Option.map_id'.symm
      | succ n =>
          rw [runIndex?, ih, Option.map_map, List.drop_succ_cons]
          rfl

/-- A known subcommand is passed over together with its arguments. -/
theorem runIndex?_zero_cons_of_known {word : String} {args : List String} {n : Nat}
    (h : Subcommand.ofWord word args = .known n) :
    runIndex? 0 (word :: args) = (runIndex? 0 (args.drop n)).map (· + (n + 1)) := by
  rw [runIndex?, h]
  show (runIndex? n args).map (· + 1) = _
  rw [runIndex?_eq_drop, Option.map_map]
  rfl

/-- Behind a complete subcommand the search goes on as at the beginning. -/
theorem Complete.runIndex?_append {ws : List String} (h : Complete ws) (rest : List String) :
    runIndex? 0 (ws ++ rest) = (runIndex? 0 rest).map (· + ws.length) := by
  obtain ⟨word, args, rfl, hform⟩ := h.exists_ofWord rest
  rw [List.cons_append, runIndex?_zero_cons_of_known hform, List.drop_left, List.length_cons]

/-- Behind complete subcommands the search goes on as at the beginning. -/
theorem runIndex?_append_of_complete {S : List (List String)} (hS : ∀ ws ∈ S, Complete ws)
    (rest : List String) :
    runIndex? 0 (S.flatten ++ rest) = (runIndex? 0 rest).map (· + S.flatten.length) := by
  induction S with
  | nil => exact Option.map_id'.symm
  | cons ws S ih =>
      obtain ⟨hws, hS⟩ := List.forall_mem_cons.mp hS
      rw [List.flatten_cons, List.append_assoc, hws.runIndex?_append, ih hS, Option.map_map,
        List.length_append]
      congr 1
      funext i
      simp only [Function.comp_apply]
      omega

/-- The `run` behind complete subcommands is found. -/
theorem runIndex?_flatten_append {S : List (List String)} (hS : ∀ ws ∈ S, Complete ws)
    (rest : List String) : runIndex? 0 (S.flatten ++ "run" :: rest) = some S.flatten.length := by
  rw [runIndex?_append_of_complete hS]
  exact congrArg some (Nat.zero_add _)

end PackLint.Execute
