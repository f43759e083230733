import PackLint.CommandLine.Run
import PackLint.Proofs.Pack.Exact
import PackLint.Proofs.Pack.Relisting

/-! # The order of directories

    Nothing that the program does depends on the order in which the directories of a tree
    list their entries, nor on the order in which the files of the tree were made: the
    same packs are loaded, or the same errors are met, and the findings are the same in
    the same order. -/

namespace PackLint

open FileTree

/-! ## Loading from another listing -/

/-- Nothing is removed from a directory with another listing. -/
theorem FileTree.Relists.removes {entries : List (String × FileTree)} {other : FileTree}
    (h : Relists (.directory entries) other) : Removes [] (.directory entries) other := by
  have hnode : ∀ {x y : Option FileTree}, Option.Rel Relists x y →
      ((∃ inner, y = some (.directory inner)) ↔ ∃ inner, x = some (.directory inner))
        ∧ ∀ bytes, y = some (.file bytes) ↔ x = some (.file bytes) := by
    intro x y hxy
    cases hxy with
    | none => simp
    | some hxy => cases hxy <;> simp
  constructor
  · exact fun q => (hnode (h.at? q)).1
  · intro q bytes
    have hne : (FileTree.directory entries).at? q = some (.file bytes) → q ≠ [] := by
      rintro hat rfl
      exact nomatch hat
    rw [and_iff_left_of_imp hne]
    exact (hnode (h.at? q)).2 bytes

/-- The packs that are loaded from two listings of a directory are equal, or the errors. -/
theorem FileTree.Relists.load_eq {tree other : FileTree} (h : Relists tree other)
    (hwf : tree.WellFormed) (path : String) :
    Pack.load path (some other) = Pack.load path (some tree) := by
  cases tree with
  | file bytes =>
      cases h
      rfl
  | directory entries =>
      have hother := h.wellFormed hwf
      refine h.removes.load_eq hwf hother (by decide) ?_ path
      intro name directory inner hdirectory hinner
      have hfiles : sourceFiles inner = sourceFiles directory := by
        funext kind
        rw [h.removes.sourceFiles_eq_filter hwf hother hdirectory hinner, List.filter_eq_self]
        exact fun f _ => bne_iff_ne.mpr (List.cons_ne_nil _ _)
      rw [Namespace.load, Namespace.load, hfiles]

/-! ## Runs on another listing -/

/-- The same is found, or the same with another listing. -/
abbrev Relisted : Option FileTree → Option FileTree → Prop :=
  Option.Rel fun tree other => tree.WellFormed ∧ tree.Relists other

namespace FileTree

theorem follow?_cons (piece : List Char) (rest : List (List Char)) (above : List FileTree)
    (tree : FileTree) :
    follow? (piece :: rest) above tree
      = if !tree.isDirectory then none
        else if piece == [] || piece == ['.'] then follow? rest above tree
        else if piece == ['.', '.'] then follow? rest above.tail (above.headD (directory []))
        else (tree.entry? (String.ofList piece)).bind (follow? rest (tree :: above)) := by
  cases above <;> simp only [follow?] <;> cases tree.entry? (String.ofList piece) <;> rfl

/-- The same is found under each name. -/
theorem relisted_child {tree other : FileTree} (h : tree.WellFormed ∧ tree.Relists other)
    (name : String) : Relisted (tree.entry? name) (other.entry? name) :=
  rel_and_left (h.2.child name) fun _ hchild => h.1.of_child hchild

/-- The same is found along the pieces of a path, also where they lead up again. -/
theorem relisted_follow? {pieces : List (List Char)} {above others : List FileTree}
    {tree other : FileTree}
    (habove : List.Forall₂ (fun tree other => tree.WellFormed ∧ tree.Relists other) above others)
    (h : tree.WellFormed ∧ tree.Relists other) :
    Relisted (follow? pieces above tree) (follow? pieces others other) := by
  induction pieces generalizing above others tree other with
  | nil => exact .some h
  | cons piece pieces ih =>
      have hempty : (directory []).WellFormed ∧ (directory []).Relists (directory []) :=
        ⟨wellFormed_empty, .refl _⟩
      rw [follow?_cons, follow?_cons, h.2.isDirectory]
      split
      · exact .none
      · split
        · exact ih habove h
        · split
          · cases habove with
            | nil => exact ih .nil hempty
            | cons hparent habove => exact ih habove hparent
          · exact rel_bind (relisted_child h _) fun _ _ hchild => ih (.cons h habove) hchild

/-- Along every path the same is found. -/
theorem relisted_resolve? {tree other : FileTree} (h : tree.WellFormed ∧ tree.Relists other)
    (path : String) : Relisted (tree.resolve? path) (other.resolve? path) := by
  rw [resolve?, resolve?]
  split
  · exact relisted_follow? .nil ⟨wellFormed_empty, .refl _⟩
  · exact relisted_follow? .nil h

end FileTree

/-- What is found is loaded alike. -/
theorem Relisted.load_eq {node other : Option FileTree} (h : Relisted node other)
    (path : String) : Pack.load path other = Pack.load path node := by
  cases h with
  | none => rfl
  | some h => exact h.2.load_eq h.1 path

/-- The texts that are found are the same. -/
theorem Relisted.bind_text? {node other : Option FileTree} (h : Relisted node other) :
    other.bind FileTree.text? = node.bind FileTree.text? := by
  cases h with
  | none => rfl
  | some h => exact h.2.text?

namespace CommandLine

variable {files others : String → Option FileTree}

/-- The findings are the same, in the same order, or the error is. -/
theorem report_eq_of_relisted (h : ∀ path, Relisted (files path) (others path)) (o : Options) :
    report others o = report files o := by
  have hconfig : loadConfig others o = loadConfig files o := by
    rw [loadConfig, loadConfig]
    cases o.config with
    | none => rfl
    | some path => simp only [(h path).bind_text?]
  rw [report, report]
  cases o.pack with
  | none => rfl
  | some path => simp only [(h path).load_eq, hconfig]

/-- Output and exit status are the same. -/
theorem run_eq_of_relisted (h : ∀ path, Relisted (files path) (others path))
    (args : List String) : run others args = run files args := by
  rw [run, run]
  cases Request.ofArgs args with
  | error e => rfl
  | ok request =>
      cases request with
      | version => rfl
      | run o => simp only [runOptions, report_eq_of_relisted h]

end CommandLine

/-! ## Runs that do not tell trees apart -/

/-- No run of the program tells the trees apart.  What is loaded from them is equal, or the
    error, and so are the findings in their order and what is printed. -/
structure FileTree.RunAlike (tree other : FileTree) : Prop where
  load : ∀ shown path, Pack.load shown (other.resolve? path) = Pack.load shown (tree.resolve? path)
  report : ∀ o, CommandLine.report other.resolve? o = CommandLine.report tree.resolve? o
  run : ∀ args, CommandLine.run other.resolve? args = CommandLine.run tree.resolve? args

/-- Listings of one tree are not told apart. -/
theorem FileTree.Relists.runAlike {tree other : FileTree} (h : tree.Relists other)
    (hwf : tree.WellFormed) : tree.RunAlike other := by
  have hsame : ∀ path, Relisted (tree.resolve? path) (other.resolve? path) :=
    relisted_resolve? ⟨hwf, h⟩
  constructor
  · exact fun shown path => (hsame path).load_eq shown
  · exact CommandLine.report_eq_of_relisted hsame
  · exact CommandLine.run_eq_of_relisted hsame

/-- **The order of directories does not matter.**  No run of the program tells a tree from one
    that lists the entries of its directories in other orders, nor the trees that are created
    by making the same files in two orders. -/
theorem load_independent_of_order :
    (∀ tree other : FileTree, tree.WellFormed → tree.Relists other → tree.RunAlike other)
      ∧ ∀ files others : List (List String × Option ByteArray), files.Perm others →
        (∀ e ∈ files, ∀ name ∈ e.1, IsFileName name) →
        (∀ d ∈ files, ∀ e ∈ files, Compatible d e) →
        (ofFiles files).RunAlike (ofFiles others) := by
  constructor
  · exact fun tree other hwf h => h.runAlike hwf
  · intro files others hperm hnames hcompatible
    refine Relists.runAlike ?_ (wellFormed_foldl_place hnames wellFormed_empty)
    exact relists_foldl_place hperm hcompatible (.directory [])

/-- Two namespaces may be listed in either order, and so may two recipes in one of them, and
    the recipes that are loaded are the same.  A directory may be made before or after the
    files in it. -/
theorem load_independent_of_order_two_recipes :
    let recipes : List (String × String) := [("a.json", "{}"), ("b.json", "[]")]
    let tree : FileTree := .directory [("data", .directory
      [("m", recipesTree recipes), ("n", .directory [])])]
    let other : FileTree := .directory [("data", .directory
      [("n", .directory []), ("m", recipesTree recipes.reverse)])]
    let files : List (List String × Option ByteArray) :=
      [(["data", "m", "recipes"], none),
        (["data", "m", "recipes", "a.json"], some "{}".toUTF8),
        (["data", "m", "recipes", "b.json"], some "[]".toUTF8)]
    tree.RunAlike other
      ∧ (∃ pack, Pack.load "." (other.resolve? ".") = .ok pack
        ∧ (pack.namespaces.flatMap fun ns => (ns.ofKind (.document .recipe)).map Resource.id)
          = ["m:a", "m:b"])
      ∧ (ofFiles files).RunAlike (ofFiles files.reverse) := by
  intro recipes tree other files
  have hwf : tree.WellFormed := by
    simp only [tree, recipes, recipesTree, List.map_cons, List.map_nil, WellFormed,
      EntriesWellFormed]
    decide
  have hrecipes : Relists (recipesTree recipes) (recipesTree recipes.reverse) := by
    refine .of_forall₂ (.cons ⟨rfl, .of_perm ?_ (by decide)⟩ .nil)
    exact (List.reverse_perm recipes).symm.map _
  have hrelists : tree.Relists other := by
    refine .of_forall₂ (.cons ⟨rfl, .trans (.of_forall₂ ?_) (.of_perm (.swap _ _ _) ?_)⟩ .nil)
    · exact .cons ⟨rfl, hrecipes⟩ (.cons ⟨rfl, .refl _⟩ .nil)
    · decide
  have halike := load_independent_of_order.1 tree other hwf hrelists
  refine ⟨halike, ?_, ?_⟩
  · obtain ⟨ns, hns⟩ := exists_load_recipesTree "m" recipes
    have htrees : namespaceTrees tree = [("m", recipesTree recipes), ("n", .directory [])] :=
      sortByName_of_pairwise (by decide)
    have hload : Pack.load "." (some tree) = .ok ⟨.null, [ns, .empty "n"]⟩ := by
      simp only [tree] at htrees
      simp only [tree, Pack.load, htrees, List.mapM_cons, List.mapM_nil, hns]
      rfl
    have hids : (ns.ofKind (.document .recipe)).map Resource.id = ["m:a", "m:b"] := by
      rw [Namespace.map_id_ofKind_of_load hns, loadedFiles, sourceFiles_recipesTree (by decide)]
      decide +kernel
    refine ⟨_, (halike.load "." ".").trans hload, ?_⟩
    rw [List.flatMap_cons, hids]
    rfl
  · refine load_independent_of_order.2 files _ (List.reverse_perm files).symm ?_ ?_
    · decide
    · simp [files, Compatible]

end PackLint
