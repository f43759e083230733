import PackLint.Proofs.Pack.Removal

/-! # What is loaded

    A load that succeeds has loaded every directory in `data` as a namespace, and in a
    namespace every file that has the extension of a kind below the directory of the
    kind, once, save for the files that should be JSON and are not.  A file that it
    passes over can be removed. -/

namespace PackLint

open Text

namespace SourceFile

/-- The file holds a resource of the pack.  It is below the directory of its kind in a
    namespace, its name ends with the extension of the kind, and if it is no function its
    text is JSON. -/
structure HoldsResource (owner : String) (tree : FileTree) (f : SourceFile) : Prop where
  at?_eq : tree.at? (f.packPath owner) = some (.file f.entry.bytes)
  named : f.Named
  json : f.kind ≠ .function →
    ∃ text content, String.fromUTF8? f.entry.bytes = some text
      ∧ Json.ofText? text = some content

/-- The resource that a file holds: the function with its text, or a document or tag
    that keeps the text beside the value that it denotes. -/
inductive Holds (owner : String) (f : SourceFile) : Resource → Prop
  | function {text : String} (hkind : f.kind = .function)
      (htext : String.fromUTF8? f.entry.bytes = some text) :
      Holds owner f (.function (Function.ofText (f.id owner) text))
  | document {kind : DocumentKind} {text : String} {content : Json}
      (hkind : f.kind = .document kind) (htext : String.fromUTF8? f.entry.bytes = some text)
      (hcontent : Json.ofText? text = some content) :
      Holds owner f (.document kind ⟨f.id owner, text, content⟩)
  | tag {kind : TagKind} {text : String} {content : Json} (hkind : f.kind = .tag kind)
      (htext : String.fromUTF8? f.entry.bytes = some text)
      (hcontent : Json.ofText? text = some content) :
      Holds owner f (.tag kind ⟨f.id owner, text, content⟩)

variable {owner : String} {f : SourceFile}

/-- The resource that is read from a file is the one that it holds. -/
theorem holds_of_resource? {r : Resource} (h : f.resource? owner = some r) : f.Holds owner r := by
  obtain ⟨text, htext, hr⟩ := Option.bind_eq_some_iff.mp h
  cases hkind : f.kind with
  | function =>
      rw [hkind] at hr
      cases hr
      exact .function hkind htext
  | document kind =>
      rw [hkind] at hr
      obtain ⟨d, hd, rfl⟩ := Option.map_eq_some_iff.mp hr
      obtain ⟨content, hcontent, rfl⟩ := Option.map_eq_some_iff.mp hd
      exact .document hkind htext hcontent
  | tag kind =>
      rw [hkind] at hr
      obtain ⟨d, hd, rfl⟩ := Option.map_eq_some_iff.mp hr
      obtain ⟨content, hcontent, rfl⟩ := Option.map_eq_some_iff.mp hd
      exact .tag hkind htext hcontent

/-- A file that is text holds a resource if this is a function or the text is JSON. -/
theorem isSome_resource?_iff {text : String}
    (htext : String.fromUTF8? f.entry.bytes = some text) :
    (f.resource? owner).isSome = true
      ↔ (f.kind ≠ .function → ∃ content, Json.ofText? text = some content) := by
  rw [resource?, htext, Option.bind_some]
  cases hkind : f.kind with
  | function => exact iff_of_true rfl fun hne => absurd rfl hne
  | document kind =>
      simp [Resource.ofText?, Document.ofText?, Option.isSome_iff_exists]
  | tag kind =>
      simp [Resource.ofText?, Document.ofText?, Option.isSome_iff_exists]

end SourceFile

/-- What is left of a list by a partial function are the images of the elements that have
    one. -/
theorem forall₂_filter_isSome_filterMap {α β : Type} (g : α → Option β) (xs : List α) :
    List.Forall₂ (fun x y => g x = some y) (xs.filter fun x => (g x).isSome)
      (xs.filterMap g) := by
  induction xs with
  | nil => exact .nil
  | cons x xs ih =>
      cases hx : g x with
      | none =>
          rw [List.filterMap_cons_none hx, List.filter_cons_of_neg (by simp [hx])]
          exact ih
      | some y =>
          rw [List.filterMap_cons_some hx, List.filter_cons_of_pos (by simp [hx])]
          exact .cons hx ih

namespace Namespace

/-- Files can be added exactly if they are text. -/
theorem exists_foldlM_addFile_iff {ns : Namespace} {fs : List SourceFile} :
    (∃ loaded, fs.foldlM addFile ns = .ok loaded)
      ↔ ∀ f ∈ fs, ∃ text, String.fromUTF8? f.entry.bytes = some text := by
  induction fs generalizing ns with
  | nil => exact iff_of_true ⟨ns, rfl⟩ fun f hf => absurd hf List.not_mem_nil
  | cons f fs ih =>
      rw [List.forall_mem_cons, List.foldlM_cons]
      constructor
      · rintro ⟨loaded, h⟩
        obtain ⟨next, hnext, h⟩ := bind_eq_ok.mp h
        refine ⟨?_, ih.mp ⟨loaded, h⟩⟩
        obtain ⟨text, htext, _⟩ := bind_eq_ok.mp hnext
        rw [SourceFile.text] at htext
        split at htext
        · rename_i text hbytes
          exact ⟨text, hbytes⟩
        · cases htext
      · rintro ⟨⟨text, htext⟩, hfs⟩
        rw [addFile_of_text htext]
        exact ih.mpr hfs

/-- The files of which the resources were loaded are those that hold one. -/
theorem mem_loadedFiles_iff {tree directory : FileTree} (hwf : tree.WellFormed)
    {owner : String} (hdirectory : tree.at? ["data", owner] = some directory) {ns : Namespace}
    (h : load owner directory = .ok ns) {kind : Kind} {f : SourceFile} :
    f ∈ loadedFiles owner directory kind ↔ f.kind = kind ∧ f.HoldsResource owner tree := by
  -- the load has read all files of the namespace, functions included
  have htexts := exists_foldlM_addFile_iff.mp ⟨ns, h⟩
  rw [loadedFiles, List.mem_filter]
  constructor
  · rintro ⟨hf, hsome⟩
    obtain ⟨text, htext⟩ := htexts f (List.mem_flatMap.mpr ⟨kind, Kind.mem_all kind, hf⟩)
    obtain ⟨rfl, hextension, hat⟩ := (mem_sourceFiles_iff (hwf.at? hdirectory)).mp hf
    rw [← FileTree.at?_packPath hdirectory] at hat
    refine ⟨rfl, hat, SourceFile.named_iff.mpr hextension, ?_⟩
    intro hkind
    obtain ⟨content, hcontent⟩ := (SourceFile.isSome_resource?_iff htext).mp hsome hkind
    exact ⟨text, content, htext, hcontent⟩
  · rintro ⟨rfl, hat, hnamed, hjson⟩
    have hf : f ∈ sourceFiles directory f.kind := by
      rw [FileTree.at?_packPath hdirectory] at hat
      exact (mem_sourceFiles_iff (hwf.at? hdirectory)).mpr
        ⟨rfl, SourceFile.named_iff.mp hnamed, hat⟩
    obtain ⟨text, htext⟩ := htexts f (List.mem_flatMap.mpr ⟨f.kind, Kind.mem_all f.kind, hf⟩)
    refine ⟨hf, (SourceFile.isSome_resource?_iff htext).mpr ?_⟩
    intro hkind
    obtain ⟨text', content, htext', hcontent⟩ := hjson hkind
    obtain rfl := Option.some.inj (htext.symm.trans htext')
    exact ⟨content, hcontent⟩

end Namespace

/-- The resources of a kind in a namespace that was loaded are those in the files that hold
    one there. -/
theorem Pack.exists_files_of_mem_namespaces {path : String} {tree : FileTree} {pack : Pack}
    (hwf : tree.WellFormed) (h : Pack.load path (some tree) = .ok pack) {ns : Namespace}
    (hns : ns ∈ pack.namespaces) (kind : Kind) :
    ∃ fs : List SourceFile, fs.Nodup
      ∧ (∀ f, f ∈ fs ↔ f.kind = kind ∧ f.HoldsResource ns.name tree)
      ∧ List.Forall₂ (SourceFile.Holds ns.name) fs (ns.ofKind kind) := by
  obtain ⟨directory, hmem, hload⟩ := Pack.exists_of_mem_namespaces h hns
  have hdirectory := at?_of_mem_namespaceTrees hwf hmem
  refine ⟨loadedFiles ns.name directory kind, ?_, ?_, ?_⟩
  · refine (pairwise_loadedFiles (hwf.at? hdirectory) ns.name kind).imp ?_
    rintro f _ hlt rfl
    exact hlt.irrefl
  · exact fun f => Namespace.mem_loadedFiles_iff hwf hdirectory hload
  · rw [Namespace.ofKind_of_load hload]
    exact (forall₂_filter_isSome_filterMap (SourceFile.resource? ns.name) _).imp
      fun _ _ => SourceFile.holds_of_resource?

/-- **What is loaded.**  The namespaces are the directories in `data`, each once.  The
    resources of a kind in a namespace are those of the files that hold one there, one
    resource for each file.  A file is in one namespace and of one kind only.  A tree
    without a file that the load passes over is loaded in the same way. -/
theorem load_exact {path : String} {tree : FileTree} {pack : Pack} (hwf : tree.WellFormed)
    (h : Pack.load path (some tree) = .ok pack) :
    (pack.namespaces.map (·.name)).Nodup
      ∧ (∀ name, name ∈ pack.namespaces.map (·.name)
        ↔ ∃ entries, tree.at? ["data", name] = some (.directory entries))
      ∧ ((∀ entries, tree.at? ["data"] ≠ some (.directory entries)) → pack.namespaces = [])
      ∧ (∀ ns ∈ pack.namespaces, ∀ kind, ∃ fs : List SourceFile, fs.Nodup
        ∧ (∀ f, f ∈ fs ↔ f.kind = kind ∧ f.HoldsResource ns.name tree)
        ∧ List.Forall₂ (SourceFile.Holds ns.name) fs (ns.ofKind kind))
      ∧ (∀ (owner other : String) (f g : SourceFile), f.HoldsResource owner tree →
        g.HoldsResource other tree → f.packPath owner = g.packPath other →
        owner = other ∧ f = g)
      ∧ ∀ (owner : String) (f : SourceFile), f.PassedOver owner tree →
        let removed := f.packPath owner
        (tree.removeFile removed).WellFormed
          ∧ FileTree.Removes removed tree (tree.removeFile removed)
          ∧ ∀ rest : FileTree, rest.WellFormed → FileTree.Removes removed tree rest →
            Pack.load path (some rest) = .ok pack := by
  have hnames : ∀ name, name ∈ pack.namespaces.map (·.name)
      ↔ ∃ entries, tree.at? ["data", name] = some (.directory entries) := by
    intro name
    rw [Pack.map_name_of_load h, mem_map_fst_namespaceTrees_iff hwf]
  refine ⟨?_, hnames, ?_, ?_, ?_, ?_⟩
  · rw [Pack.map_name_of_load h]
    exact (List.pairwise_map.mpr (pairwise_namespaceTrees hwf)).imp ne_of_lt
  · intro hdata
    refine List.eq_nil_iff_forall_not_mem.mpr ?_
    intro ns hns
    obtain ⟨entries, hat⟩ := (hnames ns.name).mp (List.mem_map_of_mem hns)
    obtain ⟨node, hnode, hat⟩ := Option.bind_eq_some_iff.mp hat
    cases node with
    | file bytes => exact nomatch hat
    | directory inner =>
        rw [← FileTree.at?_singleton] at hnode
        exact hdata inner hnode
  · exact fun ns hns kind => Pack.exists_files_of_mem_namespaces hwf h hns kind
  · intro owner other f g hf hg
    exact SourceFile.eq_of_packPath_eq hf.at?_eq hg.at?_eq
  · intro owner f hf removed
    refine ⟨hwf.removeFile removed, FileTree.removes_removeFile (List.cons_ne_nil _ _) hwf, ?_⟩
    intro rest hrest hremoves
    rw [Pack.load_eq_of_passedOver hwf hrest hf hremoves, h]

/-! ## A namespace with recipes -/

/-- A namespace that has these files, by their names and texts, in its directory of
    recipes. -/
def recipesTree (files : List (String × String)) : FileTree :=
  .directory [("recipes", .directory (files.map fun e => (e.1, .file e.2.toUTF8)))]

section RecipesTree

variable {owner : String} {files : List (String × String)}

/-- Recipes in files with different names make a well-formed pack. -/
theorem wellFormed_recipesTree (howner : IsFileName owner)
    (hnodup : (files.map (·.1)).Nodup) (hnames : ∀ e ∈ files, IsFileName e.1) :
    (FileTree.directory
      [("data", .directory [(owner, recipesTree files)])]).WellFormed := by
  have hfiles : (FileTree.directory (files.map fun e => (e.1, .file e.2.toUTF8))).WellFormed := by
    refine FileTree.wellFormed_directory.mpr ⟨?_, ?_⟩
    · rw [List.map_map]
      exact hnodup
    · intro e he
      obtain ⟨e, hmem, rfl⟩ := List.mem_map.mp he
      exact ⟨hnames e hmem, trivial⟩
  have hsingle : ∀ {name : String} {tree : FileTree}, IsFileName name →
      tree.WellFormed → (FileTree.directory [(name, tree)]).WellFormed := by
    intro name tree hname htree
    exact FileTree.wellFormed_directory.mpr
      ⟨List.pairwise_singleton _ _, List.forall_mem_singleton.mpr ⟨hname, htree⟩⟩
  exact hsingle (by decide) (hsingle howner (hsingle (by decide) hfiles))

/-- Files that are listed in order are walked in this order. -/
theorem sourceFiles_recipesTree (h : files.Pairwise fun d e => d.1 ≤ e.1) :
    sourceFiles (recipesTree files) (.document .recipe)
      = (files.filter fun e => extension? e.1 == some "json").map
        fun e => ⟨.document .recipe, ⟨[], e.1, e.2.toUTF8⟩⟩ := by
  have hfiles : FileTree.files (.directory (files.map fun e => (e.1, .file e.2.toUTF8)))
      = files.map fun e => ⟨[], e.1, e.2.toUTF8⟩ := by
    rw [FileTree.files_directory, List.map_map, sortByName_of_pairwise, List.flatMap_map]
    · exact List.flatMap_pure_eq_map _ _
    · exact List.pairwise_map.mpr h
  show List.map _ (List.filter _ (FileTree.files (.directory _))) = _
  rw [hfiles, List.filter_map, List.map_map]
  rfl

/-- A file among them that is JSON holds a recipe. -/
theorem holdsResource_recipesTree (hnodup : (files.map (·.1)).Nodup) {name text : String}
    (hfile : (name, text) ∈ files)
    (hnamed : SourceFile.Named ⟨.document .recipe, ⟨[], name, text.toUTF8⟩⟩)
    (hjson : (Json.ofText? text).isSome = true) :
    SourceFile.HoldsResource owner
      (.directory [("data", .directory [(owner, recipesTree files)])])
      ⟨.document .recipe, ⟨[], name, text.toUTF8⟩⟩ := by
  obtain ⟨content, hcontent⟩ := Option.isSome_iff_exists.mp hjson
  have hlookup : (files.map fun e => (e.1, FileTree.file e.2.toUTF8)).lookup name
      = some (.file text.toUTF8) := by
    refine FileTree.lookup_eq_some_of_mem ?_ (List.mem_map.mpr ⟨_, hfile, rfl⟩)
    rw [List.map_map]
    exact hnodup
  refine ⟨?_, hnamed, fun _ => ⟨text, content, fromUTF8?_toUTF8 text, hcontent⟩⟩
  have howner : FileTree.at? ["data", owner]
      (.directory [("data", .directory [(owner, recipesTree files)])])
        = some (recipesTree files) := by
    show (List.lookup owner [(owner, recipesTree files)]).bind (FileTree.at? []) = _
    rw [List.lookup_cons_self]
    rfl
  rw [FileTree.at?_packPath howner]
  show (List.lookup name _).bind (FileTree.at? []) = _
  rw [hlookup]
  rfl

end RecipesTree

/-- Files that are text can be loaded, whether they are JSON or not. -/
theorem exists_load_recipesTree (name : String) (files : List (String × String)) :
    ∃ ns, Namespace.load name (recipesTree files) = .ok ns := by
  have hrecipes : Kind.all.flatMap (sourceFiles (recipesTree files))
      = sourceFiles (recipesTree files) (.document .recipe) := by
    simp only [Kind.all, List.flatMap_cons, List.flatMap_nil, List.append_nil]
    exact List.append_nil _
  refine Namespace.exists_foldlM_addFile_iff.mpr ?_
  rw [hrecipes]
  intro f hf
  obtain ⟨entry, hentry, rfl⟩ := List.mem_map.mp hf
  obtain ⟨e, he, hentry⟩ := FileTree.mem_files_directory.mp (List.mem_of_mem_filter hentry)
  obtain ⟨e, _, rfl⟩ := List.mem_map.mp he
  obtain rfl := List.mem_singleton.mp hentry
  exact ⟨e.2, fromUTF8?_toUTF8 e.2⟩

/-- A pack of one namespace without metadata is loaded if the namespace is. -/
theorem Pack.load_of_namespace {name : String} {entries : List (String × FileTree)}
    {ns : Namespace} (h : Namespace.load name (.directory entries) = .ok ns) (path : String) :
    load path (some (.directory [("data", .directory [(name, .directory entries)])]))
      = .ok ⟨.null, [ns]⟩ := by
  have htrees : namespaceTrees (.directory [("data", .directory [(name, .directory entries)])])
      = [(name, .directory entries)] :=
    sortByName_of_pairwise (List.pairwise_singleton _ _)
  simp only [load, htrees, List.mapM_cons, List.mapM_nil, h]
  rfl

/-- The recipe is loaded, and it is loaded without the file that is no JSON, too. -/
theorem load_exact_recipes :
    let tree : FileTree := .directory [("data", .directory [("m",
      recipesTree [("a.json", "{}"), ("b.json", "no JSON"), ("c.txt", "{}")])])]
    tree.WellFormed ∧ ∃ pack, Pack.load "." (some tree) = .ok pack
      ∧ (∃ ns ∈ pack.namespaces, ns.name = "m" ∧ ns.ofKind (.document .recipe) ≠ [])
      ∧ Pack.load "." (some (tree.removeFile ["data", "m", "recipes", "b.json"])) = .ok pack := by
  intro tree
  have hwf : tree.WellFormed :=
    wellFormed_recipesTree (by decide) (by decide) (by decide)
  obtain ⟨ns, hns⟩ := exists_load_recipesTree "m"
    [("a.json", "{}"), ("b.json", "no JSON"), ("c.txt", "{}")]
  have hload : Pack.load "." (some tree) = .ok ⟨.null, [ns]⟩ := Pack.load_of_namespace hns "."
  obtain ⟨_, _, _, hfiles, _, hremove⟩ := load_exact hwf hload
  have hname : ns.name = "m" := Namespace.name_of_load hns
  refine ⟨hwf, _, hload, ⟨ns, List.mem_cons_self, hname, ?_⟩, ?_⟩
  · obtain ⟨fs, _, hmem, hholds⟩ := hfiles ns List.mem_cons_self (.document .recipe)
    have hrecipe : (⟨.document .recipe, ⟨[], "a.json", "{}".toUTF8⟩⟩ : SourceFile) ∈ fs := by
      refine (hmem _).mpr ⟨rfl, hname ▸ holdsResource_recipesTree (by decide) ?_ ?_ ?_⟩
      · exact List.mem_cons_self
      · exact ⟨"a", by decide, by decide⟩
      · decide +kernel
    intro hnil
    rw [hnil, List.forall₂_nil_right_iff] at hholds
    rw [hholds] at hrecipe
    exact List.not_mem_nil hrecipe
  · have hpassed : SourceFile.PassedOver "m" tree
        ⟨.document .recipe, ⟨[], "b.json", "no JSON".toUTF8⟩⟩ := by
      refine ⟨rfl, .inr ⟨by decide, "no JSON", fromUTF8?_toUTF8 "no JSON", ?_⟩⟩
      exact Option.isNone_iff_eq_none.mp (by decide +kernel)
    obtain ⟨hrest, hremoves, hsame⟩ := hremove "m" _ hpassed
    exact hsame _ hrest hremoves

end PackLint
