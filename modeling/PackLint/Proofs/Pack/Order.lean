import PackLint.Proofs.Pack.Load
import PackLint.Proofs.Resource.Id
import PackLint.Proofs.Text.ByteOrder

/-! # The order of loaded resources

    Namespaces are loaded in the order of their names.  The resources of a kind are
    loaded in the order in which their files are walked, and this is the order of their
    ids unless one of the files overtakes another. -/

namespace PackLint

open Text

namespace SourceFile

/-- The path of a file in the directory of its kind overtakes that of another file. -/
def Overtakes (f g : SourceFile) : Prop :=
  Text.Overtakes f.entry.idPath f.entry.cut g.entry.idPath g.entry.cut

instance (f g : SourceFile) : Decidable (f.Overtakes g) :=
  inferInstanceAs (Decidable (Text.Overtakes _ _ _ _))

/-- In one namespace, ids are in the order of the paths without their extensions. -/
theorem id_lt_id_iff (owner : String) (f g : SourceFile) :
    f.id owner < g.id owner ↔ f.entry.idPath < g.entry.idPath := by
  have hprefix : ∀ (w p q : List Char), w ++ p < w ++ q ↔ p < q := by
    intro w p q
    induction w with
    | nil => exact Iff.rfl
    | cons c w ih => rw [List.cons_append, List.cons_append, List.cons_lt_cons_self, ih]
  rw [String.lt_iff, id, id, ResourceId.toList_ofFile, ResourceId.toList_ofFile, hprefix,
    List.cons_lt_cons_self]

/-- A file overtakes another one if it is walked first and has the larger id. -/
theorem overtakes_iff {f g : SourceFile} {extension : String}
    (hf : extension? f.entry.name = some extension)
    (hg : extension? g.entry.name = some extension) (owner : String) :
    f.Overtakes g ↔ WalkLt f.entry.path g.entry.path ∧ g.id owner < f.id owner := by
  rw [Overtakes, Text.overtakes_iff, ← FileEntry.path_eq_append hf,
    ← FileEntry.path_eq_append hg, id_lt_id_iff]

end SourceFile

/-! ## Files in the order in which they are walked -/

/-- The files of a tree are listed in the order of the walk. -/
theorem FileTree.pairwise_walkLt_files {tree : FileTree} (h : tree.WellFormed) :
    tree.files.Pairwise fun f g => WalkLt f.path g.path := by
  refine (pairwise_files h).imp_of_mem ?_
  intro f g _ hg hlt
  have hnames := isFileName_of_mem_files h hg
  refine WalkLt.of_lex hlt ?_ ?_
  · intro name hname
    obtain ⟨s, hs, rfl⟩ := List.mem_map.mp hname
    exact String.toList_eq_nil_iff.not.mpr (hnames s hs).1
  · intro name hname
    obtain ⟨s, hs, rfl⟩ := List.mem_map.mp hname
    exact (hnames s hs).2.2.2

/-- The files of a kind are listed in the order of the walk. -/
theorem pairwise_sourceFiles {tree : FileTree} (h : tree.WellFormed) (kind : Kind) :
    (sourceFiles tree kind).Pairwise fun f g => WalkLt f.entry.path g.entry.path := by
  simp only [sourceFiles]
  split
  · exact .nil
  · rename_i directory hdirectory
    rw [List.pairwise_map]
    exact (FileTree.pairwise_walkLt_files (h.at? hdirectory)).filter _

/-- The files of which the resources were loaded are listed in the order of the walk. -/
theorem pairwise_loadedFiles {tree : FileTree} (h : tree.WellFormed) (owner : String)
    (kind : Kind) :
    (loadedFiles owner tree kind).Pairwise fun f g => WalkLt f.entry.path g.entry.path :=
  (pairwise_sourceFiles h kind).filter _

/-- These files have the extension of the kind. -/
theorem extension?_of_mem_loadedFiles {owner : String} {tree : FileTree} {kind : Kind}
    {f : SourceFile} (h : f ∈ loadedFiles owner tree kind) :
    extension? f.entry.name = some kind.fileExtension :=
  (kind_and_extension?_of_mem_sourceFiles (List.mem_filter.mp h).1).2

/-- In the order in which they are walked, files have their ids in order exactly if none
    overtakes another. -/
theorem pairwise_id_iff {fs : List SourceFile} {extension : String}
    (hextension : ∀ f ∈ fs, extension? f.entry.name = some extension)
    (hwalk : fs.Pairwise fun f g => WalkLt f.entry.path g.entry.path) (owner : String) :
    fs.Pairwise (fun f g => f.id owner ≤ g.id owner) ↔ ∀ f ∈ fs, ∀ g ∈ fs, ¬f.Overtakes g := by
  constructor
  · intro hid
    have hiff : ∀ {f g}, f ∈ fs → g ∈ fs →
        (f.Overtakes g ↔ WalkLt f.entry.path g.entry.path ∧ g.id owner < f.id owner) :=
      fun hf hg => SourceFile.overtakes_iff (hextension _ hf) (hextension _ hg) owner
    apply List.Pairwise.forall_of_forall_of_flip
    · intro f hf hovertakes
      exact ((hiff hf hf).mp hovertakes).1.irrefl
    · refine hid.imp_of_mem ?_
      intro f g hf hg hle hovertakes
      exact not_lt.mpr hle ((hiff hf hg).mp hovertakes).2
    · refine hwalk.imp_of_mem ?_
      intro f g hf hg hfg hovertakes
      exact hfg.asymm ((hiff hg hf).mp hovertakes).1
  · -- the file that is walked first has no larger id, or it overtakes
    intro hnone
    refine hwalk.imp_of_mem ?_
    intro f g hf hg hfg
    by_contra hle
    exact hnone f hf g hg ((SourceFile.overtakes_iff (hextension f hf) (hextension g hg)
      owner).mpr ⟨hfg, not_le.mp hle⟩)

/-! ## Namespaces in the order of their names -/

/-- The directories of namespaces are entries of the directory `data`. -/
theorem exists_of_mem_namespaceTrees {tree : FileTree} {e : String × FileTree}
    (h : e ∈ namespaceTrees tree) :
    ∃ entries, tree.entry? "data" = some (.directory entries) ∧ e ∈ entries := by
  simp only [namespaceTrees] at h
  split at h
  · rename_i entries hentries
    exact ⟨entries, hentries, (List.mem_filter.mp (mem_sortByName.mp h)).1⟩
  · exact absurd h List.not_mem_nil

/-- What is below a well-formed tree is well-formed. -/
theorem FileTree.WellFormed.of_child {tree node : FileTree} (h : tree.WellFormed)
    {name : String} (hnode : tree.entry? name = some node) : node.WellFormed := by
  have hat : tree.at? [name] = some node := by
    rw [FileTree.at?, hnode]
    rfl
  exact h.at? hat

/-- The directories of the namespaces are in the order of their names. -/
theorem pairwise_namespaceTrees {tree : FileTree} (h : tree.WellFormed) :
    (namespaceTrees tree).Pairwise fun d e => d.1 < e.1 := by
  simp only [namespaceTrees]
  split
  · rename_i entries hentries
    have hnodup := (FileTree.wellFormed_directory.mp (h.of_child hentries)).1
    exact pairwise_lt_sortByName (hnodup.sublist (List.filter_sublist.map _))
  · exact .nil

/-- The directory of a namespace is in `data`. -/
theorem at?_of_mem_namespaceTrees {tree : FileTree} (h : tree.WellFormed)
    {e : String × FileTree} (hmem : e ∈ namespaceTrees tree) :
    tree.at? ["data", e.1] = some e.2 := by
  obtain ⟨entries, hentries, hmem⟩ := exists_of_mem_namespaceTrees hmem
  have hnodup := (FileTree.wellFormed_directory.mp (h.of_child hentries)).1
  have hlookup : FileTree.entry? e.1 (.directory entries) = some e.2 :=
    FileTree.lookup_eq_some_of_mem hnodup hmem
  rw [FileTree.at?, hentries, Option.bind_some, FileTree.at?, hlookup]
  rfl

/-- **The order of a loaded pack.**  Its namespaces are in the order of their names.  In
    a namespace, the resources of a kind are those in the files of the kind that hold
    one, in the order in which the files are walked; their ids are in order exactly if
    none of these files overtakes another. -/
theorem load_ordered_iff {path : String} {tree : FileTree} {pack : Pack}
    (hwf : tree.WellFormed) (h : Pack.load path (some tree) = .ok pack) :
    (pack.namespaces.Pairwise fun ms ns => utf8 ms.name < utf8 ns.name)
      ∧ ∀ ns ∈ pack.namespaces, ∃ directory, tree.at? ["data", ns.name] = some directory
        ∧ ∀ kind,
          let fs := loadedFiles ns.name directory kind
          (ns.ofKind kind).map Resource.id = fs.map (SourceFile.id ns.name)
            ∧ fs.Pairwise (fun f g => WalkLt f.entry.path g.entry.path)
            ∧ ((ns.ofKind kind).Pairwise (fun r s => utf8 r.id ≤ utf8 s.id)
              ↔ ∀ f ∈ fs, ∀ g ∈ fs, ¬f.Overtakes g) := by
  simp only [utf8_lt_iff, utf8_le_iff]
  constructor
  · have hnames : (pack.namespaces.map (·.name)).Pairwise (· < ·) := by
      rw [Pack.map_name_of_load h, List.pairwise_map]
      exact pairwise_namespaceTrees hwf
    exact List.pairwise_map.mp hnames
  · intro ns hns
    obtain ⟨directory, hmem, hload⟩ := Pack.exists_of_mem_namespaces h hns
    have hdirectory := at?_of_mem_namespaceTrees hwf hmem
    refine ⟨directory, hdirectory, ?_⟩
    intro kind
    have hwalk := pairwise_loadedFiles (hwf.at? hdirectory) ns.name kind
    have hids := Namespace.map_id_ofKind_of_load hload kind
    have hsorted : ((ns.ofKind kind).map Resource.id).Pairwise (· ≤ ·)
        ↔ ((loadedFiles ns.name directory kind).map (SourceFile.id ns.name)).Pairwise (· ≤ ·) := by
      rw [hids]
    rw [List.pairwise_map, List.pairwise_map] at hsorted
    exact ⟨hids, hwalk, hsorted.trans
      (pairwise_id_iff (fun _ hf => extension?_of_mem_loadedFiles hf) hwalk ns.name)⟩

/-! ## A directory beside a file of its name -/

/-- A namespace with a recipe, and a directory of the same name with another one. -/
def recipeTree : FileTree :=
  .directory [("recipes", .directory
    [("a", .directory [("b.json", .file "{}".toUTF8)]), ("a.json", .file "{}".toUTF8)])]

/-- The recipe in the directory is walked first. -/
theorem sourceFiles_recipeTree :
    sourceFiles recipeTree (.document .recipe)
      = [⟨.document .recipe, ⟨["a"], "b.json", "{}".toUTF8⟩⟩,
        ⟨.document .recipe, ⟨[], "a.json", "{}".toUTF8⟩⟩] := by
  show List.map _ (List.filter _ (FileTree.files (.directory _))) = _
  rw [FileTree.files_directory, sortByName_of_pairwise (by decide)]
  simp only [List.map_cons, FileTree.filesNamed_directory, FileTree.files_directory]
  rw [sortByName_of_pairwise (by decide)]
  rfl

/-- Both recipes are loaded. -/
theorem loadedFiles_recipeTree :
    loadedFiles "m" recipeTree (.document .recipe)
      = sourceFiles recipeTree (.document .recipe) := by
  refine List.filter_eq_self.mpr ?_
  rw [sourceFiles_recipeTree]
  decide +kernel

/-- The namespace is loaded. -/
theorem exists_load_recipeTree : ∃ ns, Namespace.load "m" recipeTree = .ok ns := by
  have hfiles : Kind.all.flatMap (sourceFiles recipeTree)
      = sourceFiles recipeTree (.document .recipe) := by
    simp only [Kind.all, List.flatMap_cons, List.flatMap_nil, List.append_nil]
    exact List.append_nil _
  have hok : (Namespace.load "m" recipeTree).isOk = true := by
    rw [Namespace.load, hfiles, sourceFiles_recipeTree]
    decide +kernel
  cases hload : Namespace.load "m" recipeTree with
  | error e =>
      rw [hload] at hok
      exact nomatch hok
  | ok ns => exact ⟨ns, rfl⟩

/-- The file in the directory overtakes the file beside it, and the recipes are not in the
    order of their ids. -/
theorem load_ordered_iff_directory_beside_file :
    let tree : FileTree := .directory [("data", .directory [("m", recipeTree)])]
    tree.WellFormed ∧ ∃ pack, Pack.load "." (some tree) = .ok pack
      ∧ ¬∀ ns ∈ pack.namespaces,
        (ns.ofKind (.document .recipe)).Pairwise fun r s => utf8 r.id ≤ utf8 s.id := by
  intro tree
  have hwf : tree.WellFormed := by
    simp only [tree, recipeTree, FileTree.WellFormed, FileTree.EntriesWellFormed]
    decide
  obtain ⟨ns, hns⟩ := exists_load_recipeTree
  have hload : Pack.load "." (some tree) = .ok ⟨.null, [ns]⟩ := by
    have htrees : namespaceTrees tree = [("m", recipeTree)] :=
      sortByName_of_pairwise (List.pairwise_singleton _ _)
    simp only [tree] at htrees
    simp only [tree, Pack.load, htrees, List.mapM_cons, List.mapM_nil, hns]
    rfl
  refine ⟨hwf, _, hload, ?_⟩
  intro hsorted
  obtain ⟨directory, hdirectory, hkinds⟩ := (load_ordered_iff hwf hload).2 ns List.mem_cons_self
  have hname : ns.name = "m" := Namespace.name_of_load hns
  obtain rfl : recipeTree = directory := by
    rw [hname] at hdirectory
    exact Option.some.inj hdirectory
  have hnone := (hkinds (.document .recipe)).2.2.mp (hsorted ns List.mem_cons_self)
  rw [hname, loadedFiles_recipeTree, sourceFiles_recipeTree] at hnone
  exact hnone _ List.mem_cons_self _ (List.mem_cons_of_mem _ List.mem_cons_self) (by decide)

end PackLint
