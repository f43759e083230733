import PackLint.Proofs.Pack.Paths
import PackLint.Proofs.Rule.Check

/-! # When a load fails

    A load fails if there is no directory to load from, if the metadata cannot be read or
    are no JSON, or if a file of some kind is no text.  Nothing else stops it: a document
    that is no JSON is left out, and no file is refused for its path. -/

namespace PackLint

open Text

/-! ## Computations that fail -/

/-- A computation that fails does so in one of its steps. -/
theorem bind_eq_error {ε α β : Type} {x : Except ε α} {f : α → Except ε β} {e : ε} :
    x >>= f = .error e ↔ x = .error e ∨ ∃ a, x = .ok a ∧ f a = .error e := by
  cases x with
  | error e => simp [bind, Except.bind]
  | ok a => simp [bind, Except.bind]

/-- A map fails with the error of one of the elements. -/
theorem exists_of_mapM_eq_error {ε α β : Type} {f : α → Except ε β} {xs : List α} {e : ε}
    (h : xs.mapM f = .error e) : ∃ x ∈ xs, f x = .error e := by
  induction xs with
  | nil => exact nomatch h
  | cons x xs ih =>
      rw [List.mapM_cons] at h
      rcases bind_eq_error.mp h with hx | ⟨y, _, h⟩
      · exact ⟨x, List.mem_cons_self, hx⟩
      · rcases bind_eq_error.mp h with hxs | ⟨ys, _, h⟩
        · obtain ⟨z, hz, he⟩ := ih hxs
          exact ⟨z, List.mem_cons_of_mem x hz, he⟩
        · exact nomatch h

/-! ## Faults -/

/-- What is wrong with the metadata of a pack. -/
inductive MetadataFault (tree : FileTree) : FileFault → Prop
  /-- Where the metadata should be, there is a directory. -/
  | directory {entries : List (String × FileTree)}
      (hat : tree.at? ["pack.mcmeta"] = some (.directory entries)) :
      MetadataFault tree .unreadable
  | notText {bytes : ByteArray} (hat : tree.at? ["pack.mcmeta"] = some (.file bytes))
      (hbytes : String.fromUTF8? bytes = none) : MetadataFault tree .unreadable
  | notJson {bytes : ByteArray} {text : String}
      (hat : tree.at? ["pack.mcmeta"] = some (.file bytes))
      (hbytes : String.fromUTF8? bytes = some text) (htext : Json.ofText? text = none) :
      MetadataFault tree .invalidJson

/-- The file is one of its kind in a namespace, by its place and its extension, and it is no
    text. -/
structure SourceFile.Unreadable (owner : String) (tree : FileTree) (f : SourceFile) : Prop where
  at?_eq : tree.at? (f.packPath owner) = some (.file f.entry.bytes)
  named : f.Named
  notText : String.fromUTF8? f.entry.bytes = none

/-- What stops the load of the node at a path, and the error that tells of it. -/
inductive LoadFault (path : String) : Option FileTree → LoadError → Prop
  | notDirectory {node : Option FileTree} (hnode : ∀ entries, node ≠ some (.directory entries)) :
      LoadFault path node (.notDirectory path)
  | metadata {tree : FileTree} {fault : FileFault} (hfault : MetadataFault tree fault) :
      LoadFault path (some tree) (.metadata fault)
  | resource {tree : FileTree} {owner : String} {f : SourceFile} (hf : f.Unreadable owner tree) :
      LoadFault path (some tree) (.resource owner f.kind (f.id owner))

/-- The metadata fail to load exactly if they have a fault, with this fault. -/
theorem loadMetadata_eq_error_iff {tree : FileTree} {e : LoadError} :
    loadMetadata tree = .error e ↔ ∃ fault, MetadataFault tree fault ∧ e = .metadata fault := by
  rw [loadMetadata, ← FileTree.at?_singleton]
  constructor
  · intro h
    split at h
    · cases h
    · rename_i node hat
      cases node with
      | directory entries =>
          cases h
          exact ⟨_, .directory hat, rfl⟩
      | file bytes =>
          simp only [FileTree.text?] at h
          split at h
          · rename_i hbytes
            cases h
            exact ⟨_, .notText hat hbytes, rfl⟩
          · rename_i text hbytes
            split at h
            · rename_i htext
              cases h
              exact ⟨_, .notJson hat hbytes htext, rfl⟩
            · cases h
  · rintro ⟨fault, hfault, rfl⟩
    cases hfault with
    | directory hat =>
        rw [hat]
        rfl
    | notText hat hbytes => simp only [hat, FileTree.text?, hbytes]
    | notJson hat hbytes htext => simp only [hat, FileTree.text?, hbytes, htext]

/-! ## Files that stop a load -/

/-- The load of a namespace stops at a file that is no text. -/
theorem Namespace.exists_of_foldlM_addFile_eq_error {ns : Namespace} {fs : List SourceFile}
    {e : LoadError} (h : fs.foldlM addFile ns = .error e) :
    ∃ f ∈ fs, String.fromUTF8? f.entry.bytes = none
      ∧ e = .resource ns.name f.kind (f.id ns.name) := by
  induction fs generalizing ns with
  | nil => exact nomatch h
  | cons f fs ih =>
      cases hbytes : String.fromUTF8? f.entry.bytes with
      | none =>
          rw [List.foldlM_cons, addFile, SourceFile.text, hbytes] at h
          cases h
          exact ⟨f, List.mem_cons_self, hbytes, rfl⟩
      | some text =>
          have hnext := addFile_of_text hbytes ns
          rw [List.foldlM_cons, hnext] at h
          obtain ⟨g, hg, hnone, rfl⟩ := ih h
          refine ⟨g, List.mem_cons_of_mem f hg, hnone, ?_⟩
          rw [addFile_eq_ok hnext]

namespace SourceFile

variable {owner : String} {tree : FileTree} {f : SourceFile}

/-- A file that would be loaded and is no text makes the load fail. -/
theorem Unreadable.of_mem_sourceFiles {directory : FileTree} (hwf : tree.WellFormed)
    (hdirectory : tree.at? ["data", owner] = some directory) {kind : Kind}
    (hf : f ∈ sourceFiles directory kind) (hbytes : String.fromUTF8? f.entry.bytes = none) :
    f.Unreadable owner tree := by
  obtain ⟨rfl, hextension, hat⟩ := (mem_sourceFiles_iff (hwf.at? hdirectory)).mp hf
  rw [← FileTree.at?_packPath hdirectory] at hat
  exact ⟨hat, named_iff.mpr hextension, hbytes⟩

/-- A file that is no text is among those that the load of its namespace reads. -/
theorem Unreadable.mem_sourceFiles {directory : FileTree} (hwf : tree.WellFormed)
    (hdirectory : tree.at? ["data", owner] = some directory) (hf : f.Unreadable owner tree) :
    f ∈ sourceFiles directory f.kind := by
  have hat := hf.at?_eq
  rw [FileTree.at?_packPath hdirectory] at hat
  exact (mem_sourceFiles_iff (hwf.at? hdirectory)).mpr ⟨rfl, named_iff.mp hf.named, hat⟩

end SourceFile

/-! ## Loads that fail -/

/-- A directory is loaded in two steps: its metadata, and then its namespaces. -/
theorem Pack.load_directory (path : String) (entries : List (String × FileTree)) :
    load path (some (.directory entries))
      = loadMetadata (.directory entries) >>= fun metadata =>
        (namespaceTrees (.directory entries)).mapM (fun d => Namespace.load d.1 d.2)
          >>= fun namespaces => .ok ⟨metadata, namespaces⟩ :=
  rfl

/-- Where a load fails, there is a fault of which the error tells. -/
theorem LoadFault.of_load {path : String} {node : Option FileTree}
    (hwf : ∀ tree ∈ node, tree.WellFormed) {e : LoadError}
    (h : Pack.load path node = .error e) : LoadFault path node e := by
  match node with
  | none =>
      cases h
      exact .notDirectory fun _ heq => nomatch heq
  | some (.file bytes) =>
      cases h
      exact .notDirectory fun _ heq => nomatch heq
  | some (.directory entries) =>
      have hwf := hwf _ rfl
      rw [Pack.load_directory] at h
      rcases bind_eq_error.mp h with hmetadata | ⟨_, _, h⟩
      · obtain ⟨fault, hfault, rfl⟩ := loadMetadata_eq_error_iff.mp hmetadata
        exact .metadata hfault
      · rcases bind_eq_error.mp h with hnamespaces | ⟨_, _, h⟩
        · obtain ⟨d, hd, hload⟩ := exists_of_mapM_eq_error hnamespaces
          obtain ⟨f, hf, hbytes, rfl⟩ := Namespace.exists_of_foldlM_addFile_eq_error hload
          obtain ⟨kind, _, hf⟩ := List.mem_flatMap.mp hf
          have hdirectory := ((mem_namespaceTrees_iff hwf).mp hd).1
          exact .resource (.of_mem_sourceFiles hwf hdirectory hf hbytes)
        · exact nomatch h

/-- What is loaded has no faults. -/
theorem LoadFault.load_ne_ok {path : String} {node : Option FileTree}
    (hwf : ∀ tree ∈ node, tree.WellFormed) {e : LoadError} (hfault : LoadFault path node e)
    (pack : Pack) : Pack.load path node ≠ .ok pack := by
  intro h
  cases hfault with
  | notDirectory hnode =>
      match node with
      | none | some (.file bytes) => exact nomatch h
      | some (.directory entries) => exact hnode entries rfl
  | @metadata tree fault hfault =>
      match tree with
      | .file bytes => exact nomatch h
      | .directory entries =>
          obtain ⟨metadata, hmetadata, _⟩ := bind_eq_ok.mp h
          rw [loadMetadata_eq_error_iff.mpr ⟨fault, hfault, rfl⟩] at hmetadata
          exact nomatch hmetadata
  | @resource tree owner f hf =>
      have hwf := hwf _ rfl
      obtain ⟨entries, hdirectory⟩ := FileTree.exists_directory_of_at?_packPath hf.at?_eq
      have hd : (owner, .directory entries) ∈ namespaceTrees tree :=
        (mem_namespaceTrees_iff hwf).mpr ⟨hdirectory, entries, rfl⟩
      obtain ⟨ns, hns⟩ := Pack.exists_load_of_mem h hd
      have hmem := List.mem_flatMap.mpr
        ⟨f.kind, Kind.mem_all f.kind, hf.mem_sourceFiles hwf hdirectory⟩
      obtain ⟨text, htext⟩ := Namespace.exists_foldlM_addFile_iff.mp ⟨ns, hns⟩ f hmem
      exact nomatch htext.symm.trans hf.notText

/-! ## Packs without metadata -/

/-- Without a file of metadata they are null. -/
theorem Pack.metadata_of_load {path : String} {tree : FileTree} {pack : Pack}
    (h : load path (some tree) = .ok pack) (hnone : tree.at? ["pack.mcmeta"] = none) :
    pack.metadata = .null := by
  cases tree with
  | file bytes => exact nomatch h
  | directory entries =>
      rw [FileTree.at?_singleton] at hnone
      obtain ⟨metadata, hmetadata, h⟩ := bind_eq_ok.mp h
      obtain ⟨namespaces, _, h⟩ := bind_eq_ok.mp h
      cases h
      rw [loadMetadata, hnone] at hmetadata
      cases hmetadata
      rfl

/-- No rule looks into a pack without a format. -/
theorem check_of_format?_eq_none {settings : Settings}
    (hrules : ∀ name ∈ settings.rules, (Rule.find? name).isSome) {pack : Pack}
    (h : Upgrade.format? pack.metadata = none) (report : Report) :
    check settings pack report = .ok report := by
  have haccepted : settings.IsAccepted := by
    intro name hname
    by_contra hrule
    exact Option.not_isSome_iff_eq_none.mpr
      (Option.isNone_iff_eq_none.mp (isNone_find?_iff.mpr hrule)) (hrules name hname)
  have hnone : allFindings pack = [] := by
    rw [allFindings_eq, Upgrade.run, h]
    rfl
  rw [check_of_isAccepted haccepted, hnone, Report.append_nil]

/-- **When a load fails.**  It does so exactly if there is a fault, and the error tells of one;
    what is no JSON stops it in the metadata only.  No file is refused for its path.  A pack
    that was loaded without a file of metadata has no findings. -/
theorem load_fails_iff {node : Option FileTree} (hwf : ∀ tree ∈ node, tree.WellFormed)
    (path : String) :
    ((∃ e, Pack.load path node = .error e) ↔ ∃ e, LoadFault path node e)
      ∧ (∀ e, Pack.load path node = .error e → LoadFault path node e
        ∧ (e.fault? = some .invalidJson → e = .metadata .invalidJson))
      ∧ ∀ tree ∈ node,
        (∀ owner (f : SourceFile), tree.at? (f.packPath owner) = some (.file f.entry.bytes) →
          ResourceId.ofPath? owner ("/".intercalate (f.entry.directories ++ [f.entry.name]))
            = .ok (f.id owner))
        ∧ (tree.at? ["pack.mcmeta"] = none → ∀ pack, Pack.load path node = .ok pack →
          pack.metadata = .null ∧ ∀ settings : Settings,
            (∀ name ∈ settings.rules, (Rule.find? name).isSome) →
            ∀ report, check settings pack report = .ok report) := by
  refine ⟨⟨?_, ?_⟩, ?_, ?_⟩
  · rintro ⟨e, h⟩
    exact ⟨e, .of_load hwf h⟩
  · rintro ⟨e, hfault⟩
    cases hload : Pack.load path node with
    | error e => exact ⟨e, rfl⟩
    | ok pack => exact absurd hload (hfault.load_ne_ok hwf pack)
  · intro e h
    have hfault : LoadFault path node e := .of_load hwf h
    refine ⟨hfault, ?_⟩
    intro hjson
    cases hfault with
    | notDirectory | resource => exact nomatch hjson
    | metadata => exact congrArg LoadError.metadata (Option.some.inj hjson)
  · rintro tree rfl
    constructor
    · intro owner f hat
      have hnames := (hwf tree rfl).isFileName_of_at? hat
      refine ResourceId.ofPath?_intercalate owner fun n hn => hnames n ?_
      exact List.mem_cons_of_mem _ (List.mem_cons_of_mem _ (List.mem_append_right _ hn))
    · intro hnone pack h
      have hmetadata := Pack.metadata_of_load h hnone
      refine ⟨hmetadata, ?_⟩
      intro settings hrules report
      exact check_of_format?_eq_none hrules (by rw [hmetadata]; rfl) report

/-- A function that is no text stops a load, a recipe that is no JSON does not, and then
    nothing is found in the pack. -/
theorem load_fails_iff_no_text :
    let broken : FileTree := .directory [("data", .directory [("m", .directory
      [("functions", .directory [("a.mcfunction", .file ⟨#[255]⟩)])])])]
    let plain : FileTree := .directory [("data", .directory [("m",
      recipesTree [("a.json", "no JSON")])])]
    (∃ e, Pack.load "." (some broken) = .error e)
      ∧ ∃ pack, Pack.load "." (some plain) = .ok pack
        ∧ check .default pack .empty = .ok .empty := by
  intro broken plain
  have hbroken : broken.WellFormed := by
    simp only [broken, FileTree.WellFormed, FileTree.EntriesWellFormed]
    decide
  have hplain : plain.WellFormed :=
    wellFormed_recipesTree (by decide) (by decide) (by decide)
  have hfunction : SourceFile.Unreadable "m" broken
      ⟨.function, ⟨[], "a.mcfunction", ⟨#[255]⟩⟩⟩ :=
    ⟨rfl, ⟨"a", by decide, by decide⟩, Option.isNone_iff_eq_none.mp (by decide +kernel)⟩
  obtain ⟨hfails, _, _⟩ := load_fails_iff (fun _ h => Option.some.inj h ▸ hbroken) "."
  obtain ⟨_, _, hloaded⟩ := load_fails_iff (fun _ h => Option.some.inj h ▸ hplain) "."
  obtain ⟨ns, hns⟩ := exists_load_recipesTree "m" [("a.json", "no JSON")]
  have hload := Pack.load_of_namespace hns "."
  obtain ⟨_, hcheck⟩ := (hloaded plain rfl).2 rfl _ hload
  refine ⟨hfails.mpr ⟨_, .resource hfunction⟩, _, hload, ?_⟩
  exact hcheck .default (fun _ hname => absurd hname List.not_mem_nil) .empty

end PackLint
