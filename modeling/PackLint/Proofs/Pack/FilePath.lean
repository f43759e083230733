import PackLint.Proofs.Pack.Order

/-! # Files by their paths

    A tree has a file below a directory exactly if the path of the file leads to its
    bytes, so a file can be told by its path.  The path of a file in a pack says which
    namespace and which kind it is in, for the directory of no kind lies in that of
    another one. -/

namespace PackLint

open Text

/-! ## Extensions -/

/-- A name is split at its last dot. -/
theorem Text.splitExtension_append {stem extension : List Char} (hstem : stem ≠ [])
    (hdot : '.' ∉ extension) :
    splitExtension (stem ++ '.' :: extension) = (stem, some extension) := by
  have hsolid : ∀ c ∈ extension.reverse, (c != '.') = true := by
    intro c hc
    refine bne_iff_ne.mpr ?_
    rintro rfl
    exact hdot (List.mem_reverse.mp hc)
  have hreverse : (stem ++ '.' :: extension).reverse
      = extension.reverse ++ '.' :: stem.reverse := by
    rw [List.reverse_append, List.reverse_cons, List.append_assoc]
    rfl
  have htake : (extension.reverse ++ '.' :: stem.reverse).takeWhile (· != '.')
      = extension.reverse := by
    rw [List.takeWhile_append_of_pos hsolid, List.takeWhile_cons_of_neg (by decide),
      List.append_nil]
  have hdrop : (extension.reverse ++ '.' :: stem.reverse).dropWhile (· != '.')
      = '.' :: stem.reverse := by
    rw [List.dropWhile_append_of_pos hsolid, List.dropWhile_cons_of_neg (by decide)]
  simp only [splitExtension, hreverse, htake, hdrop, List.drop_one, List.tail_cons,
    List.reverse_reverse]
  cases hbefore : stem.reverse with
  | nil => exact absurd (List.reverse_eq_nil_iff.mp hbefore) hstem
  | cons c cs =>
      show (List.reverse (c :: cs), _) = _
      rw [← hbefore, List.reverse_reverse]

/-- A name has an extension without a dot if it ends with a dot and the extension, and
    something stands in front of the dot. -/
theorem Text.extension?_eq_some_iff {name extension : String} (hdot : '.' ∉ extension.toList) :
    extension? name = some extension ↔ ∃ stem, stem ≠ "" ∧ name = stem ++ "." ++ extension := by
  constructor
  · intro h
    obtain ⟨stem, hsplit⟩ := exists_of_extension?_eq_some h
    obtain ⟨hname, hstem⟩ := splitExtension_eq_some hsplit
    refine ⟨String.ofList stem, ?_, ?_⟩
    · intro hnil
      rw [← String.toList_eq_nil_iff, String.toList_ofList] at hnil
      exact hstem hnil
    · apply String.toList_injective
      rw [hname, String.toList_append, String.toList_append, String.toList_ofList,
        List.append_assoc]
      rfl
  · rintro ⟨stem, hstem, rfl⟩
    have hlist : (stem ++ "." ++ extension).toList = stem.toList ++ '.' :: extension.toList := by
      rw [String.toList_append, String.toList_append, List.append_assoc]
      rfl
    rw [extension?, hlist, splitExtension_append (String.toList_eq_nil_iff.not.mpr hstem) hdot,
      Option.map_some, String.ofList_toList]

/-- The extension of a kind has no dot in it. -/
theorem Kind.dot_notMem_fileExtension (kind : Kind) : '.' ∉ kind.fileExtension.toList := by
  cases kind with
  | function => decide
  | document kind => exact (by decide : '.' ∉ "json".toList)
  | tag kind => exact (by decide : '.' ∉ "json".toList)

/-! ## Nodes behind paths -/

namespace FileTree

/-- A path can be followed in two parts. -/
theorem at?_append (path rest : List String) (tree : FileTree) :
    tree.at? (path ++ rest) = (tree.at? path).bind (at? rest) := by
  induction path generalizing tree with
  | nil => rfl
  | cons name path ih =>
      rw [List.cons_append, at?, at?, Option.bind_assoc]
      exact congrArg _ (funext ih)

/-- Below a file there is nothing. -/
theorem at?_file_of_ne_nil {path : List String} (h : path ≠ []) (bytes : ByteArray) :
    (file bytes).at? path = none := by
  cases path with
  | nil => exact absurd rfl h
  | cons name path => rfl

/-- What leads along a path are names of entries. -/
theorem WellFormed.isFileName_of_at? {path : List String} {tree node : FileTree}
    (h : tree.WellFormed) (hnode : tree.at? path = some node) : ∀ name ∈ path, IsFileName name := by
  induction path generalizing tree with
  | nil => exact fun name hname => absurd hname List.not_mem_nil
  | cons name path ih =>
      obtain ⟨child, hchild, hat⟩ := Option.bind_eq_some_iff.mp hnode
      cases tree with
      | file bytes => exact nomatch hchild
      | directory entries =>
          have hmem := (wellFormed_directory.mp h).2 _ (mem_of_lookup_eq_some hchild)
          exact List.forall_mem_cons.mpr ⟨hmem.1, ih hmem.2 hat⟩

/-- A named file lists itself, and a named directory its files. -/
theorem mem_filesNamed_iff {name : String} {tree : FileTree} {f : FileEntry} :
    f ∈ filesNamed name tree
      ↔ (∃ bytes, tree = .file bytes ∧ f = ⟨[], name, bytes⟩)
        ∨ ∃ g ∈ tree.files, f = g.below name := by
  cases tree with
  | file bytes => simp [filesNamed, files]
  | directory entries =>
      rw [filesNamed_directory, List.mem_map]
      simp [eq_comm]

/-- The files below a directory are those that paths of names lead to. -/
theorem mem_files_iff {tree : FileTree} (h : tree.WellFormed) {f : FileEntry} :
    f ∈ tree.files ↔ tree.at? (f.directories ++ [f.name]) = some (.file f.bytes) := by
  induction tree using induction generalizing f with
  | hfile bytes =>
      rw [at?_file_of_ne_nil (List.concat_ne_nil _ _)]
      exact iff_of_false List.not_mem_nil fun hnone => nomatch hnone
  | hdirectory entries ih =>
      obtain ⟨hnodup, hentries⟩ := wellFormed_directory.mp h
      simp only [mem_files_directory, mem_filesNamed_iff]
      constructor
      · rintro ⟨⟨name, child⟩, he, ⟨bytes, rfl, rfl⟩ | ⟨g, hg, rfl⟩⟩
        · show (entries.lookup name).bind (at? []) = _
          rw [lookup_eq_some_of_mem hnodup he]
          rfl
        · show (entries.lookup name).bind (at? (g.directories ++ [g.name])) = _
          rw [lookup_eq_some_of_mem hnodup he, Option.bind_some]
          exact (ih _ he (hentries _ he).2).mp hg
      · obtain ⟨directories, name, bytes⟩ := f
        intro hat
        cases directories with
        | nil =>
            obtain ⟨child, hchild, hat⟩ := Option.bind_eq_some_iff.mp hat
            obtain rfl := Option.some.inj hat
            exact ⟨_, mem_of_lookup_eq_some hchild, .inl ⟨bytes, rfl, rfl⟩⟩
        | cons directory directories =>
            obtain ⟨child, hchild, hat⟩ := Option.bind_eq_some_iff.mp hat
            have he := mem_of_lookup_eq_some hchild
            exact ⟨_, he, .inr ⟨⟨directories, name, bytes⟩,
              (ih _ he (hentries _ he).2).mpr hat, rfl⟩⟩

end FileTree

/-! ## Files of a pack -/

/-- The path of a file in the directory of its kind, from the directory of the pack. -/
def SourceFile.packPath (owner : String) (f : SourceFile) : List String :=
  "data" :: owner :: (f.kind.directory ++ (f.entry.directories ++ [f.entry.name]))

/-- The name of the file ends with a dot and the extension of the kind, and something stands
    in front of the dot. -/
def SourceFile.Named (f : SourceFile) : Prop :=
  ∃ stem, stem ≠ "" ∧ f.entry.name = stem ++ "." ++ f.kind.fileExtension

/-- A file is named as a resource of its kind if its extension is the one of the kind. -/
theorem SourceFile.named_iff {f : SourceFile} :
    f.Named ↔ extension? f.entry.name = some f.kind.fileExtension :=
  (extension?_eq_some_iff f.kind.dot_notMem_fileExtension).symm

/-- The path of a file leads to it from the directory of its namespace, too. -/
theorem FileTree.at?_packPath {tree directory : FileTree} {owner : String}
    (h : tree.at? ["data", owner] = some directory) (f : SourceFile) :
    tree.at? (f.packPath owner)
      = directory.at? (f.kind.directory ++ (f.entry.directories ++ [f.entry.name])) := by
  have hpath : f.packPath owner
      = ["data", owner] ++ (f.kind.directory ++ (f.entry.directories ++ [f.entry.name])) := rfl
  rw [hpath, at?_append, h, Option.bind_some]

/-- The directory of no kind lies in that of another one. -/
theorem Kind.eq_of_directory_prefix {kind other : Kind} (h : kind.directory <+: other.directory) :
    kind = other := by
  have hall : ∀ kind ∈ all, ∀ other ∈ all, kind.directory <+: other.directory → kind = other := by
    decide
  exact hall kind (mem_all kind) other (mem_all other) h

/-- The path of a file says where the file is. -/
theorem SourceFile.packPath_inj {owner other : String} {f g : SourceFile}
    (h : f.packPath owner = g.packPath other) :
    owner = other ∧ f.kind = g.kind ∧ f.entry.directories = g.entry.directories
      ∧ f.entry.name = g.entry.name := by
  obtain ⟨howner, h⟩ := List.cons.inj (List.cons.inj h).2
  -- of two directories that begin one path, one lies in the other
  have hkind : f.kind = g.kind := by
    rcases List.append_eq_append_iff.mp h with ⟨rest, hrest, _⟩ | ⟨rest, hrest, _⟩
    · exact Kind.eq_of_directory_prefix ⟨rest, hrest.symm⟩
    · exact (Kind.eq_of_directory_prefix ⟨rest, hrest.symm⟩).symm
  rw [hkind] at h
  obtain ⟨hdirectories, hname⟩ := List.append_inj' (List.append_cancel_left h) rfl
  exact ⟨howner, hkind, hdirectories, List.singleton_inj.mp hname⟩

/-- At one path there is one file, of one kind and in one namespace. -/
theorem SourceFile.eq_of_packPath_eq {tree : FileTree} {owner other : String} {f g : SourceFile}
    (hf : tree.at? (f.packPath owner) = some (.file f.entry.bytes))
    (hg : tree.at? (g.packPath other) = some (.file g.entry.bytes))
    (h : f.packPath owner = g.packPath other) : owner = other ∧ f = g := by
  obtain ⟨howner, hkind, hdirectories, hname⟩ := packPath_inj h
  rw [h, hg] at hf
  have hbytes : f.entry.bytes = g.entry.bytes := by
    injection hf with hf
    injection hf with hf
    exact hf.symm
  obtain ⟨kind, directories, name, bytes⟩ := f
  obtain ⟨kind', directories', name', bytes'⟩ := g
  obtain rfl : kind = kind' := hkind
  obtain rfl : directories = directories' := hdirectories
  obtain rfl : name = name' := hname
  obtain rfl : bytes = bytes' := hbytes
  exact ⟨howner, rfl⟩

/-- The files of a kind in the directory of a namespace are those with the extension of
    the kind that paths below the directory of the kind lead to. -/
theorem mem_sourceFiles_iff {tree : FileTree} (h : tree.WellFormed) {kind : Kind}
    {f : SourceFile} :
    f ∈ sourceFiles tree kind
      ↔ f.kind = kind ∧ extension? f.entry.name = some kind.fileExtension
        ∧ tree.at? (kind.directory ++ (f.entry.directories ++ [f.entry.name]))
          = some (.file f.entry.bytes) := by
  rw [FileTree.at?_append, sourceFiles]
  cases hdirectory : tree.at? kind.directory with
  | none =>
      rw [Option.bind_none]
      exact iff_of_false List.not_mem_nil (by simp)
  | some directory =>
      rw [Option.bind_some, ← FileTree.mem_files_iff (h.at? hdirectory), List.mem_map]
      constructor
      · rintro ⟨entry, hentry, rfl⟩
        obtain ⟨hmem, hextension⟩ := List.mem_filter.mp hentry
        exact ⟨rfl, beq_iff_eq.mp hextension, hmem⟩
      · rintro ⟨rfl, hextension, hmem⟩
        exact ⟨f.entry, List.mem_filter.mpr ⟨hmem, beq_iff_eq.mpr hextension⟩, rfl⟩

/-! ## Directories of namespaces -/

/-- A path of one name leads to the entry of this name. -/
theorem FileTree.at?_singleton (name : String) (tree : FileTree) :
    tree.at? [name] = tree.entry? name := by
  show (tree.entry? name).bind some = _
  exact Option.bind_fun_some _

theorem FileTree.isDirectory_iff {tree : FileTree} :
    tree.isDirectory = true ↔ ∃ entries, tree = .directory entries := by
  cases tree with
  | file bytes => exact iff_of_false Bool.false_ne_true fun ⟨_, h⟩ => nomatch h
  | directory entries => exact iff_of_true rfl ⟨entries, rfl⟩

/-- The namespaces are loaded from the directories in the directory `data`. -/
theorem mem_namespaceTrees_iff {tree : FileTree} (h : tree.WellFormed)
    {e : String × FileTree} :
    e ∈ namespaceTrees tree
      ↔ tree.at? ["data", e.1] = some e.2 ∧ ∃ entries, e.2 = .directory entries := by
  have hat : tree.at? ["data", e.1] = (tree.entry? "data").bind fun node => node.entry? e.1 := by
    rw [FileTree.at?]
    exact congrArg _ (funext fun node => FileTree.at?_singleton e.1 node)
  rw [hat, namespaceTrees, ← FileTree.isDirectory_iff]
  cases hdata : tree.entry? "data" with
  | none => exact iff_of_false List.not_mem_nil (by simp)
  | some node =>
      cases node with
      | file bytes => exact iff_of_false List.not_mem_nil (by simp [FileTree.entry?])
      | directory entries =>
          have hnodup := (FileTree.wellFormed_directory.mp (h.of_child hdata)).1
          show e ∈ sortByName _ ↔ entries.lookup e.1 = some e.2 ∧ _
          rw [mem_sortByName, List.mem_filter]
          refine and_congr_left fun _ => ⟨FileTree.lookup_eq_some_of_mem hnodup, ?_⟩
          exact FileTree.mem_of_lookup_eq_some

/-- The names of the namespaces are those of the directories in `data`. -/
theorem mem_map_fst_namespaceTrees_iff {tree : FileTree} (h : tree.WellFormed) {name : String} :
    name ∈ (namespaceTrees tree).map (·.1)
      ↔ ∃ entries, tree.at? ["data", name] = some (.directory entries) := by
  simp only [List.mem_map, mem_namespaceTrees_iff h]
  constructor
  · rintro ⟨⟨name, node⟩, ⟨hat, entries, rfl⟩, rfl⟩
    exact ⟨entries, hat⟩
  · rintro ⟨entries, hat⟩
    exact ⟨(name, _), ⟨hat, entries, rfl⟩, rfl⟩

end PackLint
