import PackLint.Proofs.Pack.Exact
import PackLint.Proofs.Text.Path

/-! # Resources with the same id

    The id of a resource is the path of its file without the extension, behind the name
    of its namespace and a colon.  Two files of a kind get the same id in two ways only.
    A file that is named by a dot before its extension gets the id of the one beside it
    that is named by two dots; and where the name of a namespace has a colon, what
    stands behind the colon can be taken for the beginning of a path. -/

namespace PackLint

open Text

/-! ## The path in an id -/

/-- Every kind has an extension. -/
theorem Kind.fileExtension_ne_empty (kind : Kind) : kind.fileExtension ≠ "" := by
  cases kind with
  | function => decide
  | document kind => exact (by decide : "json" ≠ "")
  | tag kind => exact (by decide : "json" ≠ "")

/-- The last name in the id of a file with this name before the extension. -/
def idStem (stem : String) : String :=
  if stem = "." then ".." else stem

/-- Only one dot and two dots are different stems with the same id. -/
theorem idStem_eq_iff {s t : String} :
    idStem s = idStem t ↔ s = t ∨ s = "." ∧ t = ".." ∨ s = ".." ∧ t = "." := by
  rw [idStem, idStem]
  by_cases hs : s = "."
  · by_cases ht : t = "."
    · simp [hs, ht]
    · simp [hs, ht, eq_comm]
  · by_cases ht : t = "."
    · simp [hs, ht]
    · simp [hs, ht]

namespace SourceFile

variable {f g : SourceFile} {stem : String}

/-- The name of a file is a stem, a dot and the extension. -/
theorem toList_name_eq (hname : f.entry.name = stem ++ "." ++ f.kind.fileExtension) :
    f.entry.name.toList = stem.toList ++ '.' :: f.kind.fileExtension.toList := by
  rw [hname, String.toList_append, String.toList_append, List.append_assoc]
  rfl

/-- A name with an extension is not made of dots only. -/
theorem isDots_name_eq_false (hstem : stem ≠ "")
    (hname : f.entry.name = stem ++ "." ++ f.kind.fileExtension) :
    isDots f.entry.name.toList = false := by
  have hlength := congrArg List.length (toList_name_eq hname)
  have hpos := List.length_pos_of_ne_nil (String.toList_eq_nil_iff.not.mpr hstem)
  have hpos' := List.length_pos_of_ne_nil
    (String.toList_eq_nil_iff.not.mpr f.kind.fileExtension_ne_empty)
  rw [List.length_append, List.length_cons] at hlength
  refine Bool.eq_false_iff.mpr fun h => ?_
  simp only [isDots, Bool.or_eq_true, beq_iff_eq] at h
  rcases h with (h | h) | h <;> rw [h] at hlength <;> simp at hlength <;> omega

/-- The path in an id has the names of the directories, and the name of the file without the
    extension. -/
theorem idPath_eq (hstem : stem ≠ "")
    (hname : f.entry.name = stem ++ "." ++ f.kind.fileExtension) :
    f.entry.idPath = joined ((f.entry.directories ++ [idStem stem]).map String.toList) := by
  have hsplit : splitExtension f.entry.name.toList
      = (stem.toList, some f.kind.fileExtension.toList) := by
    rw [toList_name_eq hname]
    exact splitExtension_append (String.toList_eq_nil_iff.not.mpr hstem)
      f.kind.dot_notMem_fileExtension
  rw [FileEntry.idPath, FileEntry.names_eq_append, ResourceId.dropExtension,
    List.getLast?_concat, List.map_append]
  simp only [isDots_name_eq_false hstem hname, Bool.false_eq_true, if_false,
    List.dropLast_concat, hsplit, if_true]
  by_cases hdot : stem = "."
  · rw [idStem, if_pos hdot, hdot]
    rfl
  · have hne : stem.toList ≠ ['.'] := fun h => hdot (String.toList_injective h)
    rw [idStem, if_neg hdot, if_pos (bne_iff_ne.mpr hne)]
    rfl

/-- Ids are equal exactly if their texts are, with the colon between owner and path. -/
theorem id_eq_id_iff {owner other : String} :
    f.id owner = g.id other
      ↔ owner.toList ++ ':' :: f.entry.idPath = other.toList ++ ':' :: g.entry.idPath := by
  rw [← String.toList_inj, id, id, ResourceId.toList_ofFile, ResourceId.toList_ofFile]

/-- How a file can have the id of another one. -/
inductive Clash : (owner : String) → SourceFile → (other : String) → SourceFile → Prop
  /-- In one directory, one dot stands before the extension of the one file, and two stand
      before that of the other. -/
  | dots {owner : String} {f g : SourceFile}
      (hdirectories : f.entry.directories = g.entry.directories)
      (hf : f.entry.name = "." ++ "." ++ f.kind.fileExtension)
      (hg : g.entry.name = ".." ++ "." ++ g.kind.fileExtension) : Clash owner f owner g
  /-- The name of the one namespace is that of the other, a colon and more, and with this
      and a colon begins the path of the file in the other one. -/
  | colon {owner rest : String} {f g : SourceFile}
      (hpath : g.entry.idPath = rest.toList ++ ':' :: f.entry.idPath) :
      Clash (owner ++ ":" ++ rest) f owner g

variable {owner other : String} {tree : FileTree}

/-- The names on the path of a file in a well-formed tree are proper ones. -/
theorem isFileName_of_holdsResource (hwf : tree.WellFormed) (hf : f.HoldsResource owner tree) :
    ∀ name ∈ f.entry.directories ++ [f.entry.name], IsFileName name := by
  intro name hname
  refine hwf.isFileName_of_at? hf.at?_eq name ?_
  exact List.mem_cons_of_mem _ (List.mem_cons_of_mem _ (List.mem_append_right _ hname))

/-- No name in the path of an id has a slash. -/
theorem slash_notMem_idNames (hwf : tree.WellFormed) (hf : f.HoldsResource owner tree)
    (hname : f.entry.name = stem ++ "." ++ f.kind.fileExtension) :
    ∀ name ∈ (f.entry.directories ++ [idStem stem]).map String.toList, '/' ∉ name := by
  have hnames := isFileName_of_holdsResource hwf hf
  intro name hmem
  obtain ⟨s, hs, rfl⟩ := List.mem_map.mp hmem
  rcases List.mem_append.mp hs with hs | hs
  · exact (hnames s (List.mem_append_left _ hs)).2.2.2
  · obtain rfl := List.mem_singleton.mp hs
    rw [idStem]
    split
    · decide
    · have hslash := (hnames _ (List.mem_append_right _ List.mem_cons_self)).2.2.2
      rw [toList_name_eq hname] at hslash
      exact fun hmem => hslash (List.mem_append_left _ hmem)

/-- Two files of a kind in one namespace have the same path in their ids only if their names
    clash. -/
theorem eq_or_clash_of_idPath_eq (hwf : tree.WellFormed) (hf : f.HoldsResource owner tree)
    (hg : g.HoldsResource owner tree) (hkind : f.kind = g.kind)
    (h : f.entry.idPath = g.entry.idPath) :
    f = g ∨ Clash owner f owner g ∨ Clash owner g owner f := by
  obtain ⟨s, hs, hfname⟩ := hf.named
  obtain ⟨t, ht, hgname⟩ := hg.named
  rw [idPath_eq hs hfname, idPath_eq ht hgname] at h
  -- no name has a slash, so the paths are cut into the same names; only the last was changed
  have hnames := joined_inj (by simp) (by simp) (slash_notMem_idNames hwf hf hfname)
    (slash_notMem_idNames hwf hg hgname) h
  obtain ⟨hdirectories, hstems⟩ :=
    List.append_inj' (List.map_injective_iff.mpr (fun _ _ => String.toList_injective) hnames) rfl
  rcases idStem_eq_iff.mp (List.singleton_inj.mp hstems) with rfl | ⟨rfl, rfl⟩ | ⟨rfl, rfl⟩
  · have hpath : f.packPath owner = g.packPath owner := by
      rw [packPath, packPath, hkind, hdirectories, hfname, hgname, hkind]
    exact .inl (eq_of_packPath_eq hf.at?_eq hg.at?_eq hpath).2
  · exact .inr (.inl (.dots hdirectories hfname hgname))
  · exact .inr (.inr (.dots hdirectories.symm hgname hfname))

/-- Files that clash have the same id. -/
theorem Clash.id_eq (h : Clash owner f other g) : f.id owner = g.id other := by
  rw [id_eq_id_iff]
  cases h with
  | dots hdirectories hf hg =>
      rw [idPath_eq (by decide) hf, idPath_eq (by decide) hg, hdirectories]
      rfl
  | colon hpath =>
      rw [hpath, String.toList_append, String.toList_append, List.append_assoc, List.append_assoc]
      rfl

/-- A file does not clash with itself. -/
theorem Clash.ne (h : Clash owner f other g) : (owner, f) ≠ (other, g) := by
  intro heq
  obtain ⟨howner, rfl⟩ := Prod.mk.inj heq
  cases h with
  | dots hdirectories hf hg =>
      have hlength := congrArg String.length (hf.symm.trans hg)
      have hdots : ".".length < "..".length := by decide
      simp only [String.length_append] at hlength
      omega
  | colon hpath =>
      have hlength := congrArg String.length howner
      have hcolon : 0 < ":".length := by decide
      simp only [String.length_append] at hlength
      omega

/-- If an owner goes on behind a colon as the path of the other file begins, the files clash. -/
theorem clash_of_toList_eq {rest : List Char} (howner : owner.toList = other.toList ++ ':' :: rest)
    (hpath : g.entry.idPath = rest ++ ':' :: f.entry.idPath) : Clash owner f other g := by
  obtain rfl : owner = other ++ ":" ++ String.ofList rest := by
    apply String.toList_injective
    rw [howner]
    simp
  refine .colon ?_
  rw [hpath, String.toList_ofList]

/-- If the name of one namespace begins with that of another, files with the same id clash:
    either the namespaces are the same, or the name goes on with a colon. -/
theorem clash_of_owner_append (hwf : tree.WellFormed) (hf : f.HoldsResource owner tree)
    (hg : g.HoldsResource other tree) (hkind : f.kind = g.kind) (hne : (owner, f) ≠ (other, g))
    {rest : List Char} (hother : other.toList = owner.toList ++ rest)
    (hpath : ':' :: f.entry.idPath = rest ++ ':' :: g.entry.idPath) :
    Clash owner f other g ∨ Clash other g owner f := by
  cases rest with
  | nil =>
      rw [List.append_nil] at hother
      obtain rfl := String.toList_injective hother
      obtain ⟨_, hpath⟩ := List.cons.inj hpath
      rcases eq_or_clash_of_idPath_eq hwf hf hg hkind hpath with rfl | hclash
      · exact absurd rfl hne
      · exact hclash
  | cons c rest =>
      obtain ⟨rfl, htail⟩ := List.cons.inj hpath
      exact .inr (clash_of_toList_eq hother htail)

/-- Two different files of a kind that hold resources have the same id exactly if they
    clash. -/
theorem id_eq_iff_clash (hwf : tree.WellFormed) (hf : f.HoldsResource owner tree)
    (hg : g.HoldsResource other tree) (hkind : f.kind = g.kind) (hne : (owner, f) ≠ (other, g)) :
    f.id owner = g.id other ↔ Clash owner f other g ∨ Clash other g owner f := by
  constructor
  · intro h
    rw [id_eq_id_iff] at h
    -- the names of the namespaces stand in front, so one of them begins with the other
    rcases List.append_eq_append_iff.mp h with ⟨rest, hother, hpath⟩ | ⟨rest, howner, hpath⟩
    · exact clash_of_owner_append hwf hf hg hkind hne hother hpath
    · exact (clash_of_owner_append hwf hg hf hkind.symm hne.symm howner hpath).symm
  · rintro (h | h)
    · exact h.id_eq
    · exact h.id_eq.symm

end SourceFile

/-! ## The ids in a pack -/

/-- The files of a kind that hold resources, with the names of their namespaces, in the order
    in which they are loaded. -/
def ownedFiles (tree : FileTree) (kind : Kind) : List (String × SourceFile) :=
  (namespaceTrees tree).flatMap fun d =>
    (loadedFiles d.1 d.2 kind).map fun f => (d.1, f)

/-- No file is counted twice. -/
theorem nodup_ownedFiles {tree : FileTree} (hwf : tree.WellFormed) (kind : Kind) :
    (ownedFiles tree kind).Nodup := by
  rw [ownedFiles, List.nodup_flatMap]
  constructor
  · intro d hd
    have hat := ((mem_namespaceTrees_iff hwf).mp hd).1
    refine List.Nodup.map (fun _ _ h => (Prod.mk.inj h).2) ?_
    refine (pairwise_loadedFiles (hwf.at? hat) d.1 kind).imp ?_
    rintro f _ hlt rfl
    exact hlt.irrefl
  · refine (pairwise_namespaceTrees hwf).imp ?_
    intro d e hlt
    refine List.disjoint_left.mpr ?_
    intro x hd he
    obtain ⟨f, _, rfl⟩ := List.mem_map.mp hd
    obtain ⟨g, _, heq⟩ := List.mem_map.mp he
    exact hlt.ne (Prod.mk.inj heq).1.symm

/-- What is behind the path of a file of a pack is in the directory of a namespace. -/
theorem FileTree.exists_directory_of_at?_packPath {tree node : FileTree} {owner : String}
    {f : SourceFile} (h : tree.at? (f.packPath owner) = some node) :
    ∃ entries, tree.at? ["data", owner] = some (.directory entries) := by
  have hat : tree.at? (["data", owner] ++ _) = _ := h
  rw [FileTree.at?_append] at hat
  obtain ⟨parent, hparent, hat⟩ := Option.bind_eq_some_iff.mp hat
  cases parent with
  | directory entries => exact ⟨entries, hparent⟩
  | file bytes =>
      rw [FileTree.at?_file_of_ne_nil (by simp)] at hat
      exact nomatch hat

section Load

variable {path : String} {tree : FileTree} {pack : Pack}

/-- If the pack is loaded, each of its namespaces is. -/
theorem Pack.exists_load_of_mem (h : load path (some tree) = .ok pack) {d : String × FileTree}
    (hd : d ∈ namespaceTrees tree) : ∃ ns, Namespace.load d.1 d.2 = .ok ns := by
  obtain ⟨i, hi, rfl⟩ := List.getElem_of_mem hd
  have hload := forall₂_of_load h
  exact ⟨_, hload.get hi (hload.length_eq ▸ hi)⟩

/-- The files that were counted are those that hold a resource of the kind. -/
theorem mem_ownedFiles_iff (hwf : tree.WellFormed) (h : Pack.load path (some tree) = .ok pack)
    {kind : Kind} {owner : String} {f : SourceFile} :
    (owner, f) ∈ ownedFiles tree kind ↔ f.kind = kind ∧ f.HoldsResource owner tree := by
  have hmem : ∀ d ∈ namespaceTrees tree,
      f ∈ loadedFiles d.1 d.2 kind ↔ f.kind = kind ∧ f.HoldsResource d.1 tree := by
    intro d hd
    obtain ⟨ns, hns⟩ := Pack.exists_load_of_mem h hd
    exact Namespace.mem_loadedFiles_iff hwf ((mem_namespaceTrees_iff hwf).mp hd).1 hns
  rw [ownedFiles, List.mem_flatMap]
  constructor
  · rintro ⟨d, hd, hf⟩
    obtain ⟨g, hg, heq⟩ := List.mem_map.mp hf
    obtain ⟨rfl, rfl⟩ := Prod.mk.inj heq
    exact (hmem d hd).mp hg
  · rintro ⟨hkind, hf⟩
    obtain ⟨entries, hat⟩ := FileTree.exists_directory_of_at?_packPath hf.at?_eq
    have hd : (owner, .directory entries) ∈ namespaceTrees tree :=
      (mem_namespaceTrees_iff hwf).mpr ⟨hat, entries, rfl⟩
    exact ⟨_, hd, List.mem_map.mpr ⟨f, (hmem _ hd).mpr ⟨hkind, hf⟩, rfl⟩⟩

/-- Related lists that have equal images element by element have equal images. -/
theorem flatMap_eq_of_forall₂ {α β γ : Type} {f : α → List γ} {g : β → List γ} {xs : List α}
    {ys : List β} (h : List.Forall₂ (fun x y => f x = g y) xs ys) :
    xs.flatMap f = ys.flatMap g := by
  induction h with
  | nil => rfl
  | cons hxy _ ih => rw [List.flatMap_cons, List.flatMap_cons, hxy, ih]

/-- The ids of the resources of a kind are those of their files. -/
theorem flatMap_id_ofKind_of_load (h : Pack.load path (some tree) = .ok pack) (kind : Kind) :
    (pack.namespaces.flatMap fun ns => (ns.ofKind kind).map Resource.id)
      = (ownedFiles tree kind).map fun e => e.2.id e.1 := by
  rw [ownedFiles, List.map_flatMap]
  symm
  apply flatMap_eq_of_forall₂
  refine (Pack.forall₂_of_load h).imp ?_
  intro d ns hload
  rw [Namespace.map_id_ofKind_of_load hload, List.map_map]
  rfl

/-- **When ids tell files apart.**  The resources of a kind in a pack have the ids of the
    files that hold them.  Two different ones of these files have the same id exactly if
    they clash; so the ids are different exactly if no two files clash. -/
theorem load_ids_nodup_iff (hwf : tree.WellFormed) (h : Pack.load path (some tree) = .ok pack)
    (kind : Kind) :
    ∃ fs : List (String × SourceFile), fs.Nodup
      ∧ (∀ owner f, (owner, f) ∈ fs ↔ f.kind = kind ∧ f.HoldsResource owner tree)
      ∧ (pack.namespaces.flatMap fun ns => (ns.ofKind kind).map Resource.id)
        = (fs.map fun e => e.2.id e.1)
      ∧ (∀ d ∈ fs, ∀ e ∈ fs, d ≠ e →
        (d.2.id d.1 = e.2.id e.1 ↔ d.2.Clash d.1 e.1 e.2 ∨ e.2.Clash e.1 d.1 d.2))
      ∧ ((pack.namespaces.flatMap fun ns => (ns.ofKind kind).map Resource.id).Nodup
        ↔ ∀ d ∈ fs, ∀ e ∈ fs, ¬d.2.Clash d.1 e.1 e.2) := by
  have hclash : ∀ d ∈ ownedFiles tree kind, ∀ e ∈ ownedFiles tree kind, d ≠ e →
      (d.2.id d.1 = e.2.id e.1 ↔ d.2.Clash d.1 e.1 e.2 ∨ e.2.Clash e.1 d.1 d.2) := by
    rintro ⟨owner, f⟩ hf ⟨other, g⟩ hg hne
    obtain ⟨hfkind, hf⟩ := (mem_ownedFiles_iff hwf h).mp hf
    obtain ⟨hgkind, hg⟩ := (mem_ownedFiles_iff hwf h).mp hg
    exact SourceFile.id_eq_iff_clash hwf hf hg (hfkind.trans hgkind.symm) hne
  refine ⟨ownedFiles tree kind, nodup_ownedFiles hwf kind, fun _ _ => mem_ownedFiles_iff hwf h,
    flatMap_id_ofKind_of_load h kind, hclash, ?_⟩
  rw [flatMap_id_ofKind_of_load h, List.nodup_map_iff_inj_on (nodup_ownedFiles hwf kind)]
  constructor
  · intro hinj d hd e he hde
    exact hde.ne (hinj d hd e he hde.id_eq)
  · intro hnone d hd e he hid
    by_contra hne
    rcases (hclash d hd e he hne).mp hid with hde | hed
    · exact hnone d hd e he hde
    · exact hnone e he d hd hed

end Load

/-- The recipes in the files that are named by one dot and by two get the same id. -/
theorem load_ids_nodup_iff_dots :
    let tree : FileTree := .directory [("data", .directory [("m",
      recipesTree [("..json", "{}"), ("...json", "{}")])])]
    tree.WellFormed ∧ ∃ pack, Pack.load "." (some tree) = .ok pack
      ∧ ¬(pack.namespaces.flatMap fun ns =>
        (ns.ofKind (.document .recipe)).map Resource.id).Nodup := by
  intro tree
  have hnames : ([("..json", "{}"), ("...json", "{}")].map (·.1)).Nodup := by
    decide
  have hwf : tree.WellFormed := wellFormed_recipesTree (by decide) hnames (by decide)
  obtain ⟨ns, hns⟩ := exists_load_recipesTree "m" [("..json", "{}"), ("...json", "{}")]
  have hload : Pack.load "." (some tree) = .ok ⟨.null, [ns]⟩ := Pack.load_of_namespace hns "."
  obtain ⟨fs, _, hmem, _, _, hnodup⟩ := load_ids_nodup_iff hwf hload (.document .recipe)
  have hjson : (Json.ofText? "{}").isSome = true := by
    decide +kernel
  have hone : ("m", ⟨.document .recipe, ⟨[], "..json", "{}".toUTF8⟩⟩) ∈ fs :=
    (hmem _ _).mpr ⟨rfl, holdsResource_recipesTree hnames List.mem_cons_self
      ⟨".", by decide, by decide⟩ hjson⟩
  have htwo : ("m", ⟨.document .recipe, ⟨[], "...json", "{}".toUTF8⟩⟩) ∈ fs :=
    (hmem _ _).mpr ⟨rfl, holdsResource_recipesTree hnames
      (List.mem_cons_of_mem _ List.mem_cons_self) ⟨"..", by decide, by decide⟩ hjson⟩
  refine ⟨hwf, _, hload, ?_⟩
  intro h
  exact hnodup.mp h _ hone _ htwo (.dots rfl (by decide) (by decide))

end PackLint
