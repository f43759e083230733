import Mathlib.Data.List.Forall2
import PackLint.Pack.Load
import PackLint.Proofs.Pack.Kinds

/-! # Loaded data packs

    What a load that succeeds has loaded: the namespaces are those of the directories
    in their order, and the resources of a kind in a namespace are those of the files
    of the kind in their order, without the files whose text is none of the kind. -/

namespace PackLint

open Text

/-- A computation that succeeds does so step by step. -/
theorem bind_eq_ok {ε α β : Type} {x : Except ε α} {f : α → Except ε β} {b : β} :
    x >>= f = .ok b ↔ ∃ a, x = .ok a ∧ f a = .ok b := by
  cases x with
  | error e => simp [bind, Except.bind]
  | ok a => simp [bind, Except.bind]

/-- A computation succeeds whatever is made of its error. -/
theorem mapError_eq_ok {ε ε' α : Type} {f : ε → ε'} {x : Except ε α} {a : α} :
    x.mapError f = .ok a ↔ x = .ok a := by
  cases x with
  | error e => simp [Except.mapError]
  | ok b => simp [Except.mapError]

/-- A map that fails nowhere has a result for each element. -/
theorem forall₂_of_mapM_eq_ok {ε α β : Type} {f : α → Except ε β} {xs : List α} {ys : List β}
    (h : xs.mapM f = .ok ys) : List.Forall₂ (fun x y => f x = .ok y) xs ys := by
  induction xs generalizing ys with
  | nil =>
      cases h
      exact .nil
  | cons x xs ih =>
      rw [List.mapM_cons] at h
      obtain ⟨y, hy, h⟩ := bind_eq_ok.mp h
      obtain ⟨zs, hzs, h⟩ := bind_eq_ok.mp h
      cases h
      exact .cons hy (ih hzs)

/-! ## Resources from files -/

/-- The bytes of a text are read as this text. -/
theorem fromUTF8?_toUTF8 (text : String) : String.fromUTF8? text.toUTF8 = some text := by
  rw [String.fromUTF8?, String.toUTF8, dif_pos text.isValidUTF8]
  rfl

/-- A resource that is read from a text has the kind and id that it was read for. -/
theorem Resource.kind_and_id_of_ofText? {kind : Kind} {id text : String} {r : Resource}
    (h : ofText? kind id text = some r) : r.kind = kind ∧ r.id = id := by
  cases kind with
  | function =>
      cases h
      exact ⟨rfl, rfl⟩
  | document kind =>
      obtain ⟨d, hd, rfl⟩ := Option.map_eq_some_iff.mp h
      obtain ⟨content, _, rfl⟩ := Option.map_eq_some_iff.mp hd
      exact ⟨rfl, rfl⟩
  | tag kind =>
      obtain ⟨d, hd, rfl⟩ := Option.map_eq_some_iff.mp h
      obtain ⟨content, _, rfl⟩ := Option.map_eq_some_iff.mp hd
      exact ⟨rfl, rfl⟩

namespace SourceFile

/-- The resource in a file, if the text of the file is one of its kind. -/
def resource? (owner : String) (f : SourceFile) : Option Resource :=
  (String.fromUTF8? f.entry.bytes).bind (Resource.ofText? f.kind (f.id owner))

/-- A resource that is read from a file has the kind and id of the file. -/
theorem kind_and_id_of_resource? {owner : String} {f : SourceFile} {r : Resource}
    (h : f.resource? owner = some r) : r.kind = f.kind ∧ r.id = f.id owner := by
  obtain ⟨text, _, hr⟩ := Option.bind_eq_some_iff.mp h
  exact Resource.kind_and_id_of_ofText? hr

end SourceFile

/-- The files of a kind have its extension. -/
theorem kind_and_extension?_of_mem_sourceFiles {tree : FileTree} {kind : Kind} {f : SourceFile}
    (h : f ∈ sourceFiles tree kind) :
    f.kind = kind ∧ extension? f.entry.name = some kind.fileExtension := by
  simp only [sourceFiles] at h
  split at h
  · exact absurd h List.not_mem_nil
  · obtain ⟨entry, hentry, rfl⟩ := List.mem_map.mp h
    exact ⟨rfl, beq_iff_eq.mp (List.mem_filter.mp hentry).2⟩

/-- The files of a kind that hold a resource of the kind. -/
def loadedFiles (owner : String) (tree : FileTree) (kind : Kind) : List SourceFile :=
  (sourceFiles tree kind).filter fun f => (f.resource? owner).isSome

/-! ## Namespaces -/

namespace Namespace

/-- A text adds the resource that it denotes, if any, at the end. -/
theorem addText_eq (ns : Namespace) (kind : Kind) (id text : String) :
    ns.addText kind id text
      = ⟨ns.name, ns.resources ++ (Resource.ofText? kind id text).toList⟩ := by
  rw [addText]
  cases Resource.ofText? kind id text with
  | none => rw [Option.toList_none, List.append_nil]
  | some r => rfl

/-- A file adds the resource that it holds, if any, at the end. -/
theorem addFile_eq_ok {ns loaded : Namespace} {f : SourceFile} (h : ns.addFile f = .ok loaded) :
    loaded = ⟨ns.name, ns.resources ++ (f.resource? ns.name).toList⟩ := by
  obtain ⟨text, htext, h⟩ := bind_eq_ok.mp h
  cases h
  have hbytes : String.fromUTF8? f.entry.bytes = some text := by
    rw [SourceFile.text] at htext
    split at htext
    · cases htext
      assumption
    · exact nomatch htext
  rw [SourceFile.resource?, hbytes, Option.bind_some, addText_eq]

/-- Files add the resources that they hold, in their order. -/
theorem foldlM_addFile_eq_ok {ns loaded : Namespace} {fs : List SourceFile}
    (h : fs.foldlM addFile ns = .ok loaded) :
    loaded = ⟨ns.name, ns.resources ++ fs.filterMap (SourceFile.resource? ns.name)⟩ := by
  induction fs generalizing ns with
  | nil =>
      cases h
      rw [List.filterMap_nil, List.append_nil]
  | cons f fs ih =>
      obtain ⟨next, hnext, h⟩ := bind_eq_ok.mp h
      obtain rfl := addFile_eq_ok hnext
      rw [ih h, List.filterMap_cons]
      cases f.resource? ns.name with
      | none => rw [Option.toList_none, List.append_nil]
      | some r => rw [Option.toList_some, List.append_assoc]; rfl

/-- A namespace has the name of its directory. -/
theorem name_of_load {name : String} {tree : FileTree} {ns : Namespace}
    (h : load name tree = .ok ns) : ns.name = name := by
  rw [foldlM_addFile_eq_ok h]
  rfl

/-- A namespace has the resources in the files of all kinds, kind by kind. -/
theorem load_eq_ok {name : String} {tree : FileTree} {ns : Namespace}
    (h : load name tree = .ok ns) :
    ns = ⟨name, (Kind.all.flatMap (sourceFiles tree)).filterMap (SourceFile.resource? name)⟩ :=
  foldlM_addFile_eq_ok h

/-- The resources of a kind are those in the files of the kind. -/
theorem ofKind_of_load {name : String} {tree : FileTree} {ns : Namespace}
    (h : load name tree = .ok ns) (kind : Kind) :
    ns.ofKind kind = (sourceFiles tree kind).filterMap (SourceFile.resource? name) := by
  have hkind : ∀ k, ∀ r ∈ (sourceFiles tree k).filterMap (SourceFile.resource? name),
      r.kind = k := by
    intro k r hr
    obtain ⟨f, hf, hresource⟩ := List.mem_filterMap.mp hr
    rw [(SourceFile.kind_and_id_of_resource? hresource).1,
      (kind_and_extension?_of_mem_sourceFiles hf).1]
  rw [load_eq_ok h, List.filterMap_flatMap]
  exact ofKind_flatMap_all hkind name kind

/-- The ids of the resources of a kind are those of the files that hold one. -/
theorem map_id_ofKind_of_load {name : String} {tree : FileTree} {ns : Namespace}
    (h : load name tree = .ok ns) (kind : Kind) :
    (ns.ofKind kind).map Resource.id = (loadedFiles name tree kind).map (SourceFile.id name) := by
  rw [ofKind_of_load h, loadedFiles]
  induction sourceFiles tree kind with
  | nil => rfl
  | cons f fs ih =>
      cases hr : f.resource? name with
      | none => simp only [List.filterMap_cons, List.filter_cons, hr, ih]; rfl
      | some r =>
          simp only [List.filterMap_cons, List.filter_cons, hr, Option.isSome_some, if_true,
            List.map_cons, ih, (SourceFile.kind_and_id_of_resource? hr).2]

end Namespace

/-! ## Data packs -/

/-- A data pack that was loaded has the namespaces of the directories, in their
    order. -/
theorem Pack.forall₂_of_load {path : String} {tree : FileTree} {pack : Pack}
    (h : Pack.load path (some tree) = .ok pack) :
    List.Forall₂ (fun directory ns => Namespace.load directory.1 directory.2 = .ok ns)
      (namespaceTrees tree) pack.namespaces := by
  cases tree with
  | file bytes => exact nomatch h
  | directory entries =>
      obtain ⟨metadata, _, h⟩ := bind_eq_ok.mp h
      obtain ⟨namespaces, hnamespaces, h⟩ := bind_eq_ok.mp h
      cases h
      exact forall₂_of_mapM_eq_ok hnamespaces

/-- The namespaces of a pack are named by their directories. -/
theorem Pack.map_name_of_load {path : String} {tree : FileTree} {pack : Pack}
    (h : Pack.load path (some tree) = .ok pack) :
    pack.namespaces.map (·.name) = (namespaceTrees tree).map (·.1) := by
  have hnames := (Pack.forall₂_of_load h).imp fun _ _ hload => (Namespace.name_of_load hload).symm
  rw [← List.forall₂_eq_eq_eq, List.forall₂_map_left_iff, List.forall₂_map_right_iff]
  exact hnames.flip.imp fun _ _ heq => heq.symm

/-- Each namespace of a pack was loaded from a directory of its name. -/
theorem Pack.exists_of_mem_namespaces {path : String} {tree : FileTree} {pack : Pack}
    (h : Pack.load path (some tree) = .ok pack) {ns : Namespace} (hns : ns ∈ pack.namespaces) :
    ∃ directory, (ns.name, directory) ∈ namespaceTrees tree
      ∧ Namespace.load ns.name directory = .ok ns := by
  obtain ⟨i, hi, rfl⟩ := List.getElem_of_mem hns
  have hload := Pack.forall₂_of_load h
  have hlength : i < (namespaceTrees tree).length := hload.length_eq ▸ hi
  have hith : Namespace.load (namespaceTrees tree)[i].1 (namespaceTrees tree)[i].2
      = .ok pack.namespaces[i] := hload.get hlength hi
  rw [Namespace.name_of_load hith]
  exact ⟨(namespaceTrees tree)[i].2, List.getElem_mem hlength, hith⟩

end PackLint
