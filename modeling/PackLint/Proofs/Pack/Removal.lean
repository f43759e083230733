import Mathlib.Data.List.Sort
import PackLint.Proofs.Pack.FilePath

/-! # Removing a file

    A tree from which one file was removed has the same directories and the other
    files.  What is loaded from a tree depends on the directories and files that are
    behind paths, and not on how a directory lists its entries; so if the load passes a
    file over, the tree without it loads in the same way. -/

namespace PackLint

open Text

namespace FileTree

/-- The tree without the file behind a path of names.  The directories stay. -/
def removeFile : (path : List String) → FileTree → FileTree
  | [], tree => tree
  | _ :: _, file bytes => file bytes
  | [name], directory entries =>
      directory (entries.filter fun e => e.1 != name || e.2.isDirectory)
  | name :: next :: rest, directory entries =>
      directory (entries.map fun e =>
        if e.1 = name then (e.1, removeFile (next :: rest) e.2) else e)

/-- The second tree is the first one without the file behind this path: it has the same
    directories and the other files. -/
structure Removes (path : List String) (tree rest : FileTree) : Prop where
  directory_iff : ∀ q, (∃ entries, rest.at? q = some (.directory entries))
    ↔ ∃ entries, tree.at? q = some (.directory entries)
  file_iff : ∀ q bytes, rest.at? q = some (.file bytes)
    ↔ tree.at? q = some (.file bytes) ∧ q ≠ path

/-- What is at a path is in the entry of its first name. -/
theorem at?_cons_eq_some_iff {entries : List (String × FileTree)}
    (h : (entries.map (·.1)).Nodup) {name : String} {path : List String} {node : FileTree} :
    (directory entries).at? (name :: path) = some node
      ↔ ∃ child, (name, child) ∈ entries ∧ child.at? path = some node := by
  rw [at?, Option.bind_eq_some_iff]
  constructor
  · rintro ⟨child, hchild, hnode⟩
    exact ⟨child, mem_of_lookup_eq_some hchild, hnode⟩
  · rintro ⟨child, hchild, hnode⟩
    exact ⟨child, lookup_eq_some_of_mem h hchild, hnode⟩

/-- Without a file, a well-formed tree is well-formed. -/
theorem WellFormed.removeFile (path : List String) {tree : FileTree} (h : tree.WellFormed) :
    (tree.removeFile path).WellFormed := by
  fun_induction FileTree.removeFile path tree with
  | case1 tree => exact h
  | case2 name rest bytes => exact h
  | case3 name entries =>
      obtain ⟨hnodup, hentries⟩ := wellFormed_directory.mp h
      refine wellFormed_directory.mpr ⟨hnodup.sublist (List.filter_sublist.map _), ?_⟩
      intro e he
      exact hentries e (List.mem_of_mem_filter he)
  | case4 name next rest entries ih =>
      obtain ⟨hnodup, hentries⟩ := wellFormed_directory.mp h
      refine wellFormed_directory.mpr ⟨?_, ?_⟩
      · have hnames : (Prod.fst ∘ fun e : String × FileTree =>
            if e.1 = name then (e.1, e.2.removeFile (next :: rest)) else e) = Prod.fst := by
          funext e
          rw [Function.comp_apply]
          split <;> rfl
        rw [List.map_map, hnames]
        exact hnodup
      · intro e he
        obtain ⟨e, hmem, rfl⟩ := List.mem_map.mp he
        obtain ⟨hname, htree⟩ := hentries e hmem
        split
        · exact ⟨hname, ih e htree⟩
        · exact ⟨hname, htree⟩

/-- In a directory a file is removed if it is removed below the first name of its path, and
    nothing changes below the other names. -/
theorem removes_directory {entries others : List (String × FileTree)}
    (h : (directory entries).WellFormed) (hothers : (directory others).WellFormed)
    {name : String} {path : List String}
    (hsame : ∀ n, n ≠ name → ∀ child, (n, child) ∈ others ↔ (n, child) ∈ entries)
    (hdirectory : ∀ q,
      (∃ inner child, (name, child) ∈ others ∧ child.at? q = some (.directory inner))
        ↔ ∃ inner child, (name, child) ∈ entries ∧ child.at? q = some (.directory inner))
    (hfile : ∀ q bytes, (∃ child, (name, child) ∈ others ∧ child.at? q = some (.file bytes))
      ↔ (∃ child, (name, child) ∈ entries ∧ child.at? q = some (.file bytes)) ∧ q ≠ path) :
    Removes (name :: path) (directory entries) (directory others) := by
  have hentries := (wellFormed_directory.mp h).1
  have hrest := (wellFormed_directory.mp hothers).1
  constructor
  · intro q
    cases q with
    | nil => exact iff_of_true ⟨others, rfl⟩ ⟨entries, rfl⟩
    | cons n q =>
        simp only [at?_cons_eq_some_iff hentries, at?_cons_eq_some_iff hrest]
        by_cases hn : n = name
        · subst hn
          exact hdirectory q
        · simp only [hsame n hn]
  · intro q bytes
    cases q with
    | nil => simp [at?]
    | cons n q =>
        simp only [at?_cons_eq_some_iff hentries, at?_cons_eq_some_iff hrest]
        by_cases hn : n = name
        · subst hn
          simp only [hfile, ne_eq, List.cons.injEq, true_and]
        · simp only [hsame n hn, ne_eq, List.cons.injEq, hn, false_and, not_false_eq_true, and_true]

/-- The file is removed from the directory that lists it. -/
theorem removes_last {entries : List (String × FileTree)} (h : (directory entries).WellFormed)
    (name : String) :
    Removes [name] (directory entries) ((directory entries).removeFile [name]) := by
  have hmem : ∀ n child, (n, child) ∈ (entries.filter fun e => e.1 != name || e.2.isDirectory)
      ↔ (n, child) ∈ entries ∧ (n ≠ name ∨ ∃ inner, child = .directory inner) := by
    intro n child
    rw [List.mem_filter, Bool.or_eq_true, bne_iff_ne, isDirectory_iff]
  refine removes_directory h (h.removeFile [name]) ?_ ?_ ?_
  · intro n hn child
    rw [hmem]
    exact and_iff_left (.inl hn)
  · intro q
    simp only [hmem]
    constructor
    · rintro ⟨inner, child, ⟨hchild, _⟩, hat⟩
      exact ⟨inner, child, hchild, hat⟩
    · rintro ⟨inner, child, hchild, hat⟩
      -- a path that leads to a directory does not pass through a file
      refine ⟨inner, child, ⟨hchild, .inr ?_⟩, hat⟩
      cases child with
      | directory inner => exact ⟨inner, rfl⟩
      | file bytes => cases q <;> exact nomatch hat
  · intro q bytes
    simp only [hmem]
    constructor
    · rintro ⟨child, ⟨hchild, hdirectory⟩, hat⟩
      refine ⟨⟨child, hchild, hat⟩, ?_⟩
      rintro rfl
      obtain ⟨inner, rfl⟩ := hdirectory.resolve_left (not_not_intro rfl)
      exact nomatch hat
    · rintro ⟨⟨child, hchild, hat⟩, hq⟩
      refine ⟨child, ⟨hchild, .inr ?_⟩, hat⟩
      cases child with
      | directory inner => exact ⟨inner, rfl⟩
      | file bytes => exact nomatch (at?_file_of_ne_nil hq bytes).symm.trans hat

/-- What is removed below an entry is removed from the directory. -/
theorem removes_below {entries : List (String × FileTree)} (h : (directory entries).WellFormed)
    {name next : String} {path : List String}
    (hchild : ∀ child, (name, child) ∈ entries →
      Removes (next :: path) child (child.removeFile (next :: path))) :
    Removes (name :: next :: path) (directory entries)
      ((directory entries).removeFile (name :: next :: path)) := by
  have hmem : ∀ n child, (n, child) ∈ (entries.map fun e =>
        if e.1 = name then (e.1, e.2.removeFile (next :: path)) else e)
      ↔ ∃ old, (n, old) ∈ entries
        ∧ child = if n = name then old.removeFile (next :: path) else old := by
    intro n child
    rw [List.mem_map]
    constructor
    · rintro ⟨⟨m, old⟩, hold, heq⟩
      by_cases hm : m = name
      · rw [if_pos hm] at heq
        obtain ⟨rfl, rfl⟩ := Prod.mk.inj heq
        exact ⟨old, hold, (if_pos hm).symm⟩
      · rw [if_neg hm] at heq
        obtain ⟨rfl, rfl⟩ := Prod.mk.inj heq
        exact ⟨old, hold, (if_neg hm).symm⟩
    · rintro ⟨old, hold, rfl⟩
      refine ⟨(n, old), hold, ?_⟩
      by_cases hn : n = name
      · simp only [if_pos hn]
      · simp only [if_neg hn]
  refine removes_directory h (h.removeFile (name :: next :: path)) ?_ ?_ ?_
  · intro n hn child
    simp only [hmem, if_neg hn, exists_eq_right']
  · intro q
    simp only [hmem, if_true]
    constructor
    · rintro ⟨inner, _, ⟨child, hold, rfl⟩, hat⟩
      obtain ⟨inner, hat⟩ := ((hchild child hold).directory_iff q).mp ⟨inner, hat⟩
      exact ⟨inner, child, hold, hat⟩
    · rintro ⟨inner, child, hold, hat⟩
      obtain ⟨inner, hat⟩ := ((hchild child hold).directory_iff q).mpr ⟨inner, hat⟩
      exact ⟨inner, _, ⟨child, hold, rfl⟩, hat⟩
  · intro q bytes
    simp only [hmem, if_true]
    constructor
    · rintro ⟨_, ⟨child, hold, rfl⟩, hat⟩
      obtain ⟨hat, hq⟩ := ((hchild child hold).file_iff q bytes).mp hat
      exact ⟨⟨child, hold, hat⟩, hq⟩
    · rintro ⟨⟨child, hold, hat⟩, hq⟩
      exact ⟨_, ⟨child, hold, rfl⟩, ((hchild child hold).file_iff q bytes).mpr ⟨hat, hq⟩⟩

/-- Behind a path that is not empty `removeFile` removes the file, if there is one. -/
theorem removes_removeFile {path : List String} (hne : path ≠ []) {tree : FileTree}
    (h : tree.WellFormed) : Removes path tree (tree.removeFile path) := by
  induction path generalizing tree with
  | nil => exact absurd rfl hne
  | cons name path ih =>
      cases tree with
      | file bytes =>
          refine ⟨fun q => by rw [removeFile], fun q b => ?_⟩
          rw [removeFile]
          refine (and_iff_left_of_imp ?_).symm
          rintro hat rfl
          exact nomatch hat
      | directory entries =>
          cases path with
          | nil => exact removes_last h name
          | cons next path =>
              refine removes_below h fun child hold => ?_
              exact ih (List.cons_ne_nil _ _) ((wellFormed_directory.mp h).2 _ hold).2

end FileTree

/-! ## Loading without a file -/

/-- Files that are listed in the order of a walk are determined by which they are. -/
theorem eq_of_pairwise_walkLt {fs gs : List SourceFile}
    (hfs : fs.Pairwise fun f g => WalkLt f.entry.path g.entry.path)
    (hgs : gs.Pairwise fun f g => WalkLt f.entry.path g.entry.path)
    (h : ∀ f, f ∈ fs ↔ f ∈ gs) : fs = gs := by
  have : Std.Irrefl fun f g : SourceFile => WalkLt f.entry.path g.entry.path :=
    ⟨fun _ => WalkLt.irrefl _⟩
  have : Std.Antisymm fun f g : SourceFile => WalkLt f.entry.path g.entry.path :=
    ⟨fun _ _ hfg hgf => absurd hgf hfg.asymm⟩
  exact hfs.eq_of_mem_iff hgs h

namespace FileTree

variable {removed : List String} {tree rest : FileTree}

/-- The metadata are read alike, unless they are the file that was removed. -/
theorem Removes.metadata (h : Removes removed tree rest) (hne : removed ≠ ["pack.mcmeta"]) :
    loadMetadata rest = loadMetadata tree := by
  rw [loadMetadata, loadMetadata, ← at?_singleton, ← at?_singleton]
  have hdirectory := h.directory_iff ["pack.mcmeta"]
  have hfile := h.file_iff ["pack.mcmeta"]
  simp only [ne_eq, hne.symm, not_false_eq_true, and_true] at hfile
  cases htree : tree.at? ["pack.mcmeta"] with
  | none =>
      cases hrest : rest.at? ["pack.mcmeta"] with
      | none => rfl
      | some node =>
          cases node with
          | file bytes => exact nomatch htree.symm.trans ((hfile bytes).mp hrest)
          | directory entries =>
              obtain ⟨_, hat⟩ := hdirectory.mp ⟨entries, hrest⟩
              exact nomatch htree.symm.trans hat
  | some node =>
      cases node with
      | file bytes => rw [(hfile bytes).mpr htree]
      | directory entries =>
          obtain ⟨inner, hat⟩ := hdirectory.mpr ⟨entries, htree⟩
          rw [hat]
          rfl

/-- The namespaces are the same, since they are directories. -/
theorem Removes.map_fst_namespaceTrees (h : Removes removed tree rest) (htree : tree.WellFormed)
    (hrest : rest.WellFormed) :
    (namespaceTrees rest).map (·.1) = (namespaceTrees tree).map (·.1) := by
  -- both lists are sorted, so it is enough that they have the same members
  apply List.Pairwise.eq_of_mem_iff (r := (· < ·))
  · exact List.pairwise_map.mpr (pairwise_namespaceTrees hrest)
  · exact List.pairwise_map.mpr (pairwise_namespaceTrees htree)
  · intro name
    rw [mem_map_fst_namespaceTrees_iff hrest, mem_map_fst_namespaceTrees_iff htree]
    exact h.directory_iff ["data", name]

/-- The files of a kind are the same but for the one that was removed. -/
theorem Removes.sourceFiles_eq_filter (h : Removes removed tree rest) (htree : tree.WellFormed)
    (hrest : rest.WellFormed) {owner : String} {directory other : FileTree}
    (hdirectory : tree.at? ["data", owner] = some directory)
    (hother : rest.at? ["data", owner] = some other) (kind : Kind) :
    sourceFiles other kind
      = (sourceFiles directory kind).filter fun f => f.packPath owner != removed := by
  have hwf := htree.at? hdirectory
  have hwf' := hrest.at? hother
  apply eq_of_pairwise_walkLt
  · exact pairwise_sourceFiles hwf' kind
  · exact (pairwise_sourceFiles hwf kind).filter _
  · intro f
    rw [List.mem_filter, mem_sourceFiles_iff hwf', mem_sourceFiles_iff hwf, bne_iff_ne]
    constructor
    · rintro ⟨rfl, hextension, hat⟩
      rw [← at?_packPath hother, h.file_iff, at?_packPath hdirectory] at hat
      exact ⟨⟨rfl, hextension, hat.1⟩, hat.2⟩
    · rintro ⟨⟨rfl, hextension, hat⟩, hne⟩
      refine ⟨rfl, hextension, ?_⟩
      rw [← at?_packPath hother, h.file_iff, at?_packPath hdirectory]
      exact ⟨hat, hne⟩

end FileTree

/-! ## Files that a load passes over -/

/-- The load passes over the file: it does not have the extension of the kind in whose
    directory it is, or the kind is one of JSON and the text of the file is no JSON. -/
structure SourceFile.PassedOver (owner : String) (tree : FileTree) (f : SourceFile) : Prop where
  at?_eq : tree.at? (f.packPath owner) = some (.file f.entry.bytes)
  cause : ¬f.Named
    ∨ f.kind ≠ .function
      ∧ ∃ text, String.fromUTF8? f.entry.bytes = some text ∧ Json.ofText? text = none

/-- A text that is no JSON is no document and no tag. -/
theorem Resource.ofText?_eq_none {kind : Kind} (hkind : kind ≠ .function) {text : String}
    (htext : Json.ofText? text = none) (id : String) : ofText? kind id text = none := by
  cases kind with
  | function => exact absurd rfl hkind
  | document kind => rw [ofText?, Document.ofText?, htext]; rfl
  | tag kind => rw [ofText?, Document.ofText?, htext]; rfl

namespace Namespace

/-- A file that is text adds what the text denotes. -/
theorem addFile_of_text {f : SourceFile} {text : String}
    (h : String.fromUTF8? f.entry.bytes = some text) (ns : Namespace) :
    ns.addFile f = .ok (ns.addText f.kind (f.id ns.name) text) := by
  rw [addFile, SourceFile.text, h]
  rfl

/-- A document or tag that is no JSON adds nothing. -/
theorem addFile_of_no_json {f : SourceFile} (hkind : f.kind ≠ .function) {text : String}
    (hbytes : String.fromUTF8? f.entry.bytes = some text) (htext : Json.ofText? text = none)
    (ns : Namespace) : ns.addFile f = .ok ns := by
  rw [addFile_of_text hbytes, addText, Resource.ofText?_eq_none hkind htext]

/-- Files that add nothing can be left out. -/
theorem foldlM_addFile_filter {fs : List SourceFile} {keep : SourceFile → Bool}
    (h : ∀ f ∈ fs, keep f = false → ∀ ns : Namespace, ns.addFile f = .ok ns) (ns : Namespace) :
    (fs.filter keep).foldlM addFile ns = fs.foldlM addFile ns := by
  induction fs generalizing ns with
  | nil => rfl
  | cons f fs ih =>
      obtain ⟨hf, hfs⟩ := List.forall_mem_cons.mp h
      cases hkeep : keep f with
      | false =>
          rw [List.filter_cons_of_neg (by simp [hkeep]), ih hfs, List.foldlM_cons, hf hkeep]
          rfl
      | true =>
          rw [List.filter_cons_of_pos hkeep, List.foldlM_cons, List.foldlM_cons]
          exact congrArg _ (funext (ih hfs))

/-- A namespace is the same without a file that the load passes over. -/
theorem load_eq_of_passedOver {tree rest directory other : FileTree} (htree : tree.WellFormed)
    (hrest : rest.WellFormed) {owner : String} {f : SourceFile} (hf : f.PassedOver owner tree)
    (h : FileTree.Removes (f.packPath owner) tree rest) {name : String}
    (hdirectory : tree.at? ["data", name] = some directory)
    (hother : rest.at? ["data", name] = some other) : load name other = load name directory := by
  have hfiles : sourceFiles other
      = fun kind =>
        (sourceFiles directory kind).filter fun g => g.packPath name != f.packPath owner :=
    funext (h.sourceFiles_eq_filter htree hrest hdirectory hother)
  rw [load, load, hfiles, ← List.filter_flatMap]
  apply foldlM_addFile_filter
  intro g hg hpath
  obtain ⟨kind, _, hg⟩ := List.mem_flatMap.mp hg
  obtain ⟨rfl, hextension, hat⟩ := (mem_sourceFiles_iff (htree.at? hdirectory)).mp hg
  have hpath : g.packPath name = f.packPath owner := by simpa using hpath
  rw [← FileTree.at?_packPath hdirectory] at hat
  -- the path tells the kind, so what is missing is the file that the load passes over
  obtain ⟨_, rfl⟩ := SourceFile.eq_of_packPath_eq hat hf.at?_eq hpath
  rcases hf.cause with hcause | ⟨hkind, text, hbytes, htext⟩
  · exact absurd (SourceFile.named_iff.mpr hextension) hcause
  · exact addFile_of_no_json hkind hbytes htext

end Namespace

/-- Two maps that agree on the elements of a list agree on the list. -/
theorem mapM_congr {ε α β : Type} {f g : α → Except ε β} {xs : List α}
    (h : ∀ x ∈ xs, f x = g x) : xs.mapM f = xs.mapM g := by
  induction xs with
  | nil => rfl
  | cons x xs ih =>
      obtain ⟨hx, hxs⟩ := List.forall_mem_cons.mp h
      rw [List.mapM_cons, List.mapM_cons, hx, ih hxs]

/-- The namespaces are loaded from the directories behind their names. -/
theorem mapM_load_namespaceTrees {tree : FileTree} (h : tree.WellFormed) :
    ((namespaceTrees tree).mapM fun e => Namespace.load e.1 e.2)
      = ((namespaceTrees tree).map (·.1)).mapM fun name =>
        Namespace.load name ((tree.at? ["data", name]).getD (.directory [])) := by
  rw [List.mapM_map]
  apply mapM_congr
  intro e he
  rw [Function.comp_apply, ((mem_namespaceTrees_iff h).mp he).1, Option.getD_some]

/-- What is loaded from a directory without a file is what was loaded from it, if this is so
    for each of the namespaces and the file was not that of the metadata. -/
theorem FileTree.Removes.load_eq {removed : List String} {entries : List (String × FileTree)}
    {rest : FileTree} (h : Removes removed (.directory entries) rest)
    (htree : (directory entries).WellFormed) (hrest : rest.WellFormed)
    (hne : removed ≠ ["pack.mcmeta"])
    (hnamespace : ∀ name directory other, at? ["data", name] (.directory entries) = some directory →
      rest.at? ["data", name] = some other →
      Namespace.load name other = Namespace.load name directory) (path : String) :
    Pack.load path (some rest) = Pack.load path (some (.directory entries)) := by
  have hnamespaces : ((namespaceTrees rest).mapM fun e => Namespace.load e.1 e.2)
      = (namespaceTrees (.directory entries)).mapM fun e => Namespace.load e.1 e.2 := by
    rw [mapM_load_namespaceTrees htree, mapM_load_namespaceTrees hrest,
      h.map_fst_namespaceTrees htree hrest]
    apply mapM_congr
    intro name hname
    obtain ⟨inner, hat⟩ := (mem_map_fst_namespaceTrees_iff htree).mp hname
    obtain ⟨others, hat'⟩ := (h.directory_iff _).mpr ⟨inner, hat⟩
    rw [hat, hat']
    exact hnamespace name _ _ hat hat'
  have hmetadata := h.metadata hne
  obtain ⟨others, hroot⟩ := (h.directory_iff []).mpr ⟨entries, rfl⟩
  obtain rfl := Option.some.inj hroot
  show (loadMetadata _ >>= fun metadata => List.mapM _ _ >>= fun namespaces =>
    pure (Pack.mk metadata namespaces)) = _
  rw [hmetadata, hnamespaces]
  rfl

/-- What is loaded from a tree is loaded from it without a file that is passed over. -/
theorem Pack.load_eq_of_passedOver {tree rest : FileTree} (htree : tree.WellFormed)
    (hrest : rest.WellFormed) {owner : String} {f : SourceFile} (hf : f.PassedOver owner tree)
    (h : FileTree.Removes (f.packPath owner) tree rest) (path : String) :
    load path (some rest) = load path (some tree) := by
  cases tree with
  | file bytes => exact nomatch hf.at?_eq
  | directory entries =>
      refine h.load_eq htree hrest (by simp [SourceFile.packPath]) ?_ path
      intro name directory other hdirectory hother
      exact Namespace.load_eq_of_passedOver htree hrest hf h hdirectory hother

end PackLint
