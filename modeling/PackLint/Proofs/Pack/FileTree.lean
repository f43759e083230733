import Mathlib.Data.List.Lex
import Mathlib.Data.String.Basic
import PackLint.Pack.FileTree

/-! # The order of files

    In a file tree as a file system has it, the entries of a directory have different
    names.  The files below a directory are then met in the order of their names, the
    names of the directories that lead to them first, and no file is met twice. -/

namespace PackLint

open Text

/-- A name that an entry of a directory can have. -/
def IsFileName (name : String) : Prop :=
  name ≠ "" ∧ name ≠ "." ∧ name ≠ ".." ∧ '/' ∉ name.toList

instance (name : String) : Decidable (IsFileName name) :=
  inferInstanceAs (Decidable (_ ∧ _ ∧ _ ∧ _))

/-! ## Sorting by name -/

section Sorting

variable {α : Type} {entries : List (String × α)}

/-- Sorting keeps the entries. -/
theorem mem_sortByName {e : String × α} : e ∈ sortByName entries ↔ e ∈ entries :=
  List.mem_mergeSort

/-- Sorted entries are in the order of their names. -/
theorem pairwise_le_sortByName (entries : List (String × α)) :
    (sortByName entries).Pairwise fun a b => a.1 ≤ b.1 := by
  have h : (sortByName entries).Pairwise fun a b => decide (a.1 ≤ b.1) = true := by
    apply List.pairwise_mergeSort
    · intro a b c hab hbc
      exact decide_eq_true (le_trans (of_decide_eq_true hab) (of_decide_eq_true hbc))
    · intro a b
      rw [Bool.or_eq_true, decide_eq_true_eq, decide_eq_true_eq]
      exact le_total a.1 b.1
  exact h.imp of_decide_eq_true

/-- Entries with different names are sorted strictly. -/
theorem pairwise_lt_sortByName (h : (entries.map (·.1)).Nodup) :
    (sortByName entries).Pairwise fun a b => a.1 < b.1 := by
  have hperm : (sortByName entries).Perm entries := List.mergeSort_perm entries _
  have hne : (sortByName entries).Pairwise fun a b => a.1 ≠ b.1 :=
    List.pairwise_map.mp ((hperm.map Prod.fst).nodup_iff.mpr h)
  exact (pairwise_le_sortByName entries).imp₂ (fun _ _ hle hne => lt_of_le_of_ne hle hne) hne

/-- Entries that are in order stay as they are. -/
theorem sortByName_of_pairwise (h : entries.Pairwise fun a b => a.1 ≤ b.1) :
    sortByName entries = entries :=
  List.mergeSort_of_pairwise (h.imp decide_eq_true)

end Sorting

/-! ## Files with their names -/

namespace FileEntry

/-- The names that lead to a file, the name of the file last. -/
def names (f : FileEntry) : List (List Char) :=
  (f.directories ++ [f.name]).map String.toList

/-- A file below a directory has the name of the directory in front of its names. -/
theorem names_below (directory : String) (f : FileEntry) :
    (f.below directory).names = directory.toList :: f.names :=
  rfl

end FileEntry

namespace FileTree

/-- A property of file trees that a directory has if its entries have it holds of all
    file trees. -/
theorem induction {P : FileTree → Prop} (hfile : ∀ bytes, P (.file bytes))
    (hdirectory : ∀ entries, (∀ e ∈ entries, P e.2) → P (.directory entries))
    (tree : FileTree) : P tree :=
  @FileTree.rec P (fun entries => ∀ e ∈ entries, P e.2) (fun e => P e.2) hfile hdirectory
    (fun _ he => absurd he List.not_mem_nil)
    (fun _ _ hhead htail _ he => by
      rcases List.mem_cons.mp he with rfl | he
      · exact hhead
      · exact htail _ he)
    (fun _ _ h => h) tree

/-- The files are collected entry by entry. -/
theorem filesOfEntries_eq_map (entries : List (String × FileTree)) :
    filesOfEntries entries = entries.map fun e => (e.1, filesNamed e.1 e.2) := by
  induction entries with
  | nil => rfl
  | cons e entries ih => rw [filesOfEntries, ih, List.map_cons]

/-- The files of a directory are those of its entries, in the order of their names. -/
theorem files_directory (entries : List (String × FileTree)) :
    files (directory entries)
      = (sortByName (entries.map fun e => (e.1, filesNamed e.1 e.2))).flatMap (·.2) := by
  rw [files, filesOfEntries_eq_map]

/-- The files of a named directory are below its name. -/
theorem filesNamed_directory (name : String) (entries : List (String × FileTree)) :
    filesNamed name (directory entries) = (directory entries).files.map (FileEntry.below name) :=
  rfl

/-- A file is in a directory exactly if it is in one of the entries. -/
theorem mem_files_directory {entries : List (String × FileTree)} {f : FileEntry} :
    f ∈ files (directory entries) ↔ ∃ e ∈ entries, f ∈ filesNamed e.1 e.2 := by
  simp only [files_directory, List.mem_flatMap, mem_sortByName, List.mem_map]
  constructor
  · rintro ⟨_, ⟨e, he, rfl⟩, hf⟩
    exact ⟨e, he, hf⟩
  · rintro ⟨e, he, hf⟩
    exact ⟨_, ⟨e, he, rfl⟩, hf⟩

/-- The files of an entry are met under its name. -/
theorem exists_names_of_mem_filesNamed {name : String} {tree : FileTree} {f : FileEntry}
    (h : f ∈ filesNamed name tree) : ∃ rest, f.names = name.toList :: rest := by
  cases tree with
  | file bytes =>
      obtain rfl := List.mem_singleton.mp h
      exact ⟨[], rfl⟩
  | directory entries =>
      obtain ⟨g, _, rfl⟩ := List.mem_map.mp h
      exact ⟨g.names, g.names_below name⟩

/-! ## Well-formed trees -/

mutual

/-- The tree could be that of a file system: in every directory the entries have
    different names, and names that an entry can have. -/
def WellFormed : FileTree → Prop
  | file _ => True
  | directory entries => (entries.map (·.1)).Nodup ∧ EntriesWellFormed entries

/-- Each of the entries of a directory could be there. -/
def EntriesWellFormed : List (String × FileTree) → Prop
  | [] => True
  | (name, tree) :: rest => (IsFileName name ∧ tree.WellFormed) ∧ EntriesWellFormed rest

end

/-- Entries are well-formed if each has a proper name and a well-formed tree. -/
theorem entriesWellFormed_iff {entries : List (String × FileTree)} :
    EntriesWellFormed entries ↔ ∀ e ∈ entries, IsFileName e.1 ∧ e.2.WellFormed := by
  induction entries with
  | nil => simp [EntriesWellFormed]
  | cons e entries ih => rw [EntriesWellFormed, ih, List.forall_mem_cons]

/-- A directory is well-formed if its names differ and its entries are well-formed. -/
theorem wellFormed_directory {entries : List (String × FileTree)} :
    (directory entries).WellFormed
      ↔ (entries.map (·.1)).Nodup ∧ ∀ e ∈ entries, IsFileName e.1 ∧ e.2.WellFormed := by
  rw [WellFormed, entriesWellFormed_iff]

/-- What is found under a name is listed under it. -/
theorem mem_of_lookup_eq_some {entries : List (String × FileTree)} {name : String}
    {tree : FileTree} (h : entries.lookup name = some tree) : (name, tree) ∈ entries := by
  obtain ⟨_, _, rfl, _⟩ := List.lookup_eq_some_iff.mp h
  exact List.mem_append_right _ List.mem_cons_self

/-- What is listed is found under its name, as names differ. -/
theorem lookup_eq_some_of_mem {entries : List (String × FileTree)}
    (hnodup : (entries.map (·.1)).Nodup) {name : String} {tree : FileTree}
    (h : (name, tree) ∈ entries) : entries.lookup name = some tree := by
  obtain ⟨front, back, rfl⟩ := List.append_of_mem h
  refine List.lookup_eq_some_iff.mpr ⟨front, back, rfl, ?_⟩
  intro e he
  rw [List.map_append, List.nodup_append] at hnodup
  have hne := hnodup.2.2 e.1 (List.mem_map_of_mem he) name List.mem_cons_self
  exact bne_iff_ne.mpr hne.symm

/-- What a path of names leads to is well-formed. -/
theorem WellFormed.at? {path : List String} {tree node : FileTree} (h : tree.WellFormed)
    (hnode : tree.at? path = some node) : node.WellFormed := by
  induction path generalizing tree with
  | nil => exact Option.some.inj hnode ▸ h
  | cons name rest ih =>
      rw [FileTree.at?, Option.bind_eq_some_iff] at hnode
      obtain ⟨child, hchild, hrest⟩ := hnode
      refine ih ?_ hrest
      cases tree with
      | file bytes => exact nomatch hchild
      | directory entries =>
          exact ((wellFormed_directory.mp h).2 _ (mem_of_lookup_eq_some hchild)).2

/-! ## Files in order -/

/-- All names that lead to a file are names of entries. -/
theorem isFileName_of_mem_files {tree : FileTree} (h : tree.WellFormed) {f : FileEntry}
    (hf : f ∈ tree.files) : ∀ name ∈ f.directories ++ [f.name], IsFileName name := by
  induction tree using induction generalizing f with
  | hfile bytes => exact absurd hf List.not_mem_nil
  | hdirectory entries ih =>
      obtain ⟨⟨name, tree⟩, he, hf⟩ := mem_files_directory.mp hf
      obtain ⟨hname, htree⟩ := (wellFormed_directory.mp h).2 _ he
      cases tree with
      | file bytes =>
          obtain rfl := List.mem_singleton.mp hf
          exact List.forall_mem_singleton.mpr hname
      | directory inner =>
          rw [filesNamed_directory] at hf
          obtain ⟨g, hg, rfl⟩ := List.mem_map.mp hf
          exact List.forall_mem_cons.mpr ⟨hname, ih _ he htree hg⟩

/-- A name in front keeps the files in order. -/
theorem pairwise_filesNamed {tree : FileTree}
    (h : tree.files.Pairwise fun f g => f.names < g.names) (name : String) :
    (filesNamed name tree).Pairwise fun f g => f.names < g.names := by
  cases tree with
  | file bytes => exact List.pairwise_singleton _ _
  | directory entries =>
      rw [filesNamed_directory, List.pairwise_map]
      exact h.imp fun hlt => List.Lex.cons hlt

/-- The files below a directory are met in the order of their names. -/
theorem pairwise_files {tree : FileTree} (h : tree.WellFormed) :
    tree.files.Pairwise fun f g => f.names < g.names := by
  induction tree using induction with
  | hfile bytes => exact .nil
  | hdirectory entries ih =>
      obtain ⟨hnodup, hentries⟩ := wellFormed_directory.mp h
      -- files of one entry are in order by induction, those of two by the first names
      rw [files_directory, List.pairwise_flatMap]
      constructor
      · intro e he
        obtain ⟨e, hmem, rfl⟩ := List.mem_map.mp (mem_sortByName.mp he)
        exact pairwise_filesNamed (ih e hmem (hentries e hmem).2) e.1
      · have hnames : ((entries.map fun e => (e.1, filesNamed e.1 e.2)).map (·.1)).Nodup := by
          rw [List.map_map]
          exact hnodup
        refine (pairwise_lt_sortByName hnames).imp_of_mem ?_
        intro d e hd he hlt f hf g hg
        obtain ⟨d, _, rfl⟩ := List.mem_map.mp (mem_sortByName.mp hd)
        obtain ⟨e, _, rfl⟩ := List.mem_map.mp (mem_sortByName.mp he)
        obtain ⟨u, hu⟩ := exists_names_of_mem_filesNamed hf
        obtain ⟨v, hv⟩ := exists_names_of_mem_filesNamed hg
        rw [hu, hv]
        exact List.Lex.rel (String.lt_iff.mp hlt)

end FileTree

end PackLint
