import PackLint.Proofs.Pack.FileTree
import PackLint.Proofs.Text.PathOrder
import PackLint.Resource.Id

/-! # Ids from files

    The id of a resource keeps the path of its file up to a part at the end, which is
    the extension with its dot.  A file named by two dots in front of the extension is
    the exception: there both dots are kept. -/

namespace PackLint

open Text

/-! ## Extensions -/

/-- A name with an extension is its stem, a dot and the extension. -/
theorem Text.splitExtension_eq_some {name stem extension : List Char}
    (h : splitExtension name = (stem, some extension)) :
    name = stem ++ '.' :: extension ∧ stem ≠ [] := by
  have happend := List.takeWhile_append_dropWhile (p := (· != '.')) (l := name.reverse)
  simp only [splitExtension] at h
  cases hdrop : name.reverse.dropWhile (· != '.') with
  | nil =>
      rw [hdrop] at h
      exact nomatch h
  | cons c before =>
      have hc : c = '.' := by
        have hhead := List.head?_dropWhile_not (· != '.') name.reverse
        rw [hdrop] at hhead
        simpa using hhead
      rw [hdrop, List.drop_one, List.tail_cons] at h
      cases before with
      | nil => exact nomatch h
      | cons b before =>
          obtain ⟨rfl, hextension⟩ := Prod.mk.inj h
          obtain rfl := Option.some.inj hextension
          rw [hdrop, hc] at happend
          refine ⟨?_, List.reverse_ne_nil_iff.mpr (List.cons_ne_nil b before)⟩
          have hname := congrArg List.reverse happend
          rw [List.reverse_reverse, List.reverse_append, List.reverse_cons, List.append_assoc]
            at hname
          exact hname.symm

/-- A name that has an extension can be split there. -/
theorem Text.exists_of_extension?_eq_some {name extension : String}
    (h : extension? name = some extension) :
    ∃ stem, splitExtension name.toList = (stem, some extension.toList) := by
  obtain ⟨behind, hbehind, rfl⟩ := Option.map_eq_some_iff.mp h
  exact ⟨(splitExtension name.toList).1, by rw [String.toList_ofList, ← hbehind]⟩

namespace FileEntry

/-- The text of the path of a file. -/
def path (f : FileEntry) : List Char :=
  joined f.names

/-- What the id of the resource in a file keeps of the path. -/
def idPath (f : FileEntry) : List Char :=
  joined (ResourceId.dropExtension f.names true)

/-- What the id leaves out at the end of the path. -/
def cut (f : FileEntry) : List Char :=
  f.path.drop f.idPath.length

/-- The name of a file stands behind those of its directories. -/
theorem names_eq_append (f : FileEntry) :
    f.names = f.directories.map String.toList ++ [f.name.toList] :=
  List.map_append

/-- The last name is the only one that the id changes. -/
theorem exists_idPath_eq {f : FileEntry} {extension : String}
    (h : extension? f.name = some extension) :
    ∃ stem cut, f.name.toList = stem ++ cut
      ∧ f.idPath = joined (f.directories.map String.toList ++ [stem]) := by
  obtain ⟨stem, hsplit⟩ := exists_of_extension?_eq_some h
  obtain ⟨hname, hstem⟩ := splitExtension_eq_some hsplit
  rw [idPath, names_eq_append, ResourceId.dropExtension, List.getLast?_concat]
  simp only [hsplit, List.dropLast_concat, if_true]
  by_cases hdots : isDots f.name.toList = true
  · exact ⟨f.name.toList, [], (List.append_nil _).symm, by rw [if_pos hdots]⟩
  · rw [if_neg hdots]
    by_cases hdot : stem = ['.']
    · refine ⟨['.', '.'], extension.toList, by rw [hname, hdot]; rfl, ?_⟩
      rw [if_neg (by simp [hdot])]
    · exact ⟨stem, '.' :: extension.toList, hname, by rw [if_pos (bne_iff_ne.mpr hdot)]⟩

/-- The path of a file is what the id keeps of it, and what it leaves out. -/
theorem path_eq_append {f : FileEntry} {extension : String}
    (h : extension? f.name = some extension) : f.path = f.idPath ++ f.cut := by
  obtain ⟨stem, cut, hname, hid⟩ := exists_idPath_eq h
  have hpath : f.path = f.idPath ++ cut := by
    rw [path, names_eq_append, hname, joined_concat_append, hid]
  rw [FileEntry.cut, hpath, List.drop_left]

end FileEntry

/-- The id of a file is its owner, a colon and its path without the extension. -/
theorem ResourceId.toList_ofFile (owner : String) (f : FileEntry) :
    (ofFile owner f.directories f.name).toList = owner.toList ++ ':' :: f.idPath := by
  have hnames : ((f.directories ++ [f.name]).map String.toList) = f.names := rfl
  have hofList : String.toList ∘ String.ofList = id := by
    funext cs
    exact String.toList_ofList
  simp only [ofFile, hnames, String.toList_append, String.toList_intercalate, List.map_map,
    hofList, List.map_id, FileEntry.idPath, joined, List.append_assoc]
  rfl

end PackLint
