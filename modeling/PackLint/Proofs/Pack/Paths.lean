import Mathlib.Data.List.TakeWhile
import Mathlib.Data.Set.Function
import PackLint.Finding
import PackLint.Proofs.Pack.Ids

/-! # Ids and the paths of files

    From the id of a resource one gets back to the path of its file, and from this path
    to the id, as long as the name of the namespace has no colon and the file is not
    named by a single dot before its extension.  So under the same conditions the path
    that is shown with a finding is that of the file in which the resource was found. -/

namespace PackLint

open Text

/-! ## Texts of paths -/

/-- Pieces that are put together in two parts have a slash between them. -/
theorem Text.joined_append {xs ys : List (List Char)} (hx : xs ≠ []) (hy : ys ≠ []) :
    joined (xs ++ ys) = joined xs ++ '/' :: joined ys := by
  induction xs with
  | nil => exact absurd rfl hx
  | cons x xs ih =>
      cases xs with
      | nil => rw [List.singleton_append, joined_cons_of_ne_nil x hy, joined_singleton]
      | cons z zs =>
          rw [List.cons_append, joined_cons_of_ne_nil x (by simp), ih (List.cons_ne_nil z zs),
            joined_cons_cons, List.append_assoc, List.cons_append]

/-- A path is its names with slashes between them. -/
theorem toList_intercalate_slash (names : List String) :
    ("/".intercalate names).toList = joined (names.map String.toList) :=
  String.toList_intercalate

/-- A path can be put together from two parts. -/
theorem intercalate_slash_append {xs ys : List String} (hx : xs ≠ []) (hy : ys ≠ []) :
    "/".intercalate (xs ++ ys) = "/".intercalate xs ++ "/" ++ "/".intercalate ys := by
  apply String.toList_injective
  simp only [String.toList_append, toList_intercalate_slash, List.map_append]
  rw [joined_append (by simpa using hx) (by simpa using hy), List.append_assoc]
  rfl

/-- What stands at the end of the last name stands at the end of the path. -/
theorem intercalate_concat (directories : List String) (stem extension : String) :
    "/".intercalate (directories ++ [stem ++ "." ++ extension])
      = "/".intercalate (directories ++ [stem]) ++ "." ++ extension := by
  apply String.toList_injective
  simp only [String.toList_append, toList_intercalate_slash, List.map_append, List.map_cons,
    List.map_nil, List.append_assoc, joined_concat_append]

/-- The name of a file is neither empty nor a dot, and is kept as a piece. -/
theorem IsFileName.isNamed {name : String} (h : IsFileName name) :
    (name.toList != [] && name.toList != ['.']) = true := by
  obtain ⟨hempty, hdot, _⟩ := h
  rw [Bool.and_eq_true, bne_iff_ne, bne_iff_ne]
  exact ⟨String.toList_eq_nil_iff.not.mpr hempty, fun heq => hdot (String.toList_injective heq)⟩

section Names

variable {names : List String}

/-- A path of names is cut into these names again. -/
theorem pathPieces_intercalate (hne : names ≠ []) (h : ∀ name ∈ names, IsFileName name) :
    pathPieces ("/".intercalate names).toList = names.map String.toList := by
  rw [toList_intercalate_slash]
  refine pathPieces_joined (by simpa using hne) ?_
  intro cs hcs
  obtain ⟨name, hname, rfl⟩ := List.mem_map.mp hcs
  exact (h name hname).2.2.2

/-- A path of names is relative. -/
theorem head?_intercalate_ne_slash (hne : names ≠ []) (h : ∀ name ∈ names, IsFileName name) :
    ("/".intercalate names).toList.head? ≠ some '/' := by
  obtain ⟨first, rest, rfl⟩ := List.exists_cons_of_ne_nil hne
  obtain ⟨hempty, _, _, hslash⟩ := h first List.mem_cons_self
  obtain ⟨s, hs, _⟩ := exists_joined_cons first.toList (rest.map String.toList)
  obtain ⟨c, cs, hcs⟩ := List.exists_cons_of_ne_nil (String.toList_eq_nil_iff.not.mpr hempty)
  rw [toList_intercalate_slash, List.map_cons, hs, hcs]
  intro heq
  obtain rfl := Option.some.inj heq
  exact hslash (hcs ▸ List.mem_cons_self)

/-- A path that is put together from names of entries consists of these names. -/
theorem pathNames_intercalate (hne : names ≠ []) (h : ∀ name ∈ names, IsFileName name) :
    pathNames ("/".intercalate names).toList = names.map String.toList := by
  have hdot : (names.map String.toList).head? ≠ some ['.'] := by
    obtain ⟨first, rest, rfl⟩ := List.exists_cons_of_ne_nil hne
    intro heq
    exact (h first List.mem_cons_self).2.1 (String.toList_injective (Option.some.inj heq))
  rw [pathNames, pathPieces_intercalate hne h, if_neg (head?_intercalate_ne_slash hne h),
    if_neg hdot]
  refine List.filter_eq_self.mpr ?_
  intro cs hcs
  obtain ⟨name, hname, rfl⟩ := List.mem_map.mp hcs
  exact (h name hname).isNamed

/-- A path of names ends in a name. -/
theorem endsInName_intercalate (hne : names ≠ []) (h : ∀ name ∈ names, IsFileName name) :
    endsInName ("/".intercalate names).toList = true := by
  rw [endsInName, pathPieces_intercalate hne h, List.getLast?_map,
    List.getLast?_eq_some_getLast hne]
  exact (h _ (List.getLast_mem hne)).isNamed

end Names

/-! ## Names of files -/

/-- Two dots stand in front of the extension exactly if the stem is a dot. -/
theorem stem_append_eq_iff {stem extension : String} :
    stem ++ "." ++ extension = ".." ++ extension ↔ stem = "." := by
  have hdots : ".." ++ extension = "." ++ "." ++ extension := rfl
  rw [hdots]
  constructor
  · intro h
    have hlist := congrArg String.toList h
    simp only [String.toList_append] at hlist
    exact String.toList_injective (List.append_cancel_right (List.append_cancel_right hlist))
  · rintro rfl
    rfl

/-- The extension of a kind has no slash in it. -/
theorem Kind.slash_notMem_fileExtension (kind : Kind) : '/' ∉ kind.fileExtension.toList := by
  cases kind with
  | function => decide
  | document kind => exact (by decide : '/' ∉ "json".toList)
  | tag kind => exact (by decide : '/' ∉ "json".toList)

/-- Before the extension of a file there can be any text without a slash, dots included. -/
theorem isFileName_append {stem : String} (hstem : stem ≠ "") (hslash : '/' ∉ stem.toList)
    (kind : Kind) : IsFileName (stem ++ "." ++ kind.fileExtension) := by
  have hpos := List.length_pos_of_ne_nil (String.toList_eq_nil_iff.not.mpr hstem)
  have hpos' := List.length_pos_of_ne_nil
    (String.toList_eq_nil_iff.not.mpr kind.fileExtension_ne_empty)
  have hshort : ∀ short : String, short.length ≤ 2 →
      stem ++ "." ++ kind.fileExtension ≠ short := by
    rintro _ hle rfl
    have hone : ".".length = 1 := by decide
    rw [String.length_toList] at hpos hpos'
    rw [String.length_append, String.length_append, hone] at hle
    omega
  refine ⟨hshort "" (by decide), hshort "." (by decide), hshort ".." (by decide), ?_⟩
  rw [String.toList_append, String.toList_append, List.mem_append, List.mem_append]
  rintro ((hmem | hmem) | hmem)
  · exact hslash hmem
  · exact absurd hmem (by decide)
  · exact kind.slash_notMem_fileExtension hmem

/-! ## From paths to ids -/

namespace ResourceId

/-- Of a path some name is left without the extension. -/
theorem dropExtension_ne_nil {names : List (List Char)} (h : names ≠ []) :
    dropExtension names true ≠ [] := by
  rw [dropExtension, List.getLast?_eq_some_getLast h]
  simp only [if_true]
  split
  · exact h
  · split <;> exact List.concat_ne_nil _ _

/-- No path that leads to a file is refused: its id is that of the resource in the file. -/
theorem ofPath?_intercalate (owner : String) {directories : List String} {name : String}
    (h : ∀ n ∈ directories ++ [name], IsFileName n) :
    ofPath? owner ("/".intercalate (directories ++ [name]))
      = .ok (ofFile owner directories name) := by
  have hnil := List.concat_ne_nil name directories
  have hne : dropExtension ((directories ++ [name]).map String.toList) true ≠ [] :=
    dropExtension_ne_nil (by simp)
  rw [ofPath?, pathNames_intercalate hnil h, endsInName_intercalate hnil h, ofNames?,
    if_neg (by simpa using hne)]
  rfl

/-- The id of the resource in a file, with the name of the file before its extension. -/
theorem ofFile_eq (owner : String) (directories : List String) (kind : Kind) {stem : String}
    (hstem : stem ≠ "") :
    ofFile owner directories (stem ++ "." ++ kind.fileExtension)
      = owner ++ ":" ++ "/".intercalate (directories ++ [idStem stem]) := by
  let f : SourceFile := ⟨kind, ⟨directories, stem ++ "." ++ kind.fileExtension, .empty⟩⟩
  apply String.toList_injective
  have hid : (ofFile owner directories (stem ++ "." ++ kind.fileExtension)).toList
      = owner.toList ++ ':' :: f.entry.idPath := toList_ofFile owner f.entry
  rw [hid, SourceFile.idPath_eq hstem rfl, String.toList_append, String.toList_append,
    toList_intercalate_slash, List.append_assoc]
  rfl

/-! ## From ids to paths -/

/-- The path of the file with an id has the name of the namespace up to the colon, and what
    stands behind it. -/
theorem pathOf?_append {owner : String} (h : ':' ∉ owner.toList) (name : String) (kind : Kind) :
    pathOf? (owner ++ ":" ++ name) kind
      = .ok (owner ++ "/" ++ kind.directoryText ++ "/" ++ name ++ "." ++ kind.fileExtension) := by
  have hsolid : ∀ c ∈ owner.toList, (c != ':') = true := by
    intro c hc
    refine bne_iff_ne.mpr ?_
    rintro rfl
    exact h hc
  have hlist : (owner ++ ":" ++ name).toList = owner.toList ++ ':' :: name.toList := by
    rw [String.toList_append, String.toList_append, List.append_assoc]
    rfl
  rw [pathOf?, hlist, List.dropWhile_append_of_pos hsolid, List.takeWhile_append_of_pos hsolid,
    List.dropWhile_cons_of_neg (by decide), List.takeWhile_cons_of_neg (by decide)]
  simp only [List.append_nil, String.ofList_toList]

/-- An id with a colon is cut at the first one. -/
theorem exists_eq_append_of_mem {id : String} (h : ':' ∈ id.toList) :
    ∃ owner name, ':' ∉ owner.toList ∧ owner.toList = id.toList.takeWhile (· != ':')
      ∧ id = owner ++ ":" ++ name := by
  have happend := List.takeWhile_append_dropWhile (p := (· != ':')) (l := id.toList)
  have hsolid : ':' ∉ id.toList.takeWhile (· != ':') := by
    intro hmem
    exact bne_iff_ne.mp (List.mem_takeWhile_imp (p := (· != ':')) hmem) rfl
  cases hdrop : id.toList.dropWhile (· != ':') with
  | nil =>
      rw [hdrop, List.append_nil] at happend
      rw [happend] at hsolid
      exact absurd h hsolid
  | cons c name =>
      have hc : c = ':' := by
        have hhead := List.head?_dropWhile_not (· != ':') id.toList
        rw [hdrop] at hhead
        simpa using hhead
      rw [hdrop, hc] at happend
      refine ⟨String.ofList (id.toList.takeWhile (· != ':')), String.ofList name,
        by rwa [String.toList_ofList], String.toList_ofList, String.toList_injective ?_⟩
      simp only [String.toList_append, String.toList_ofList, List.append_assoc]
      exact happend.symm

/-- No path begins with the directories of two kinds. -/
theorem eq_of_directoryText_append {kind other : Kind} {s t : List Char}
    (h : kind.directoryText.toList ++ '/' :: s = other.directoryText.toList ++ '/' :: t) :
    kind = other := by
  have hall : ∀ kind ∈ Kind.all, ∀ other ∈ Kind.all,
      kind.directoryText.toList ++ ['/'] <+: other.directoryText.toList ++ ['/'] →
        kind = other := by
    decide +kernel
  have hbegins : ∀ {kind other : Kind} {rest : List Char},
      other.directoryText.toList ++ ['/'] = kind.directoryText.toList ++ ['/'] ++ rest →
        kind = other := fun {kind other rest} heq =>
    hall kind (Kind.mem_all kind) other (Kind.mem_all other) ⟨rest, heq.symm⟩
  rw [← List.singleton_append, ← List.singleton_append (l := t), ← List.append_assoc,
    ← List.append_assoc] at h
  rcases List.append_eq_append_iff.mp h with ⟨rest, hrest, _⟩ | ⟨rest, hrest, _⟩
  · exact hbegins hrest
  · exact (hbegins hrest).symm

/-- What stands in front of the first occurrence of a character is determined by the text. -/
theorem eq_of_append_cons_eq {c : Char} {xs ys s t : List Char} (hx : c ∉ xs) (hy : c ∉ ys)
    (h : xs ++ c :: s = ys ++ c :: t) : xs = ys ∧ s = t := by
  have hlonger : ∀ {rest u v : List Char}, c :: u = rest ++ c :: v → c ∉ rest → rest = [] := by
    intro rest u v heq hnot
    cases rest with
    | nil => rfl
    | cons d rest => exact absurd ((List.cons.inj heq).1 ▸ List.mem_cons_self) hnot
  rcases List.append_eq_append_iff.mp h with ⟨rest, rfl, htail⟩ | ⟨rest, rfl, htail⟩
  · obtain rfl := hlonger htail fun hmem => hy (List.mem_append_right xs hmem)
    exact ⟨(List.append_nil xs).symm, (List.cons.inj htail).2⟩
  · obtain rfl := hlonger htail fun hmem => hx (List.mem_append_right ys hmem)
    exact ⟨List.append_nil ys, (List.cons.inj htail).2.symm⟩

/-- The path of a file says which kind and which id it has, if the name of the namespace has
    no slash. -/
theorem injOn_pathOf? : Set.InjOn (fun p : Kind × String => pathOf? p.2 p.1)
    {p | ':' ∈ p.2.toList ∧ '/' ∉ p.2.toList.takeWhile (· != ':')} := by
  rintro ⟨kind, id⟩ ⟨hid, hslash⟩ ⟨kind', id'⟩ ⟨hid', hslash'⟩ hpath
  obtain ⟨owner, name, howner, htake, rfl⟩ := exists_eq_append_of_mem hid
  obtain ⟨other, name', hother, htake', rfl⟩ := exists_eq_append_of_mem hid'
  simp only [← htake] at hslash
  simp only [← htake'] at hslash'
  simp only [pathOf?_append howner, pathOf?_append hother] at hpath
  injection hpath with hpath
  have hlist : owner.toList ++ '/' :: (kind.directoryText.toList ++ '/' :: (name.toList
        ++ ('.' :: kind.fileExtension.toList)))
      = other.toList ++ '/' :: (kind'.directoryText.toList ++ '/' :: (name'.toList
        ++ ('.' :: kind'.fileExtension.toList))) := by
    simpa [String.toList_append] using congrArg String.toList hpath
  -- the first slash ends the name of the namespace, and then the directory tells the kind
  obtain ⟨hnames, hrest⟩ := eq_of_append_cons_eq hslash hslash' hlist
  obtain rfl := String.toList_injective hnames
  obtain rfl := eq_of_directoryText_append hrest
  obtain ⟨_, hrest⟩ := List.cons.inj (List.append_cancel_left hrest)
  obtain rfl := String.toList_injective (List.append_cancel_right hrest)
  rfl

end ResourceId

/-! ## Paths that are shown -/

/-- The path that is shown is the one of the id, in `data`. -/
theorem ResourceRef.path_of_pathOf? {r : ResourceRef} {path : String}
    (h : ResourceId.pathOf? r.id r.kind = .ok path) : r.path = "data/" ++ path := by
  rw [ResourceRef.path, h]

/-- Behind the message of the finding stands this path, then the number of the line if the
    finding is in a command, and then the resource. -/
def Finding.ShownAt (finding : Finding) (r : ResourceRef) (path : String) : Prop :=
  ∃ number rest, (number = "" ∨ ∃ line : Nat, number = ":" ++ toString line)
    ∧ finding.text = finding.severity.name ++ ": " ++ finding.message ++ "\n  --> " ++ path
      ++ number ++ " (" ++ r.line ++ ")" ++ rest

/-- The text of a location in a resource has the path, the line number if there is one, and then
    the resource. -/
theorem Location.exists_text_eq {location : Location} {r : ResourceRef}
    (h : location.resource? = some r) :
    ∃ number rest, (number = "" ∨ ∃ line : Nat, number = ":" ++ toString line)
      ∧ location.text = "\n  --> " ++ r.path ++ number ++ " (" ++ r.line ++ ")" ++ rest := by
  cases location with
  | pack => exact nomatch h
  | resource s =>
      obtain rfl : s = r := Option.some.inj h
      refine ⟨"", "", .inl rfl, ?_⟩
      simp only [text, String.append_empty]
  | node s pointer =>
      obtain rfl : s = r := Option.some.inj h
      refine ⟨"", " at " ++ (if pointer.isEmpty then "/" else pointer), .inl rfl, ?_⟩
      simp only [text, String.append_assoc, String.empty_append]
      rfl
  | command s line raw =>
      obtain rfl : s = r := Option.some.inj h
      refine ⟨":" ++ toString line, "\n   | " ++ raw, .inr ⟨line, rfl⟩, ?_⟩
      simp only [text, String.append_assoc]
      rfl

/-- A finding in a resource is shown with the path of the resource. -/
theorem Finding.shownAt_path {finding : Finding} {r : ResourceRef}
    (h : finding.location.resource? = some r) : finding.ShownAt r r.path := by
  obtain ⟨value, hvalue⟩ : ∃ value, finding.text
      = finding.severity.name ++ ": " ++ finding.message ++ finding.location.text ++ value :=
    ⟨_, rfl⟩
  obtain ⟨number, rest, hnumber, htext⟩ := Location.exists_text_eq h
  refine ⟨number, rest ++ value, hnumber, ?_⟩
  rw [hvalue, htext]
  simp only [String.append_assoc]

namespace SourceFile

variable {owner stem : String} {f : SourceFile}

/-- The path of a file in a pack, part by part. -/
theorem intercalate_packPath (owner : String) (f : SourceFile) :
    "/".intercalate (f.packPath owner)
      = "data/" ++ (owner ++ "/" ++ f.kind.directoryText ++ "/"
        ++ "/".intercalate (f.entry.directories ++ [f.entry.name])) := by
  have hkind : f.kind.directory ≠ [] := by
    cases f.kind with
    | function => exact List.cons_ne_nil _ _
    | document kind => cases kind <;> exact List.cons_ne_nil _ _
    | tag kind => cases kind <;> exact List.cons_ne_nil _ _
  have hpath : f.packPath owner = ["data"] ++ ([owner]
      ++ (f.kind.directory ++ (f.entry.directories ++ [f.entry.name]))) := rfl
  rw [hpath, intercalate_slash_append (by simp) (by simp),
    intercalate_slash_append (by simp) (by simp),
    intercalate_slash_append hkind (List.concat_ne_nil _ _), Kind.directoryText]
  simp only [String.append_assoc]
  rfl

/-- The path that is shown with the resource in a file. -/
theorem path_eq (howner : ':' ∉ owner.toList) (hstem : stem ≠ "")
    (hname : f.entry.name = stem ++ "." ++ f.kind.fileExtension) :
    (ResourceRef.mk f.kind (f.id owner)).path
      = "data/" ++ (owner ++ "/" ++ f.kind.directoryText ++ "/" ++ "/".intercalate
        (f.entry.directories ++ [idStem stem ++ "." ++ f.kind.fileExtension])) := by
  have hid : f.id owner
      = owner ++ ":" ++ "/".intercalate (f.entry.directories ++ [idStem stem]) := by
    rw [id, hname, ResourceId.ofFile_eq owner f.entry.directories f.kind hstem]
  have hpath := ResourceId.pathOf?_append howner
    ("/".intercalate (f.entry.directories ++ [idStem stem])) f.kind
  rw [← hid] at hpath
  rw [ResourceRef.path_of_pathOf? (r := ⟨f.kind, f.id owner⟩) hpath, intercalate_concat]
  simp only [String.append_assoc]

/-- With a colon in the name of the namespace, the path in another namespace is shown. -/
theorem path_ne_of_mem (howner : ':' ∈ owner.toList) :
    (ResourceRef.mk f.kind (f.id owner)).path ≠ "/".intercalate (f.packPath owner) := by
  obtain ⟨front, rest, hfront, _, hsplit⟩ := ResourceId.exists_eq_append_of_mem howner
  obtain ⟨name, hid⟩ : ∃ name, f.id owner = front ++ ":" ++ name := by
    refine ⟨rest ++ ":" ++ String.ofList f.entry.idPath, String.toList_injective ?_⟩
    rw [id, ResourceId.toList_ofFile, hsplit]
    simp [String.toList_append]
  have hpath := ResourceId.pathOf?_append hfront name f.kind
  rw [← hid] at hpath
  rw [ResourceRef.path_of_pathOf? (r := ⟨f.kind, f.id owner⟩) hpath, intercalate_packPath, hsplit]
  intro heq
  have hlist := congrArg String.toList heq
  simp only [String.toList_append, List.append_assoc] at hlist
  have hchar := List.append_cancel_left (List.append_cancel_left hlist)
  exact absurd (List.cons.inj hchar).1 (by decide)

/-- The path that is shown with the resource in a file is that of the file exactly if the name
    of the namespace has no colon and something else than a dot stands before the extension. -/
theorem path_eq_iff (hf : f.Named) :
    (ResourceRef.mk f.kind (f.id owner)).path = "/".intercalate (f.packPath owner)
      ↔ ':' ∉ owner.toList ∧ f.entry.name ≠ ".." ++ f.kind.fileExtension := by
  obtain ⟨stem, hstem, hname⟩ := hf
  rw [hname, Ne, stem_append_eq_iff]
  by_cases howner : ':' ∈ owner.toList
  · refine iff_of_false (path_ne_of_mem howner) fun h => h.1 howner
  · rw [path_eq howner hstem hname, intercalate_packPath, hname]
    by_cases hdot : stem = "."
    · -- the second dot makes the path that is shown one longer
      refine iff_of_false ?_ fun h => h.2 hdot
      have hlonger : "/".intercalate (f.entry.directories ++ [".."])
          = "/".intercalate (f.entry.directories ++ ["."]) ++ "." := by
        apply String.toList_injective
        rw [String.toList_append, toList_intercalate_slash, toList_intercalate_slash,
          List.map_append, List.map_append]
        exact joined_concat_append _ ['.'] ['.']
      rw [hdot, intercalate_concat, intercalate_concat, idStem, if_pos rfl, hlonger]
      intro heq
      have hlength := congrArg String.length heq
      have hone : ".".length = 1 := by decide
      simp only [String.length_append, hone] at hlength
      omega
    · rw [idStem, if_neg hdot]
      exact iff_of_true rfl ⟨howner, hdot⟩

end SourceFile

/-! ## Files of loaded resources -/

/-- A resource has the id of the file that holds it. -/
theorem SourceFile.Holds.id_eq {owner : String} {f : SourceFile} {r : Resource}
    (h : f.Holds owner r) : r.id = f.id owner := by
  cases h <;> rfl

/-- **Ids and the paths of files are inverse to each other.**  The path of a file leads to an id
    from which one gets back to this path, and an id to a path from which one gets back to
    this id.  Ids of which the namespaces have no slash have different paths.  A finding in a
    resource that was loaded is shown with the path of the file in which the resource was. -/
theorem ids_and_paths_inverse :
    (∀ (owner : String) (kind : Kind) (directories : List String) (name : String),
        ':' ∉ owner.toList → (∀ n ∈ directories ++ [name], IsFileName n) →
        extension? name = some kind.fileExtension → name ≠ ".." ++ kind.fileExtension →
        ∃ id, ResourceId.ofPath? owner ("/".intercalate (directories ++ [name])) = .ok id
          ∧ ResourceId.pathOf? id kind = .ok (owner ++ "/" ++ kind.directoryText ++ "/"
            ++ "/".intercalate (directories ++ [name])))
      ∧ (∀ (owner : String) (kind : Kind) (directories : List String) (last : String),
        (∀ n ∈ directories, IsFileName n) → last ≠ "" → last ≠ "." → '/' ∉ last.toList →
        let path := "/".intercalate (directories ++ [last])
        ResourceId.ofPath? owner (path ++ "." ++ kind.fileExtension) = .ok (owner ++ ":" ++ path))
      ∧ Set.InjOn (fun p : Kind × String => ResourceId.pathOf? p.2 p.1)
        {p | ':' ∈ p.2.toList ∧ '/' ∉ p.2.toList.takeWhile (· != ':')}
      ∧ ∀ (path : String) (tree : FileTree) (pack : Pack), tree.WellFormed →
        Pack.load path (some tree) = .ok pack →
        ∀ ns ∈ pack.namespaces, ':' ∉ ns.name.toList → ∀ kind, ∃ fs : List SourceFile, fs.Nodup
          ∧ (∀ f, f ∈ fs ↔ f.kind = kind ∧ f.HoldsResource ns.name tree)
          ∧ List.Forall₂ (fun f r => f.Holds ns.name r
              ∧ (f.entry.name ≠ ".." ++ kind.fileExtension →
                ∀ finding : Finding, finding.location.resource? = some ⟨kind, r.id⟩ →
                  finding.ShownAt ⟨kind, r.id⟩ ("/".intercalate (f.packPath ns.name))))
            fs (ns.ofKind kind) := by
  refine ⟨?_, ?_, ?_, ?_⟩
  · intro owner kind directories name howner hnames hextension hname
    obtain ⟨stem, hstem, rfl⟩ :=
      (extension?_eq_some_iff kind.dot_notMem_fileExtension).mp hextension
    refine ⟨_, ResourceId.ofPath?_intercalate owner hnames, ?_⟩
    rw [ResourceId.ofFile_eq owner directories kind hstem, idStem,
      if_neg (stem_append_eq_iff.not.mp hname), ResourceId.pathOf?_append howner,
      intercalate_concat]
    simp only [String.append_assoc]
  · intro owner kind directories last hdirectories hne hdot hslash path
    have hnames : ∀ n ∈ directories ++ [last ++ "." ++ kind.fileExtension], IsFileName n := by
      refine List.forall_mem_append.mpr ⟨hdirectories, ?_⟩
      exact List.forall_mem_singleton.mpr (isFileName_append hne hslash kind)
    rw [← intercalate_concat, ResourceId.ofPath?_intercalate owner hnames,
      ResourceId.ofFile_eq owner directories kind hne, idStem, if_neg hdot]
  · exact ResourceId.injOn_pathOf?
  · intro path tree pack hwf h ns hns howner kind
    obtain ⟨fs, hnodup, hmem, hholds⟩ := Pack.exists_files_of_mem_namespaces hwf h hns kind
    refine ⟨fs, hnodup, hmem, ?_⟩
    refine ((List.forall₂_and_left _ _).mpr ⟨fun f hf => (hmem f).mp hf, hholds⟩).imp ?_
    rintro f r ⟨⟨rfl, hf⟩, hr⟩
    refine ⟨hr, ?_⟩
    intro hname finding hfinding
    rw [← (SourceFile.path_eq_iff hf.named).mpr ⟨howner, hname⟩, ← hr.id_eq]
    exact Finding.shownAt_path hfinding

/-- Two dots before the extension are kept, a dot in the name of a directory is no extension,
    and a finding in the recipe of a pack is shown with the file of the recipe. -/
theorem ids_and_paths_inverse_two_dots :
    (∃ id, ResourceId.ofPath? "m" "a.b/...json" = .ok id
        ∧ ResourceId.pathOf? id (.tag .item) = .ok "m/tags/items/a.b/...json")
      ∧ ResourceId.ofPath? "m" "a.b/...json" = .ok "m:a.b/.."
      ∧ ResourceId.pathOf? "m:x" (.document .dimension)
        ≠ ResourceId.pathOf? "m:x" (.document .dimensionType)
      ∧ ∃ pack, Pack.load "." (some (.directory [("data", .directory [("m",
          recipesTree [("a.json", "{}")])])])) = .ok pack
        ∧ ∃ ns ∈ pack.namespaces, ∃ r ∈ ns.ofKind (.document .recipe), r.id = "m:a"
          ∧ ∀ finding : Finding, finding.location.resource? = some ⟨.document .recipe, "m:a"⟩ →
            finding.ShownAt ⟨.document .recipe, "m:a"⟩ "data/m/recipes/a.json" := by
  obtain ⟨hpath, hid, hinj, hloaded⟩ := ids_and_paths_inverse
  refine ⟨?_, ?_, ?_, ?_⟩
  · exact hpath "m" (.tag .item) ["a.b"] "...json" (by decide) (by decide) (by decide) (by decide)
  · exact hid "m" (.tag .item) ["a.b"] ".." (by decide) (by decide) (by decide) (by decide)
  · exact hinj.ne (x := (.document .dimension, "m:x")) (y := (.document .dimensionType, "m:x"))
      ⟨by decide, by decide⟩ ⟨by decide, by decide⟩ (by decide)
  · have hwf : FileTree.WellFormed (.directory [("data", .directory [("m",
        recipesTree [("a.json", "{}")])])]) :=
      wellFormed_recipesTree (by decide) (by decide) (by decide)
    obtain ⟨ns, hns⟩ := exists_load_recipesTree "m" [("a.json", "{}")]
    have hload := Pack.load_of_namespace hns "."
    have hname : ns.name = "m" := Namespace.name_of_load hns
    obtain ⟨fs, _, hmem, hholds⟩ := hloaded _ _ _ hwf hload ns List.mem_cons_self
      (by rw [hname]; decide) (.document .recipe)
    have hrecipe : (⟨.document .recipe, ⟨[], "a.json", "{}".toUTF8⟩⟩ : SourceFile) ∈ fs := by
      refine (hmem _).mpr ⟨rfl, hname ▸ holdsResource_recipesTree (by decide) ?_ ?_ ?_⟩
      · exact List.mem_cons_self
      · exact ⟨"a", by decide, by decide⟩
      · decide +kernel
    obtain ⟨i, hi, hfile⟩ := List.getElem_of_mem hrecipe
    have hi' : i < (ns.ofKind (.document .recipe)).length := hholds.length_eq ▸ hi
    obtain ⟨hr, hshown⟩ := hholds.get hi hi'
    simp only [List.get_eq_getElem, hfile] at hr hshown
    have hid : ((ns.ofKind (.document .recipe))[i]).id = "m:a" := by
      rw [hr.id_eq, hname]
      decide
    refine ⟨_, hload, ns, List.mem_cons_self, _, List.getElem_mem hi', hid, ?_⟩
    intro finding hfinding
    have h := hshown (by decide) finding (hid ▸ hfinding)
    rwa [hid, hname] at h

end PackLint
