import PackLint.Proofs.Option
import PackLint.Proofs.Pack.Order

/-! # Trees with other listings

    The entries of a directory can be listed in any order, and the order in which they
    were made may be seen in it.  What stays the same is what is behind every path. -/

namespace PackLint

namespace FileTree

/-! ## Trees with other listings -/

/-- The second tree is the first one with other listings: each of its directories lists
    entries of the same names, in any order, and below each name is the same. -/
inductive Relists : FileTree → FileTree → Prop
  | file (bytes : ByteArray) : Relists (.file bytes) (.file bytes)
  | directory {entries others : List (String × FileTree)}
      (names : (entries.map (·.1)).Perm (others.map (·.1)))
      (below : ∀ name child other, entries.lookup name = some child →
        others.lookup name = some other → Relists child other) :
      Relists (.directory entries) (.directory others)

/-- Something is listed under a name exactly if the name is among those of the entries. -/
theorem exists_lookup_iff {entries : List (String × FileTree)} {name : String} :
    (∃ child, entries.lookup name = some child) ↔ name ∈ entries.map (·.1) := by
  rw [← Option.isSome_iff_exists, List.lookup_isSome_iff, List.mem_map]
  simp only [beq_iff_eq, eq_comm (a := name)]

/-- What has a name in one listing has it in the other one. -/
theorem exists_lookup_of_perm {entries others : List (String × FileTree)}
    (names : (entries.map (·.1)).Perm (others.map (·.1))) {name : String} {child : FileTree}
    (h : entries.lookup name = some child) : ∃ other, others.lookup name = some other :=
  exists_lookup_iff.mpr (names.mem_iff.mp (exists_lookup_iff.mp ⟨child, h⟩))

namespace Relists

variable {tree other : FileTree}

/-- Every tree is a listing of itself. -/
theorem refl (tree : FileTree) : Relists tree tree := by
  induction tree using FileTree.induction with
  | hfile bytes => exact .file bytes
  | hdirectory entries ih =>
      refine .directory (List.Perm.refl _) ?_
      intro name child other hchild hother
      obtain rfl := Option.some.inj (hchild.symm.trans hother)
      exact ih _ (mem_of_lookup_eq_some hchild)

/-- Listings can be changed one after another. -/
theorem trans {third : FileTree} (h : Relists tree other) (h' : Relists other third) :
    Relists tree third := by
  induction h generalizing third with
  | file bytes => exact h'
  | @directory entries others names below ih =>
      cases h' with
      | @directory _ thirds names' below' =>
          refine .directory (names.trans names') ?_
          intro name child third hchild hthird
          obtain ⟨other, hother⟩ := exists_lookup_of_perm names hchild
          exact ih name child other hchild hother (below' name other third hother hthird)

/-- A directory may list its entries in any order. -/
theorem of_perm {entries others : List (String × FileTree)} (h : entries.Perm others)
    (hnodup : (entries.map (·.1)).Nodup) : Relists (.directory entries) (.directory others) := by
  have hnames : (entries.map (·.1)).Perm (others.map (·.1)) := h.map _
  refine .directory hnames ?_
  intro name child other hchild hother
  have hmem := h.mem_iff.mpr (mem_of_lookup_eq_some hother)
  obtain rfl := Option.some.inj (hchild.symm.trans (lookup_eq_some_of_mem hnodup hmem))
  exact refl child

/-- A directory may list other listings of its entries. -/
theorem of_forall₂ {entries others : List (String × FileTree)}
    (h : List.Forall₂ (fun d e => d.1 = e.1 ∧ Relists d.2 e.2) entries others) :
    Relists (.directory entries) (.directory others) := by
  refine .directory (List.Perm.of_eq ?_) ?_
  · rw [← List.forall₂_eq_eq_eq, List.forall₂_map_left_iff, List.forall₂_map_right_iff]
    exact h.imp fun _ _ hentry => hentry.1
  · intro name child other hchild hother
    induction h with
    | nil => cases hchild
    | @cons d e _ _ hentry _ ih =>
        obtain ⟨n, tree⟩ := d
        obtain ⟨_, tree'⟩ := e
        obtain ⟨rfl, hrelists⟩ := hentry
        rw [List.lookup_cons] at hchild hother
        cases hname : name == n with
        | true =>
            rw [hname] at hchild hother
            cases hchild
            cases hother
            exact hrelists
        | false =>
            rw [hname] at hchild hother
            exact ih hchild hother

/-- Under each name both trees have an entry, or neither has, and the entries correspond. -/
theorem child (h : Relists tree other) (name : String) :
    Option.Rel Relists (tree.entry? name) (other.entry? name) := by
  cases h with
  | file bytes => exact .none
  | @directory entries others names below =>
      show Option.Rel Relists (entries.lookup name) (others.lookup name)
      cases hchild : entries.lookup name with
      | none =>
          cases hother : others.lookup name with
          | none => exact .none
          | some other =>
              obtain ⟨child, hsome⟩ := exists_lookup_of_perm names.symm hother
              exact nomatch hchild.symm.trans hsome
      | some child =>
          obtain ⟨other, hother⟩ := exists_lookup_of_perm names hchild
          rw [hother]
          exact .some (below name child other hchild hother)

/-- Behind every path there is the same. -/
theorem at? (h : Relists tree other) (path : List String) :
    Option.Rel Relists (tree.at? path) (other.at? path) := by
  induction path generalizing tree other with
  | nil => exact .some h
  | cons name path ih =>
      exact rel_bind (h.child name) fun _ _ hchild => ih hchild

/-- A directory corresponds to directories only. -/
theorem isDirectory (h : Relists tree other) : other.isDirectory = tree.isDirectory := by
  cases h <;> rfl

/-- The texts of files do not depend on the listing. -/
theorem text? (h : Relists tree other) : other.text? = tree.text? := by
  cases h <;> rfl

/-- With another listing a tree is as well-formed as before. -/
theorem wellFormed (h : Relists tree other) (hwf : tree.WellFormed) : other.WellFormed := by
  induction h with
  | file bytes => exact hwf
  | @directory entries others names below ih =>
      obtain ⟨hnodup, hentries⟩ := wellFormed_directory.mp hwf
      have hnodup' := names.nodup_iff.mp hnodup
      refine wellFormed_directory.mpr ⟨hnodup', ?_⟩
      rintro ⟨name, node⟩ hnode
      have hother := lookup_eq_some_of_mem hnodup' hnode
      obtain ⟨child, hchild⟩ := exists_lookup_of_perm names.symm hother
      obtain ⟨hfile, hwf⟩ := hentries _ (mem_of_lookup_eq_some hchild)
      exact ⟨hfile, ih name child node hchild hother hwf⟩

end Relists

/-! ## Making files in another order -/

theorem wellFormed_empty : (directory []).WellFormed :=
  wellFormed_directory.mpr ⟨List.nodup_nil, fun _ he => absurd he List.not_mem_nil⟩

/-- What a directory lists.  A file lists nothing. -/
def listing : FileTree → List (String × FileTree)
  | directory entries => entries
  | file _ => []

/-- Both trees list the same names. -/
theorem Relists.names_listing {tree other : FileTree} (h : tree.Relists other) :
    (tree.listing.map (·.1)).Perm (other.listing.map (·.1)) := by
  cases h with
  | file bytes => exact List.Perm.refl _
  | directory names below => exact names

section Update

variable {change : FileTree → FileTree} {tree other : FileTree}

/-- A change below a name moves the entry of this name to the end and leaves the others. -/
theorem update_cons (name : String) (path : List String) (change : FileTree → FileTree)
    (tree : FileTree) :
    update (name :: path) change tree
      = directory ((tree.listing.filter fun e => e.1 != name)
        ++ [(name, update path change ((tree.entry? name).getD (directory [])))]) := by
  cases tree <;> rfl

/-- Removing the entries of one name hides no other name. -/
theorem lookup_filter_ne {name other : String} (h : other ≠ name)
    (entries : List (String × FileTree)) :
    (entries.filter fun e => e.1 != name).lookup other = entries.lookup other := by
  induction entries with
  | nil => rfl
  | cons e entries ih =>
      obtain ⟨n, child⟩ := e
      by_cases hn : n = name
      · rw [List.filter_cons_of_neg (by simpa using hn), ih, hn, List.lookup_cons,
          beq_false_of_ne h]
      · rw [List.filter_cons_of_pos (by simpa using hn), List.lookup_cons, List.lookup_cons, ih]

/-- Under the name that was changed, there is what was changed. -/
theorem child_update_self (name : String) (path : List String) :
    entry? name (update (name :: path) change tree)
      = some (update path change ((tree.entry? name).getD (directory []))) := by
  have hnone : (tree.listing.filter fun e => e.1 != name).lookup name = none := by
    refine List.lookup_eq_none_iff.mpr ?_
    intro e he
    rw [bne_comm]
    exact (List.mem_filter.mp he).2
  rw [update_cons]
  show List.lookup name _ = _
  rw [List.lookup_append, hnone, List.lookup_cons_self]
  rfl

/-- Under any other name, there is what was there before. -/
theorem child_update_of_ne {name next : String} (h : next ≠ name) (path : List String) :
    entry? next (update (name :: path) change tree) = entry? next tree := by
  rw [update_cons]
  show List.lookup next _ = _
  rw [List.lookup_append, lookup_filter_ne h, List.lookup_cons, beq_false_of_ne h]
  cases tree <;> exact Option.or_none

/-- The names are those from before, with the changed one at the end. -/
theorem names_update (name : String) (path : List String) :
    (update (name :: path) change tree).listing.map (·.1)
      = (tree.listing.map (·.1)).filter (· != name) ++ [name] := by
  rw [update_cons, List.filter_map]
  show List.map _ (_ ++ [_]) = _
  rw [List.map_append]
  rfl

/-- What is made below a name is a directory, whatever was there. -/
theorem relists_update_cons {name next : String} {path rest : List String}
    {change change' : FileTree → FileTree}
    (hnames : ((update (name :: path) change tree).listing.map (·.1)).Perm
      ((update (next :: rest) change' other).listing.map (·.1)))
    (hbelow : ∀ n child child', entry? n (update (name :: path) change tree) = some child →
      entry? n (update (next :: rest) change' other) = some child' → Relists child child') :
    Relists (update (name :: path) change tree) (update (next :: rest) change' other) := by
  rw [update_cons] at hnames hbelow ⊢
  rw [update_cons next] at hnames hbelow ⊢
  exact .directory hnames hbelow

/-- The same change at the same path keeps two listings of a tree alike. -/
theorem Relists.update (h : tree.Relists other)
    (hchange : ∀ a b, Relists a b → Relists (change a) (change b)) (path : List String) :
    Relists (update path change tree) (update path change other) := by
  induction path generalizing tree other with
  | nil => exact hchange tree other h
  | cons name path ih =>
      refine relists_update_cons ?_ ?_
      · rw [names_update, names_update]
        exact (h.names_listing.filter _).append_right _
      · intro n child child' hchild hchild'
        have hentry := h.child n
        by_cases hn : n = name
        · subst hn
          rw [child_update_self] at hchild hchild'
          obtain rfl := Option.some.inj hchild
          obtain rfl := Option.some.inj hchild'
          exact ih (getD_of_rel hentry (.refl _))
        · rw [child_update_of_ne hn] at hchild hchild'
          rw [hchild, hchild'] at hentry
          cases hentry with
          | some hrelists => exact hrelists

/-- The entries of a well-formed tree have different names and are well-formed themselves. -/
theorem WellFormed.entries (h : tree.WellFormed) :
    (tree.listing.map (·.1)).Nodup ∧ ∀ e ∈ tree.listing, IsFileName e.1 ∧ e.2.WellFormed := by
  cases tree with
  | file bytes => exact ⟨List.nodup_nil, fun _ he => absurd he List.not_mem_nil⟩
  | directory entries => exact wellFormed_directory.mp h

/-- A change that keeps nodes well-formed keeps the trees above them well-formed. -/
theorem WellFormed.update (h : tree.WellFormed)
    (hchange : ∀ tree, tree.WellFormed → (change tree).WellFormed) {path : List String}
    (hpath : ∀ name ∈ path, IsFileName name) : (update path change tree).WellFormed := by
  induction path generalizing tree with
  | nil => exact hchange tree h
  | cons name path ih =>
      obtain ⟨hname, hpath⟩ := List.forall_mem_cons.mp hpath
      obtain ⟨hnodup, hentries⟩ := h.entries
      have hnames := @names_update change tree name path
      rw [update_cons] at hnames ⊢
      refine wellFormed_directory.mpr ⟨?_, ?_⟩
      · show (List.map _ (directory _).listing).Nodup
        rw [hnames, List.nodup_append]
        refine ⟨hnodup.filter _, List.pairwise_singleton _ _, ?_⟩
        rintro n hn _ hname rfl
        obtain rfl := List.mem_singleton.mp hname
        exact absurd (List.mem_filter.mp hn).2 (by simp)
      · refine List.forall_mem_append.mpr ⟨?_, ?_⟩
        · exact fun e he => hentries e (List.mem_of_mem_filter he)
        · refine List.forall_mem_singleton.mpr ⟨hname, ih ?_ hpath⟩
          cases hchild : tree.entry? name with
          | none => exact wellFormed_empty
          | some child => exact h.of_child hchild

end Update

/-- Makes what a list of files has at a path: a file with bytes, or a directory. -/
def place (tree : FileTree) (e : List String × Option ByteArray) : FileTree :=
  match e.2 with
  | some bytes => tree.writeFile e.1 bytes
  | none => tree.makeDirectory e.1

/-- The tree that a list of files creates. -/
def ofFiles (files : List (List String × Option ByteArray)) : FileTree :=
  files.foldl place (directory [])

/-- Both can be made: neither is at or below the path of the other one, if this is a file. -/
def Compatible (d e : List String × Option ByteArray) : Prop :=
  d = e ∨ (d.2 ≠ none → ¬d.1 <+: e.1) ∧ (e.2 ≠ none → ¬e.1 <+: d.1)

/-- What is made of the node at the path. -/
def made : Option ByteArray → FileTree → FileTree
  | some bytes, _ => file bytes
  | none, directory entries => directory entries
  | none, file _ => directory []

/-- To make a file or a directory is to change what is at its path. -/
theorem place_eq_update (tree : FileTree) (path : List String) (content : Option ByteArray) :
    place tree (path, content) = update path (made content) tree := by
  cases content with
  | some bytes => rfl
  | none =>
      refine congrArg (fun change => update path change tree) (funext fun node => ?_)
      cases node <;> rfl

/-- What is made of a node does not depend on its listing, apart from its own listing. -/
theorem relists_made (content : Option ByteArray) {tree other : FileTree}
    (h : tree.Relists other) : Relists (made content tree) (made content other) := by
  cases content with
  | some bytes => exact .file bytes
  | none =>
      cases h with
      | file bytes => exact .refl _
      | directory names below => exact .directory names below

/-- What is made of a well-formed node is well-formed. -/
theorem wellFormed_made (content : Option ByteArray) {tree : FileTree} (h : tree.WellFormed) :
    (made content tree).WellFormed := by
  cases content with
  | some bytes => exact trivial
  | none =>
      cases tree with
      | file bytes => exact wellFormed_empty
      | directory entries => exact h

/-- It does not matter whether a node is made a directory before or after a change below it. -/
theorem made_none_update (name : String) (path : List String) (change : FileTree → FileTree)
    (tree : FileTree) :
    made none (update (name :: path) change tree)
      = update (name :: path) change (made none tree) := by
  cases tree <;> rfl

/-- Below two names it does not matter which is changed first. -/
theorem relists_update_update_of_ne {name next : String} (h : name ≠ next)
    (path rest : List String) (change change' : FileTree → FileTree) (tree : FileTree) :
    Relists (update (next :: rest) change' (update (name :: path) change tree))
      (update (name :: path) change (update (next :: rest) change' tree)) := by
  refine relists_update_cons ?_ ?_
  · have hname : [name].filter (· != next) = [name] := by simpa using h
    have hnext : [next].filter (· != name) = [next] := by simpa using h.symm
    simp only [names_update, List.filter_append, hname, hnext, List.append_assoc]
    rw [List.filter_filter, List.filter_filter]
    refine List.Perm.append (List.Perm.of_eq ?_) (List.Perm.swap _ _ _)
    exact List.filter_congr fun _ _ => Bool.and_comm _ _
  · intro n child child' hchild hchild'
    have hsame : child = child' := by
      apply Option.some.inj
      rw [← hchild, ← hchild']
      by_cases hname : n = name
      · subst hname
        rw [child_update_of_ne h, child_update_self, child_update_self, child_update_of_ne h]
      · by_cases hnext : n = next
        · subst hnext
          rw [child_update_self, child_update_of_ne hname, child_update_of_ne hname,
            child_update_self]
        · rw [child_update_of_ne hnext, child_update_of_ne hname, child_update_of_ne hname,
            child_update_of_ne hnext]
    rw [hsame]
    exact .refl _

/-- It does not matter which of two is made first. -/
theorem relists_update_update {path next : List String} {content content' : Option ByteArray}
    (h : content ≠ none → ¬path <+: next) (h' : content' ≠ none → ¬next <+: path)
    (tree : FileTree) :
    Relists (update next (made content') (update path (made content) tree))
      (update path (made content) (update next (made content') tree)) := by
  induction path generalizing next tree with
  | nil =>
      obtain rfl : content = none := by_contra fun hne => h hne List.nil_prefix
      cases next with
      | nil =>
          obtain rfl : content' = none := by_contra fun hne => h' hne List.nil_prefix
          exact .refl _
      | cons name next =>
          rw [update, update, made_none_update]
          exact .refl _
  | cons name path ih =>
      cases next with
      | nil =>
          obtain rfl : content' = none := by_contra fun hne => h' hne List.nil_prefix
          rw [update, update, made_none_update]
          exact .refl _
      | cons other next =>
          by_cases hname : name = other
          · subst hname
            refine relists_update_cons (by simp only [names_update, List.Perm.refl]) ?_
            intro n child child' hchild hchild'
            by_cases hn : n = name
            · subst hn
              rw [child_update_self, child_update_self] at hchild hchild'
              obtain rfl := Option.some.inj hchild
              obtain rfl := Option.some.inj hchild'
              exact ih (fun hne => List.prefix_cons_inj n |>.not.mp (h hne))
                (fun hne => List.prefix_cons_inj n |>.not.mp (h' hne)) _
            · rw [child_update_of_ne hn, child_update_of_ne hn] at hchild hchild'
              obtain rfl := Option.some.inj (hchild.symm.trans hchild')
              exact .refl _
          · exact relists_update_update_of_ne hname path next _ _ tree

/-- Two files that can both be made can be made in either order. -/
theorem relists_place_place {d e : List String × Option ByteArray} (h : Compatible d e)
    (tree : FileTree) : Relists (place (place tree d) e) (place (place tree e) d) := by
  rcases h with rfl | ⟨hd, he⟩
  · exact .refl _
  · obtain ⟨path, content⟩ := d
    obtain ⟨next, content'⟩ := e
    simp only [place_eq_update]
    exact relists_update_update hd he tree

/-- To make the same file in two listings of a tree keeps them alike. -/
theorem Relists.place {tree other : FileTree} (h : tree.Relists other)
    (e : List String × Option ByteArray) : Relists (place tree e) (place other e) := by
  obtain ⟨path, content⟩ := e
  rw [place_eq_update, place_eq_update]
  exact h.update (fun _ _ => relists_made content) path

/-- To make the same files in two listings of a tree keeps them alike. -/
theorem Relists.foldl_place {tree other : FileTree} (h : tree.Relists other)
    (files : List (List String × Option ByteArray)) :
    Relists (files.foldl FileTree.place tree) (files.foldl FileTree.place other) := by
  induction files generalizing tree other with
  | nil => exact h
  | cons e files ih => exact ih (h.place e)

/-- Files that can all be made can be made in any order. -/
theorem relists_foldl_place {files others : List (List String × Option ByteArray)}
    (hperm : files.Perm others) (h : ∀ d ∈ files, ∀ e ∈ files, Compatible d e)
    (tree : FileTree) : Relists (files.foldl place tree) (others.foldl place tree) := by
  induction hperm generalizing tree with
  | nil => exact .refl tree
  | cons e _ ih =>
      refine ih ?_ (place tree e)
      exact fun d hd e he => h d (List.mem_cons_of_mem _ hd) e (List.mem_cons_of_mem _ he)
  | swap d e files =>
      refine Relists.foldl_place ?_ files
      exact relists_place_place (h e List.mem_cons_self d (by simp)) tree
  | trans hperm _ ih ih' =>
      refine (ih h tree).trans (ih' ?_ tree)
      exact fun d hd e he => h d (hperm.mem_iff.mpr hd) e (hperm.mem_iff.mpr he)

/-- Files with proper names make a well-formed tree. -/
theorem wellFormed_foldl_place {files : List (List String × Option ByteArray)}
    (h : ∀ e ∈ files, ∀ name ∈ e.1, IsFileName name) {tree : FileTree} (hwf : tree.WellFormed) :
    (files.foldl place tree).WellFormed := by
  induction files generalizing tree with
  | nil => exact hwf
  | cons e files ih =>
      obtain ⟨he, hfiles⟩ := List.forall_mem_cons.mp h
      refine ih hfiles ?_
      rw [place_eq_update tree e.1 e.2]
      exact hwf.update (fun _ => wellFormed_made e.2) he

end FileTree

end PackLint
