import Mathlib.Data.List.Basic
import PackLint.Pack.Basic

/-! # Resources kind by kind

    Every resource of a namespace is seen under its own kind, once, and under no
    other.  Hence the resources of some namespaces can be gone through kind by kind:
    none is missed, none is met twice, and where one is met depends on its kind. -/

namespace PackLint

/-- The resource as a document of this kind. -/
def Resource.document? (kind : DocumentKind) : Resource → Option Document
  | document k d => if k = kind then some d else none
  | _ => none

namespace Resource

theorem function_injective : Function.Injective Resource.function :=
  fun _ _ => Resource.function.inj

theorem document_injective (kind : DocumentKind) : Function.Injective (Resource.document kind) :=
  fun _ _ h => (Resource.document.inj h).2

theorem tag_injective (kind : TagKind) : Function.Injective (Resource.tag kind) :=
  fun _ _ h => (Resource.tag.inj h).2

end Resource

namespace Namespace

/-- The resources of a kind are picked from each part of a list by itself. -/
theorem ofKind_append (owner : String) (rs ts : List Resource) (kind : Kind) :
    ofKind ⟨owner, rs ++ ts⟩ kind = ofKind ⟨owner, rs⟩ kind ++ ofKind ⟨owner, ts⟩ kind :=
  List.filter_append rs ts

/-- If all resources are of the kind, none is left out. -/
theorem ofKind_eq_self {rs : List Resource} {kind : Kind} (h : ∀ r ∈ rs, r.kind = kind)
    (owner : String) : ofKind ⟨owner, rs⟩ kind = rs := by
  refine List.filter_eq_self.mpr ?_
  intro r hr
  exact beq_iff_eq.mpr (h r hr)

/-- If all resources are of another kind, none is picked. -/
theorem ofKind_eq_nil {rs : List Resource} {kind other : Kind} (h : ∀ r ∈ rs, r.kind = kind)
    (hne : other ≠ kind) (owner : String) : ofKind ⟨owner, rs⟩ other = [] := by
  refine List.filter_eq_nil_iff.mpr ?_
  intro r hr hkind
  rw [beq_iff_eq, h r hr] at hkind
  exact hne hkind.symm

/-! ## The typed forms -/

/-- A typed form of the resources of a kind is made by a view that sees the resources
    of this kind, and no others. -/
theorem map_filterMap_eq_ofKind {α : Type} {view : Resource → Option α} {make : α → Resource}
    {kind : Kind}
    (h : ∀ r, (view r).map make = Option.guard (fun r => r.kind == kind) r) (ns : Namespace) :
    (ns.resources.filterMap view).map make = ns.ofKind kind := by
  rw [List.map_filterMap, ofKind, ← List.filterMap_eq_filter]
  apply List.filterMap_congr
  intro r _
  exact h r

/-- The functions of a namespace are its resources of their kind. -/
theorem map_functions (ns : Namespace) :
    ns.functions.map Resource.function = ns.ofKind .function := by
  apply map_filterMap_eq_ofKind
  intro r
  cases r with
  | function f => rfl
  | document kind d => rfl
  | tag kind d => rfl

/-- The documents of a kind are the resources of this kind. -/
theorem map_documents (ns : Namespace) (kind : DocumentKind) :
    (ns.documents kind).map (Resource.document kind) = ns.ofKind (.document kind) := by
  apply map_filterMap_eq_ofKind
  intro r
  cases r with
  | function f => rfl
  | tag k d => rfl
  | document k d =>
      by_cases hk : k = kind
      · subst hk
        simp [Option.guard, Resource.kind]
      · simp [Option.guard, Resource.kind, hk]

/-- The tags of a kind are the resources of this kind. -/
theorem map_tags (ns : Namespace) (kind : TagKind) :
    (ns.tags kind).map (Resource.tag kind) = ns.ofKind (.tag kind) := by
  apply map_filterMap_eq_ofKind
  intro r
  cases r with
  | function f => rfl
  | document k d => rfl
  | tag k d =>
      by_cases hk : k = kind
      · subst hk
        simp [Option.guard, Resource.kind]
      · simp [Option.guard, Resource.kind, hk]

/-- The documents of a kind in the order in which all resources are listed. -/
theorem documents_eq_filterMap (ns : Namespace) (kind : DocumentKind) :
    ns.documents kind = ns.resources.filterMap (Resource.document? kind) :=
  rfl

/-- A typed form has exactly the resources of the namespace that it can be made of. -/
theorem mem_iff_of_map_eq_ofKind {α : Type} {ns : Namespace} {xs : List α}
    {make : α → Resource} {kind : Kind} (hmap : xs.map make = ns.ofKind kind)
    (hmake : make.Injective) (hkind : ∀ a, (make a).kind = kind) (a : α) :
    a ∈ xs ↔ make a ∈ ns.resources := by
  rw [← List.mem_map_of_injective hmake, hmap, ofKind, List.mem_filter, hkind a]
  exact and_iff_left (beq_self_eq_true kind)

/-- A function is in the list exactly if it is among the resources. -/
theorem mem_functions {ns : Namespace} {f : Function} :
    f ∈ ns.functions ↔ Resource.function f ∈ ns.resources :=
  mem_iff_of_map_eq_ofKind ns.map_functions Resource.function_injective (fun _ => rfl) f

/-- A document is in the list of its kind exactly if it is among the resources. -/
theorem mem_documents {ns : Namespace} {kind : DocumentKind} {d : Document} :
    d ∈ ns.documents kind ↔ Resource.document kind d ∈ ns.resources :=
  mem_iff_of_map_eq_ofKind (ns.map_documents kind) (Resource.document_injective kind)
    (fun _ => rfl) d

/-- A tag is in the list of its kind exactly if it is among the resources. -/
theorem mem_tags {ns : Namespace} {kind : TagKind} {d : Document} :
    d ∈ ns.tags kind ↔ Resource.tag kind d ∈ ns.resources :=
  mem_iff_of_map_eq_ofKind (ns.map_tags kind) (Resource.tag_injective kind) (fun _ => rfl) d

end Namespace

/-! ## Kind by kind through some namespaces -/

/-- The resources of these kinds in some namespaces: kind by kind, and namespace by
    namespace for each kind. -/
def visits (kinds : List Kind) (namespaces : List Namespace) : List Resource :=
  kinds.flatMap fun kind => namespaces.flatMap fun ns => ns.ofKind kind

theorem visits_append (ks ls : List Kind) (namespaces : List Namespace) :
    visits (ks ++ ls) namespaces = visits ks namespaces ++ visits ls namespaces :=
  List.flatMap_append

theorem visits_cons (kind : Kind) (ks : List Kind) (namespaces : List Namespace) :
    visits (kind :: ks) namespaces
      = (namespaces.flatMap fun ns => ns.ofKind kind) ++ visits ks namespaces :=
  List.flatMap_cons

/-- The resources of a kind in all namespaces, as those picked from all resources. -/
theorem flatMap_ofKind (namespaces : List Namespace) (kind : Kind) :
    (namespaces.flatMap fun ns => ns.ofKind kind)
      = (namespaces.flatMap (·.resources)).filter fun r => r.kind == kind :=
  List.filter_flatMap.symm

/-- Taking what one key selects out of a list, and then what the other keys select,
    takes everything that some key selects. -/
theorem perm_flatMap_filter {α κ : Type} [BEq κ] [LawfulBEq κ] (key : α → κ) {ks : List κ}
    (hks : ks.Nodup) {xs : List α} (hxs : ∀ x ∈ xs, key x ∈ ks) :
    (ks.flatMap fun k => xs.filter fun x => key x == k).Perm xs := by
  induction ks generalizing xs with
  | nil =>
      cases xs with
      | nil => exact .nil
      | cons x xs => exact absurd (hxs x List.mem_cons_self) List.not_mem_nil
  | cons k ks ih =>
      obtain ⟨hk, hks⟩ := List.nodup_cons.mp hks
      -- the other keys select from what this one leaves
      have hrest : (ks.flatMap fun l => xs.filter fun x => key x == l)
          = ks.flatMap fun l => (xs.filter fun x => !(key x == k)).filter fun x => key x == l := by
        apply List.flatMap_congr
        intro l hl
        rw [List.filter_filter]
        apply List.filter_congr
        intro x _
        by_cases hx : key x = l
        · have hne : key x ≠ k := by
            rintro rfl
            exact hk (hx ▸ hl)
          simp [hx, hx ▸ hne]
        · simp [hx]
      rw [List.flatMap_cons, hrest]
      have hleft : ∀ x ∈ xs.filter fun x => !(key x == k), key x ∈ ks := by
        intro x hx
        obtain ⟨hmem, hne⟩ := List.mem_filter.mp hx
        rcases List.mem_cons.mp (hxs x hmem) with h | h
        · simp [h] at hne
        · exact h
      exact ((ih hks hleft).append_left _).trans (List.filter_append_perm _ xs)

/-- Kind by kind, every resource is met exactly once. -/
theorem perm_visits (namespaces : List Namespace) :
    (visits Kind.all namespaces).Perm (namespaces.flatMap (·.resources)) := by
  simp only [visits, flatMap_ofKind]
  exact perm_flatMap_filter Resource.kind Kind.nodup_all fun r _ => Kind.mem_all r.kind

/-- A walk over all kinds visits the resources of the namespaces and nothing else. -/
theorem mem_visits_iff {namespaces : List Namespace} {r : Resource} :
    r ∈ visits Kind.all namespaces ↔ ∃ ns ∈ namespaces, r ∈ ns.resources := by
  rw [(perm_visits namespaces).mem_iff, List.mem_flatMap]

/-! ## Where a resource is met -/

/-- Resources of another kind are not met. -/
theorem visits_insert_of_notMem {kind : Kind} {kinds : List Kind} (hkind : kind ∉ kinds)
    {rs : List Resource} (hrs : ∀ r ∈ rs, r.kind = kind) (before after : List Namespace)
    (owner : String) (a b : List Resource) :
    visits kinds (before ++ ⟨owner, a ++ rs ++ b⟩ :: after)
      = visits kinds (before ++ ⟨owner, a ++ b⟩ :: after) := by
  apply List.flatMap_congr
  intro other hother
  have hne : other ≠ kind := by
    rintro rfl
    exact hkind hother
  simp only [List.flatMap_append, List.flatMap_cons, Namespace.ofKind_append,
    Namespace.ofKind_eq_nil hrs hne, List.append_nil]

/-- A kind has one place among the kinds. -/
theorem Kind.exists_all_eq (kind : Kind) :
    ∃ ks ls, Kind.all = ks ++ kind :: ls ∧ kind ∉ ks ∧ kind ∉ ls := by
  obtain ⟨ks, ls, hall⟩ := List.append_of_mem (Kind.mem_all kind)
  obtain ⟨_, hcons, hdisjoint⟩ := List.nodup_append.mp (hall ▸ Kind.nodup_all)
  refine ⟨ks, ls, hall, ?_, (List.nodup_cons.mp hcons).1⟩
  intro hmem
  exact hdisjoint kind hmem kind List.mem_cons_self rfl

/-- Where the kinds have a list each, one behind the other, those of a kind are the ones in
    its list. -/
theorem Namespace.ofKind_flatMap_all {list : Kind → List Resource}
    (h : ∀ kind, ∀ r ∈ list kind, r.kind = kind) (owner : String) (kind : Kind) :
    ofKind ⟨owner, Kind.all.flatMap list⟩ kind = list kind := by
  have hothers : ∀ kinds : List Kind, kind ∉ kinds →
      ofKind ⟨owner, kinds.flatMap list⟩ kind = [] := by
    intro kinds hkinds
    rw [ofKind, List.filter_flatMap, List.flatMap_eq_nil_iff]
    intro other hother
    have hne : kind ≠ other := by
      rintro rfl
      exact hkinds hother
    exact ofKind_eq_nil (h other) hne owner
  obtain ⟨ks, ls, hall, hks, hls⟩ := Kind.exists_all_eq kind
  rw [hall, List.flatMap_append, ofKind_append, hothers ks hks, List.nil_append,
    List.flatMap_cons, ofKind_append, hothers ls hls, List.append_nil, ofKind_eq_self (h kind)]

/-- Those of a kind are met at the place of this kind. -/
theorem filter_visits (kind : Kind) (namespaces : List Namespace) :
    ((visits Kind.all namespaces).filter fun r => r.kind == kind)
      = namespaces.flatMap fun ns => ns.ofKind kind := by
  have hkind : ∀ k, ∀ r ∈ namespaces.flatMap fun ns => ns.ofKind k, r.kind = k := by
    intro k r hr
    rw [flatMap_ofKind] at hr
    exact beq_iff_eq.mp (List.mem_filter.mp hr).2
  exact Namespace.ofKind_flatMap_all hkind "" kind

/-- Resources of one kind that stand behind each other in a namespace are met behind
    each other, at a place that is the same for all resources of this kind. -/
theorem exists_visits_insert (before after : List Namespace) (owner : String)
    (a b : List Resource) (kind : Kind) :
    ∃ front back, ∀ rs : List Resource, (∀ r ∈ rs, r.kind = kind) →
      visits Kind.all (before ++ ⟨owner, a ++ rs ++ b⟩ :: after) = front ++ rs ++ back := by
  obtain ⟨ks, ls, hall, hks, hls⟩ := Kind.exists_all_eq kind
  -- in front are the other kinds, then this kind in the namespaces before and in `a`
  refine ⟨visits ks (before ++ ⟨owner, a ++ b⟩ :: after)
      ++ (before.flatMap fun ns => ns.ofKind kind) ++ Namespace.ofKind ⟨owner, a⟩ kind,
    Namespace.ofKind ⟨owner, b⟩ kind ++ (after.flatMap fun ns => ns.ofKind kind)
      ++ visits ls (before ++ ⟨owner, a ++ b⟩ :: after), ?_⟩
  intro rs hrs
  rw [hall, visits_append, visits_cons, visits_insert_of_notMem hks hrs,
    visits_insert_of_notMem hls hrs]
  simp only [List.flatMap_append, List.flatMap_cons, Namespace.ofKind_append,
    Namespace.ofKind_eq_self hrs, List.append_assoc]

end PackLint
