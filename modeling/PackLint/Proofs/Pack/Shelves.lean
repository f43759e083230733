import PackLint.Pack.Shelves
import PackLint.Proofs.Pack.Load

/-! # Thirteen lists

    A namespace and its shelves hold the same, and a resource is added to both alike: to
    the end of the list of its kind.  No list of another kind takes part, and no resource
    is dropped for want of a list. -/

namespace PackLint

/-- A resource that is to be added, by its text. -/
structure Addition where
  kind : Kind
  id : String
  text : String

/-- The resource, if its text is one of its kind. -/
def Addition.resource? (a : Addition) : Option Resource :=
  Resource.ofText? a.kind a.id a.text

/-- Nothing is added exactly if the text should be JSON and is not. -/
theorem Addition.resource?_eq_none_iff {a : Addition} :
    a.resource? = none ↔ a.kind ≠ .function ∧ Json.ofText? a.text = none := by
  obtain ⟨kind, id, text⟩ := a
  cases kind with
  | function => simp [resource?, Resource.ofText?]
  | document kind => simp [resource?, Resource.ofText?, Document.ofText?]
  | tag kind => simp [resource?, Resource.ofText?, Document.ofText?]

/-- What is added is of the kind that was asked for. -/
theorem Addition.kind_of_mem_resource? {a : Addition} {r : Resource}
    (h : r ∈ a.resource?.toList) : r.kind = a.kind :=
  (Resource.kind_and_id_of_ofText? (Option.mem_toList.mp h)).1

/-- What the list of this kind gains by an addition. -/
def Addition.gain (a : Addition) (kind : Kind) : List Resource :=
  if kind = a.kind then a.resource?.toList else []

namespace Shelves

variable {s t : Shelves} {kind : Kind}

/-- The resources of a kind. -/
def ofKind (s : Shelves) : Kind → List Resource
  | .function => s.functions.map .function
  | .document kind => (s.documents (.document kind)).map (.document kind)
  | .tag kind => (s.tags (.tag kind)).map (.tag kind)

def add (s : Shelves) (a : Addition) : Shelves :=
  s.addText a.kind a.id a.text

/-- On the shelf of a kind there are resources of this kind only. -/
theorem kind_of_mem_ofKind {r : Resource} (h : r ∈ s.ofKind kind) : r.kind = kind := by
  cases kind with
  | function => obtain ⟨f, _, rfl⟩ := List.mem_map.mp h; rfl
  | document kind => obtain ⟨d, _, rfl⟩ := List.mem_map.mp h; rfl
  | tag kind => obtain ⟨d, _, rfl⟩ := List.mem_map.mp h; rfl

/-! ## What the lists of the kinds tell -/

/-- The list of functions is determined by the resources of its kind. -/
theorem functions_eq_of_ofKind_eq (h : t.ofKind .function = s.ofKind .function) :
    t.functions = s.functions :=
  List.map_injective_iff.mpr Resource.function_injective h

/-- A list of documents is determined by the resources of its kind. -/
theorem documents_eq_of_ofKind_eq (h : t.ofKind kind = s.ofKind kind) :
    t.documents kind = s.documents kind := by
  cases kind with
  | function => rfl
  | document kind => exact List.map_injective_iff.mpr (Resource.document_injective kind) h
  | tag kind => cases kind <;> rfl

/-- A list of tags is determined by the resources of its kind. -/
theorem tags_eq_of_ofKind_eq (h : t.ofKind kind = s.ofKind kind) : t.tags kind = s.tags kind := by
  cases kind with
  | function => rfl
  | document kind => rfl
  | tag kind => exact List.map_injective_iff.mpr (Resource.tag_injective kind) h

/-- Shelves are equal if their owners and, for each kind, their resources are. -/
theorem ext_ofKind (howner : t.owner = s.owner) (h : ∀ kind, t.ofKind kind = s.ofKind kind) :
    t = s := by
  have hfunctions := functions_eq_of_ofKind_eq (h .function)
  have hdocuments := fun kind : DocumentKind => documents_eq_of_ofKind_eq (h (.document kind))
  have htags := fun kind : TagKind => tags_eq_of_ofKind_eq (h (.tag kind))
  cases s
  cases t
  rw [Shelves.mk.injEq]
  exact ⟨howner, hfunctions, hdocuments .dimensionType, hdocuments .dimension,
    hdocuments .advancement, hdocuments .predicate, hdocuments .lootTable, hdocuments .recipe,
    hdocuments .itemModifier, htags .block, htags .item, hdocuments .configuredFeature,
    hdocuments .surfaceBuilder, hdocuments .processorList⟩

/-! ## Putting documents in -/

/-- A kind of plain documents has a list, and the same list is read and changed. -/
theorem exists_changeDocuments?_eq_some (s : Shelves) (kind : DocumentKind)
    (f : List Document → List Document) :
    ∃ t, s.changeDocuments? (.document kind) f = some t
      ∧ t.documents (.document kind) = f (s.documents (.document kind))
      ∧ ∀ other ≠ .document kind, t.ofKind other = s.ofKind other := by
  cases kind
  all_goals
    refine ⟨_, rfl, rfl, ?_⟩
    intro other hne
    cases other with
    | function => rfl
    | document kind => cases kind <;> first | rfl | exact absurd rfl hne
    | tag kind => cases kind <;> rfl

/-- A kind of tags has a list, and the same list is read and changed. -/
theorem exists_changeTags?_eq_some (s : Shelves) (kind : TagKind)
    (f : List Document → List Document) :
    ∃ t, s.changeTags? (.tag kind) f = some t
      ∧ t.tags (.tag kind) = f (s.tags (.tag kind))
      ∧ ∀ other ≠ .tag kind, t.ofKind other = s.ofKind other := by
  cases kind
  all_goals
    refine ⟨_, rfl, rfl, ?_⟩
    intro other hne
    cases other with
    | function => rfl
    | document kind => cases kind <;> rfl
    | tag kind => cases kind <;> first | rfl | exact absurd rfl hne

/-- The owner stays when a document is put on a shelf. -/
theorem owner_put (s : Shelves) (kind : Kind) (d : Document) : (s.put kind d).owner = s.owner := by
  cases kind with
  | function => rfl
  | document kind => cases kind <;> rfl
  | tag kind => cases kind <;> rfl

/-- The change to one kind and the frame of the others, as one equation for all kinds. -/
theorem ofKind_eq_append_ite {rs : List Resource} (hown : t.ofKind kind = s.ofKind kind ++ rs)
    (hothers : ∀ other ≠ kind, t.ofKind other = s.ofKind other) (other : Kind) :
    t.ofKind other = s.ofKind other ++ if other = kind then rs else [] := by
  by_cases hother : other = kind
  · rw [hother, if_pos rfl, hown]
  · rw [if_neg hother, List.append_nil, hothers other hother]

/-- A document is put at the end of the list of its kind. -/
theorem ofKind_put_document (s : Shelves) (kind : DocumentKind) (d : Document) (other : Kind) :
    (s.put (.document kind) d).ofKind other
      = s.ofKind other ++ if other = .document kind then [.document kind d] else [] := by
  obtain ⟨t, ht, hdocuments, hothers⟩ := exists_changeDocuments?_eq_some s kind (· ++ [d])
  have hput : s.put (.document kind) d = t := by
    simp only [put, changeTags?, ht]
  rw [hput]
  refine ofKind_eq_append_ite ?_ hothers other
  rw [ofKind, hdocuments, List.map_append]
  rfl

/-- A tag is put at the end of the list of its kind. -/
theorem ofKind_put_tag (s : Shelves) (kind : TagKind) (d : Document) (other : Kind) :
    (s.put (.tag kind) d).ofKind other
      = s.ofKind other ++ if other = .tag kind then [.tag kind d] else [] := by
  obtain ⟨t, ht, htags, hothers⟩ := exists_changeTags?_eq_some s kind (· ++ [d])
  have hput : s.put (.tag kind) d = t := by
    simp only [put, ht]
  rw [hput]
  refine ofKind_eq_append_ite ?_ hothers other
  rw [ofKind, htags, List.map_append]
  rfl

/-! ## Adding resources -/

/-- The owner stays when a resource is added. -/
theorem owner_add (s : Shelves) (a : Addition) : (s.add a).owner = s.owner := by
  rw [add, addText]
  split
  · rfl
  · split
    · exact owner_put s a.kind _
    · rfl

/-- What is added to the list of a kind is added behind the others, and only additions of
    this kind add to it. -/
theorem ofKind_add (s : Shelves) (a : Addition) (other : Kind) :
    (s.add a).ofKind other = s.ofKind other ++ a.gain other := by
  obtain ⟨kind, id, text⟩ := a
  cases kind with
  | function =>
      rw [add, addText, if_pos rfl]
      cases other with
      | function => exact List.map_append
      | document kind => exact (List.append_nil _).symm
      | tag kind => exact (List.append_nil _).symm
  | document kind =>
      rw [add, addText, if_neg Kind.noConfusion, Addition.gain, Addition.resource?,
        Resource.ofText?]
      cases Document.ofText? id text with
      | none => rw [Option.map_none, Option.toList_none, ite_self, List.append_nil]
      | some d => exact ofKind_put_document s kind d other
  | tag kind =>
      rw [add, addText, if_neg Kind.noConfusion, Addition.gain, Addition.resource?,
        Resource.ofText?]
      cases Document.ofText? id text with
      | none => rw [Option.map_none, Option.toList_none, ite_self, List.append_nil]
      | some d => exact ofKind_put_tag s kind d other

/-- Where nothing is added, nothing changes. -/
theorem add_eq_self {a : Addition} (h : a.resource? = none) (s : Shelves) : s.add a = s := by
  refine ext_ofKind (owner_add s a) ?_
  intro kind
  rw [ofKind_add, Addition.gain, h, Option.toList_none, ite_self, List.append_nil]

/-- The second shelves hold this resource as well, at the end of the list of its kind. -/
structure Gains (s : Shelves) (r : Resource) (t : Shelves) : Prop where
  owner : t.owner = s.owner
  own : t.ofKind r.kind = s.ofKind r.kind ++ [r]
  functions : r.kind ≠ .function → t.functions = s.functions
  documents : ∀ kind ≠ r.kind, t.documents kind = s.documents kind
  tags : ∀ kind ≠ r.kind, t.tags kind = s.tags kind

/-- The list of the kind gains the resource at its end, and the others stay. -/
theorem gains_add {a : Addition} {r : Resource} (h : a.resource? = some r) (s : Shelves) :
    s.Gains r (s.add a) := by
  have hkind : r.kind = a.kind := (Resource.kind_and_id_of_ofText? h).1
  have hothers : ∀ kind ≠ r.kind, (s.add a).ofKind kind = s.ofKind kind := by
    intro kind hne
    rw [ofKind_add, Addition.gain, if_neg (hkind ▸ hne), List.append_nil]
  refine ⟨owner_add s a, ?_, ?_, ?_, ?_⟩
  · rw [ofKind_add, Addition.gain, if_pos hkind, h, Option.toList_some]
  · intro hfunction
    exact functions_eq_of_ofKind_eq (hothers .function hfunction.symm)
  · intro kind hne
    exact documents_eq_of_ofKind_eq (hothers kind hne)
  · intro kind hne
    exact tags_eq_of_ofKind_eq (hothers kind hne)

/-- Additions one after another. -/
def addAll (s : Shelves) (as : List Addition) : Shelves :=
  as.foldl add s

theorem addAll_cons (s : Shelves) (a : Addition) (as : List Addition) :
    s.addAll (a :: as) = (s.add a).addAll as :=
  rfl

/-- The owner stays, whatever is added. -/
theorem owner_addAll (s : Shelves) (as : List Addition) : (s.addAll as).owner = s.owner := by
  induction as generalizing s with
  | nil => rfl
  | cons a as ih => rw [addAll_cons, ih, owner_add]

/-- After some additions the list of a kind holds those of its kind that are accepted, in
    their order. -/
theorem ofKind_addAll (s : Shelves) (as : List Addition) (kind : Kind) :
    (s.addAll as).ofKind kind
      = s.ofKind kind ++ (as.filter fun b => b.kind == kind).filterMap Addition.resource? := by
  induction as generalizing s with
  | nil => exact (List.append_nil _).symm
  | cons a as ih =>
      rw [addAll_cons, ih, ofKind_add, List.append_assoc, List.filter_cons, Addition.gain]
      by_cases hkind : a.kind = kind
      · rw [if_pos hkind.symm, if_pos (beq_iff_eq.mpr hkind), List.filterMap_cons]
        cases a.resource? with
        | none => rfl
        | some r => rfl
      · rw [if_neg (Ne.symm hkind), if_neg (mt beq_iff_eq.mp hkind), List.nil_append]

end Shelves

/-! ## The shelves of a namespace -/

namespace Namespace

def add (ns : Namespace) (a : Addition) : Namespace :=
  ns.addText a.kind a.id a.text

/-- What is added stands behind all resources of the namespace. -/
theorem add_eq (ns : Namespace) (a : Addition) :
    ns.add a = ⟨ns.name, ns.resources ++ a.resource?.toList⟩ :=
  ns.addText_eq a.kind a.id a.text

/-- Of each kind a namespace has gained what was added of it, at the end. -/
theorem ofKind_add (ns : Namespace) (a : Addition) (kind : Kind) :
    (ns.add a).ofKind kind = ns.ofKind kind ++ a.gain kind := by
  have hown : ∀ r ∈ a.resource?.toList, r.kind = a.kind := fun r => a.kind_of_mem_resource?
  rw [add_eq, ofKind_append, Addition.gain]
  split
  · rename_i hkind
    rw [hkind, ofKind_eq_self hown]
  · rename_i hkind
    rw [ofKind_eq_nil hown hkind]

/-- The shelf of a kind of documents is the list that the walkers look through. -/
theorem documents_shelves (ns : Namespace) (kind : DocumentKind) :
    ns.shelves.documents (.document kind) = ns.documents kind := by
  cases kind <;> rfl

/-- The shelf of a kind of tags is the list that the walkers look through. -/
theorem tags_shelves (ns : Namespace) (kind : TagKind) :
    ns.shelves.tags (.tag kind) = ns.tags kind := by
  cases kind <;> rfl

/-- The shelves of a namespace hold its resources, kind by kind. -/
theorem ofKind_shelves (ns : Namespace) (kind : Kind) :
    ns.shelves.ofKind kind = ns.ofKind kind := by
  cases kind with
  | function => exact ns.map_functions
  | document kind => rw [Shelves.ofKind, documents_shelves, map_documents]
  | tag kind => rw [Shelves.ofKind, tags_shelves, map_tags]

/-- A namespace and its shelves add alike. -/
theorem shelves_add (ns : Namespace) (a : Addition) : (ns.add a).shelves = ns.shelves.add a := by
  refine Shelves.ext_ofKind ?_ ?_
  · rw [Shelves.owner_add, add_eq]
    rfl
  · intro kind
    rw [ofKind_shelves, ofKind_add, Shelves.ofKind_add, ofKind_shelves]

/-- Adding to a namespace is adding to its shelves. -/
theorem shelves_foldl_add (ns : Namespace) (as : List Addition) :
    (as.foldl add ns).shelves = ns.shelves.addAll as := by
  induction as generalizing ns with
  | nil => rfl
  | cons a as ih => rw [List.foldl_cons, ih, shelves_add, Shelves.addAll_cons]

end Namespace

/-- All shelves are those of a namespace. -/
theorem Shelves.exists_namespace (s : Shelves) : ∃ ns : Namespace, ns.shelves = s := by
  refine ⟨⟨s.owner, Kind.all.flatMap s.ofKind⟩, Shelves.ext_ofKind rfl ?_⟩
  intro kind
  rw [Namespace.ofKind_shelves]
  exact Namespace.ofKind_flatMap_all (fun _ _ => kind_of_mem_ofKind) s.owner kind

end PackLint
