import PackLint.Proofs.Json.Pointer
import PackLint.Proofs.Upgrade.Findings

/-! # Where findings come from

    Every finding can be traced to what it is about: a command of a function, a value
    in a document that lacks an integer, a document as a whole, or an entry of a tag.
    Conversely every integer that a dimension type lacks is reported once for each
    document that describes this dimension type. -/

namespace PackLint

/-! ## Integers of a value -/

/-- The value has a member with this name that is an integer of 64 bits. -/
def Json.HasInteger (v : Json) (name : String) : Prop :=
  ∃ n : Int, v.member? name = some (.int n)
    ∧ -0x8000000000000000 ≤ n ∧ n < 0x8000000000000000

/-- An integer is read if it fits in 64 bits with a sign. -/
theorem Json.int64?_eq_some_iff {v : Json} {n : Int} :
    v.int64? = some n
      ↔ v = .int n ∧ -0x8000000000000000 ≤ n ∧ n < 0x8000000000000000 := by
  cases v with
  | int m =>
      simp only [int64?, Option.ite_none_right_eq_some, Option.some.injEq, Json.int.injEq]
      constructor
      · rintro ⟨hrange, rfl⟩
        exact ⟨rfl, hrange⟩
      · rintro ⟨rfl, hrange⟩
        exact ⟨hrange, rfl⟩
  | _ => simp [int64?]

/-- A member is read as an integer exactly if the object has such a member. -/
theorem Json.isSome_integer?_iff {v : Json} {name : String} :
    (v.integer? name).isSome = true ↔ v.HasInteger name := by
  simp only [integer?, Option.isSome_iff_exists, Option.bind_eq_some_iff, int64?_eq_some_iff,
    HasInteger]
  constructor
  · rintro ⟨n, _, hmember, rfl, hrange⟩
    exact ⟨n, hmember, hrange⟩
  · rintro ⟨n, hmember, hrange⟩
    exact ⟨n, _, hmember, rfl, hrange⟩

instance (v : Json) (name : String) : Decidable (v.HasInteger name) :=
  decidable_of_iff _ Json.isSome_integer?_iff

/-- Reading a member fails exactly if the object lacks the integer. -/
theorem Json.isNone_integer? (v : Json) (name : String) :
    (v.integer? name).isNone = !decide (v.HasInteger name) := by
  rw [← Option.not_isSome,
    Bool.eq_iff_iff.mpr (isSome_integer?_iff.trans decide_eq_true_iff.symm)]

namespace Upgrade

/-! ## Dimension types in documents -/

/-- The dimension type that a document describes: the content of a dimension type, or
    what a dimension holds under `type`, if this is an object. -/
def dimensionType? : DocumentKind → Json → Option Json
  | .dimensionType, content => if content.isObject then some content else none
  | .dimension, content => content.object? "type"
  | _, _ => none

/-- The pointer to the dimension type in a document. -/
def dimensionTypePointer : DocumentKind → String
  | .dimension => Json.Pointer.join "" "type"
  | _ => ""

/-- The finding that the dimension type in a document lacks this integer. -/
def lackFinding (kind : DocumentKind) (id name : String) : Finding :=
  .error (.node ⟨.document kind, id⟩ (dimensionTypePointer kind))
    (Issue.missingInteger name).message

/-- The pointer leads to the dimension type, and this is an object. -/
theorem resolve?_of_dimensionType? {kind : DocumentKind} {content v : Json}
    (h : dimensionType? kind content = some v) :
    (kind = .dimensionType ∨ kind = .dimension) ∧ v.isObject = true
      ∧ Json.Pointer.resolve? (dimensionTypePointer kind) content = some v := by
  cases kind with
  | dimensionType =>
      obtain ⟨hobject, hv⟩ := Option.ite_none_right_eq_some.mp h
      obtain rfl := Option.some.inj hv
      exact ⟨.inl rfl, hobject, rfl⟩
  | dimension =>
      refine ⟨.inr rfl, (Option.filter_eq_some_iff.mp h).2, ?_⟩
      rw [dimensionTypePointer, Json.Pointer.resolve?_join, Json.Pointer.resolve?_empty,
        Option.bind_some]
      exact Json.Pointer.child?_of_object?_eq_some h
  | _ => exact nomatch h

/-- An object lacks some of the integers that dimension types must have, in their order. -/
theorem dimensionTypeIssues_of_isObject {v : Json} (h : v.isObject = true) :
    dimensionTypeIssues v
      = (requiredIntegers.filter fun name => !decide (v.HasInteger name)).map .missingInteger := by
  simp only [dimensionTypeIssues, if_pos h, Json.isNone_integer?]

/-- The value checks of a document report the integers that its dimension type lacks. -/
theorem valueFindings_valueChecks (kind : DocumentKind) (id : String) (content : Json) :
    (valueChecks kind).flatMap (valueFindings ⟨.document kind, id⟩ content)
      = (dimensionType? kind content).toList.flatMap fun v =>
          (requiredIntegers.filter fun name => !decide (v.HasInteger name)).map
            (lackFinding kind id) := by
  cases kind with
  | dimensionType =>
      show (dimensionTypeIssues content).map _ ++ [] = _
      by_cases hobject : content.isObject = true
      · rw [dimensionTypeIssues_of_isObject hobject, dimensionType?, if_pos hobject]
        simp [lackFinding, dimensionTypePointer]
      · rw [dimensionTypeIssues, if_neg hobject, dimensionType?, if_neg hobject]
        rfl
  | dimension =>
      simp only [valueChecks, List.flatMap_singleton, valueFindings, ValueCheck.place?,
        dimensionType?]
      cases hobject : content.object? "type" with
      | none => rfl
      | some v =>
          have hv : v.isObject = true := (Option.filter_eq_some_iff.mp hobject).2
          simp [dimensionTypeIssues_of_isObject hv, lackFinding, dimensionTypePointer]
  | _ => rfl

/-! ## From a finding to its source -/

/-- A finding that can be traced: it is an error, and points to the pack, to a command
    that a function of the pack runs, to an object in a document that lacks the integer
    that the message names, to a document, or to a tag with one of its entries. -/
inductive Traced (pack : Pack) : Finding → Prop
  | format (message : String) : Traced pack ⟨.error, message, .pack, none⟩
  | command {ns : Namespace} {f : Function} {c : Command} (hns : ns ∈ pack.namespaces)
      (hf : f ∈ ns.functions) (hc : c ∈ f.flat) (hkind : c.kind = .command)
      (message : String) :
      Traced pack ⟨.error, message, .command ⟨.function, f.id⟩ c.line c.raw, none⟩
  | node {ns : Namespace} {kind : DocumentKind} {d : Document} {pointer name : String}
      {members : List (String × Json)} (hns : ns ∈ pack.namespaces)
      (hkind : kind = .dimensionType ∨ kind = .dimension) (hd : d ∈ ns.documents kind)
      (hnode : Json.Pointer.resolve? pointer d.content = some (.obj members))
      (hname : name = "min_y" ∨ name = "height")
      (hlacks : ¬(Json.obj members).HasInteger name) :
      Traced pack
        ⟨.error, (Issue.missingInteger name).message, .node ⟨.document kind, d.id⟩ pointer, none⟩
  | document {ns : Namespace} {kind : DocumentKind} {d : Document} (hns : ns ∈ pack.namespaces)
      (hkind : kind ≠ .dimensionType) (hd : d ∈ ns.documents kind) (message : String) :
      Traced pack ⟨.error, message, .resource ⟨.document kind, d.id⟩, none⟩
  | entry {ns : Namespace} {kind : TagKind} {d : Document} {entry : String}
      (hns : ns ∈ pack.namespaces) (hd : d ∈ ns.tags kind) (hentry : entry ∈ d.tagEntries)
      (message : String) :
      Traced pack ⟨.error, message, .resource ⟨.tag kind, d.id⟩, some entry⟩

section Traced

variable {pack : Pack} {ns : Namespace} {finding : Finding}

/-- What is found in a function of the pack is traced to a command or to its text. -/
theorem traced_of_mem_functionFindings (hns : ns ∈ pack.namespaces) {f : Function}
    (hf : f ∈ ns.functions) (h : finding ∈ functionFindings commandChecks idChecks f) :
    Traced pack finding := by
  obtain ⟨c, hc, hfinding⟩ := List.mem_flatMap.mp h
  obtain ⟨hflat, hcommand⟩ := List.mem_filter.mp hc
  obtain ⟨issue, _, rfl⟩ := List.mem_map.mp hfinding
  exact .command hns hf hflat (beq_iff_eq.mp hcommand) issue.message

/-- What is found in a document of the pack is traced to it or to a value inside of it. -/
theorem traced_of_mem_documentFindings (hns : ns ∈ pack.namespaces) {kind : DocumentKind}
    {d : Document} (hd : d ∈ ns.documents kind)
    (h : finding ∈ documentFindings kind (valueChecks kind) (documentChecks kind) d) :
    Traced pack finding := by
  rcases List.mem_append.mp h with h | h
  · rw [valueFindings_valueChecks] at h
    obtain ⟨v, hv, hfinding⟩ := List.mem_flatMap.mp h
    obtain ⟨name, hname, rfl⟩ := List.mem_map.mp hfinding
    obtain ⟨hrequired, hlacks⟩ := List.mem_filter.mp hname
    obtain ⟨hkind, hobject, hnode⟩ := resolve?_of_dimensionType? (Option.mem_toList.mp hv)
    cases v with
    | obj members =>
        exact .node hns hkind hd hnode (by simpa [requiredIntegers] using hrequired)
          (by simpa using hlacks)
    | _ => exact nomatch hobject
  · obtain ⟨issue, hissue, rfl⟩ := List.mem_map.mp h
    refine .document hns ?_ hd issue.message
    -- the text of a dimension type is not looked at
    rintro rfl
    exact absurd hissue List.not_mem_nil

/-- What is found in a tag of the pack is traced to one of its entries. -/
theorem traced_of_mem_tagFindings (hns : ns ∈ pack.namespaces) {kind : TagKind} {d : Document}
    (hd : d ∈ ns.tags kind) (h : finding ∈ tagFindings kind idChecks d.id d.tagEntries) :
    Traced pack finding := by
  obtain ⟨entry, hentry, hfinding⟩ := List.mem_flatMap.mp h
  obtain ⟨issue, _, rfl⟩ := List.mem_map.mp hfinding
  exact .entry hns hd hentry issue.message

/-- What is found in a resource of the pack is traced to this resource. -/
theorem traced_of_mem_resourceFindings (hns : ns ∈ pack.namespaces) {r : Resource}
    (hr : r ∈ ns.resources) (h : finding ∈ resourceFindings r) : Traced pack finding := by
  cases r with
  | function f =>
      exact traced_of_mem_functionFindings hns (Namespace.mem_functions.mpr hr) h
  | document kind d =>
      exact traced_of_mem_documentFindings hns (Namespace.mem_documents.mpr hr) h
  | tag kind d => exact traced_of_mem_tagFindings hns (Namespace.mem_tags.mpr hr) h

end Traced

/-! ## From a document to its findings -/

/-- The finding says of the document of this kind with this id that it lacks this
    integer. -/
def reportsLack (kind : DocumentKind) (id name : String) (f : Finding) : Bool :=
  f.location.resource? == some ⟨.document kind, id⟩
    && f.message == (Issue.missingInteger name).message

/-- A finding that reports a lack points to the document. -/
theorem resource?_of_reportsLack {kind : DocumentKind} {id name : String} {f : Finding}
    (h : reportsLack kind id name f = true) :
    f.location.resource? = some ⟨.document kind, id⟩ :=
  beq_iff_eq.mp (Bool.and_eq_true_iff.mp h).1

/-- The document has this id and describes a dimension type that lacks this integer. -/
def lacksInteger (kind : DocumentKind) (id name : String) (d : Document) : Bool :=
  d.id == id && (dimensionType? kind d.content).any fun v => !decide (v.HasInteger name)

/-- What is put behind a text does not change its first character. -/
theorem head?_toList_append {s : String} {c : Char} (h : s.toList.head? = some c) (t : String) :
    (s ++ t).toList.head? = some c := by
  rw [String.toList_append, List.head?_append, h]
  rfl

/-- What the checks of texts find in documents does not read as the lack of an
    integer. -/
theorem message_ne_of_mem_documentChecks {kind : DocumentKind} {text : String} {issue : Issue}
    (h : issue ∈ (documentChecks kind).flatMap fun check => check text) (name : String) :
    issue.message ≠ (Issue.missingInteger name).message := by
  obtain ⟨check, hcheck, hissue⟩ := List.mem_flatMap.mp h
  have hsubset : documentChecks kind ⊆ idAndConditionChecks := by
    cases kind <;> simp [documentChecks, idChecks, idAndConditionChecks]
  have hchecks : check = idIssues ∨ check = conditionIssues := by
    simpa [idAndConditionChecks] using hsubset hcheck
  have hissueHead : issue.message.toList.head? = some 'T' := by
    rcases hchecks with rfl | rfl
    · obtain ⟨⟨old, new⟩, _, rfl⟩ := List.mem_map.mp hissue
      show ("The id " ++ old ++ _ ++ new ++ _).toList.head? = some 'T'
      iterate 3 rw [String.append_assoc]
      exact head?_toList_append (by decide) _
    · obtain ⟨⟨what, old, new⟩, _, rfl⟩ := List.mem_map.mp hissue
      show ("The \"" ++ old ++ _ ++ what ++ _ ++ new ++ _).toList.head? = some 'T'
      iterate 5 rw [String.append_assoc]
      exact head?_toList_append (by decide) _
  have hlackHead : (Issue.missingInteger name).message.toList.head? = some 'D' := by
    show ("Dimension types must have the integer property \"" ++ name ++ _).toList.head? = _
    rw [String.append_assoc]
    exact head?_toList_append (by decide) _
  intro heq
  rw [heq, hlackHead] at hissueHead
  exact absurd hissueHead (by decide)

/-- The finding about one lack reports this lack and no other one. -/
theorem reportsLack_lackFinding {n name : String} (hn : n ∈ requiredIntegers)
    (hname : name ∈ requiredIntegers) (k kind : DocumentKind) (i id : String) :
    reportsLack kind id name (lackFinding k i n) = (k == kind && i == id && n == name) := by
  have hmessage : ((Issue.missingInteger n).message == (Issue.missingInteger name).message)
      = (n == name) := by
    simp only [requiredIntegers, List.mem_cons, List.not_mem_nil, or_false] at hn hname
    rcases hn with rfl | rfl <;> rcases hname with rfl | rfl <;> decide
  have hresource : ((lackFinding k i n).location.resource? == some ⟨.document kind, id⟩)
      = (k == kind && i == id) := by
    rw [← Bool.coe_iff_coe]
    simp [lackFinding, Finding.error, Location.resource?]
  rw [reportsLack, hresource]
  exact congrArg _ hmessage

/-- Of the integers that a dimension type lacks, one is reported where it is looked for. -/
theorem filter_reportsLack_map_lackFinding {kind : DocumentKind} {id name : String}
    (hname : name ∈ requiredIntegers) (k : DocumentKind) (i : String) (p : String → Bool) :
    ((requiredIntegers.filter p).map (lackFinding k i)).filter (reportsLack kind id name)
      = if k = kind ∧ i = id ∧ p name then [lackFinding kind id name] else [] := by
  have hreports : ∀ n ∈ requiredIntegers.filter p,
      (reportsLack kind id name ∘ lackFinding k i) n = (k == kind && i == id && n == name) :=
    fun n hn => reportsLack_lackFinding (List.mem_of_mem_filter hn) hname k kind i id
  rw [List.filter_map, List.filter_congr hreports]
  by_cases hplace : k = kind ∧ i = id
  · obtain ⟨rfl, rfl⟩ := hplace
    simp only [beq_self_eq_true, Bool.true_and, true_and]
    rw [filter_filter_beq (by decide) hname]
    split <;> rfl
  · have hfalse : (k == kind && i == id) = false := by simpa using hplace
    simp only [hfalse, Bool.false_and, List.filter_false, List.map_nil]
    rw [if_neg fun h => hplace ⟨h.1, h.2.1⟩]

/-- In the document the lack is reported once, and in any other document not at all. -/
theorem filter_reportsLack_documentFindings {kind : DocumentKind} {id name : String}
    (hname : name ∈ requiredIntegers) (k : DocumentKind) (d : Document) :
    (documentFindings k (valueChecks k) (documentChecks k) d).filter (reportsLack kind id name)
      = if k = kind ∧ lacksInteger kind id name d then [lackFinding kind id name] else [] := by
  have htexts : ((((documentChecks k).flatMap fun check => check d.raw).map fun issue =>
      Finding.error (.resource ⟨.document k, d.id⟩) issue.message).filter
        (reportsLack kind id name)) = [] := by
    refine List.filter_eq_nil_iff.mpr ?_
    intro f hf hreports
    obtain ⟨issue, hissue, rfl⟩ := List.mem_map.mp hf
    have hmessage := beq_iff_eq.mp (Bool.and_eq_true_iff.mp hreports).2
    exact message_ne_of_mem_documentChecks hissue name hmessage
  rw [documentFindings, List.filter_append, htexts, List.append_nil, valueFindings_valueChecks]
  by_cases hk : k = kind
  · subst hk
    cases htype : dimensionType? k d.content with
    | none => simp [lacksInteger, htype]
    | some v =>
        simp only [Option.toList_some, List.flatMap_singleton, lacksInteger, htype,
          Option.any_some, filter_reportsLack_map_lackFinding hname]
        simp
  · rw [if_neg fun h => hk h.1, List.filter_flatMap, List.flatMap_eq_nil_iff]
    intro v _
    rw [filter_reportsLack_map_lackFinding hname, if_neg fun h => hk h.1]

/-- The same for any resource. -/
theorem filter_reportsLack_resourceFindings {kind : DocumentKind} {id name : String}
    (hname : name ∈ requiredIntegers) (r : Resource) :
    (resourceFindings r).filter (reportsLack kind id name)
      = if (r.document? kind).any (lacksInteger kind id name) then [lackFinding kind id name]
        else [] := by
  cases r with
  | function f =>
      refine List.filter_eq_nil_iff.mpr ?_
      intro finding hfinding hreports
      obtain ⟨c, _, hfinding⟩ := List.mem_flatMap.mp hfinding
      obtain ⟨issue, _, rfl⟩ := List.mem_map.mp hfinding
      exact absurd (resource?_of_reportsLack hreports) (by simp [Finding.error, Location.resource?])
  | document k d =>
      rw [resourceFindings, filter_reportsLack_documentFindings hname, Resource.document?]
      by_cases hk : k = kind
      · simp [hk]
      · simp [hk]
  | tag k d =>
      refine List.filter_eq_nil_iff.mpr ?_
      intro finding hfinding hreports
      obtain ⟨entry, _, hfinding⟩ := List.mem_flatMap.mp hfinding
      obtain ⟨issue, _, rfl⟩ := List.mem_map.mp hfinding
      exact absurd (resource?_of_reportsLack hreports) (by simp [Finding.error, Location.resource?])

/-- What the run reports as the lack of this integer in documents with this id is one and
    the same finding, once for each document that has the id and lacks the integer. -/
theorem filter_reportsLack_visits {kind : DocumentKind} {id name : String}
    (hname : name ∈ requiredIntegers) (namespaces : List Namespace) :
    ((visits Kind.all namespaces).flatMap resourceFindings).filter (reportsLack kind id name)
      = List.replicate
          ((namespaces.flatMap fun ns => ns.documents kind).countP (lacksInteger kind id name))
          (lackFinding kind id name) := by
  simp only [List.filter_flatMap, filter_reportsLack_resourceFindings hname,
    flatMap_ite_singleton, List.map_const', ← List.countP_eq_length_filter,
    (perm_visits namespaces).countP_eq]
  have hdocuments : (namespaces.flatMap fun ns => ns.documents kind)
      = (namespaces.flatMap (·.resources)).filterMap (Resource.document? kind) := by
    simp only [Namespace.documents_eq_filterMap, List.filterMap_flatMap]
  rw [hdocuments, List.countP_filterMap]
  congr 2
  funext r
  cases r.document? kind <;> rfl

/-- What is said about the format reports no lack in a document. -/
theorem filter_reportsLack_formatFindings (kind : DocumentKind) (id name : String)
    (format : Int) : (formatFindings format).filter (reportsLack kind id name) = [] := by
  refine List.filter_eq_nil_iff.mpr ?_
  intro finding hfinding hreports
  obtain ⟨message, _, rfl⟩ := List.mem_map.mp hfinding
  exact absurd (resource?_of_reportsLack hreports) (by simp [Finding.error, Location.resource?])

/-- **Every finding is traceable.**  What a run adds to a report are findings that can be
    traced to their source.  In a pack with a format, each of the two integers that a
    dimension type must have is reported of the documents with an id as often as one of
    them describes a dimension type without it. -/
theorem run_traces (pack : Pack) (report : Report) :
    ∃ fs, (run pack report).findings = report.findings ++ fs
      ∧ (∀ f ∈ fs, Traced pack f)
      ∧ ∀ format, format? pack.metadata = some format →
        ∀ name, name = "min_y" ∨ name = "height" → ∀ kind id,
          fs.filter (reportsLack kind id name)
            = List.replicate ((pack.namespaces.flatMap fun ns => ns.documents kind).countP
                (lacksInteger kind id name)) (lackFinding kind id name) := by
  cases hformat : format? pack.metadata with
  | none =>
      refine ⟨[], ?_, fun f hf => absurd hf List.not_mem_nil, fun format h => nomatch h⟩
      rw [run, hformat, List.append_nil]
  | some format =>
      refine ⟨formatFindings format ++ (visits Kind.all pack.namespaces).flatMap resourceFindings,
        ?_, ?_, ?_⟩
      · rw [run_findings_of_format? hformat, List.append_assoc]
      · intro f hf
        rcases List.mem_append.mp hf with hf | hf
        · obtain ⟨message, _, rfl⟩ := List.mem_map.mp hf
          exact .format message
        · obtain ⟨r, hr, hfinding⟩ := List.mem_flatMap.mp hf
          obtain ⟨ns, hns, hmem⟩ := mem_visits_iff.mp hr
          exact traced_of_mem_resourceFindings hns hmem hfinding
      · intro _ _ name hname kind id
        have hrequired : name ∈ requiredIntegers := by simpa [requiredIntegers] using hname
        rw [List.filter_append, filter_reportsLack_formatFindings, List.nil_append,
          filter_reportsLack_visits hrequired]

/-- A dimension and a dimension type share their id: each lacks its own integers. -/
theorem run_traces_shared_id :
    let dimension : Resource :=
      .document .dimension ⟨"m:d", "", .obj [("type", .obj [("min_y", .int 0)])]⟩
    let dimensionType : Resource := .document .dimensionType ⟨"m:d", "", .obj []⟩
    let metadata : Json := .obj [("pack", .obj [("pack_format", .int 7)])]
    let findings := (run ⟨metadata, [⟨"m", [dimension, dimensionType]⟩]⟩ .empty).findings
    format? metadata = some 7
      ∧ findings.filter (reportsLack .dimension "m:d" "min_y") = []
      ∧ findings.filter (reportsLack .dimension "m:d" "height")
        = [⟨.error, "Dimension types must have the integer property \"height\".",
          .node ⟨.document .dimension, "m:d"⟩ "/type", none⟩] := by
  intro dimension dimensionType metadata findings
  obtain ⟨fs, hfs, _, hreports⟩ := run_traces ⟨metadata, [⟨"m", [dimension, dimensionType]⟩]⟩ .empty
  have hformat : format? metadata = some 7 := by
    decide
  obtain rfl : findings = fs := hfs
  refine ⟨hformat, ?_, ?_⟩
  · rw [hreports 7 hformat "min_y" (.inl rfl)]
    rfl
  · rw [hreports 7 hformat "height" (.inr rfl)]
    rfl

end Upgrade

end PackLint
