import PackLint.Proofs.Pack.Kinds
import PackLint.Upgrade.Walker

/-! # Walks

    What a walker adds to a report is made of blocks, one for each resource that it
    looks through, and a block depends on the resource alone: `resourceFindings`
    says what it is, kind by kind.  A walker starts its count anew, so the count that
    it ends with is the number of its own findings. -/

namespace PackLint.Upgrade

/-! ## The findings in a resource -/

/-- The checks of values in the documents of a kind. -/
def valueChecks : DocumentKind → List ValueCheck
  | .dimensionType => [⟨none, dimensionTypeIssues⟩]
  | .dimension => [⟨some "type", dimensionTypeIssues⟩]
  | _ => []

/-- The checks of the texts of the documents of a kind. -/
def documentChecks : DocumentKind → List TextCheck
  | .dimensionType => []
  | .advancement | .predicate | .lootTable => idAndConditionChecks
  | _ => idChecks

/-- The findings in a resource: of a function its id and its commands matter, of a
    document its id, its text and its content, and of a tag its id and its entries. -/
def resourceFindings : Resource → List Finding
  | .function f => functionFindings commandChecks idChecks f
  | .document kind d => documentFindings kind (valueChecks kind) (documentChecks kind) d
  | .tag kind d => tagFindings kind idChecks d.id d.tagEntries

/-! ## Adding findings -/

namespace Walk

/-- Findings that are added one by one are added in order, and counted. -/
theorem addAll_eq (walk : Walk) (fs : List Finding) :
    walk.addAll fs = ⟨walk.report.append fs, walk.count + fs.length⟩ := by
  induction fs generalizing walk with
  | nil => simp [addAll, Report.append]
  | cons f fs ih =>
      show (walk.add f).addAll fs = _
      rw [ih]
      simp only [add, Report.push, Report.append, List.append_assoc, List.singleton_append,
        List.length_cons, Walk.mk.injEq, true_and]
      omega

/-- Two lists of findings are added one after the other. -/
theorem addAll_append (walk : Walk) (fs gs : List Finding) :
    walk.addAll (fs ++ gs) = (walk.addAll fs).addAll gs :=
  List.foldl_append

/-- Adding block after block adds what the blocks are made of. -/
theorem foldl_addAll {α : Type} (findings : α → List Finding) (xs : List α) (walk : Walk) :
    xs.foldl (fun walk x => walk.addAll (findings x)) walk = walk.addAll (xs.flatMap findings) := by
  induction xs generalizing walk with
  | nil => rfl
  | cons x xs ih => rw [List.foldl_cons, ih, List.flatMap_cons, addAll_append]

end Walk

/-! ## Walkers -/

namespace Walker

/-- The walker of a kind. -/
def ofKind : Kind → Walker
  | .function => .functions commandChecks idChecks
  | .document kind => .documents kind (valueChecks kind) (documentChecks kind)
  | .tag kind => .tags kind idChecks

/-- There is one walker for each kind, and they walk in the order of the kinds. -/
theorem all_eq : all = Kind.all.map ofKind :=
  rfl

/-- The walker of a kind looks through the resources of this kind. -/
theorem kind_ofKind (kind : Kind) : (ofKind kind).kind = kind := by
  cases kind with
  | function => rfl
  | document kind => rfl
  | tag kind => rfl

/-- In a namespace, a walker adds the block of each resource of its kind. -/
theorem visit_ofKind (kind : Kind) (walk : Walk) (ns : Namespace) :
    (ofKind kind).visit walk ns = walk.addAll ((ns.ofKind kind).flatMap resourceFindings) := by
  cases kind with
  | function => rw [← ns.map_functions, List.flatMap_map, ← Walk.foldl_addAll]; rfl
  | document kind => rw [← ns.map_documents, List.flatMap_map, ← Walk.foldl_addAll]; rfl
  | tag kind => rw [← ns.map_tags, List.flatMap_map, ← Walk.foldl_addAll]; rfl

/-- A walker adds the blocks of the resources of its kind, namespace by namespace, and
    counts what it adds. -/
theorem walk_ofKind (kind : Kind) (namespaces : List Namespace) (report : Report) :
    let fs := namespaces.flatMap fun ns => (ns.ofKind kind).flatMap resourceFindings
    (ofKind kind).walk namespaces report = ⟨report.append fs, fs.length⟩ := by
  have hvisit : (ofKind kind).visit
      = fun walk ns => walk.addAll ((ns.ofKind kind).flatMap resourceFindings) := by
    funext walk ns
    exact visit_ofKind kind walk ns
  show namespaces.foldl (ofKind kind).visit ⟨report, 0⟩ = _
  rw [hvisit, Walk.foldl_addAll, Walk.addAll_eq, Nat.zero_add]

end Walker

/-- The walkers add the blocks of the resources kind by kind, and their counts sum up
    to the number of these findings. -/
theorem foldl_walk (kinds : List Kind) (namespaces : List Namespace) (total : Walk) :
    (kinds.map Walker.ofKind).foldl
        (fun total walker =>
          let walk := walker.walk namespaces total.report
          ⟨walk.report, total.count + walk.count⟩)
        total
      = total.addAll ((visits kinds namespaces).flatMap resourceFindings) := by
  induction kinds generalizing total with
  | nil => rfl
  | cons kind kinds ih =>
      -- a walker goes on with the report of the one before it, and counts from zero
      rw [List.map_cons, List.foldl_cons, ih, visits_cons, List.flatMap_append,
        Walk.addAll_append, Walk.addAll_eq total, List.flatMap_assoc]
      simp only [Walker.walk_ofKind]

/-- All walkers together add what is found on the walk over all kinds. -/
theorem walkAll_eq (namespaces : List Namespace) (report : Report) :
    let fs := (visits Kind.all namespaces).flatMap resourceFindings
    walkAll namespaces report = ⟨report.append fs, fs.length⟩ := by
  show Walker.all.foldl _ _ = _
  rw [Walker.all_eq, foldl_walk, Walk.addAll_eq, Nat.zero_add]

end PackLint.Upgrade
