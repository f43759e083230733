import PackLint.Proofs.Upgrade.Gate

/-! # Findings about one resource

    Of what a run finds in a pack, what points to a resource of some kind with some id is
    what is found in the resources of this kind that have this id, and no more.  Which other
    resources the pack holds plays no part in it. -/

namespace PackLint.Upgrade

/-- The finding points to this resource, or into it. -/
def isAbout (r : ResourceRef) (f : Finding) : Bool :=
  f.location.resource? == some r

/-- All that is found in a resource is about it, and nothing is about another one. -/
theorem filter_isAbout_resourceFindings (ref : ResourceRef) (r : Resource) :
    (resourceFindings r).filter (isAbout ref)
      = if r.kind == ref.kind && r.id == ref.id then resourceFindings r else [] := by
  have habout : ∀ f ∈ resourceFindings r,
      isAbout ref f = (r.kind == ref.kind && r.id == ref.id) := by
    intro f hf
    rw [isAbout, resource?_of_mem_resourceFindings hf, ← Bool.coe_iff_coe]
    simp only [beq_iff_eq, Option.some.injEq, Bool.and_eq_true]
    exact ⟨fun h => ⟨congrArg ResourceRef.kind h, congrArg ResourceRef.id h⟩,
      fun h => congrArg₂ ResourceRef.mk h.1 h.2⟩
  rw [List.filter_congr habout]
  cases r.kind == ref.kind && r.id == ref.id with
  | true => exact List.filter_true _
  | false => exact List.filter_false _

/-- What is said about the format is about no resource. -/
theorem filter_isAbout_formatFindings (ref : ResourceRef) (format : Int) :
    (formatFindings format).filter (isAbout ref) = [] := by
  refine List.filter_eq_nil_iff.mpr ?_
  intro f hf habout
  have hpack := (formatReport_formatFindings format).location_eq hf
  rw [isAbout, hpack] at habout
  exact Bool.false_ne_true habout

/-- What a run finds about a resource. -/
theorem filter_isAbout_run {pack : Pack} {format : Int} (h : format? pack.metadata = some format)
    (report : Report) (ref : ResourceRef) :
    (run pack report).findings.filter (isAbout ref)
      = report.findings.filter (isAbout ref)
        ++ (pack.namespaces.flatMap fun ns =>
            (ns.ofKind ref.kind).filter fun r => r.id == ref.id).flatMap resourceFindings := by
  have hvisits : ((visits Kind.all pack.namespaces).flatMap resourceFindings).filter (isAbout ref)
      = (pack.namespaces.flatMap fun ns =>
          (ns.ofKind ref.kind).filter fun r => r.id == ref.id).flatMap resourceFindings := by
    rw [List.filter_flatMap]
    simp only [filter_isAbout_resourceFindings]
    rw [flatMap_ite_nil, ← List.filter_flatMap, ← filter_visits, List.filter_filter]
    simp only [Bool.and_comm]
  rw [run_findings_of_format? h, List.filter_append, List.filter_append,
    filter_isAbout_formatFindings, List.append_nil, hvisits]

end PackLint.Upgrade
