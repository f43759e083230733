import PackLint.Proofs.Pack.Shelves
import PackLint.Proofs.Upgrade.Gate

/-! # Findings in what is added

    A walker reads one list of a namespace, the one of its kind.  Hence what is added to
    this list is found by this walker and by no other, and all that was found without it
    is found as before. -/

namespace PackLint.Upgrade

/-- A walker reads the list of its kind. -/
theorem Walker.visit_eq_of_ofKind_eq {walker : Walker} {ns other : Namespace}
    (h : other.ofKind walker.kind = ns.ofKind walker.kind) (walk : Walk) :
    walker.visit walk other = walker.visit walk ns := by
  rw [← other.ofKind_shelves, ← ns.ofKind_shelves] at h
  cases walker with
  | functions commands texts =>
      have hfunctions : other.functions = ns.functions := Shelves.functions_eq_of_ofKind_eq h
      rw [visit, visit, hfunctions]
  | documents kind values texts =>
      have hdocuments := Shelves.documents_eq_of_ofKind_eq h
      rw [Walker.kind, other.documents_shelves, ns.documents_shelves] at hdocuments
      rw [visit, visit, hdocuments]
  | tags kind texts =>
      have htags := Shelves.tags_eq_of_ofKind_eq h
      rw [Walker.kind, other.tags_shelves, ns.tags_shelves] at htags
      rw [visit, visit, htags]

/-- A walker of another kind does not notice what was added. -/
theorem Walker.visit_add {walker : Walker} {a : Addition} (h : walker.kind ≠ a.kind) (walk : Walk)
    (ns : Namespace) : walker.visit walk (ns.add a) = walker.visit walk ns := by
  refine visit_eq_of_ofKind_eq ?_ walk
  rw [Namespace.ofKind_add, Addition.gain, if_neg h, List.append_nil]

/-- The findings in what an addition adds. -/
def additionFindings (a : Addition) : List Finding :=
  a.resource?.toList.flatMap resourceFindings

/-- What is found in an addition is about the resource that was added. -/
theorem resource?_of_mem_additionFindings {a : Addition} {f : Finding}
    (h : f ∈ additionFindings a) : f.location.resource? = some ⟨a.kind, a.id⟩ := by
  obtain ⟨r, hr, hf⟩ := List.mem_flatMap.mp h
  obtain ⟨hkind, hid⟩ := Resource.kind_and_id_of_ofText? (Option.mem_toList.mp hr)
  rw [resource?_of_mem_resourceFindings hf, hkind, hid]

/-- The findings in what is added are put among the others, which stay as they are. -/
theorem exists_run_findings_add {metadata : Json} {format : Int}
    (h : format? metadata = some format) (report : Report) (before after : List Namespace)
    (ns : Namespace) (a : Addition) :
    ∃ front back,
      (run ⟨metadata, before ++ ns :: after⟩ report).findings = front ++ back
      ∧ (run ⟨metadata, before ++ ns.add a :: after⟩ report).findings
          = front ++ additionFindings a ++ back := by
  obtain ⟨front, back, hinsert⟩ :=
    exists_run_findings_insert h report before after ns.name ns.resources [] a.kind
  refine ⟨front, back, ?_, ?_⟩
  · have hnone := hinsert [] fun r hr => absurd hr List.not_mem_nil
    simpa using hnone
  · have hadded := hinsert a.resource?.toList fun r => a.kind_of_mem_resource?
    rwa [List.append_nil, ← ns.add_eq] at hadded

/-- **An addition touches one list**, and the one that the walker of its kind reads.  A text
    that is none of its kind changes nothing; any other is put behind the list of its kind,
    and the name and the other lists stay as they are.  So after some additions each list
    holds those of its kind that are accepted, in their order.  The walkers of a namespace
    read these lists: those of other kinds see it as before, and the findings in what is
    added are put among the others. -/
theorem add_touches_one_list (s : Shelves) (a : Addition) :
    (a.kind ≠ .function → Json.ofText? a.text = none → s.add a = s)
      ∧ (a.kind = .function ∨ Json.ofText? a.text ≠ none →
          ∃ r, a.resource? = some r ∧ r.kind = a.kind ∧ r.id = a.id ∧ s.Gains r (s.add a))
      ∧ (∀ as : List Addition, (s.addAll as).owner = s.owner
          ∧ ∀ kind, (s.addAll as).ofKind kind
            = s.ofKind kind ++ (as.filter fun b => b.kind == kind).filterMap Addition.resource?)
      ∧ (∃ ns : Namespace, ns.shelves = s)
      ∧ ∀ ns : Namespace, ns.shelves = s →
          (ns.functions = s.functions
            ∧ (∀ kind, ns.documents kind = s.documents (.document kind))
            ∧ ∀ kind, ns.tags kind = s.tags (.tag kind))
          ∧ (∀ as : List Addition, (as.foldl Namespace.add ns).shelves = s.addAll as)
          ∧ (∀ walker : Walker, walker.kind ≠ a.kind → ∀ walk,
              walker.visit walk (ns.add a) = walker.visit walk ns)
          ∧ ∀ metadata format, format? metadata = some format → ∀ report before after,
              ∃ front back,
                (run ⟨metadata, before ++ ns :: after⟩ report).findings = front ++ back
                ∧ (run ⟨metadata, before ++ ns.add a :: after⟩ report).findings
                    = front ++ additionFindings a ++ back
                ∧ ∀ f ∈ additionFindings a, f.location.resource? = some ⟨a.kind, a.id⟩ := by
  refine ⟨?_, ?_, ?_, s.exists_namespace, ?_⟩
  · intro hkind htext
    exact Shelves.add_eq_self (Addition.resource?_eq_none_iff.mpr ⟨hkind, htext⟩) s
  · intro haccepted
    have hsome : a.resource? ≠ none := by
      intro hnone
      obtain ⟨hkind, htext⟩ := Addition.resource?_eq_none_iff.mp hnone
      exact haccepted.elim hkind fun h => h htext
    obtain ⟨r, hr⟩ := Option.ne_none_iff_exists'.mp hsome
    obtain ⟨hkind, hid⟩ := Resource.kind_and_id_of_ofText? hr
    exact ⟨r, hr, hkind, hid, Shelves.gains_add hr s⟩
  · intro as
    exact ⟨s.owner_addAll as, s.ofKind_addAll as⟩
  · rintro ns rfl
    refine ⟨⟨rfl, ?_, ?_⟩, ns.shelves_foldl_add, ?_, ?_⟩
    · intro kind
      exact (ns.documents_shelves kind).symm
    · intro kind
      exact (ns.tags_shelves kind).symm
    · intro walker hkind walk
      exact Walker.visit_add hkind walk ns
    · intro metadata format hformat report before after
      obtain ⟨front, back, hold, hnew⟩ := exists_run_findings_add hformat report before after ns a
      exact ⟨front, back, hold, hnew, fun f => resource?_of_mem_additionFindings⟩

/-- A recipe that is added to a function brings its finding, and the function stays. -/
theorem add_touches_one_list_recipe :
    let ns : Namespace := ⟨"m", [.function (Function.ofText "m:f" "say grass_path")]⟩
    let recipe : Addition := ⟨.document .recipe, "m:r", "\"grass_path\""⟩
    let metadata : Json := .obj [("pack", .obj [("pack_format", .int 6)])]
    format? metadata = some 6
      ∧ (additionFindings recipe).length = 1
      ∧ (ns.add recipe).shelves.functions = ns.shelves.functions
      ∧ ∃ front back,
          (run ⟨metadata, [ns]⟩ .empty).findings = front ++ back
          ∧ (run ⟨metadata, [ns.add recipe]⟩ .empty).findings
              = front ++ additionFindings recipe ++ back := by
  intro ns recipe metadata
  have hformat : format? metadata = some 6 := by
    decide
  have hfound : (additionFindings recipe).length = 1 := by
    decide +kernel
  obtain ⟨_, hgains, _, _, hspaces⟩ := add_touches_one_list ns.shelves recipe
  obtain ⟨_, hshelves, _, hfindings⟩ := hspaces ns rfl
  have haccepted : Json.ofText? recipe.text ≠ none := by
    decide +kernel
  obtain ⟨r, _, hkind, _, hgain⟩ := hgains (.inr haccepted)
  obtain ⟨front, back, hold, hnew, _⟩ := hfindings metadata 6 hformat .empty [] []
  refine ⟨hformat, hfound, ?_, front, back, hold, hnew⟩
  have hadd : (ns.add recipe).shelves = ns.shelves.add recipe := hshelves [recipe]
  rw [hadd]
  exact hgain.functions (by rw [hkind]; decide)

end PackLint.Upgrade
