import Mathlib.Data.List.Nodup
import PackLint.Proofs.Upgrade.Walker
import PackLint.Upgrade.Findings

/-! # Findings of the upgrade, resource by resource

    Behind the findings about its format, the findings in a pack are the blocks of its
    resources.  A block depends on its resource alone, and its place among the other
    blocks on where the resource stands, so a change to some resources of a kind does
    not touch the findings in others. -/

namespace PackLint.Upgrade

/-! ## Selecting findings -/

/-- An element of a list without duplicates is kept once, if it is kept. -/
theorem filter_filter_beq {α : Type} [BEq α] [LawfulBEq α] {xs : List α} (hnodup : xs.Nodup)
    {a : α} (ha : a ∈ xs) (p : α → Bool) :
    (xs.filter p).filter (· == a) = if p a then [a] else [] := by
  rw [List.filter_beq]
  by_cases hp : p a = true
  · rw [if_pos hp, List.count_filter hp, List.count_eq_one_of_mem hnodup ha]
    rfl
  · rw [if_neg hp, List.count_eq_zero.mpr fun h => hp (List.mem_filter.mp h).2]
    rfl

/-- Values of which nothing is said may be left out. -/
theorem flatMap_filter_of_nil {α β : Type} {p : α → Bool} {f : α → List β} {l : List α}
    (h : ∀ a ∈ l, p a = false → f a = []) : (l.filter p).flatMap f = l.flatMap f := by
  induction l with
  | nil => rfl
  | cons a l ih =>
      obtain ⟨ha, hl⟩ := List.forall_mem_cons.mp h
      rw [List.filter_cons, List.flatMap_cons, ← ih hl]
      cases hp : p a with
      | true => rw [if_pos rfl, List.flatMap_cons]
      | false => rw [if_neg Bool.false_ne_true, ha hp, List.nil_append]

/-- What is listed for some elements only is listed for those that were filtered. -/
theorem flatMap_ite_nil {α β : Type} (p : α → Bool) (f : α → List β) (xs : List α) :
    (xs.flatMap fun x => if p x then f x else []) = (xs.filter p).flatMap f := by
  have hnil : ∀ x ∈ xs, p x = false → (if p x then f x else []) = [] := by
    intro x _ hx
    rw [hx]
    rfl
  rw [← flatMap_filter_of_nil hnil]
  apply List.flatMap_congr
  intro x hx
  rw [if_pos (List.mem_filter.mp hx).2]

/-- The same where there is one result for each element. -/
theorem flatMap_ite_singleton {α β : Type} (p : α → Bool) (f : α → β) (xs : List α) :
    (xs.flatMap fun x => if p x then [f x] else []) = (xs.filter p).map f := by
  rw [flatMap_ite_nil p (fun x => [f x]), List.map_eq_flatMap]

/-! ## The findings of a run -/

/-- With a format, a run adds what is said about it and what the walk finds. -/
theorem run_findings_of_format? {pack : Pack} {format : Int}
    (h : format? pack.metadata = some format) (report : Report) :
    (run pack report).findings
      = report.findings ++ formatFindings format
        ++ (visits Kind.all pack.namespaces).flatMap resourceFindings := by
  simp only [run, h, walkAll_eq]
  rfl

/-- A run adds the same to every report, and does not look at what is in it. -/
theorem run_eq_append (pack : Pack) (report : Report) :
    run pack report = report.append (run pack .empty).findings := by
  cases h : format? pack.metadata with
  | none =>
      simp only [run, h]
      exact (congrArg Report.mk (List.append_nil report.findings)).symm
  | some format =>
      have hfindings : (run pack report).findings
          = report.findings ++ (run pack .empty).findings := by
        rw [run_findings_of_format? h, run_findings_of_format? h, List.append_assoc]
        rfl
      exact congrArg Report.mk hfindings

/-- Resources of one kind that stand behind each other have their blocks behind each
    other, and what stands in front of and behind these blocks is the same for all
    resources of this kind. -/
theorem exists_run_findings_insert {metadata : Json} {format : Int}
    (h : format? metadata = some format) (report : Report) (before after : List Namespace)
    (owner : String) (a b : List Resource) (kind : Kind) :
    ∃ front back, ∀ rs : List Resource, (∀ r ∈ rs, r.kind = kind) →
      (run ⟨metadata, before ++ ⟨owner, a ++ rs ++ b⟩ :: after⟩ report).findings
        = front ++ rs.flatMap resourceFindings ++ back := by
  obtain ⟨front, back, hvisits⟩ := exists_visits_insert before after owner a b kind
  refine ⟨report.findings ++ formatFindings format ++ front.flatMap resourceFindings,
    back.flatMap resourceFindings, ?_⟩
  intro rs hrs
  rw [run_findings_of_format? h, hvisits rs hrs]
  simp only [List.flatMap_append, List.append_assoc]

/-- **The findings in a pack are a local, ordered composition.**  Behind those about the
    format stand, kind by kind, namespace by namespace and resource by resource, the
    blocks of the resources.  Every resource has its turn exactly once.  To put in, to
    take out or to replace resources of one kind changes their blocks and nothing else.
    There is one walker for each kind, which adds the blocks of this kind to any report
    and counts what it adds. -/
theorem run_composes {pack : Pack} {format : Int} (h : format? pack.metadata = some format)
    (report : Report) :
    (run pack report).findings
        = report.findings ++ formatFindings format
          ++ (Kind.all.flatMap fun kind => pack.namespaces.flatMap fun ns =>
            (ns.ofKind kind).flatMap resourceFindings)
      ∧ (Kind.all.flatMap fun kind => pack.namespaces.flatMap fun ns => ns.ofKind kind).Perm
          (pack.namespaces.flatMap (·.resources))
      ∧ (∀ (before after : List Namespace) (owner : String) (a b : List Resource) (kind : Kind),
          ∃ front back, ∀ rs : List Resource, (∀ r ∈ rs, r.kind = kind) →
            (run ⟨pack.metadata, before ++ ⟨owner, a ++ rs ++ b⟩ :: after⟩ report).findings
              = front ++ rs.flatMap resourceFindings ++ back)
      ∧ Walker.all.map Walker.kind = Kind.all
      ∧ ∀ walker ∈ Walker.all, ∀ start : Report,
          let fs := pack.namespaces.flatMap fun ns =>
            (ns.ofKind walker.kind).flatMap resourceFindings
          walker.walk pack.namespaces start = ⟨start.append fs, fs.length⟩ := by
  refine ⟨?_, perm_visits pack.namespaces, ?_, rfl, ?_⟩
  · rw [run_findings_of_format? h, visits, List.flatMap_assoc]
    simp only [List.flatMap_assoc]
  · exact exists_run_findings_insert h report
  · intro walker hwalker start
    rw [Walker.all_eq] at hwalker
    obtain ⟨kind, _, rfl⟩ := List.mem_map.mp hwalker
    rw [Walker.kind_ofKind]
    exact Walker.walk_ofKind kind pack.namespaces start

/-- A function has its turn before the recipe that is listed in front of it. -/
theorem run_composes_recipe_and_function :
    let recipe : Resource := .document .recipe ⟨"m:r", "\"grass_path\"", .str "grass_path"⟩
    let function : Resource := .function (Function.ofText "m:f" "say grass_path")
    let metadata : Json := .obj [("pack", .obj [("pack_format", .int 6)])]
    format? metadata = some 6
      ∧ (resourceFindings recipe).length = 1
      ∧ (run ⟨metadata, [⟨"m", [recipe, function]⟩]⟩ .empty).findings
        = formatFindings 6 ++ resourceFindings function ++ resourceFindings recipe := by
  intro recipe function metadata
  have hformat : format? metadata = some 6 := by
    decide
  have hvisits : visits Kind.all [⟨"m", [recipe, function]⟩] = [function, recipe] := rfl
  refine ⟨hformat, by decide +kernel, ?_⟩
  rw [(run_composes (show format? (Pack.mk metadata [⟨"m", [recipe, function]⟩]).metadata
    = some 6 from hformat) .empty).1]
  simp only [← List.flatMap_assoc]
  rw [← visits, hvisits, List.flatMap_cons, List.flatMap_singleton, List.append_assoc]
  rfl

end PackLint.Upgrade
