import PackLint.Proofs.Upgrade.Trace

/-! # The format of a pack

    Metadata without a format keep a run from looking into the pack at all.  A format,
    whatever it is, lets the run look into it, and decides only what is said about the
    format itself: the walk through the resources is the same for all formats. -/

namespace PackLint.Upgrade

/-! ## Formats -/

/-- The metadata are an object with an object under `pack`, and this has the format, an
    integer of 64 bits, under `pack_format`. -/
def HasFormat (metadata : Json) (format : Int) : Prop :=
  ∃ members described, metadata = .obj members ∧ members.lookup "pack" = some (.obj described)
    ∧ described.lookup "pack_format" = some (.int format)
    ∧ -0x8000000000000000 ≤ format ∧ format < 0x8000000000000000

/-- The format that is read is the one that the metadata have. -/
theorem format?_eq_some_iff {metadata : Json} {format : Int} :
    format? metadata = some format ↔ HasFormat metadata format := by
  constructor
  · intro h
    obtain ⟨v, hv, hformat⟩ := Option.bind_eq_some_iff.mp h
    obtain ⟨hmember, hobject⟩ := Option.filter_eq_some_iff.mp hv
    obtain ⟨w, hw, hint⟩ := Option.bind_eq_some_iff.mp hformat
    obtain ⟨rfl, hrange⟩ := Json.int64?_eq_some_iff.mp hint
    cases metadata with
    | obj members =>
        cases v with
        | obj described => exact ⟨members, described, rfl, hmember, hw, hrange⟩
        | _ => exact nomatch hobject
    | _ => exact nomatch hmember
  · rintro ⟨members, described, rfl, hmember, hformat, hrange⟩
    have hobject : (Json.obj members).object? "pack" = some (.obj described) :=
      Option.filter_eq_some_iff.mpr ⟨hmember, rfl⟩
    have hinteger : (Json.obj described).integer? "pack_format" = some format :=
      Option.bind_eq_some_iff.mpr ⟨_, hformat, Json.int64?_eq_some_iff.mpr ⟨rfl, hrange⟩⟩
    rw [format?, hobject, Option.bind_some, hinteger]

theorem format?_eq_none_iff {metadata : Json} :
    format? metadata = none ↔ ∀ format, ¬HasFormat metadata format := by
  rw [Option.eq_none_iff_forall_ne_some]
  exact forall_congr' fun format => not_congr format?_eq_some_iff

/-! ## What is said about a format -/

/-- The finding about every format but that of 1.17. -/
def outdatedFormat : Finding :=
  .error .pack
    "The data pack format must be set to 7 in order to be compatible with Minecraft 1.17."

/-- The finding about a format that is too old to be upgraded. -/
def unsupportedFormat (format : Int) : Finding :=
  .error .pack ("This rule does not support data pack format " ++ toString format
    ++ ". Consider updating it to be compatible with format 6 first.")

/-- The finding about a format that is newer than 1.17. -/
def newerFormat (format : Int) : Finding :=
  .error .pack ("The specified data pack is made for a newer format (" ++ toString format
    ++ ") and should not be used with this rule.")

/-- What is found about a format. -/
inductive FormatReport : Int → List Finding → Prop
  | older {format : Int} (h : format < 6) :
      FormatReport format [unsupportedFormat format, outdatedFormat]
  | previous : FormatReport 6 [outdatedFormat]
  | target : FormatReport 7 []
  | newer {format : Int} (h : 7 < format) :
      FormatReport format [newerFormat format, outdatedFormat]

/-- What is said about a format follows the four cases. -/
theorem formatReport_formatFindings (format : Int) :
    FormatReport format (formatFindings format) := by
  rcases Int.lt_or_le format 6 with h | h
  · have hne : format ≠ 7 := by omega
    have hmessage : "This rule does not support data pack format " ++ toString format
        ++ ". Consider updating it to be compatible with format " ++ toString oldestFormat
        ++ " first." = (unsupportedFormat format).message := by
      rw [String.append_assoc, String.append_assoc]
      rfl
    rw [formatFindings, hmessage, if_pos (show format < oldestFormat from h), targetFormat,
      if_neg hne]
    exact .older h
  · rcases Int.lt_or_le 7 format with h' | h'
    · have hne : format ≠ 7 := by omega
      rw [formatFindings, oldestFormat, targetFormat, if_neg (Int.not_lt.mpr h),
        if_pos h', if_neg hne]
      exact .newer h'
    · obtain rfl | rfl : format = 6 ∨ format = 7 := by omega
      · exact .previous
      · exact .target

/-- What is said about a format is said about the pack. -/
theorem FormatReport.location_eq {format : Int} {fs : List Finding}
    (h : FormatReport format fs) {f : Finding} (hf : f ∈ fs) : f.location = .pack := by
  cases h with
  | older | newer =>
      simp only [List.mem_cons, List.not_mem_nil, or_false] at hf
      rcases hf with rfl | rfl <;> rfl
  | previous =>
      obtain rfl := List.mem_singleton.mp hf
      rfl
  | target => exact absurd hf List.not_mem_nil

/-! ## What is found in the resources -/

/-- What is found in a resource points to it. -/
theorem resource?_of_mem_resourceFindings {r : Resource} {f : Finding}
    (h : f ∈ resourceFindings r) : f.location.resource? = some ⟨r.kind, r.id⟩ := by
  cases r with
  | function g =>
      obtain ⟨c, _, h⟩ := List.mem_flatMap.mp h
      obtain ⟨issue, _, rfl⟩ := List.mem_map.mp h
      rfl
  | document kind d =>
      rcases List.mem_append.mp h with h | h
      · rw [valueFindings_valueChecks] at h
        obtain ⟨v, _, h⟩ := List.mem_flatMap.mp h
        obtain ⟨name, _, rfl⟩ := List.mem_map.mp h
        rfl
      · obtain ⟨issue, _, rfl⟩ := List.mem_map.mp h
        rfl
  | tag kind d =>
      obtain ⟨entry, _, h⟩ := List.mem_flatMap.mp h
      obtain ⟨issue, _, rfl⟩ := List.mem_map.mp h
      rfl

/-- Nothing that is found on the walk is about the pack as a whole. -/
theorem location_ne_pack_of_mem_visits {namespaces : List Namespace} {f : Finding}
    (h : f ∈ (visits Kind.all namespaces).flatMap resourceFindings) : f.location ≠ .pack := by
  obtain ⟨r, _, hf⟩ := List.mem_flatMap.mp h
  intro hpack
  have hresource := resource?_of_mem_resourceFindings hf
  rw [hpack] at hresource
  exact Option.some_ne_none _ hresource.symm

/-- **The format does not guide the walk.**  For some namespaces there is one list of
    findings, none of them about the pack as a whole, that every run with these namespaces
    reports if the metadata have a format: behind what is found about this format, whatever
    else the metadata say.  Without a format nothing is reported. -/
theorem run_gate (namespaces : List Namespace) :
    ∃ walked : List Finding, (∀ f ∈ walked, f.location ≠ .pack)
      ∧ ∀ (metadata : Json) (report : Report),
        ((∀ format, ¬HasFormat metadata format) → run ⟨metadata, namespaces⟩ report = report)
        ∧ ∀ format, HasFormat metadata format →
          ∃ gate, FormatReport format gate ∧ (∀ f ∈ gate, f.location = .pack)
            ∧ (run ⟨metadata, namespaces⟩ report).findings
              = report.findings ++ gate ++ walked := by
  refine ⟨(visits Kind.all namespaces).flatMap resourceFindings,
    fun f hf => location_ne_pack_of_mem_visits hf, ?_⟩
  intro metadata report
  constructor
  · intro hnone
    rw [run, format?_eq_none_iff.mpr hnone]
  · intro format hformat
    have hreport := formatReport_formatFindings format
    have hsome : format? (Pack.mk metadata namespaces).metadata = some format :=
      format?_eq_some_iff.mpr hformat
    exact ⟨formatFindings format, hreport, fun f hf => hreport.location_eq hf,
      run_findings_of_format? hsome report⟩

/-- Two packs with the same function, one for a format that is too old and one for a format
    that is too new.  The command that was removed is found in both. -/
theorem run_gate_old_and_new :
    let namespaces : List Namespace := [⟨"m", [.function (Function.ofText "m:f" "replaceitem")]⟩]
    let old : Json := .obj [("pack", .obj [("pack_format", .int (-1))])]
    let new : Json := .obj [("pack", .obj [("description", .null), ("pack_format", .int 8)])]
    let large : Json := .obj [("pack", .obj [("pack_format", .int 0x8000000000000000)])]
    let walked : List Finding := [.error (.command ⟨.function, "m:f"⟩ 1 "replaceitem")
      "The command /replaceitem has been removed. Use /item replace instead."]
    (run ⟨old, namespaces⟩ .empty).findings = [unsupportedFormat (-1), outdatedFormat] ++ walked
      ∧ (run ⟨new, namespaces⟩ .empty).findings = [newerFormat 8, outdatedFormat] ++ walked
      ∧ (∀ f ∈ walked, f.location ≠ .pack)
      ∧ run ⟨large, namespaces⟩ .empty = .empty := by
  intro namespaces old new large walked
  obtain ⟨found, hfound, hruns⟩ := run_gate namespaces
  have hold : HasFormat old (-1) := ⟨_, _, rfl, rfl, rfl, by decide, by decide⟩
  have hnew : HasFormat new 8 := ⟨_, _, rfl, rfl, rfl, by decide, by decide⟩
  have htarget : HasFormat (.obj [("pack", .obj [("pack_format", .int 7)])]) 7 :=
    ⟨_, _, rfl, rfl, rfl, by decide, by decide⟩
  have hlarge : ∀ format, ¬HasFormat large format := format?_eq_none_iff.mp (by decide)
  -- with the format of 1.17 nothing stands in front of what the walk finds
  have hwalked : walked = found := by
    obtain ⟨gate, hgate, -, hfindings⟩ := (hruns _ .empty).2 7 htarget
    cases hgate with
    | older h => exact absurd h (by decide)
    | newer h => exact absurd h (by decide)
    | target =>
        refine Eq.trans ?_ hfindings
        decide +kernel
  rw [hwalked]
  obtain ⟨gate, hgate, -, hfindings⟩ := (hruns old .empty).2 (-1) hold
  obtain ⟨gate', hgate', -, hfindings'⟩ := (hruns new .empty).2 8 hnew
  refine ⟨?_, ?_, hfound, (hruns large .empty).1 hlarge⟩
  · cases hgate with
    | older => exact hfindings
    | newer h => exact absurd h (by decide)
  · cases hgate' with
    | older h => exact absurd h (by decide)
    | newer => exact hfindings'

end PackLint.Upgrade
