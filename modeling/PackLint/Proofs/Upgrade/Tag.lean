import PackLint.Proofs.Resource.Tag
import PackLint.Proofs.Text.WordAt
import PackLint.Proofs.Upgrade.About

/-! # Findings in tags

    The entries of a tag are checked one by one.  An entry with a renamed id is reported
    with the entry as its value, as often as the tag has it, and what else is among the
    values of the tag, whatever its shape, makes no difference to it. -/

namespace PackLint.Upgrade

open Text

/-- The finding that this entry of the tag with this id names what was renamed. -/
def renamedEntryFinding (kind : TagKind) (id entry : String) : Finding :=
  ⟨.error, "The id grass_path has been renamed to dirt_path.", .resource ⟨.tag kind, id⟩,
    some entry⟩

/-- The entry has the renamed id as a word. -/
def NamesGrassPath (entry : String) : Prop :=
  ∃ place, WordAt "grass_path".toList place entry.toList

instance : DecidablePred NamesGrassPath := fun entry =>
  inferInstanceAs (Decidable (∃ place, WordAt "grass_path".toList place entry.toList))

/-- The only renamed id is the one of grass paths. -/
theorem idIssues_eq_ite (text : String) :
    idIssues text = if NamesGrassPath text then [.renamedId "grass_path" "dirt_path"] else [] := by
  by_cases h : NamesGrassPath text
  · have hword := hasWord_eq_true_iff.mpr h
    simp only [idIssues, renamedIds, List.filter_cons, hword, if_pos h]
    rfl
  · have hword := Bool.eq_false_iff.mpr (mt hasWord_eq_true_iff.mp h)
    simp only [idIssues, renamedIds, List.filter_cons, hword, if_neg h]
    rfl

/-- In a tag each entry that names a grass path is reported, in order. -/
theorem tagFindings_eq_map (kind : TagKind) (id : String) (entries : List String) :
    tagFindings kind idChecks id entries
      = (entries.filter fun entry => NamesGrassPath entry).map (renamedEntryFinding kind id) := by
  rw [← flatMap_ite_singleton, tagFindings]
  apply List.flatMap_congr
  intro entry _
  rw [idChecks, List.flatMap_singleton, idIssues_eq_ite]
  by_cases h : NamesGrassPath entry
  · rw [if_pos h, if_pos (decide_eq_true h)]
    rfl
  · rw [if_neg h, if_neg (by simpa using h)]
    rfl

/-- The tags of a kind with an id, among the resources of this kind with this id. -/
theorem map_filter_tags (ns : Namespace) (kind : TagKind) (id : String) :
    ((ns.tags kind).filter fun d => d.id == id).map (Resource.tag kind)
      = (ns.ofKind (.tag kind)).filter fun r => r.id == id := by
  rw [← ns.map_tags, List.filter_map]
  rfl

/-- **Malformed entries of tags are isolated.**  The entries of a tag are the ids that the
    values in its list name, in their order and as often as they are named there; content
    that is no list of values in one of the two forms has none.  The entries of two lists
    behind each other are those of the one and then those of the other, and a value that
    names no id may be put in anywhere.  What a run finds about the tags of a kind with an
    id are their entries that have the renamed id as a word, one by one. -/
theorem run_isolates_tagEntries {pack : Pack} {format : Int}
    (hformat : format? pack.metadata = some format) (report : Report) :
    (∀ d : Document,
        (∀ values, HasValues d.content values → Entries values d.tagEntries)
          ∧ ((∀ values, ¬HasValues d.content values) → d.tagEntries = []))
      ∧ (∀ (d d₁ d₂ : Document) (xs ys : List Json), HasValues d.content (xs ++ ys) →
          HasValues d₁.content xs → HasValues d₂.content ys →
          d.tagEntries = d₁.tagEntries ++ d₂.tagEntries)
      ∧ (∀ (d d' : Document) (xs ys : List Json) (v : Json), (∀ id, ¬NamesId v id) →
          HasValues d.content (xs ++ ys) → HasValues d'.content (xs ++ v :: ys) →
          d'.tagEntries = d.tagEntries)
      ∧ ∀ (kind : TagKind) (id : String),
        (run pack report).findings.filter (isAbout ⟨.tag kind, id⟩)
          = report.findings.filter (isAbout ⟨.tag kind, id⟩)
            ++ (pack.namespaces.flatMap fun ns =>
                (ns.tags kind).filter fun d => d.id == id).flatMap fun d =>
              (d.tagEntries.filter fun entry => NamesGrassPath entry).map
                (renamedEntryFinding kind id) := by
  refine ⟨?_, ?_, ?_, ?_⟩
  · intro d
    refine ⟨?_, fun h => Document.tagEntries_eq_nil h⟩
    intro values h
    rw [Document.tagEntries_of_hasValues h]
    exact Document.entries_filterMap values
  · intro d d₁ d₂ xs ys h h₁ h₂
    exact Document.tagEntries_append h h₁ h₂
  · intro d d' xs ys v hv h h'
    exact Document.tagEntries_insert hv h h'
  · intro kind id
    rw [filter_isAbout_run hformat]
    simp only [← map_filter_tags]
    rw [← List.map_flatMap, List.flatMap_map]
    refine congrArg _ (List.flatMap_congr ?_)
    intro d hd
    obtain ⟨ns, -, hd⟩ := List.mem_flatMap.mp hd
    obtain rfl : d.id = id := beq_iff_eq.mp (List.mem_filter.mp hd).2
    exact tagFindings_eq_map kind d.id d.tagEntries

/-- An object without an id stands behind the first entry, and an array is put in there. -/
theorem run_isolates_tagEntries_of_mixed :
    let listing : List Json → Document := fun values => ⟨"m:t", "", .obj [("values", .arr values)]⟩
    let xs : List Json := [.str "minecraft:grass_path", .obj [("required", .bool false)]]
    let ys : List Json := [.obj [("id", .str "grass_path"), ("required", .null)], .str "grass"]
    let metadata : Json := .obj [("pack", .obj [("pack_format", .int 7)])]
    let pack : Pack := ⟨metadata, [⟨"m", [.tag .block (listing (xs ++ ys))]⟩]⟩
    format? metadata = some 7
      ∧ Entries (xs ++ ys) (listing (xs ++ ys)).tagEntries
      ∧ (listing (xs ++ ys)).tagEntries = (listing xs).tagEntries ++ (listing ys).tagEntries
      ∧ (listing (xs ++ .arr [.str "grass_path"] :: ys)).tagEntries
        = (listing (xs ++ ys)).tagEntries
      ∧ (Document.mk "m:t" "" (.str "grass_path")).tagEntries = []
      ∧ (run pack .empty).findings.filter (isAbout ⟨.tag .block, "m:t"⟩)
        = [renamedEntryFinding .block "m:t" "minecraft:grass_path",
          renamedEntryFinding .block "m:t" "grass_path"] := by
  intro listing xs ys metadata pack
  have hformat : format? pack.metadata = some 7 := rfl
  have hlisting : ∀ values, HasValues (listing values).content values := fun _ => .object rfl
  obtain ⟨hentries, happend, hinsert, hfindings⟩ := run_isolates_tagEntries hformat .empty
  refine ⟨hformat, (hentries _).1 _ (hlisting _),
    happend _ _ _ xs ys (hlisting _) (hlisting xs) (hlisting ys), ?_, ?_, ?_⟩
  · refine hinsert _ _ xs ys _ ?_ (hlisting _) (hlisting _)
    intro id hid
    cases hid
  · refine (hentries _).2 ?_
    intro values hvalues
    cases hvalues
  · rw [hfindings]
    decide +kernel

end PackLint.Upgrade
