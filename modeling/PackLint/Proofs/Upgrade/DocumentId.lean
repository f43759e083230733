import PackLint.Proofs.Json.Strings
import PackLint.Proofs.Json.Words
import PackLint.Proofs.Upgrade.RenamedId

/-! # Renamed ids in documents

    The check for renamed ids looks at the text of a document as a whole.  It finds an id
    where one of the strings of the content has it, be it a value or the name of a member,
    unless a control character stands in front. -/

namespace PackLint.Upgrade

open Json Text

theorem isLiteral_of_mem_renamedIds {r : String × String} (hr : r ∈ renamedIds) :
    IsLiteral r.1.toList := by
  have hall : ∀ r ∈ renamedIds, (r.1.toList.all fun c => escapeChar c == [c]) = true
      ∧ (r.1.toList.head?.any fun c => !(mayBegin c || isCode c)) = true := by
    decide
  obtain ⟨hescape, hhead⟩ := hall r hr
  obtain ⟨c, hc, hbegin⟩ := Option.any_eq_true _ _ |>.mp hhead
  obtain ⟨cs, hcs⟩ := List.head?_eq_some_iff.mp hc
  rw [Bool.not_eq_true', Bool.or_eq_false_iff] at hbegin
  exact
    { escapeChar_eq := fun c hc => beq_iff_eq.mp (List.all_eq_true.mp hescape c hc)
      exists_head := ⟨c, cs, hcs, hbegin⟩ }

/-- However a value is laid out, an id is found in its text if one of its strings shows it. -/
theorem mem_idIssues_layOut_iff {r : String × String} (hr : r ∈ renamedIds) (v : Json)
    (gaps : Gaps) :
    .renamedId r.1 r.2 ∈ idIssues (String.ofList (layOut gaps v.tokens))
      ↔ ∃ s, v.HasString s ∧ ShowsWord r.1.toList s.toList := by
  rw [mem_idIssues_iff hr, String.toList_ofList, hasWord_layOut_iff (isLiteral_of_mem_renamedIds hr)]
  simp only [str_mem_tokens_iff]

/-- **The check for renamed ids agrees with the values, but for control characters.**  In the
    text of a document with some content the check finds `grass_path` exactly if a string of
    the content or the name of a member has it, with no word character on either side and no
    control character in front.  Without control characters in the strings and the names that
    is where the check finds it in one of them by itself. -/
theorem idIssues_ofContent (id : String) (v : Json) :
    (.renamedId "grass_path" "dirt_path" ∈ idIssues (Document.ofContent id v).raw
        ↔ ∃ s, v.HasString s ∧ ∃ front back, s.toList = front ++ ("grass_path".toList ++ back)
          ∧ (∀ c ∈ front.getLast?, isWord c = false ∧ 0x20 ≤ c.toNat)
          ∧ ∀ c ∈ back.head?, isWord c = false)
      ∧ ((∀ s, v.HasString s → ∀ c ∈ s.toList, 0x20 ≤ c.toNat) →
        (.renamedId "grass_path" "dirt_path" ∈ idIssues (Document.ofContent id v).raw
          ↔ ∃ s, v.HasString s ∧ .renamedId "grass_path" "dirt_path" ∈ idIssues s)) := by
  have hr : ("grass_path", "dirt_path") ∈ renamedIds := List.mem_cons_self
  have htext := mem_idIssues_layOut_iff hr v .none
  rw [layOut_none_tokens id v, String.ofList_toList] at htext
  refine ⟨htext, ?_⟩
  intro hprints
  rw [htext]
  refine exists_congr fun s => and_congr_right ?_
  intro hs
  rw [mem_idIssues_iff hr, showsWord_iff_hasWord (hprints s hs)]

/-- The id is the name of a member in quotes, which are written with backslashes. -/
theorem idIssues_ofContent_of_quoted :
    let v : Json := .arr [.obj [("\"grass_path\"", .str "\\grass_paths")]]
    (∀ s, v.HasString s → ∀ c ∈ s.toList, 0x20 ≤ c.toNat)
      ∧ .renamedId "grass_path" "dirt_path" ∈ idIssues "\"grass_path\""
      ∧ .renamedId "grass_path" "dirt_path" ∈ idIssues (Document.ofContent "m:r" v).raw := by
  intro v
  have hstrings : ∀ s, v.HasString s ↔ s = "\"grass_path\"" ∨ s = "\\grass_paths" := by
    intro s
    simp only [v, hasString_arr_iff, hasString_obj_iff, hasString_str_iff, List.mem_singleton,
      exists_eq_left, eq_comm (b := s)]
  have hprints : ∀ s, v.HasString s → ∀ c ∈ s.toList, 0x20 ≤ c.toNat := by
    intro s hs
    have hall : (s.toList.all fun c => decide (0x20 ≤ c.toNat)) = true := by
      rcases (hstrings s).mp hs with rfl | rfl <;> decide
    intro c hc
    exact of_decide_eq_true (List.all_eq_true.mp hall c hc)
  have hname : .renamedId "grass_path" "dirt_path" ∈ idIssues "\"grass_path\"" := by
    decide +kernel
  exact ⟨hprints, hname,
    ((idIssues_ofContent "m:r" v).2 hprints).mpr ⟨_, (hstrings _).mpr (.inl rfl), hname⟩⟩

-- a line feed is written with a letter at its end
example :
    idIssues "\ngrass_path" = [.renamedId "grass_path" "dirt_path"]
      ∧ idIssues (Document.ofContent "m:r" (.str "\ngrass_path")).raw = [] := by
  decide +kernel

end PackLint.Upgrade
