import Mathlib.Data.List.Nodup
import PackLint.CommandLine.Run
import PackLint.Proofs.Json.ReadBack

/-! # What a JSON report says

    A finding can be read off its JSON object: the names of severities, of kinds and of the
    forms of a location tell them apart, a location has its resource in itself or in a
    member of its own, and only a finding with a value has a member for it.  Hence a report
    that is printed as JSON tells which findings it holds. -/

namespace PackLint

open Json

/-! ## Findings as objects -/

/-- Kinds are told apart by their names in a report. -/
theorem Kind.reportName_injective : Function.Injective Kind.reportName := by
  have hnodup : (all.map reportName).Nodup := by
    decide
  intro k l h
  exact List.inj_on_of_nodup_map hnodup (mem_all k) (mem_all l) h

/-- Severities are told apart by their names. -/
theorem Severity.name_injective : Function.Injective Severity.name := by
  intro s t h
  cases s <;> cases t <;> first | rfl | exact absurd h (by decide)

/-- A resource is determined by its members in a report. -/
theorem ResourceRef.members_injective : Function.Injective ResourceRef.members := by
  rintro ⟨kind, id⟩ ⟨other, name⟩ h
  simp only [members, List.cons.injEq, Prod.mk.injEq, true_and, Json.str.injEq, and_true] at h
  obtain ⟨hkind, rfl⟩ := h
  rw [Kind.reportName_injective hkind]

/-- The name that the form of a location has in a report. -/
def Location.formName : Location → String
  | pack => "pack"
  | resource _ => "resource"
  | node _ _ => "json_node"
  | command _ _ _ => "command"

/-- The form of a location is the first member of its object. -/
theorem Location.exists_json_eq (l : Location) :
    ∃ members, l.json = .obj (("type", .str l.formName) :: members) := by
  cases l <;> exact ⟨_, rfl⟩

/-- A location is determined by its object. -/
theorem Location.json_injective : Function.Injective Location.json := by
  intro l m h
  have hform : l.formName = m.formName := by
    obtain ⟨ls, hl⟩ := l.exists_json_eq
    obtain ⟨ms, hm⟩ := m.exists_json_eq
    rw [hl, hm] at h
    simpa using (List.cons.inj (Json.obj.inj h)).1
  cases l with
  | pack =>
      cases m with
      | pack => rfl
      | _ => simp [formName] at hform
  | resource r =>
      cases m with
      | resource s =>
          have hmembers : r.members = s.members := (List.cons.inj (Json.obj.inj h)).2
          rw [ResourceRef.members_injective hmembers]
      | _ => simp [formName] at hform
  | node r pointer =>
      cases m with
      | node s other =>
          simp only [Location.json, Json.obj.injEq, List.cons.injEq, Prod.mk.injEq, true_and,
            Json.str.injEq, and_true] at h
          obtain ⟨hmembers, rfl⟩ := h
          rw [ResourceRef.members_injective hmembers]
      | _ => simp [formName] at hform
  | command r line raw =>
      cases m with
      | command s place text =>
          simp only [Location.json, Json.obj.injEq, List.cons.injEq, Prod.mk.injEq, true_and,
            Json.str.injEq, Json.int.injEq, Int.natCast_inj, and_true] at h
          obtain ⟨hmembers, rfl, rfl⟩ := h
          rw [ResourceRef.members_injective hmembers]
      | _ => simp [formName] at hform

/-- A finding is determined by its object. -/
theorem Finding.json_injective : Function.Injective Finding.json := by
  rintro ⟨severity, message, location, value⟩ ⟨severity', message', location', value'⟩ h
  simp only [Finding.json, Json.obj.injEq, List.cons_append, List.nil_append, List.cons.injEq,
    Prod.mk.injEq, true_and, Json.str.injEq] at h
  obtain ⟨hseverity, rfl, hlocation, hvalue⟩ := h
  obtain rfl := Severity.name_injective hseverity
  obtain rfl := Location.json_injective hlocation
  cases value with
  | none =>
      cases value' with
      | none => rfl
      | some w => simp at hvalue
  | some v =>
      cases value' with
      | none => simp at hvalue
      | some w => simpa using hvalue

/-- A report is determined by its array. -/
theorem Report.json_injective : Function.Injective Report.json := by
  rintro ⟨fs⟩ ⟨gs⟩ h
  exact congrArg Report.mk (List.map_injective_iff.mpr Finding.json_injective (Json.arr.inj h))

/-! ## The numbers of a report -/

/-- The line of a command is like this. -/
def Location.LineIs (p : Json.Token → Prop) : Location → Prop
  | command _ line _ => p (.int line)
  | _ => True

/-- The line of a command fits 64 bits. -/
def Location.LineFits : Location → Prop
  | command _ line _ => line < Nat.pow 2 64
  | _ => True

/-- A line number that fits in a machine word is read back exactly. -/
theorem Location.LineFits.lineIs {l : Location} (h : l.LineFits) : l.LineIs Json.Token.IsExact := by
  cases l with
  | command r line raw =>
      have hline : line < Nat.pow 2 64 := h
      exact ⟨by omega, by omega⟩
  | _ => trivial

section Numbers

variable {p : Json.Token → Prop}

/-- The name of a resource has no numbers. -/
theorem ResourceRef.allNumbers_members (r : ResourceRef) : ∀ m ∈ r.members, m.2.AllNumbers p := by
  simp [members, allNumbers_str]

/-- The only number of a location is the line of a command. -/
theorem Location.allNumbers_json {l : Location} (h : l.LineIs p) : l.json.AllNumbers p := by
  cases l with
  | pack => exact allNumbers_obj (by simp [allNumbers_str])
  | resource r =>
      refine allNumbers_obj (List.forall_mem_cons.mpr ⟨allNumbers_str _, ?_⟩)
      exact r.allNumbers_members
  | node r pointer =>
      have hresource : AllNumbers p (.obj r.members) := allNumbers_obj r.allNumbers_members
      exact allNumbers_obj (by simp [allNumbers_str, hresource])
  | command r line raw =>
      have hresource : AllNumbers p (.obj r.members) := allNumbers_obj r.allNumbers_members
      have hline : AllNumbers p (.int line) := allNumbers_int h
      exact allNumbers_obj (by simp [allNumbers_str, hresource, hline])

/-- The only number of a finding is the line of its command. -/
theorem Finding.allNumbers_json {f : Finding} (h : f.location.LineIs p) : f.json.AllNumbers p := by
  refine allNumbers_obj (List.forall_mem_append.mpr ⟨?_, ?_⟩)
  · simp [allNumbers_str, Location.allNumbers_json h]
  · intro m hm
    obtain ⟨v, _, rfl⟩ := Option.map_eq_some_iff.mp (Option.mem_toList.mp hm)
    exact allNumbers_str v

/-- The only numbers of a report are the lines of its commands. -/
theorem Report.allNumbers_json {r : Report} (h : ∀ f ∈ r.findings, f.location.LineIs p) :
    r.json.AllNumbers p := by
  refine allNumbers_arr ?_
  intro v hv
  obtain ⟨f, hf, rfl⟩ := List.mem_map.mp hv
  exact Finding.allNumbers_json (h f hf)

end Numbers

/-- No number of a report is a binary fraction. -/
theorem Report.floatless_json (r : Report) : Floatless r.json := by
  refine AllNumbers.floatless (allNumbers_json ?_)
  intro f _
  cases f.location with
  | command r line raw => exact fun x => nofun
  | _ => trivial

/-! ## Printed reports -/

namespace CommandLine

/-- **A report that is printed as JSON tells which findings it holds**, each with all that it
    says, and whether it says a value. -/
theorem render_injective_of_json (o : Options) (h : o.format = some .json) :
    Function.Injective fun findings : List Finding => render o ⟨findings⟩ := by
  intro fs gs htext
  have hrender : ∀ r : Report, render o r = r.json.pretty ++ "\n" := by
    intro r
    rw [render, h]
    rfl
  simp only [hrender, String.append_left_inj] at htext
  have hjson := Json.pretty_inj (Report.floatless_json ⟨fs⟩) (Report.floatless_json ⟨gs⟩) htext
  exact congrArg Report.findings (Report.json_injective hjson)

/-- A value that is empty is told from none. -/
theorem render_ne_of_empty_value :
    render { Options.initial with format := some .json }
        ⟨[⟨.error, "Empty entry", .resource ⟨.tag .item, "a:b"⟩, none⟩]⟩
      ≠ render { Options.initial with format := some .json }
        ⟨[⟨.error, "Empty entry", .resource ⟨.tag .item, "a:b"⟩, some ""⟩]⟩ := by
  intro htext
  exact absurd (render_injective_of_json _ rfl htext) (by decide)

end CommandLine

end PackLint
