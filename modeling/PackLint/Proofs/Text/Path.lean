import Mathlib.Data.List.Basic
import PackLint.Proofs.Text.PathOrder
import PackLint.Text.Path

/-! # The pieces of a path

    Cutting a text at its slashes undoes putting slashes between names, so paths with
    the same text are paths with the same names. -/

namespace PackLint.Text

/-- A path has at least one piece. -/
theorem pathPieces_ne_nil (cs : List Char) : pathPieces cs ≠ [] := by
  cases cs with
  | nil => exact List.cons_ne_nil _ _
  | cons c cs =>
      rw [pathPieces]
      split
      · exact List.cons_ne_nil _ _
      · split <;> exact List.cons_ne_nil _ _

theorem pathPieces_slash (cs : List Char) : pathPieces ('/' :: cs) = [] :: pathPieces cs :=
  rfl

/-- A character that is no slash begins the first piece. -/
theorem pathPieces_cons {c : Char} (hc : c ≠ '/') {cs piece : List Char}
    {rest : List (List Char)} (h : pathPieces cs = piece :: rest) :
    pathPieces (c :: cs) = (c :: piece) :: rest := by
  rw [pathPieces, if_neg hc, h]

/-- At a slash a path is cut into the pieces in front of it and those behind it. -/
theorem pathPieces_append_slash (cs ds : List Char) :
    pathPieces (cs ++ '/' :: ds) = pathPieces cs ++ pathPieces ds := by
  induction cs with
  | nil => rfl
  | cons c cs ih =>
      rw [List.cons_append]
      by_cases hc : c = '/'
      · subst hc
        rw [pathPieces_slash, ih, pathPieces_slash, List.cons_append]
      · obtain ⟨piece, rest, hcs⟩ := List.exists_cons_of_ne_nil (pathPieces_ne_nil cs)
        rw [hcs, List.cons_append] at ih
        rw [pathPieces_cons hc ih, pathPieces_cons hc hcs, List.cons_append]

/-- A text without slashes is one piece. -/
theorem pathPieces_of_notMem {cs : List Char} (h : '/' ∉ cs) : pathPieces cs = [cs] := by
  induction cs with
  | nil => rfl
  | cons c cs ih =>
      have hc : c ≠ '/' := by
        rintro rfl
        exact h List.mem_cons_self
      exact pathPieces_cons hc (ih fun hmem => h (List.mem_cons_of_mem c hmem))

/-- The pieces of a path that was put together from names are these names. -/
theorem pathPieces_joined {names : List (List Char)} (hne : names ≠ [])
    (h : ∀ name ∈ names, '/' ∉ name) : pathPieces (joined names) = names := by
  induction names with
  | nil => exact absurd rfl hne
  | cons x xs ih =>
      obtain ⟨hx, hxs⟩ := List.forall_mem_cons.mp h
      cases xs with
      | nil => rw [joined_singleton, pathPieces_of_notMem hx]
      | cons y ys =>
          rw [joined_cons_cons, pathPieces_append_slash, pathPieces_of_notMem hx,
            ih (List.cons_ne_nil y ys) hxs, List.singleton_append]

/-- Names without slashes are determined by their path. -/
theorem joined_inj {xs ys : List (List Char)} (hx : xs ≠ []) (hy : ys ≠ [])
    (hxs : ∀ x ∈ xs, '/' ∉ x) (hys : ∀ y ∈ ys, '/' ∉ y) (h : joined xs = joined ys) :
    xs = ys := by
  rw [← pathPieces_joined hx hxs, h, pathPieces_joined hy hys]

end PackLint.Text
