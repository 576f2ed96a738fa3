import SqlAudit.Proofs.Tree.Distinct
/-!
Nodes around other ones. The ancestors of a node are what the shorter paths towards it lead to; and
in a nested tree whatever spans the text of a node is one of them, unless it stands below the node
and spans no more.
-/
namespace SqlAudit

namespace Node

variable {root node above part : Node} {path first second : List Nat}

theorem at?_append :
    root.at? (first ++ second) = (root.at? first).bind fun node => node.at? second := by
  induction first generalizing root with
  | nil => rfl
  | cons i first ih =>
      rw [List.cons_append, at?, at?]
      cases root.children[i]? with
      | none => rfl
      | some child => exact ih

theorem ancestors_append (reached : root.at? first = some node) :
    root.ancestors (first ++ second) = root.ancestors first ++ node.ancestors second := by
  induction first generalizing root with
  | nil =>
      cases reached
      rfl
  | cons i first ih =>
      obtain ⟨child, found, reached⟩ := at?_cons.mp reached
      rw [List.cons_append, ancestors, ancestors, found]
      exact congrArg (root :: ·) (ih reached)

theorem mem_ancestors_iff (reached : root.at? path = some node) : above ∈ root.ancestors path ↔
    ∃ first second, second ≠ [] ∧ path = first ++ second ∧ root.at? first = some above := by
  induction path generalizing root with
  | nil =>
      constructor
      · nofun
      · rintro ⟨first, second, more, whole, -⟩
        exact absurd (List.append_eq_nil_iff.mp whole.symm).2 more
  | cons i path ih =>
      obtain ⟨child, found, reached⟩ := at?_cons.mp reached
      rw [ancestors, found, List.mem_cons, ih reached]
      constructor
      · rintro (rfl | ⟨first, second, more, rfl, there⟩)
        · exact ⟨[], i :: path, by simp, rfl, rfl⟩
        · exact ⟨i :: first, second, more, rfl, at?_cons.mpr ⟨child, found, there⟩⟩
      · rintro ⟨first, second, more, whole, there⟩
        cases first with
        | nil =>
            cases there
            exact .inl rfl
        | cons k first =>
            obtain ⟨rfl, rfl⟩ := List.cons.inj whole
            obtain ⟨same, listed, there⟩ := at?_cons.mp there
            rw [found] at listed
            cases listed
            exact .inr ⟨first, second, more, rfl, there⟩

/-- A node whose text another one spans is that one, or stands below it or above it. -/
theorem prefix_of_contains (nested : root.Nested)
    (solid : ∀ child ∈ root.children, child.Every Solid) (reached : root.at? first = some above)
    (beside : root.at? second = some part) (contains : above.span.contains part.span = true) :
    first <+: second ∨ second <+: first := by
  induction first generalizing root second with
  | nil => exact .inl (List.nil_prefix ..)
  | cons i first ih =>
      cases second with
      | nil => exact .inr (List.nil_prefix ..)
      | cons j second =>
          obtain ⟨child, found, reached⟩ := at?_cons.mp reached
          obtain ⟨other, listed, beside⟩ := at?_cons.mp beside
          have member := List.mem_of_getElem? listed
          have nonempty := ((solid other member).at? beside).here
          by_cases same : i = j
          · subst same
            rw [found] at listed
            cases listed
            have own := (row_mem ((nested_iff_row root).mp nested) child member).1
            have below := (every_iff.mp (solid child member)).2
            simpa only [List.prefix_cons_inj] using ih own below reached beside
          · have apart := contains_apart nested same found listed reached beside nonempty
            rw [contains] at apart
            cases apart

end Node
end SqlAudit
