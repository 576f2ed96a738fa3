import SqlAudit.Rule.Check
/-!
The connectives of checks are those of an algebra of propositions, faults and details included: what
comes first decides, whether it is a fault or a match. Where nothing faults, the order is of no
account for whether a rule applies.
-/
namespace SqlAudit.Check

variable {node : Node} {ancestors : List Node}

/-- What is left to try of a list is tried where its front does not decide. -/
theorem evaluateAll_append (detail : Option String) (front back : List Check) :
    evaluateAll node ancestors detail (front ++ back) =
      (evaluateAll node ancestors detail front).bind fun found =>
        found.elim (.ok none) fun found => evaluateAll node ancestors found.detail back := by
  induction front generalizing detail with
  | nil =>
      rw [List.nil_append, evaluateAll]
      rfl
  | cons check front ih =>
      rw [List.cons_append, evaluateAll, evaluateAll]
      cases evaluate node ancestors check with
      | error fault => rfl
      | ok found =>
          cases found with
          | none => rfl
          | some found => exact ih _

theorem evaluateAny_append (front back : List Check) :
    evaluateAny node ancestors (front ++ back) =
      (evaluateAny node ancestors front).bind fun found =>
        found.elim (evaluateAny node ancestors back) fun found => .ok (some found) := by
  induction front with
  | nil =>
      rw [List.nil_append, evaluateAny]
      rfl
  | cons check front ih =>
      rw [List.cons_append, evaluateAny, evaluateAny]
      cases evaluate node ancestors check with
      | error fault => rfl
      | ok found =>
          cases found with
          | none => exact ih
          | some found => rfl

/-- A detail found before is kept; otherwise the first one of the list is. -/
theorem evaluateAll_detail (detail : Option String) (checks : List Check) :
    evaluateAll node ancestors detail checks =
      (evaluateAll node ancestors none checks).map
        (Option.map fun found => ⟨detail <|> found.detail⟩) := by
  induction checks generalizing detail with
  | nil => simp [evaluateAll, Except.map]
  | cons check checks ih =>
      rw [evaluateAll, evaluateAll]
      cases evaluate node ancestors check with
      | error fault => rfl
      | ok found =>
          cases found with
          | none => rfl
          | some found =>
              dsimp only
              rw [ih, ih (none <|> found.detail)]
              cases evaluateAll node ancestors none checks with
              | error fault => rfl
              | ok rest => cases rest <;> simp [Except.map, Option.or_assoc]

theorem evaluate_all_nested (front checks back : List Check) :
    evaluate node ancestors (.all (front ++ .all checks :: back)) =
      evaluate node ancestors (.all (front ++ checks ++ back)) := by
  have head (detail : Option String) : evaluateAll node ancestors detail (.all checks :: back) =
      evaluateAll node ancestors detail (checks ++ back) := by
    rw [evaluateAll, evaluate, evaluateAll_append, evaluateAll_detail detail checks]
    cases evaluateAll node ancestors none checks with
    | error fault => rfl
    | ok found => cases found <;> rfl
  simp only [evaluate, List.append_assoc, evaluateAll_append _ front, head]

theorem evaluate_any_nested (front checks back : List Check) :
    evaluate node ancestors (.any (front ++ .any checks :: back)) =
      evaluate node ancestors (.any (front ++ checks ++ back)) := by
  have head : evaluateAny node ancestors (.any checks :: back) =
      evaluateAny node ancestors (checks ++ back) := by
    rw [evaluateAny, evaluate, evaluateAny_append]
    cases evaluateAny node ancestors checks with
    | error fault => rfl
    | ok found => cases found <;> rfl
  simp only [evaluate, List.append_assoc, evaluateAny_append front, head]

theorem evaluate_not_any (checks : List Check) :
    evaluate node ancestors (.not (.any checks)) =
      evaluate node ancestors (.all (checks.map .not)) := by
  rw [evaluate, evaluate, evaluate]
  induction checks with
  | nil => rfl
  | cons check checks ih =>
      rw [List.map_cons, evaluateAll, evaluateAny, evaluate]
      cases evaluate node ancestors check with
      | error fault => rfl
      | ok found =>
          cases found with
          | none => exact ih
          | some found => rfl

theorem evaluate_not_all (checks : List Check) :
    evaluate node ancestors (.not (.all checks)) =
      evaluate node ancestors (.any (checks.map .not)) := by
  rw [evaluate, evaluate, evaluate]
  -- A detail carried along is lost in the negation.
  generalize none = detail
  induction checks generalizing detail with
  | nil => rfl
  | cons check checks ih =>
      rw [List.map_cons, evaluateAll, evaluateAny, evaluate]
      cases evaluate node ancestors check with
      | error fault => rfl
      | ok found =>
          cases found with
          | none => rfl
          | some found => exact ih _

/-- A check that does not fault. -/
def Settles (node : Node) (ancestors : List Node) (check : Check) : Prop :=
  ∃ found, evaluate node ancestors check = .ok found

def matched (node : Node) (ancestors : List Node) (check : Check) : Bool :=
  match evaluate node ancestors check with
  | .ok found => found.isSome
  | .error _ => false

variable {checks others : List Check}

theorem evaluate_all_settled (settled : ∀ check ∈ checks, Settles node ancestors check) :
    (evaluate node ancestors (.all checks)).map Option.isSome =
      .ok (checks.all (matched node ancestors)) := by
  rw [evaluate]
  generalize none = detail
  induction checks generalizing detail with
  | nil => rfl
  | cons check checks ih =>
      obtain ⟨⟨found, evaluated⟩, settled⟩ := List.forall_mem_cons.mp settled
      rw [evaluateAll, List.all_cons, matched, evaluated]
      cases found with
      | none => rfl
      | some found => exact ih settled _

theorem evaluate_any_settled (settled : ∀ check ∈ checks, Settles node ancestors check) :
    (evaluate node ancestors (.any checks)).map Option.isSome =
      .ok (checks.any (matched node ancestors)) := by
  rw [evaluate]
  induction checks with
  | nil => rfl
  | cons check checks ih =>
      obtain ⟨⟨found, evaluated⟩, settled⟩ := List.forall_mem_cons.mp settled
      rw [evaluateAny, List.any_cons, matched, evaluated]
      cases found with
      | none => exact ih settled
      | some found => rfl

theorem evaluate_all_perm (settled : ∀ check ∈ checks, Settles node ancestors check)
    (perm : checks.Perm others) :
    (evaluate node ancestors (.all checks)).map Option.isSome =
      (evaluate node ancestors (.all others)).map Option.isSome := by
  have settledOthers : ∀ check ∈ others, Settles node ancestors check :=
    fun check mem => settled check (perm.mem_iff.mpr mem)
  rw [evaluate_all_settled settled, evaluate_all_settled settledOthers, perm.all_eq]

theorem evaluate_any_perm (settled : ∀ check ∈ checks, Settles node ancestors check)
    (perm : checks.Perm others) :
    (evaluate node ancestors (.any checks)).map Option.isSome =
      (evaluate node ancestors (.any others)).map Option.isSome := by
  have settledOthers : ∀ check ∈ others, Settles node ancestors check :=
    fun check mem => settled check (perm.mem_iff.mpr mem)
  rw [evaluate_any_settled settled, evaluate_any_settled settledOthers, perm.any_eq]

/-- A fault behind what decides is not met. -/
example : evaluate ⟨.identifier, ⟨0, 1⟩, none, []⟩ []
    (.any [.present, .custom fun _ _ => .error (.custom "late")]) = .ok (some ⟨none⟩) := by
  rfl

/-- Negation turns one connective into the other, nesting is of no account, and order is of none
where nothing faults. -/
theorem connectives (node : Node) (ancestors : List Node) (checks rest : List Check) :
    evaluate node ancestors (.not (.any checks)) =
        evaluate node ancestors (.all (checks.map .not)) ∧
      evaluate node ancestors (.not (.all checks)) =
        evaluate node ancestors (.any (checks.map .not)) ∧
      evaluate node ancestors (.all (.all checks :: rest)) =
        evaluate node ancestors (.all (checks ++ rest)) ∧
      evaluate node ancestors (.any (.any checks :: rest)) =
        evaluate node ancestors (.any (checks ++ rest)) ∧
      ((∀ check ∈ checks, Settles node ancestors check) →
        ∀ others, checks.Perm others →
          (evaluate node ancestors (.all checks)).map Option.isSome =
              (evaluate node ancestors (.all others)).map Option.isSome ∧
            (evaluate node ancestors (.any checks)).map Option.isSome =
              (evaluate node ancestors (.any others)).map Option.isSome) := by
  refine ⟨evaluate_not_any checks, evaluate_not_all checks, evaluate_all_nested [] checks rest,
    evaluate_any_nested [] checks rest, ?_⟩
  intro settled others perm
  exact ⟨evaluate_all_perm settled perm, evaluate_any_perm settled perm⟩

/-- Two checks of a caller's own, the other way round: another detail, and a match all the same. -/
theorem connectives_swapped :
    let first : Check := .custom fun node _ => .ok (some ⟨node.value⟩)
    let second : Check := .custom fun _ ancestors => .ok (some ⟨(ancestors.head?).bind Node.value⟩)
    let node : Node := ⟨.identifier, ⟨7, 8⟩, some "t", []⟩
    let script : Node := ⟨.script, ⟨0, 8⟩, some "s", []⟩
    evaluate node [script] (.all [first, second]) = .ok (some ⟨some "t"⟩) ∧
      evaluate node [script] (.all [second, first]) = .ok (some ⟨some "s"⟩) ∧
      (evaluate node [script] (.all [first, second])).map Option.isSome =
        (evaluate node [script] (.all [second, first])).map Option.isSome := by
  intro first second node script
  obtain ⟨-, -, -, -, order⟩ := connectives node [script] [first, second] []
  have settled : ∀ check ∈ [first, second], Settles node [script] check := by
    simp only [List.forall_mem_cons]
    exact ⟨⟨_, rfl⟩, ⟨_, rfl⟩, by simp⟩
  exact ⟨rfl, rfl, (order settled [second, first] (.swap ..)).1⟩

end SqlAudit.Check
