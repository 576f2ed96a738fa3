import Mathlib.Data.List.Pairwise
import SqlAudit.Finding
/-!
What aggregation keeps. Findings are only dropped where one repeats the one before it, so a sort of
findings of which no two repeat each other is kept whole, in its order.
-/
namespace SqlAudit

namespace Finding

variable {p : Finding → Bool}

theorem repeats_iff {a b : Finding} :
    a.repeats b = true ↔ a.ruleId = b.ruleId ∧ a.span = b.span ∧ a.unitId = b.unitId := by
  simp [repeats, and_assoc]

variable {a b c f : Finding} {findings : List Finding}

theorem repeats_refl (a : Finding) : a.repeats a = true := repeats_iff.mpr ⟨rfl, rfl, rfl⟩

theorem repeats_symm (same : a.repeats b = true) : b.repeats a = true := by
  obtain ⟨rule, span, unit⟩ := repeats_iff.mp same
  exact repeats_iff.mpr ⟨rule.symm, span.symm, unit.symm⟩

theorem repeats_comm (a b : Finding) : a.repeats b = b.repeats a :=
  Bool.eq_iff_iff.mpr ⟨repeats_symm, repeats_symm⟩

theorem repeats_trans (first : a.repeats b = true) (second : b.repeats c = true) :
    a.repeats c = true := by
  obtain ⟨rule, span, unit⟩ := repeats_iff.mp first
  obtain ⟨rule', span', unit'⟩ := repeats_iff.mp second
  exact repeats_iff.mpr ⟨rule.trans rule', span.trans span', unit.trans unit'⟩

theorem repeats_congr (same : a.repeats b) : f.repeats a = f.repeats b := by
  rw [repeats_iff] at same
  rw [Bool.eq_iff_iff, repeats_iff, repeats_iff, same.1, same.2.1, same.2.2]

/-- It does not matter which one of some findings that repeat each other was kept. -/
theorem dropRepeatsAfter_congr (same : a.repeats b) :
    dropRepeatsAfter a findings = dropRepeatsAfter b findings := by
  induction findings with
  | nil => rfl
  | cons finding findings ih => rw [dropRepeatsAfter, dropRepeatsAfter, repeats_congr same, ih]

/-- No two of the findings that `p` selects repeat each other. -/
def Distinct (p : Finding → Bool) (findings : List Finding) : Prop :=
  (findings.filter p).Pairwise fun a b => b.repeats a = false

theorem Distinct.perm {first second : List Finding} (distinct : Distinct p first)
    (perm : first.Perm second) : Distinct p second := by
  refine ((perm.filter p).pairwise_iff ?_).mp distinct
  intro a b apart
  rw [← Bool.not_eq_true, repeats_iff] at apart ⊢
  rintro ⟨rule, span, unit⟩
  exact apart ⟨rule.symm, span.symm, unit.symm⟩

theorem dropRepeatsAfter_sublist (kept : Finding) (findings : List Finding) :
    (dropRepeatsAfter kept findings).Sublist findings := by
  induction findings generalizing kept with
  | nil => exact .slnil
  | cons finding findings ih =>
      rw [dropRepeatsAfter]
      split
      · exact .cons _ (ih kept)
      · exact .cons_cons _ (ih finding)

theorem mem_of_aggregate {finding : Finding} {findings : List Finding}
    (member : finding ∈ aggregate findings) : finding ∈ findings := by
  have perm := List.mergeSort_perm findings fun a b => (a.order b).isLE
  apply perm.mem_iff.mp
  rw [aggregate] at member
  generalize findings.mergeSort _ = sorted at member ⊢
  cases sorted with
  | nil => exact member
  | cons first rest =>
      rcases List.mem_cons.mp member with rfl | later
      · exact .head _
      · exact .tail _ ((dropRepeatsAfter_sublist first rest).mem later)

/-- Of a rule whose findings are all about different places none is dropped. -/
theorem filter_dropRepeatsAfter (byRule : ∀ a b : Finding, a.ruleId = b.ruleId → p a = p b)
    (kept : Finding) (findings : List Finding) (distinct : Distinct p (kept :: findings)) :
    (dropRepeatsAfter kept findings).filter p = findings.filter p := by
  induction findings generalizing kept with
  | nil => rfl
  | cons finding findings ih =>
      have later : Distinct p (finding :: findings) :=
        distinct.sublist ((List.sublist_cons_self kept _).filter p)
      rw [dropRepeatsAfter]
      split
      · rename_i same
        have rule := byRule finding kept (repeats_iff.mp same).1
        have shorter : Distinct p (kept :: findings) :=
          distinct.sublist (((List.sublist_cons_self finding findings).cons_cons kept).filter p)
        rw [ih kept shorter]
        by_cases selected : p finding = true
        · have both := distinct
          rw [Distinct, List.filter_cons_of_pos (rule ▸ selected),
            List.filter_cons_of_pos selected, List.pairwise_cons] at both
          have apart := both.1 finding (.head _)
          rw [same] at apart
          cases apart
        · rw [List.filter_cons_of_neg selected]
      · rw [List.filter_cons, List.filter_cons, ih finding later]

theorem filter_aggregate (byRule : ∀ a b : Finding, a.ruleId = b.ruleId → p a = p b)
    {findings : List Finding} (distinct : Distinct p findings) :
    ((aggregate findings).filter p).Perm (findings.filter p) := by
  have perm := List.mergeSort_perm findings fun a b => (a.order b).isLE
  have sorted := distinct.perm perm.symm
  refine List.Perm.trans ?_ (perm.filter p)
  rw [aggregate]
  generalize findings.mergeSort _ = sort at sorted ⊢
  cases sort with
  | nil => exact .refl _
  | cons first rest =>
      rw [dropRepeats, List.filter_cons, List.filter_cons,
        filter_dropRepeatsAfter byRule first rest sorted]

/-- Findings none of which repeats another one are all kept. -/
theorem aggregate_perm {findings : List Finding}
    (distinct : findings.Pairwise fun a b => b.repeats a = false) :
    (aggregate findings).Perm findings := by
  have all : ∀ findings : List Finding, findings.filter (fun _ => true) = findings := by
    intro findings
    exact List.filter_eq_self.mpr fun _ _ => rfl
  have apart : Distinct (fun _ => true) findings := by rwa [Distinct, all]
  have kept := filter_aggregate (fun _ _ _ => rfl) apart
  rwa [all, all] at kept

end Finding
end SqlAudit
