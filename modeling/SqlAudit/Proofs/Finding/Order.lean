import SqlAudit.Proofs.Finding.Aggregation
import SqlAudit.Proofs.Sorting
/-!
The order of findings is a comparison field by field, so it is transitive and total, and what it
does not tell apart repeats each other.
-/
namespace SqlAudit

theorem Severity.rank_injective {a b : Severity} (same : a.rank = b.rank) : a = b := by
  cases a <;> cases b <;> first | rfl | cases same

namespace Finding

/-- The order without the messages. -/
def placeOrder : Finding → Finding → Ordering :=
  compareLex (compareOn fun a => a.severity.rank) (compareLex (compareOn fun a => a.span.start)
    (compareLex (compareOn fun a => a.ruleId) (compareLex (compareOn fun a => a.unitId)
      (compareOn fun a => a.span.stop))))

instance : Std.TransCmp placeOrder := by
  unfold placeOrder
  infer_instance

theorem order_eq_lex : order = compareLex placeOrder (compareOn fun a => a.message) := by
  funext a b
  simp only [order, placeOrder, compareLex, compareOn, Ordering.then_assoc]

instance : Std.TransCmp order := by
  rw [order_eq_lex]
  infer_instance

variable {a b c : Finding}

theorem order_trans (first : (a.order b).isLE) (second : (b.order c).isLE) : (a.order c).isLE :=
  Std.TransCmp.isLE_trans first second

theorem order_total (a b : Finding) : (a.order b).isLE || (b.order a).isLE := by
  cases compared : a.order b with
  | lt | eq => rfl
  | gt =>
      rw [Std.OrientedCmp.lt_of_gt compared]
      rfl

theorem placeOrder_eq_iff :
    placeOrder a b = .eq ↔ b.repeats a = true ∧ a.severity = b.severity := by
  have span : a.span = b.span ↔ a.span.start = b.span.start ∧ a.span.stop = b.span.stop := by
    cases a.span
    cases b.span
    simp
  have severity : a.severity.rank = b.severity.rank ↔ a.severity = b.severity :=
    ⟨Severity.rank_injective, congrArg Severity.rank⟩
  simp only [placeOrder, compareLex, compareOn, Ordering.then_eq_eq, Std.compare_eq_iff_eq,
    repeats_iff, eq_comm (a := b.ruleId), eq_comm (a := b.span), eq_comm (a := b.unitId), span,
    severity]
  tauto

theorem placeOrder_isLE (before : (a.order b).isLE) : (placeOrder a b).isLE := by
  rw [order_eq_lex, compareLex] at before
  cases compared : placeOrder a b with
  | lt | eq => rfl
  | gt => simp [compared, Ordering.then] at before

theorem repeats_of_order_eq (same : a.order b = .eq) : b.repeats a = true := by
  rw [order_eq_lex, compareLex, Ordering.then_eq_eq] at same
  exact (placeOrder_eq_iff.mp same.1).1

theorem order_lt_of_not_isLE (later : ¬ (a.order b).isLE) : b.order a = .lt := by
  cases compared : a.order b with
  | lt | eq => simp [compared] at later
  | gt => exact Std.OrientedCmp.lt_of_gt compared

theorem repeats_of_tied (before : (a.order b).isLE) (after : (b.order a).isLE) :
    b.repeats a = true :=
  repeats_of_order_eq (Std.OrientedCmp.isLE_antisymm before after)

/-- Of two findings that do not repeat each other, one comes strictly first. -/
theorem order_lt_of_apart (before : (a.order b).isLE) (apart : b.repeats a = false) :
    a.order b = .lt := by
  cases compared : a.order b with
  | lt => rfl
  | eq =>
      rw [repeats_of_order_eq compared] at apart
      cases apart
  | gt => simp [compared] at before

theorem order_lt_of_rule_ne (before : (a.order b).isLE) (other : a.ruleId ≠ b.ruleId) :
    a.order b = .lt := by
  apply order_lt_of_apart before
  rw [← Bool.not_eq_true, repeats_iff]
  exact fun same => other same.1.symm

theorem rank_le_of_isLE (before : (a.order b).isLE) : a.severity.rank ≤ b.severity.rank := by
  by_contra higher
  have later : compare a.severity.rank b.severity.rank = .gt := Nat.compare_eq_gt.mpr (by omega)
  simp [order, later, Ordering.then] at before

/-- Whatever stands between two findings of one severity that repeat each other repeats them. -/
theorem repeats_between (same : b.repeats a) (severity : a.severity = b.severity)
    (after : (a.order c).isLE) (before : (c.order b).isLE) : c.repeats a = true := by
  have tied : placeOrder b a = .eq := placeOrder_eq_iff.mpr ⟨repeats_symm same, severity.symm⟩
  have back : (placeOrder c a).isLE := by
    apply Std.TransCmp.isLE_trans (placeOrder_isLE before)
    rw [tied]
    rfl
  exact (placeOrder_eq_iff.mp (Std.OrientedCmp.isLE_antisymm (placeOrder_isLE after) back)).1

theorem rule_between (same : b.repeats a) (severity : a.severity = b.severity)
    (after : a.order c = .lt) (before : c.order b = .lt) : c.ruleId = a.ruleId := by
  have repeated := repeats_between same severity (by rw [after]; rfl) (by rw [before]; rfl)
  exact (repeats_iff.mp repeated).1

/-- Findings in their order. -/
abbrev Ascending (findings : List Finding) : Prop := findings.Pairwise fun a b => (a.order b).isLE

theorem Ascending.least {findings : List Finding} (ascending : Ascending (a :: findings)) :
    ∀ b ∈ a :: findings, (a.order b).isLE := by
  intro b member
  rcases List.mem_cons.mp member with rfl | later
  · exact Std.ReflCmp.isLE_rfl
  · exact (List.pairwise_cons.mp ascending).1 b later

def sort (findings : List Finding) : List Finding := findings.mergeSort fun a b => (a.order b).isLE

theorem sort_perm (findings : List Finding) : (sort findings).Perm findings :=
  List.mergeSort_perm findings _

theorem sort_ascending (findings : List Finding) : Ascending (sort findings) :=
  @List.pairwise_mergeSort Finding (fun a b => (a.order b).isLE) (fun _ _ _ => order_trans)
    order_total findings

theorem filter_sort (p : Finding → Bool) (findings : List Finding) :
    (sort findings).filter p = sort (findings.filter p) :=
  @Sorting.filter_mergeSort Finding (fun a b => (a.order b).isLE) (fun _ _ _ => order_trans)
    order_total p findings

/-- A result, with the sort in a form that can be computed. -/
theorem aggregate_eq_insertionSort (findings : List Finding) : aggregate findings =
    dropRepeats (findings.insertionSort fun a b => (a.order b).isLE) := by
  rw [aggregate, @Sorting.mergeSort_eq_insertionSort Finding (fun a b => (a.order b).isLE)
    (fun _ _ _ => order_trans) order_total]

end Finding
end SqlAudit
