import Mathlib.Data.List.Sort
/-!
A stable sort and a selection commute: what is selected of the sorted elements are the selected
elements, sorted. The sort is the one that inserts the elements one by one, which can be computed
step by step.
-/
namespace SqlAudit.Sorting

variable {α : Type} {le : α → α → Bool}

/-- A list is split in one way only into a front where `q` holds and a rest where it fails. -/
theorem split_unique {q : α → Bool} {front rest front' rest' : List α}
    (same : front ++ rest = front' ++ rest') (holds : ∀ a ∈ front, q a) (fails : ∀ a ∈ rest, ¬ q a)
    (holds' : ∀ a ∈ front', q a) (fails' : ∀ a ∈ rest', ¬ q a) : front = front' ∧ rest = rest' := by
  have none : ∀ {rest : List α}, (∀ a ∈ rest, ¬ q a) → rest.takeWhile q = [] := by
    intro rest fails
    cases rest with
    | nil => rfl
    | cons a rest => rw [List.takeWhile_cons_of_neg (fails a (.head _))]
  have fronts : front = front' := by
    calc
      front = (front ++ rest).takeWhile q := by
        rw [List.takeWhile_append_of_pos holds, none fails, List.append_nil]
      _ = (front' ++ rest').takeWhile q := by rw [same]
      _ = front' := by rw [List.takeWhile_append_of_pos holds', none fails', List.append_nil]
  subst fronts
  exact ⟨rfl, List.append_cancel_left same⟩

/-- The elements before the head in a sort are those that it must not precede. -/
theorem mergeSort_cons_split (trans : ∀ a b c, le a b → le b c → le a c)
    (total : ∀ a b, le a b || le b a) (a : α) (l : List α) :
    ∃ before after, (a :: l).mergeSort le = before ++ a :: after ∧
      l.mergeSort le = before ++ after ∧
      (∀ b ∈ before, ¬ le a b) ∧ ∀ b ∈ after, le a b := by
  obtain ⟨before, after, whole, rest, greater⟩ := List.mergeSort_cons trans total a l
  have sorted := List.pairwise_mergeSort trans total (a :: l)
  rw [whole] at sorted
  refine ⟨before, after, whole, rest, ?_, ?_⟩
  · intro b member
    simpa using greater b member
  · intro b member
    exact (List.pairwise_cons.mp (List.pairwise_append.mp sorted).2.1).1 b member

theorem filter_mergeSort (trans : ∀ a b c, le a b → le b c → le a c)
    (total : ∀ a b, le a b || le b a) (p : α → Bool) (l : List α) :
    (l.mergeSort le).filter p = (l.filter p).mergeSort le := by
  induction l with
  | nil => simp
  | cons a l ih =>
      obtain ⟨before, after, whole, rest, greater, least⟩ := mergeSort_cons_split trans total a l
      rw [rest, List.filter_append] at ih
      rw [whole, List.filter_append]
      by_cases selected : p a
      · obtain ⟨before', after', whole', rest', greater', least'⟩ :=
          mergeSort_cons_split trans total a (l.filter p)
        have parts : before.filter p = before' ∧ after.filter p = after' := by
          apply split_unique (q := fun b => !le a b) (ih.trans rest')
          · exact fun b member => by simpa using greater b (List.mem_filter.mp member).1
          · exact fun b member => by simpa using least b (List.mem_filter.mp member).1
          · exact fun b member => by simpa using greater' b member
          · exact fun b member => by simpa using least' b member
        rw [List.filter_cons_of_pos selected, List.filter_cons_of_pos selected, whole', parts.1,
          parts.2]
      · rw [List.filter_cons_of_neg selected, List.filter_cons_of_neg selected, ih]

theorem mergeSort_eq_insertionSort (trans : ∀ a b c, le a b → le b c → le a c)
    (total : ∀ a b, le a b || le b a) (l : List α) :
    l.mergeSort le = l.insertionSort fun a b => le a b := by
  induction l with
  | nil => simp
  | cons a l ih =>
      obtain ⟨before, after, whole, rest, greater, least⟩ := mergeSort_cons_split trans total a l
      have passed : ∀ b ∈ before, decide (¬ le a b = true) = true := by
        intro b member
        simpa using greater b member
      have stops : after.takeWhile (fun b => decide (¬ le a b = true)) = [] := by
        cases after with
        | nil => rfl
        | cons b after => simp [least b (.head _)]
      have left : after.dropWhile (fun b => decide (¬ le a b = true)) = after := by
        have apart := @List.takeWhile_append_dropWhile _ (fun b => decide (¬ le a b = true)) after
        rwa [stops, List.nil_append] at apart
      rw [List.insertionSort_cons, ← ih, rest, whole, List.orderedInsert_eq_take_drop,
        List.takeWhile_append_of_pos passed, List.dropWhile_append_of_pos passed, stops, left,
        List.append_nil]

end SqlAudit.Sorting
