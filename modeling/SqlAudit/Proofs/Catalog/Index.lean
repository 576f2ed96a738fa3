import Mathlib.Data.List.TakeWhile
import SqlAudit.Catalog.Basic
/-!
What is found through the index of a catalog. The stretches that its rules fall into, and the places
where their names stand, lead to the rules that a search through all of them comes to.
-/
namespace SqlAudit

theorem NodeKind.all_rank (kind : NodeKind) : NodeKind.all[kind.rank]? = some kind := by
  cases kind <;> rfl

theorem NodeKind.idxOf_all (kind : NodeKind) : NodeKind.all.idxOf kind = kind.rank := by
  cases kind <;> rfl

theorem NodeKind.rank_injective {first second : NodeKind} (same : first.rank = second.rank) :
    first = second := by
  have both := first.all_rank
  rw [same, second.all_rank] at both
  exact (Option.some.inj both).symm

namespace Catalog

variable {catalog : Catalog} {kind : NodeKind}

theorem filter_alike {target : NodeKind} {rules : List Rule}
    (alike : ∀ rule ∈ rules, rule.target = target) :
    (rules.filter fun rule => rule.target = kind) = if target = kind then rules else [] := by
  split
  · rename_i same
    apply List.filter_eq_self.mpr
    intro rule member
    simpa using (alike rule member).trans same
  · rename_i other
    apply List.filter_eq_nil_iff.mpr
    intro rule member
    simpa using (alike rule member) ▸ other

/-- A stretch is a slice of all rules, and what comes after it falls into stretches by itself. -/
theorem slices_eq (start : Nat) (rules before : List Rule) (reached : before.length = start) :
    ((stretches start rules).filter (·.kind = kind)).flatMap
        (fun stretch => ((before ++ rules).take stretch.stop).drop stretch.start) =
      rules.filter fun rule => rule.target = kind := by
  induction start, rules using stretches.induct generalizing before with
  | case1 start => simp [stretches]
  | case2 start rule rules stop ih =>
      subst reached
      let block := rule :: rules.takeWhile (·.target = rule.target)
      let rest := rules.dropWhile (·.target = rule.target)
      have split : rule :: rules = block ++ rest := by
        simp only [block, rest, List.cons_append, List.takeWhile_append_dropWhile]
      have alike : ∀ other ∈ block, other.target = rule.target := by
        intro other member
        rcases List.mem_cons.mp member with rfl | later
        · rfl
        · simpa using List.mem_takeWhile_imp later
      have reached : (before ++ block).length = stop := by
        simp only [block, stop, List.length_append, List.length_cons]
        omega
      have slice : ((before ++ rule :: rules).take stop).drop before.length = block := by
        rw [split, ← List.append_assoc, ← reached, List.take_left, List.drop_left]
      have onward := ih (before ++ block) reached
      rw [List.append_assoc, ← split] at onward
      have parts : stretches before.length (rule :: rules) =
          ⟨rule.target, before.length, stop⟩ :: stretches stop rest := stretches.eq_2 ..
      calc
        _ = (if rule.target = kind then block else []) ++
            rest.filter fun rule => rule.target = kind := by
          rw [parts]
          by_cases same : rule.target = kind
          · rw [List.filter_cons_of_pos (by simpa using same), List.flatMap_cons, slice, onward,
              if_pos same]
          · rw [List.filter_cons_of_neg (by simpa using same), onward, if_neg same, List.nil_append]
        _ = block.filter (fun rule => rule.target = kind) ++
            rest.filter fun rule => rule.target = kind := by rw [filter_alike alike]
        _ = (rule :: rules).filter fun rule => rule.target = kind := by
          rw [split, List.filter_append]

theorem rulesFor_eq (catalog : Catalog) (kind : NodeKind) :
    catalog.rulesFor kind = catalog.rules.filter fun rule => rule.target = kind :=
  slices_eq 0 catalog.rules [] rfl

theorem mem_rulesFor {rule : Rule} :
    rule ∈ catalog.rulesFor kind ↔ rule ∈ catalog.rules ∧ rule.target = kind := by
  rw [rulesFor_eq, List.mem_filter, decide_eq_true_eq]

/-- Rules stand in the order of the kinds that they look at. -/
def Ordered (rules : List Rule) : Prop :=
  rules.Pairwise fun a b => a.target.rank ≤ b.target.rank

theorem Ordered.apart {rule : Rule} {rules : List Rule} (ordered : Ordered (rule :: rules)) :
    ∀ other ∈ rules.dropWhile (·.target = rule.target), other.target ≠ rule.target := by
  obtain ⟨least, ordered⟩ := List.pairwise_cons.mp ordered
  intro other member same
  cases left : rules.dropWhile (·.target = rule.target) with
  | nil =>
      rw [left] at member
      cases member
  | cons first rest =>
      have suffix := List.dropWhile_suffix (l := rules) (·.target = rule.target)
      have stops := List.head?_dropWhile_not (·.target = rule.target) rules
      rw [left] at member suffix stops
      have later : first.target.rank ≤ other.target.rank := by
        rcases List.mem_cons.mp member with rfl | beyond
        · exact Nat.le_refl _
        · exact (List.pairwise_cons.mp (ordered.sublist suffix.sublist)).1 other beyond
      have from_first : rule.target.rank ≤ first.target.rank :=
        least first (suffix.subset (.head _))
      have equal : first.target = rule.target :=
        NodeKind.rank_injective (Nat.le_antisymm (same ▸ later) from_first)
      simp [equal] at stops

theorem stretches_targets (start : Nat) (rules : List Rule) :
    ∀ stretch ∈ stretches start rules, ∃ rule ∈ rules, rule.target = stretch.kind := by
  induction start, rules using stretches.induct with
  | case1 start => simp [stretches]
  | case2 start rule rules stop ih =>
      intro stretch member
      rw [stretches] at member
      rcases List.mem_cons.mp member with rfl | later
      · exact ⟨rule, .head _, rfl⟩
      · obtain ⟨other, inside, same⟩ := ih stretch later
        exact ⟨other, .tail _ ((List.dropWhile_suffix _).subset inside), same⟩

/-- In rules that are in order, those for one kind are in one stretch. -/
theorem Ordered.kinds_nodup {start : Nat} {rules : List Rule} (ordered : Ordered rules) :
    ((stretches start rules).map (·.kind)).Nodup := by
  induction start, rules using stretches.induct with
  | case1 start => simp [stretches]
  | case2 start rule rules stop ih =>
      rw [stretches, List.map_cons, List.nodup_cons]
      constructor
      · intro again
        obtain ⟨stretch, later, same⟩ := List.mem_map.mp again
        obtain ⟨other, inside, target⟩ := stretches_targets _ _ stretch later
        exact ordered.apart other inside (target.trans same)
      · exact ih (ordered.sublist ((List.dropWhile_suffix _).sublist.cons _))

/-- Places in a list follow those of what stands before it. -/
theorem places_eq (id : String) (rules before : List Rule) :
    (((rules.zipIdx before.length).map fun (rule, place) => (rule.id, place)).lookup id).bind
        (fun place => (before ++ rules)[place]?) =
      rules.find? fun rule => rule.id == id := by
  induction rules generalizing before with
  | nil => rfl
  | cons rule rules ih =>
      have onward := ih (before ++ [rule])
      rw [List.length_append, List.length_singleton, List.append_assoc, List.singleton_append]
        at onward
      rw [List.zipIdx_cons, List.map_cons, List.lookup_cons]
      by_cases same : id = rule.id
      · simp [same]
      · have apart : (id == rule.id) = false := beq_false_of_ne same
        have other : (rule.id == id) = false := beq_false_of_ne (Ne.symm same)
        rw [apart, List.find?_cons_of_neg (by simp [other])]
        exact onward

theorem rule?_eq (catalog : Catalog) (id : String) :
    catalog.rule? id = catalog.rules.find? fun rule => rule.id == id :=
  places_eq id catalog.rules []

end Catalog
end SqlAudit
