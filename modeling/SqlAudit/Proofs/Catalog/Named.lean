import SqlAudit.Proofs.Catalog.Fault
import SqlAudit.Proofs.Catalog.Index
import SqlAudit.Proofs.Sorting
/-!
Catalogs that are built of rules keep each of them, those for one kind in their order, and rules in
a catalog go by their names. What is found through the index of such a catalog is what a search
through the rules that it is built of finds, also after a rule has been taken out.
-/
namespace SqlAudit

namespace Catalog

variable {version id other : String} {rules : List Rule} {catalog : Catalog} {rule : Rule}
  {error : CatalogError}

theorem firstFault?_eq_none_iff : firstFault? version [] rules = none ↔ Usable rules := by
  rw [firstFault?_eq, noPlainFault_iff]
  exact and_iff_left fun _ _ => List.not_mem_nil

/-- Rules that stand in the order of their kinds are the catalog that is built of them. -/
theorem ofRules_ranked (sound : firstFault? version [] rules = none)
    (ranked : rules.Pairwise fun a b => decide (a.target.rank ≤ b.target.rank) = true) :
    ofRules version rules = .ok ⟨version, rules⟩ := by
  rw [ofRules, sound, List.mergeSort_of_pairwise ranked]

theorem ofRules_eq_error_iff : ofRules version rules = .error error ↔
    ∃ before rule after, rules = before ++ rule :: after ∧ Usable before ∧
      (rule.Incomplete ∧ error = .invalidRule rule.id .blank ∨
        ¬ rule.Incomplete ∧ rule.id ∈ ids before ∧ error = .duplicateRule rule.id version) := by
  have refused : ofRules version rules = .error error ↔
      firstFaultBy (plainFault version) [] rules = some error := by
    rw [ofRules, firstFault?_eq]
    cases firstFaultBy (plainFault version) [] rules <;> simp
  rw [refused, firstFaultBy_eq_some_iff]
  simp only [plainFault_eq_some_iff, ← firstFault?_eq, firstFault?_eq_none_iff, List.append_nil,
    List.mem_reverse]

theorem ofRules_usable (built : ofRules version rules = .ok catalog) : Usable rules := by
  rw [ofRules] at built
  split at built
  · cases built
  · exact firstFault?_eq_none_iff.mp ‹_›

theorem exists_ofRules (version : String) (usable : Usable rules) :
    ∃ catalog, ofRules version rules = .ok catalog ∧ catalog.version = version := by
  rw [ofRules, firstFault?_eq_none_iff.mpr usable]
  exact ⟨_, rfl, rfl⟩

theorem exists_error_iff : (∃ error, ofRules version rules = .error error) ↔ ¬ Usable rules := by
  constructor
  · intro ⟨error, refused⟩ usable
    obtain ⟨catalog, built, -⟩ := exists_ofRules version usable
    cases refused.symm.trans built
  · intro unusable
    cases built : ofRules version rules with
    | error error => exact ⟨error, rfl⟩
    | ok catalog => exact absurd (ofRules_usable built) unusable

theorem ofRules_version (built : ofRules version rules = .ok catalog) :
    catalog.version = version := by
  obtain ⟨other, built', labelled⟩ := exists_ofRules version (ofRules_usable built)
  cases built.symm.trans built'
  exact labelled

theorem ofRules_named (built : ofRules version rules = .ok catalog) :
    (catalog.rules.map (·.id)).Nodup ∧ catalog.rules.Perm rules := by
  have named := (ofRules_usable built).named
  rw [ofRules] at built
  split at built
  · cases built
  · cases built
    have perm := List.mergeSort_perm rules fun a b => decide (a.target.rank ≤ b.target.rank)
    exact ⟨(perm.map _).nodup_iff.mpr named, perm⟩

theorem rank_trans (a b c : Rule) (first : decide (a.target.rank ≤ b.target.rank) = true)
    (second : decide (b.target.rank ≤ c.target.rank) = true) :
    decide (a.target.rank ≤ c.target.rank) = true := by
  simp only [decide_eq_true_eq] at first second ⊢
  exact Nat.le_trans first second

theorem rank_total (a b : Rule) :
    (decide (a.target.rank ≤ b.target.rank) || decide (b.target.rank ≤ a.target.rank)) = true := by
  simp only [Bool.or_eq_true, decide_eq_true_eq]
  exact Nat.le_total ..

theorem ofRules_ordered (built : ofRules version rules = .ok catalog) : Ordered catalog.rules := by
  rw [ofRules] at built
  split at built
  · cases built
  · cases built
    exact (List.pairwise_mergeSort rank_trans rank_total rules).imp of_decide_eq_true

theorem ofRules_rulesFor (built : ofRules version rules = .ok catalog) (kind : NodeKind) :
    catalog.rulesFor kind = rules.filter fun rule => rule.target = kind := by
  rw [ofRules] at built
  split at built
  · cases built
  · cases built
    have ranked : (rules.filter fun rule => rule.target = kind).Pairwise fun a b =>
        decide (a.target.rank ≤ b.target.rank) = true := by
      apply List.pairwise_of_forall_mem_list
      intro a here b there
      have left : a.target = kind := by simpa using (List.mem_filter.mp here).2
      have right : b.target = kind := by simpa using (List.mem_filter.mp there).2
      simp [left, right]
    rw [rulesFor_eq, Sorting.filter_mergeSort rank_trans rank_total,
      List.mergeSort_of_pairwise ranked]

theorem rule?_eq_none_iff : catalog.rule? id = none ↔ id ∉ ids catalog.rules := by
  rw [rule?_eq, List.find?_eq_none]
  simp [ids]

theorem rule?_eq_some_iff (named : (ids catalog.rules).Nodup) :
    catalog.rule? id = some rule ↔ rule ∈ catalog.rules ∧ rule.id = id := by
  rw [rule?_eq]
  constructor
  · intro found
    exact ⟨List.mem_of_find?_eq_some found, by simpa using List.find?_some found⟩
  · intro ⟨member, called⟩
    cases found : catalog.rules.find? fun rule => rule.id == id with
    | none =>
        have unknown := List.find?_eq_none.mp found rule member
        simp [called] at unknown
    | some first =>
        have same : first.id = id := by simpa using List.find?_some found
        rw [List.inj_on_of_nodup_map named (List.mem_of_find?_eq_some found) member
          (same.trans called.symm)]

/-- The catalog without the rules of one name. -/
def dropped (catalog : Catalog) (id : String) : Catalog :=
  ⟨catalog.version, catalog.rules.filter fun rule => rule.id != id⟩

theorem rulesFor_dropped (catalog : Catalog) (id : String) (kind : NodeKind) :
    (catalog.dropped id).rulesFor kind =
      (catalog.rulesFor kind).filter fun rule => rule.id != id := by
  rw [rulesFor_eq, rulesFor_eq, dropped, List.filter_comm]

theorem rule?_dropped (catalog : Catalog) (id other : String) :
    (catalog.dropped id).rule? other = if other = id then none else catalog.rule? other := by
  rw [rule?_eq, rule?_eq, dropped, List.find?_filter]
  split
  · rename_i same
    subst same
    simp
  · rename_i apart
    congr 1
    funext rule
    by_cases called : rule.id = other <;> simp [called, apart]

theorem Usable.sublist {smaller : List Rule} (usable : Usable rules)
    (part : smaller.Sublist rules) : Usable smaller :=
  ⟨fun rule member => usable.complete rule (part.subset member), usable.named.sublist (part.map _)⟩

theorem Usable.perm {others : List Rule} (usable : Usable rules) (perm : others.Perm rules) :
    Usable others :=
  ⟨fun rule member => usable.complete rule (perm.mem_iff.mp member),
    (perm.map _).nodup_iff.mpr usable.named⟩

theorem withoutRule_eq (usable : Usable catalog.rules) (ordered : Ordered catalog.rules)
    (id : String) : catalog.withoutRule id =
      if id ∈ ids catalog.rules then .ok (catalog.dropped id)
      else .error (.unknownDisabled id catalog.version) := by
  rw [withoutRule]
  by_cases present : id ∈ ids catalog.rules
  · have found : ¬ (catalog.rule? id).isNone = true := by
      rw [Option.isNone_iff_eq_none, rule?_eq_none_iff, not_not]
      exact present
    have part := @List.filter_sublist _ (fun rule : Rule => rule.id != id) catalog.rules
    rw [if_neg found, if_pos present]
    apply ofRules_ranked
    · exact firstFault?_eq_none_iff.mpr (usable.sublist part)
    · exact (ordered.sublist part).imp fun le => decide_eq_true le
  · rw [if_pos (Option.isNone_iff_eq_none.mpr (rule?_eq_none_iff.mpr present)), if_neg present]

/-- Rules are refused if one of them is incomplete or two have one name, and the first one that is
to blame is reported. Else they stand in the catalog in the order of their kinds, those of one kind
as they were given, and are found by kind and by name as in the list itself; without one of them the
catalog is the same but for that rule. -/
theorem ofRules_indexed (version : String) (rules : List Rule) :
    ((∃ error, ofRules version rules = .error error) ↔
      (∃ rule ∈ rules, rule.Incomplete) ∨ ¬ (ids rules).Nodup) ∧
    (∀ error, ofRules version rules = .error error ↔
      ∃ before rule after, rules = before ++ rule :: after ∧ Usable before ∧
        (rule.Incomplete ∧ error = .invalidRule rule.id .blank ∨
          ¬ rule.Incomplete ∧ rule.id ∈ ids before ∧ error = .duplicateRule rule.id version)) ∧
    ∀ catalog, ofRules version rules = .ok catalog →
      catalog.version = version ∧
      (catalog.rules.Perm rules ∧
        (catalog.rules.Pairwise fun a b =>
          NodeKind.all.idxOf a.target ≤ NodeKind.all.idxOf b.target) ∧
        ∀ kind, (catalog.rules.filter fun rule => rule.target = kind) =
          rules.filter fun rule => rule.target = kind) ∧
      ((catalog.byKind.map (·.kind)).Nodup ∧
        ∀ kind, catalog.rulesFor kind = rules.filter fun rule => rule.target = kind) ∧
      ((ids rules).Nodup ∧
        (∀ id rule, catalog.rule? id = some rule ↔ rule ∈ rules ∧ rule.id = id) ∧
        ∀ id, catalog.rule? id = none ↔ id ∉ ids rules) ∧
      ∀ id, (id ∉ ids rules → catalog.withoutRule id = .error (.unknownDisabled id version)) ∧
        (id ∈ ids rules → ∃ smaller, catalog.withoutRule id = .ok smaller ∧
          smaller.version = version ∧
          smaller.rules = (catalog.rules.filter fun rule => rule.id != id) ∧
          (∀ kind, smaller.rulesFor kind =
            (catalog.rulesFor kind).filter fun rule => rule.id != id) ∧
          ∀ other, smaller.rule? other = if other = id then none else catalog.rule? other) := by
  refine ⟨?_, fun error => ofRules_eq_error_iff, ?_⟩
  · rw [exists_error_iff, usable_iff, not_and_or]
    simp
  · intro catalog built
    have usable := ofRules_usable built
    have ordered := ofRules_ordered built
    obtain ⟨named, perm⟩ := ofRules_named built
    have labelled := ofRules_version built
    have same_ids : ∀ id, id ∈ ids catalog.rules ↔ id ∈ ids rules := fun id => (perm.map _).mem_iff
    refine ⟨labelled, ⟨perm, ?_, ?_⟩, ⟨ordered.kinds_nodup, ofRules_rulesFor built⟩,
      ⟨usable.named, ?_, ?_⟩, ?_⟩
    · simp only [NodeKind.idxOf_all]
      exact ordered
    · intro kind
      rw [← rulesFor_eq, ofRules_rulesFor built]
    · intro id rule
      rw [rule?_eq_some_iff named, perm.mem_iff]
    · intro id
      rw [rule?_eq_none_iff, same_ids]
    · intro id
      rw [withoutRule_eq (usable.perm perm) ordered, labelled]
      constructor
      · intro absent
        rw [if_neg (mt (same_ids id).mp absent)]
      · intro present
        rw [if_pos ((same_ids id).mpr present)]
        exact ⟨_, rfl, labelled, rfl, rulesFor_dropped catalog id, rule?_dropped catalog id⟩

/-- Two rules for one kind with one for another kind between them, and the first of them gone. -/
theorem tablespaces_indexed : ∃ first shard second : Rule,
    first = ⟨"t1", .tablespace, .present, .blocker, "one"⟩ ∧
    shard = ⟨"s1", .shardKey, .present, .blocker, "shard"⟩ ∧
    second = ⟨"t2", .tablespace, .present, .info, "two"⟩ ∧
    ∃ catalog smaller, ofRules "test" [first, shard, second] = .ok catalog ∧
      catalog.rulesFor .tablespace = [first, second] ∧ catalog.rule? "t2" = some second ∧
      "t1" ∈ ids [first, shard, second] ∧ catalog.withoutRule "t1" = .ok smaller ∧
      smaller.rulesFor .tablespace = [second] ∧
      "t3" ∉ ids [first, shard, second] ∧
      catalog.withoutRule "t3" = .error (.unknownDisabled "t3" "test") := by
  let first : Rule := ⟨"t1", .tablespace, .present, .blocker, "one"⟩
  let shard : Rule := ⟨"s1", .shardKey, .present, .blocker, "shard"⟩
  let second : Rule := ⟨"t2", .tablespace, .present, .info, "two"⟩
  have usable : Usable [first, shard, second] := by
    apply (usable_iff _).mpr
    decide
  obtain ⟨catalog, built, -⟩ := exists_ofRules "test" usable
  obtain ⟨-, -, indexed⟩ := ofRules_indexed "test" [first, shard, second]
  obtain ⟨-, -, ⟨-, kinds⟩, ⟨-, names, -⟩, without⟩ := indexed catalog built
  obtain ⟨smaller, gone, -, -, fewer, -⟩ := (without "t1").2 (by decide)
  refine ⟨first, shard, second, rfl, rfl, rfl, catalog, smaller, built, ?_, ?_, by decide, gone,
    ?_, by decide, (without "t3").1 (by decide)⟩
  · rw [kinds]
    rfl
  · exact (names "t2" second).mpr ⟨by simp, rfl⟩
  · rw [fewer, kinds]
    rfl

end Catalog
end SqlAudit
