import Mathlib.Tactic.MkIffOfInductiveProp
import SqlAudit.Proofs.Catalog.Layer
/-!
The first rule at fault. What is wrong with a rule may depend on the names of those before it, so
the rules are tried in their order, and the first one that is refused decides what is reported.
-/
namespace SqlAudit

/-- The rule has no name, or nothing to say. -/
def Rule.Incomplete (rule : Rule) : Prop :=
  Text.isBlankText rule.id = true ∨ Text.isBlankText rule.message = true

instance (rule : Rule) : Decidable rule.Incomplete := inferInstanceAs (Decidable (_ ∨ _))

namespace Catalog

/-- What is wrong with a rule that comes after rules of these names. -/
abbrev Fault := List String → Rule → Option CatalogError

/-- What is wrong with the first rule at fault. -/
def firstFaultBy (fault : Fault) (seen : List String) : List Rule → Option CatalogError
  | [] => none
  | rule :: rules => (fault seen rule).or (firstFaultBy fault (rule.id :: seen) rules)

/-- What is wrong with a rule of a catalog. -/
def plainFault (version : String) : Fault := fun seen rule =>
  if rule.Incomplete then some (.invalidRule rule.id .blank)
  else if rule.id ∈ seen then some (.duplicateRule rule.id version)
  else none

variable {fault : Fault} {version : String} {seen : List String} {before rules : List Rule}
  {error : CatalogError}

/-- The names of rules, the last one first. -/
theorem ids_reverse_cons (rule : Rule) (rules : List Rule) (seen : List String) :
    (ids (rule :: rules)).reverse ++ seen = (ids rules).reverse ++ rule.id :: seen := by
  simp [ids]

theorem firstFaultBy_append : firstFaultBy fault seen (before ++ rules) =
    (firstFaultBy fault seen before).or
      (firstFaultBy fault ((ids before).reverse ++ seen) rules) := by
  induction before generalizing seen with
  | nil => rfl
  | cons rule before ih =>
      rw [List.cons_append, firstFaultBy, firstFaultBy, ih, Option.or_assoc, ids_reverse_cons]

theorem firstFaultBy_eq_some_iff : firstFaultBy fault seen rules = some error ↔
    ∃ before rule after, rules = before ++ rule :: after ∧
      firstFaultBy fault seen before = none ∧
      fault ((ids before).reverse ++ seen) rule = some error := by
  constructor
  · intro found
    induction rules generalizing seen with
    | nil => cases found
    | cons rule rules ih =>
        rw [firstFaultBy] at found
        cases here : fault seen rule with
        | some own =>
            rw [here, Option.some_or] at found
            exact ⟨[], rule, rules, rfl, rfl, here.trans found⟩
        | none =>
            rw [here, Option.none_or] at found
            obtain ⟨before, last, after, split, sound, wrong⟩ := ih found
            refine ⟨rule :: before, last, after, congrArg _ split, ?_, ?_⟩
            · rw [firstFaultBy, here, Option.none_or, sound]
            · rwa [ids_reverse_cons]
  · intro ⟨before, rule, after, split, sound, wrong⟩
    rw [split, firstFaultBy_append, sound, Option.none_or, firstFaultBy, wrong, Option.some_or]

theorem firstFaultBy_eq_none_iff : firstFaultBy fault seen rules = none ↔
    ∀ before rule after, rules = before ++ rule :: after →
      fault ((ids before).reverse ++ seen) rule = none := by
  constructor
  · intro sound before rule after split
    rw [split, firstFaultBy_append, Option.or_eq_none_iff, firstFaultBy,
      Option.or_eq_none_iff] at sound
    exact sound.2.1
  · intro sound
    rw [Option.eq_none_iff_forall_ne_some]
    intro error found
    obtain ⟨before, rule, after, split, -, wrong⟩ := firstFaultBy_eq_some_iff.mp found
    rw [sound before rule after split] at wrong
    cases wrong

theorem firstFault?_eq (version : String) (seen : List String) (rules : List Rule) :
    firstFault? version seen rules = firstFaultBy (plainFault version) seen rules := by
  induction rules generalizing seen with
  | nil => rfl
  | cons rule rules ih =>
      have blank : (Text.isBlankText rule.id || Text.isBlankText rule.message) = true ↔
          rule.Incomplete := Bool.or_eq_true_iff
      rw [firstFault?, firstFaultBy, plainFault, ih]
      by_cases incomplete : rule.Incomplete
      · rw [if_pos incomplete, if_pos (blank.mpr incomplete), Option.some_or]
      · rw [if_neg incomplete, if_neg (mt blank.mp incomplete)]
        by_cases again : rule.id ∈ seen <;> simp [again]

/-- Rules that a catalog can be built of: complete ones, each with a name of its own. -/
@[mk_iff] structure Usable (rules : List Rule) : Prop where
  complete : ∀ rule ∈ rules, ¬ rule.Incomplete
  named : (ids rules).Nodup

theorem plainFault_eq_none_iff {rule : Rule} :
    plainFault version seen rule = none ↔ ¬ rule.Incomplete ∧ rule.id ∉ seen := by
  rw [plainFault]
  split
  · simp [*]
  · split <;> simp [*]

theorem plainFault_eq_some_iff {rule : Rule} : plainFault version seen rule = some error ↔
    rule.Incomplete ∧ error = .invalidRule rule.id .blank ∨
      ¬ rule.Incomplete ∧ rule.id ∈ seen ∧ error = .duplicateRule rule.id version := by
  rw [plainFault]
  split
  · simp [*, eq_comm]
  · split <;> simp [*, eq_comm]

theorem noPlainFault_iff : firstFaultBy (plainFault version) seen rules = none ↔
    Usable rules ∧ ∀ id ∈ ids rules, id ∉ seen := by
  induction rules generalizing seen with
  | nil =>
      have usable : Usable [] := by constructor <;> simp [ids]
      simp [firstFaultBy, usable, ids]
  | cons rule rules ih =>
      rw [firstFaultBy, Option.or_eq_none_iff, plainFault_eq_none_iff, ih]
      constructor
      · intro sound
        obtain ⟨⟨complete, new⟩, usable, apart⟩ := sound
        refine ⟨⟨?_, ?_⟩, ?_⟩
        · exact List.forall_mem_cons.mpr ⟨complete, usable.complete⟩
        · exact List.nodup_cons.mpr ⟨fun again => apart _ again (.head _), usable.named⟩
        · exact List.forall_mem_cons.mpr ⟨new, fun id member old => apart id member (.tail _ old)⟩
      · intro sound
        obtain ⟨usable, apart⟩ := sound
        obtain ⟨complete, others⟩ := List.forall_mem_cons.mp usable.complete
        obtain ⟨first, named⟩ := List.nodup_cons.mp usable.named
        obtain ⟨new, later⟩ := List.forall_mem_cons.mp apart
        refine ⟨⟨complete, new⟩, ⟨others, named⟩, ?_⟩
        intro id member old
        rcases List.mem_cons.mp old with rfl | inside
        · exact first member
        · exact later id member inside

end Catalog
end SqlAudit
