import Mathlib.Tactic.Tauto
import SqlAudit.Catalog.Definition
/-!
What a version makes of the rules that it inherits. It fits on them if its own rules are complete
and named apart, if it says of each whether it replaces an inherited one, and if what it disables is
there. Then those that it replaces stay where they are, its other rules follow, and the disabled
ones are gone.
-/
namespace SqlAudit

/-- A rule that a version may declare. -/
structure Rule.Valid (rule : Rule) : Prop where
  named : Text.isBlankText rule.id = false
  worded : Text.isBlankText rule.message = false
  allowed : rule.target ≠ .unparsed

theorem Text.isBlankText_of_front {text : String} (ink : text.front?.any (!isBlank ·) = true) :
    isBlankText text = false := by
  rw [String.front?_eq] at ink
  cases spelled : text.toList with
  | nil => simp [spelled] at ink
  | cons c rest =>
      rw [spelled] at ink
      have inked : isBlank c = false := by simpa using ink
      simp [isBlankText, spelled, inked]

-- The first character, which is tried first, saves reading the texts to their ends.
instance (rule : Rule) : Decidable rule.Valid :=
  decidable_of_iff
    ((rule.id.front?.any (!Text.isBlank ·) = true ∨ Text.isBlankText rule.id = false) ∧
      (rule.message.front?.any (!Text.isBlank ·) = true ∨ Text.isBlankText rule.message = false) ∧
      rule.target ≠ .unparsed)
    ⟨fun ⟨named, worded, allowed⟩ => ⟨named.elim Text.isBlankText_of_front id,
        worded.elim Text.isBlankText_of_front id, allowed⟩,
      fun ⟨named, worded, allowed⟩ => ⟨.inr named, .inr worded, allowed⟩⟩

namespace Catalog

def ids (rules : List Rule) : List String := rules.map (·.id)

theorem ids_filter (keep : String → Bool) (rules : List Rule) :
    ids (rules.filter fun rule => keep rule.id) = (ids rules).filter keep :=
  List.filter_map.symm

namespace Declaration

variable {declarations : List Declaration} {inherited rules : List Rule}

/-- The declaration that replaces `rule`, or else `rule` itself. -/
def replacement (declarations : List Declaration) (rule : Rule) : Rule :=
  match declarations.find? fun declaration =>
      declaration.replaces && declaration.rule.id == rule.id with
  | some declaration => declaration.rule
  | none => rule

def added (declarations : List Declaration) : List Rule :=
  (declarations.filter fun declaration => !declaration.replaces).map (·.rule)

def overlay (declarations : List Declaration) (inherited : List Rule) : List Rule :=
  inherited.map (replacement declarations) ++ added declarations

/-- The declarations can be made upon the inherited rules: those that replace one are the ones whose
name is taken. -/
structure Fits (declarations : List Declaration) (inherited : List Rule) : Prop where
  valid : ∀ declaration ∈ declarations, declaration.rule.Valid
  distinct : (declarations.map (·.rule.id)).Nodup
  known : ∀ declaration ∈ declarations,
    (declaration.replaces = true ↔ declaration.rule.id ∈ ids inherited)

theorem replacement_id (declarations : List Declaration) (rule : Rule) :
    (replacement declarations rule).id = rule.id := by
  rw [replacement]
  split
  · rename_i found
    have matched := List.find?_some found
    simp only [Bool.and_eq_true, beq_iff_eq] at matched
    exact matched.2
  · rfl

theorem replacement_of_new {rule : Rule}
    (new : rule.id ∉ declarations.map (·.rule.id)) : replacement declarations rule = rule := by
  rw [replacement]
  split
  · rename_i found
    have matched := List.find?_some found
    simp only [Bool.and_eq_true, beq_iff_eq] at matched
    exact absurd (matched.2 ▸ List.mem_map_of_mem (List.mem_of_find?_eq_some found)) new
  · rfl

theorem replacement_eq_or (declarations : List Declaration) (rule : Rule) :
    replacement declarations rule = rule ∨
      ∃ declaration ∈ declarations, declaration.rule = replacement declarations rule := by
  rw [replacement]
  split
  · rename_i found
    exact .inr ⟨_, List.mem_of_find?_eq_some found, rfl⟩
  · exact .inl rfl

theorem replacement_cons_replaces (rule other : Rule) (declarations : List Declaration)
    (last : rule.id ∉ declarations.map (·.rule.id)) :
    replacement (⟨rule, true⟩ :: declarations) other =
      replacement declarations (if other.id == rule.id then rule else other) := by
  by_cases same : other.id = rule.id
  · rw [if_pos (by simpa using same), replacement_of_new last]
    simp [replacement, same]
  · have apart : (rule.id == other.id) = false := by simpa using Ne.symm same
    rw [if_neg (by simpa using same)]
    simp [replacement, apart]

theorem overlay_cons_replaces (rule : Rule) (declarations : List Declaration)
    (inherited : List Rule) (last : rule.id ∉ declarations.map (·.rule.id)) :
    overlay (⟨rule, true⟩ :: declarations) inherited =
      overlay declarations (Definition.replaceRule rule inherited) := by
  simp [overlay, added, Definition.replaceRule, replacement_cons_replaces _ _ _ last]

theorem overlay_cons_adds (rule : Rule) (declarations : List Declaration) (inherited : List Rule)
    (last : rule.id ∉ declarations.map (·.rule.id)) :
    overlay (⟨rule, false⟩ :: declarations) inherited =
      overlay declarations (inherited ++ [rule]) := by
  have same : replacement (⟨rule, false⟩ :: declarations) = replacement declarations := by
    funext other
    simp [replacement]
  simp [overlay, added, same, replacement_of_new last]

theorem fits_cons {declaration : Declaration} : Fits (declaration :: declarations) inherited ↔
    declaration.rule.Valid ∧ declaration.rule.id ∉ declarations.map (·.rule.id) ∧
      (declaration.replaces = true ↔ declaration.rule.id ∈ ids inherited) ∧
      Fits declarations inherited := by
  constructor
  · intro fits
    have ⟨valid, others⟩ := List.forall_mem_cons.mp fits.valid
    have ⟨last, distinct⟩ := List.nodup_cons.mp fits.distinct
    have ⟨known, rest⟩ := List.forall_mem_cons.mp fits.known
    exact ⟨valid, last, known, others, distinct, rest⟩
  · rintro ⟨valid, last, known, fits⟩
    constructor
    · exact List.forall_mem_cons.mpr ⟨valid, fits.valid⟩
    · exact List.nodup_cons.mpr ⟨last, fits.distinct⟩
    · exact List.forall_mem_cons.mpr ⟨known, fits.known⟩

/-- Only the names of the inherited rules count, and only those that are declared again. -/
theorem fits_congr (same : ∀ id ∈ declarations.map (·.rule.id),
      (id ∈ ids inherited ↔ id ∈ ids rules)) :
    Fits declarations inherited ↔ Fits declarations rules := by
  have known : (∀ declaration ∈ declarations,
        (declaration.replaces = true ↔ declaration.rule.id ∈ ids inherited)) ↔
      ∀ declaration ∈ declarations,
        (declaration.replaces = true ↔ declaration.rule.id ∈ ids rules) :=
    forall₂_congr fun _ member => by rw [same _ (List.mem_map_of_mem member)]
  constructor
  · exact fun fits => ⟨fits.valid, fits.distinct, known.mp fits.known⟩
  · exact fun fits => ⟨fits.valid, fits.distinct, known.mpr fits.known⟩

theorem ids_replaced (declarations : List Declaration) (inherited : List Rule) :
    ids (inherited.map (replacement declarations)) = ids inherited := by
  simp [ids, replacement_id]

theorem ids_overlay (declarations : List Declaration) (inherited : List Rule) :
    ids (overlay declarations inherited) = ids inherited ++ ids (added declarations) := by
  rw [overlay, ids, List.map_append]
  exact congrArg (· ++ _) (ids_replaced declarations inherited)

theorem mem_ids_added {id : String} : id ∈ ids (added declarations) ↔
    ∃ declaration ∈ declarations, declaration.replaces = false ∧ declaration.rule.id = id := by
  simp [ids, added, and_assoc]

theorem Fits.overlay_named (fits : Fits declarations inherited) (names : (ids inherited).Nodup) :
    (ids (overlay declarations inherited)).Nodup := by
  rw [ids_overlay, List.nodup_append]
  refine ⟨names, ?_, ?_⟩
  · rw [ids, added, List.map_map]
    exact fits.distinct.sublist (List.filter_sublist.map _)
  · rintro id old _ new rfl
    obtain ⟨declaration, listed, adds, rfl⟩ := mem_ids_added.mp new
    simp [(fits.known declaration listed).mpr old] at adds

theorem Fits.overlay_valid (fits : Fits declarations inherited)
    (valid : ∀ rule ∈ inherited, rule.Valid) :
    ∀ rule ∈ overlay declarations inherited, rule.Valid := by
  intro rule member
  rcases List.mem_append.mp member with old | new
  · obtain ⟨other, listed, rfl⟩ := List.mem_map.mp old
    rcases replacement_eq_or declarations other with kept | ⟨declaration, declared, same⟩
    · exact kept.symm ▸ valid other listed
    · exact same ▸ fits.valid declaration declared
  · obtain ⟨declaration, declared, rfl⟩ := List.mem_map.mp new
    exact fits.valid declaration (List.mem_filter.mp declared).1

instance : Decidable (Fits declarations inherited) :=
  decidable_of_iff ((∀ declaration ∈ declarations, declaration.rule.Valid) ∧
      (declarations.map (·.rule.id)).Nodup ∧ ∀ declaration ∈ declarations,
        (declaration.replaces = true ↔ declaration.rule.id ∈ ids inherited))
    ⟨fun ⟨valid, distinct, known⟩ => ⟨valid, distinct, known⟩,
      fun ⟨valid, distinct, known⟩ => ⟨valid, distinct, known⟩⟩

end Declaration

namespace Version

/-- The version can be made of the inherited rules; it disables none twice. -/
structure Fits (version : Version) (inherited : List Rule) : Prop where
  declared : Declaration.Fits version.declarations inherited
  once : version.disabled.Nodup
  present : ∀ id ∈ version.disabled,
    id ∈ ids (Declaration.overlay version.declarations inherited)

def applied (version : Version) (inherited : List Rule) : List Rule :=
  (Declaration.overlay version.declarations inherited).filter (·.id ∉ version.disabled)

instance (version : Version) (inherited : List Rule) : Decidable (version.Fits inherited) :=
  decidable_of_iff (Declaration.Fits version.declarations inherited ∧ version.disabled.Nodup ∧
      ∀ id ∈ version.disabled, id ∈ ids (Declaration.overlay version.declarations inherited))
    ⟨fun ⟨declared, once, present⟩ => ⟨declared, once, present⟩,
      fun ⟨declared, once, present⟩ => ⟨declared, once, present⟩⟩

end Version

/-- Rules that may stand together in a catalog. -/
structure Sound (rules : List Rule) : Prop where
  named : (ids rules).Nodup
  valid : ∀ rule ∈ rules, rule.Valid

theorem Version.Fits.sound {version : Version} {inherited : List Rule}
    (fits : version.Fits inherited) (sound : Sound inherited) :
    Sound (version.applied inherited) := by
  constructor
  · exact (fits.declared.overlay_named sound.named).sublist (List.filter_sublist.map _)
  · intro rule member
    exact fits.declared.overlay_valid sound.valid rule (List.mem_filter.mp member).1

namespace Definition

open Declaration (overlay)

variable {name : String} {seen disabled : List String} {declarations : List Declaration}
  {rules result : List Rule}

theorem defect?_eq_none_iff {rule : Rule} : defect? rule = none ↔ rule.Valid := by
  constructor
  · intro sound
    rw [defect?] at sound
    split at sound
    · cases sound
    · split at sound
      · cases sound
      · split at sound
        · cases sound
        · rename_i named worded allowed
          exact ⟨by simpa using named, by simpa using worded, allowed⟩
  · intro valid
    simp [defect?, valid.named, valid.worded, valid.allowed]

theorem ids_replaceRule (rule : Rule) (rules : List Rule) :
    ids (replaceRule rule rules) = ids rules := by
  simp only [ids, replaceRule, List.map_map]
  apply List.map_congr_left
  intro other _
  by_cases same : other.id = rule.id <;> simp [same]

theorem any_id_iff {id : String} : (rules.any fun rule => rule.id == id) = true ↔ id ∈ ids rules := by
  simp [ids]

theorem declare_cons_eq_ok_iff {rule : Rule} {replaces : Bool} :
    declare name seen rules (⟨rule, replaces⟩ :: declarations) = .ok result ↔
      rule.Valid ∧ rule.id ∉ seen ∧ (replaces = true ↔ rule.id ∈ ids rules) ∧
        declare name (rule.id :: seen)
          (if replaces then replaceRule rule rules else rules ++ [rule]) declarations =
          .ok result := by
  rw [declare, ← defect?_eq_none_iff, ← any_id_iff]
  cases defect? rule with
  | some defect => simp
  | none =>
      cases rules.any (fun other => other.id == rule.id) <;> cases replaces <;>
        by_cases again : rule.id ∈ seen <;> simp [again]

theorem ids_declared (rule : Rule) (replaces : Bool) (rules : List Rule) {id : String}
    (other : id ≠ rule.id) :
    (id ∈ ids (if replaces then replaceRule rule rules else rules ++ [rule]) ↔ id ∈ ids rules) := by
  cases replaces with
  | true => exact iff_of_eq (congrArg (id ∈ ·) (ids_replaceRule rule rules))
  | false => simp [ids, other]

theorem overlay_cons (rule : Rule) (replaces : Bool) (rules : List Rule)
    (last : rule.id ∉ declarations.map (·.rule.id)) :
    overlay (⟨rule, replaces⟩ :: declarations) rules = overlay declarations
      (if replaces then replaceRule rule rules else rules ++ [rule]) := by
  cases replaces with
  | true => exact Declaration.overlay_cons_replaces rule declarations rules last
  | false => exact Declaration.overlay_cons_adds rule declarations rules last

theorem declare_eq_ok_iff : declare name seen rules declarations = .ok result ↔
    Declaration.Fits declarations rules ∧ (∀ id ∈ declarations.map (·.rule.id), id ∉ seen) ∧
      result = overlay declarations rules := by
  induction declarations generalizing seen rules with
  | nil =>
      have fits : Declaration.Fits [] rules := by constructor <;> simp
      have same : Declaration.replacement [] = id := rfl
      simp [declare, overlay, Declaration.added, fits, same, eq_comm]
  | cons declaration declarations ih =>
      obtain ⟨rule, replaces⟩ := declaration
      rw [declare_cons_eq_ok_iff, Declaration.fits_cons, ih]
      by_cases last : rule.id ∈ declarations.map (·.rule.id)
      · constructor
        · rintro ⟨-, -, -, -, unseen, -⟩
          exact absurd (.head _) (unseen _ last)
        · rintro ⟨⟨-, first, -⟩, -⟩
          exact absurd last first
      · rw [overlay_cons rule replaces rules last, Declaration.fits_congr fun id member =>
          ids_declared rule replaces rules fun same => last (same ▸ member)]
        have unseen : (∀ id ∈ declarations.map (·.rule.id), id ∉ rule.id :: seen) ↔
            ∀ id ∈ declarations.map (·.rule.id), id ∉ seen := by
          apply forall₂_congr
          intro id member
          have other : id ≠ rule.id := fun same => last (same ▸ member)
          simp [other]
        rw [unseen, List.map_cons, List.forall_mem_cons]
        tauto

/-- What is there after `id` is gone was there before, and is not `id`. -/
theorem present_without {id : String} :
    (∀ other ∈ disabled, other ∈ ids (rules.filter fun rule => rule.id != id)) ↔
      id ∉ disabled ∧ ∀ other ∈ disabled, other ∈ ids rules := by
  rw [ids_filter (· != id)]
  constructor
  · intro kept
    constructor
    · exact fun again => by simpa using (List.mem_filter.mp (kept id again)).2
    · exact fun other member => (List.mem_filter.mp (kept other member)).1
  · rintro ⟨once, there⟩ other member
    have apart : other ≠ id := fun same => once (same ▸ member)
    exact List.mem_filter.mpr ⟨there other member, by simpa using apart⟩

theorem filter_without (id : String) (disabled : List String) (rules : List Rule) :
    (rules.filter fun rule => rule.id != id).filter (·.id ∉ disabled) =
      rules.filter (·.id ∉ id :: disabled) := by
  rw [List.filter_filter]
  apply List.filter_congr
  intro rule _
  by_cases same : rule.id = id <;> simp [same]

theorem disable_eq_ok_iff : disable name rules disabled = .ok result ↔
    (disabled.Nodup ∧ ∀ id ∈ disabled, id ∈ ids rules) ∧
      result = rules.filter (·.id ∉ disabled) := by
  induction disabled generalizing rules with
  | nil =>
      have same : (rules.filter fun _ => true) = rules := List.filter_eq_self.mpr fun _ _ => rfl
      simp [disable, eq_comm, same]
  | cons id disabled ih =>
      rw [disable]
      by_cases here : id ∈ ids rules
      · rw [if_pos (any_id_iff.mpr here), ih, present_without, filter_without, List.nodup_cons,
          List.forall_mem_cons]
        tauto
      · rw [if_neg (mt any_id_iff.mp here)]
        simp [here]

theorem bind_eq_ok_iff {α β : Type} {first : Except CatalogError α}
    {next : α → Except CatalogError β} {last : β} :
    first >>= next = .ok last ↔ ∃ between, first = .ok between ∧ next between = .ok last := by
  cases first <;> simp [bind, Except.bind]

theorem apply_eq_ok_iff {definition : Definition} {version : Version}
    (found : definition.version? name = some version) :
    definition.apply rules name = .ok result ↔
      version.Fits rules ∧ result = version.applied rules := by
  have steps : definition.apply rules name =
      declare name [] rules version.declarations >>= (disable name · version.disabled) := by
    rw [apply, found]
  rw [steps, bind_eq_ok_iff]
  constructor
  · rintro ⟨between, declared, dropped⟩
    obtain ⟨fits, -, rfl⟩ := declare_eq_ok_iff.mp declared
    obtain ⟨⟨once, present⟩, rfl⟩ := disable_eq_ok_iff.mp dropped
    exact ⟨⟨fits, once, present⟩, rfl⟩
  · rintro ⟨fits, rfl⟩
    refine ⟨overlay version.declarations rules, ?_, ?_⟩
    · exact declare_eq_ok_iff.mpr ⟨fits.declared, fun _ _ => List.not_mem_nil, rfl⟩
    · exact disable_eq_ok_iff.mpr ⟨⟨fits.once, fits.present⟩, rfl⟩

end Definition
end Catalog
end SqlAudit
