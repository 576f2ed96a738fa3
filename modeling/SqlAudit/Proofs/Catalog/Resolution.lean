import SqlAudit.Proofs.Catalog.Chain
import SqlAudit.Proofs.Catalog.Layer
import SqlAudit.Proofs.Catalog.Named
/-!
The rules in force for a version. They can be had of the rules in force for its parent, whatever
lies above, and what a version adds cannot make up for a parent that is wrong. Rules that a
definition resolves to are never refused by the catalog that is built of them.
-/
namespace SqlAudit.Catalog

namespace Definition

variable {definition : Definition} {name parent : String} {version : Version}
  {names : List String} {rules inherited : List Rule}

theorem resolve_eq_ok_iff : definition.resolve name = .ok rules ↔
    ∃ names, Ascent definition name names ∧ names.foldlM definition.apply [] = .ok rules := by
  rw [resolve, bind_eq_ok_iff]
  exact exists_congr fun _ => and_congr chain_eq_ok_iff Iff.rfl

theorem resolve_of_inherited (found : definition.version? name = some version)
    (inherits : version.parent = some parent) (resolved : definition.resolve parent = .ok inherited) :
    definition.resolve name = definition.apply inherited name := by
  obtain ⟨above, lower, folded⟩ := resolve_eq_ok_iff.mp resolved
  have ascent := (Ascent.inherits_iff found inherits).mpr ⟨above, lower, rfl⟩
  calc
    _ = (above ++ [name]).foldlM definition.apply [] := by
      rw [resolve, chain_eq_ok_iff.mpr ascent]
      rfl
    _ = definition.apply inherited name >>= pure := by
      rw [List.foldlM_append, folded]
      rfl
    _ = definition.apply inherited name := bind_pure _

/-- A version is resolved only if its parent is. -/
theorem resolve_inherits (found : definition.version? name = some version)
    (inherits : version.parent = some parent) (resolved : definition.resolve name = .ok rules) :
    ∃ inherited, definition.resolve parent = .ok inherited := by
  obtain ⟨names, ascent, folded⟩ := resolve_eq_ok_iff.mp resolved
  obtain ⟨above, lower, rfl⟩ := (Ascent.inherits_iff found inherits).mp ascent
  rw [List.foldlM_append, bind_eq_ok_iff] at folded
  obtain ⟨inherited, upper, -⟩ := folded
  exact ⟨inherited, resolve_eq_ok_iff.mpr ⟨above, lower, upper⟩⟩

theorem resolve_root (found : definition.version? name = some version)
    (free : version.parent = none) : definition.resolve name = definition.apply [] name := by
  calc
    _ = [name].foldlM definition.apply [] := by
      rw [resolve, chain_eq_ok_iff.mpr (.root found free)]
      rfl
    _ = definition.apply [] name >>= pure := rfl
    _ = definition.apply [] name := bind_pure _

theorem sound_nil : Sound [] := by
  constructor <;> simp [ids]

/-- Each version on the way keeps the rules sound. -/
theorem Ascent.sound (ascent : Ascent definition name names)
    (folded : names.foldlM definition.apply [] = .ok rules) : Sound rules := by
  induction ascent generalizing rules with
  | root found _ =>
      obtain ⟨between, applied, kept⟩ := bind_eq_ok_iff.mp folded
      cases kept
      obtain ⟨fits, rfl⟩ := (apply_eq_ok_iff found).mp applied
      exact fits.sound sound_nil
  | step found _ _ _ ih =>
      rw [List.foldlM_append] at folded
      obtain ⟨inherited, upper, last⟩ := bind_eq_ok_iff.mp folded
      obtain ⟨between, applied, kept⟩ := bind_eq_ok_iff.mp last
      cases kept
      obtain ⟨fits, rfl⟩ := (apply_eq_ok_iff found).mp applied
      exact fits.sound (ih upper)

theorem resolve_sound (resolved : definition.resolve name = .ok rules) : Sound rules := by
  obtain ⟨names, ascent, folded⟩ := resolve_eq_ok_iff.mp resolved
  exact ascent.sound folded

end Definition

theorem Sound.usable {rules : List Rule} (sound : Sound rules) : Usable rules := by
  constructor
  · intro rule member incomplete
    have valid := sound.valid rule member
    rcases incomplete with unnamed | silent
    · cases valid.named.symm.trans unnamed
    · cases valid.worded.symm.trans silent
  · exact sound.named

theorem ofDefinition_resolved {definition : Definition} {requested : Option String}
    {rules : List Rule}
    (resolved : definition.resolve (requested.getD definition.defaultVersion) = .ok rules) :
    ∃ catalog, ofDefinition definition requested = .ok catalog ∧
      ofRules (requested.getD definition.defaultVersion) rules = .ok catalog ∧
      catalog.version = requested.getD definition.defaultVersion := by
  obtain ⟨catalog, built, labelled⟩ := exists_ofRules (requested.getD definition.defaultVersion)
    (Definition.resolve_sound resolved).usable
  refine ⟨catalog, ?_, built, labelled⟩
  rw [ofDefinition, resolved]
  exact built

/-- Rules that are resolved are sound and make up a catalog. A version that inherits is resolved
only if its parent is; then its rules are what it makes of those of its parent, if it fits. -/
theorem resolve_compositional (definition : Definition) (name : String) :
    (∀ rules, definition.resolve name = .ok rules → Sound rules ∧
      ∀ requested : Option String, requested.getD definition.defaultVersion = name →
        ∃ catalog, ofDefinition definition requested = .ok catalog ∧ catalog.version = name ∧
          catalog.rules.Perm rules ∧
          ∀ kind, catalog.rulesFor kind = rules.filter fun rule => rule.target = kind) ∧
    ∀ version parent, definition.version? name = some version → version.parent = some parent →
      ((∃ error, definition.resolve parent = .error error) →
        ∃ error, definition.resolve name = .error error) ∧
      ∀ inherited, definition.resolve parent = .ok inherited →
        definition.resolve name = definition.apply inherited name ∧
        ∀ rules, definition.resolve name = .ok rules ↔
          version.Fits inherited ∧ rules = version.applied inherited := by
  constructor
  · intro rules resolved
    refine ⟨Definition.resolve_sound resolved, ?_⟩
    rintro requested rfl
    obtain ⟨catalog, loaded, built, labelled⟩ := ofDefinition_resolved resolved
    exact ⟨catalog, loaded, labelled, (ofRules_named built).2, ofRules_rulesFor built⟩
  · intro version parent found inherits
    constructor
    · rintro ⟨error, failed⟩
      cases resolved : definition.resolve name with
      | error error => exact ⟨error, rfl⟩
      | ok rules =>
          obtain ⟨inherited, upper⟩ := Definition.resolve_inherits found inherits resolved
          cases failed.symm.trans upper
    · intro inherited upper
      have layered := Definition.resolve_of_inherited found inherits upper
      refine ⟨layered, ?_⟩
      intro rules
      rw [layered]
      exact Definition.apply_eq_ok_iff found

/-- Version 2 replaces `b`, drops `c` and adds `d`. -/
def layered : Definition := ⟨"2", [
  ("1", ⟨none, [
    ⟨⟨"a", .shardKey, .present, .blocker, "a"⟩, false⟩,
    ⟨⟨"b", .tablespace, .present, .warning, "b"⟩, false⟩,
    ⟨⟨"c", .inherits, .present, .info, "c"⟩, false⟩], []⟩),
  ("2", ⟨some "1", [
    ⟨⟨"b", .tablespace, .present, .info, "b2"⟩, true⟩,
    ⟨⟨"d", .onCommit, .present, .blocker, "d"⟩, false⟩], ["c"]⟩)]⟩

theorem layered_resolved : ∃ inherited rules catalog, layered.resolve "1" = .ok inherited ∧
    ids inherited = ["a", "b", "c"] ∧ layered.resolve "2" = .ok rules ∧
    ids rules = ["a", "b", "d"] ∧ ofDefinition layered none = .ok catalog ∧
    (catalog.rulesFor .tablespace).map (·.message) = ["b2"] := by
  have upper : layered.resolve "1" = .ok [⟨"a", .shardKey, .present, .blocker, "a"⟩,
    ⟨"b", .tablespace, .present, .warning, "b"⟩, ⟨"c", .inherits, .present, .info, "c"⟩] := rfl
  obtain ⟨catalogs, layers⟩ := resolve_compositional layered "2"
  obtain ⟨-, layer⟩ := layers _ "1" rfl rfl
  obtain ⟨-, exactly⟩ := layer _ upper
  have lower := (exactly _).mpr ⟨by decide, rfl⟩
  obtain ⟨-, catalog⟩ := catalogs _ lower
  obtain ⟨catalog, built, -, -, kinds⟩ := catalog none rfl
  exact ⟨_, _, catalog, upper, rfl, lower, by decide, built, by rw [kinds]; decide⟩

end SqlAudit.Catalog
