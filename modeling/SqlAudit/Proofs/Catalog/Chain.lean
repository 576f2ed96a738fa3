import SqlAudit.Proofs.Catalog.Climb
/-!
The versions that a version builds on, the one without a parent first: those on the way up from it,
in the order in which their rules are put together.
-/
namespace SqlAudit.Catalog.Definition

/-- `names` leads from a version without a parent to `name`, each the parent of the next. -/
inductive Ascent (definition : Definition) : String → List String → Prop where
  | root {name version} (found : definition.version? name = some version)
      (free : version.parent = none) : Ascent definition name [name]
  | step {name parent version above} (found : definition.version? name = some version)
      (inherits : version.parent = some parent) (lower : Ascent definition parent above)
      (new : name ∉ above) : Ascent definition name (above ++ [name])

variable {definition : Definition} {name parent top : String} {version : Version}
  {names path : List String}

namespace Ascent

theorem climbs (ascent : Ascent definition name names) : ∃ path top version,
    Climbs definition name path top ∧ definition.version? top = some version ∧
      version.parent = none ∧ names = (path ++ [top]).reverse := by
  induction ascent with
  | root found free => exact ⟨[], _, _, .here, found, free, rfl⟩
  | @step name parent version above found inherits lower new ih =>
      obtain ⟨path, top, last, climbs, reached, free, rfl⟩ := ih
      have whole := Climbs.up ((parent?_of_found found).trans inherits) climbs
      exact ⟨name :: path, top, last, whole, reached, free, by simp⟩

theorem of_climbs (climbs : Climbs definition name path top)
    (reached : definition.version? top = some version) (free : version.parent = none) :
    Ascent definition name (path ++ [top]).reverse := by
  induction climbs with
  | here => exact .root reached free
  | up inherits onward ih =>
      have stops := (parent?_of_found reached).trans free
      obtain ⟨new, -⟩ := List.nodup_cons.mp ((Climbs.up inherits onward).distinct stops)
      obtain ⟨version, found, goes⟩ := found_of_parent? inherits
      rw [List.cons_append, List.reverse_cons]
      exact .step found goes (ih reached) (by rwa [List.mem_reverse])

theorem inherits_iff (found : definition.version? name = some version)
    (inherits : version.parent = some parent) :
    Ascent definition name names ↔
      ∃ above, Ascent definition parent above ∧ names = above ++ [name] := by
  constructor
  · intro ascent
    cases ascent with
    | root found' free =>
        cases found.symm.trans found'
        cases free.symm.trans inherits
    | step found' inherits' lower _ =>
        cases found.symm.trans found'
        cases inherits.symm.trans inherits'
        exact ⟨_, lower, rfl⟩
  · intro ⟨above, lower, same⟩
    obtain ⟨path, top, last, climbs, reached, free, rfl⟩ := lower.climbs
    have whole := Climbs.up ((parent?_of_found found).trans inherits) climbs
    rw [same]
    simpa using of_climbs whole reached free

end Ascent

/-- The chain is found wherever there is one. -/
theorem chain_eq_ok_iff : definition.chain name = .ok names ↔ Ascent definition name names := by
  rw [chain_eq_iff]
  constructor
  · intro outcome
    cases outcome with
    | root climbs reached free => exact .of_climbs climbs reached free
  · intro ascent
    obtain ⟨path, top, version, climbs, reached, free, rfl⟩ := ascent.climbs
    exact .root climbs reached free

end SqlAudit.Catalog.Definition
