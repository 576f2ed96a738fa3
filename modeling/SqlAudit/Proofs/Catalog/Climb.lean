import Mathlib.Data.List.Chain
import Mathlib.Data.List.Nodup
import Mathlib.Data.List.Perm.Subperm
import SqlAudit.Catalog.Definition
/-!
The way up from a version, from parent to parent. It ends at a version without a parent, leaves the
definition where a parent is missing, or comes back to a version that it has passed. The search for
the versions that one builds on says which of these it is, and its bound never cuts the way short:
no way passes more versions than there are before it comes back to one.
-/
namespace SqlAudit.Catalog.Definition

/-- The version that `name` starts from. -/
def parent? (definition : Definition) (name : String) : Option String :=
  (definition.version? name).bind (·.parent)

/-- From `name` the parents lead through the versions of `path` to `top`. -/
inductive Climbs (definition : Definition) : String → List String → String → Prop where
  | here {name} : Climbs definition name [] name
  | up {name parent path top} (inherits : definition.parent? name = some parent)
      (onward : Climbs definition parent path top) : Climbs definition name (name :: path) top

/-- What the way up from `name` comes to. -/
inductive Outcome (definition : Definition) (name : String) :
    Except CatalogError (List String) → Prop where
  | undefined (missing : definition.version? name = none) :
      Outcome definition name (.error (.unknownVersion name))
  | root {path top version} (climbs : Climbs definition name path top)
      (reached : definition.version? top = some version) (free : version.parent = none) :
      Outcome definition name (.ok (path ++ [top]).reverse)
  | dangling {path child parent} (climbs : Climbs definition name path child)
      (inherits : definition.parent? child = some parent)
      (missing : definition.version? parent = none) :
      Outcome definition name (.error (.unknownParent child parent))
  | cycle {path top} (climbs : Climbs definition name path top) (once : path.Nodup)
      (again : top ∈ path) : Outcome definition name (.error (.inheritanceCycle (path ++ [top])))

variable {definition : Definition} {name child parent top other : String} {version last : Version}
  {path before : List String} {rounds : Nat}

theorem parent?_of_found (found : definition.version? name = some version) :
    definition.parent? name = version.parent := by
  rw [parent?, found, Option.bind_some]

theorem parent?_of_missing (missing : definition.version? name = none) :
    definition.parent? name = none := by
  rw [parent?, missing, Option.bind_none]

theorem found_of_parent? (inherits : definition.parent? name = some parent) :
    ∃ version, definition.version? name = some version ∧ version.parent = some parent :=
  Option.bind_eq_some_iff.mp inherits

namespace Climbs

theorem of_missing (climbs : Climbs definition name path top)
    (missing : definition.version? name = none) : path = [] ∧ top = name := by
  cases climbs with
  | here => exact ⟨rfl, rfl⟩
  | up inherits _ => cases (parent?_of_missing missing).symm.trans inherits

theorem snoc (climbs : Climbs definition name path child)
    (inherits : definition.parent? child = some parent) :
    Climbs definition name (path ++ [child]) parent := by
  induction climbs with
  | here => exact .up inherits .here
  | up first _ ih => exact .up first (ih inherits)

/-- Any way up is the beginning of one that cannot be continued. -/
theorem extends_to (climbs : Climbs definition name path top) {whole : List String}
    (ends : Climbs definition name whole other) (stops : definition.parent? other = none) :
    ∃ rest, Climbs definition top rest other ∧ whole = path ++ rest := by
  induction climbs generalizing whole with
  | here => exact ⟨whole, ends, rfl⟩
  | up inherits onward ih =>
      cases ends with
      | here => cases stops.symm.trans inherits
      | up inherits' onward' =>
          cases inherits.symm.trans inherits'
          obtain ⟨rest, climbs, same⟩ := ih onward'
          exact ⟨rest, climbs, congrArg _ same⟩

/-- Each version that is passed has a way of its own, which is no longer. -/
theorem of_mem (climbs : Climbs definition name path top) (member : other ∈ path) :
    ∃ rest, Climbs definition other (other :: rest) top ∧ rest.length < path.length := by
  induction climbs with
  | here => cases member
  | up inherits onward ih =>
      rcases List.mem_cons.mp member with rfl | later
      · exact ⟨_, .up inherits onward, Nat.lt_succ_self _⟩
      · obtain ⟨rest, climbs, shorter⟩ := ih later
        exact ⟨rest, climbs, Nat.lt_succ_of_lt shorter⟩

/-- A way that cannot be continued has one length only, so it never comes back to a version. -/
theorem nodup (climbs : Climbs definition name path top)
    (stops : definition.parent? top = none) : path.Nodup ∧ top ∉ path := by
  induction climbs with
  | here => exact ⟨List.nodup_nil, List.not_mem_nil⟩
  | @up name parent path top inherits onward ih =>
      obtain ⟨once, apart⟩ := ih stops
      constructor
      · apply List.nodup_cons.mpr
        refine ⟨?_, once⟩
        intro again
        obtain ⟨rest, climbs, shorter⟩ := onward.of_mem again
        obtain ⟨beyond, -, same⟩ := (Climbs.up inherits onward).extends_to climbs stops
        have longer : path.length ≤ rest.length := by
          calc
            path.length ≤ (path ++ beyond).length := by simp
            _ = rest.length := congrArg List.length (List.cons.inj same).2.symm
        exact absurd longer (Nat.not_le_of_lt shorter)
      · intro member
        rcases List.mem_cons.mp member with rfl | later
        · cases stops.symm.trans inherits
        · exact apart later

theorem distinct (climbs : Climbs definition name path top)
    (stops : definition.parent? top = none) : (path ++ [top]).Nodup := by
  obtain ⟨once, apart⟩ := climbs.nodup stops
  rw [← List.concat_eq_append]
  exact once.concat apart

theorem defined (climbs : Climbs definition name path top) :
    path ⊆ definition.versions.map Prod.fst := by
  induction climbs with
  | here => exact List.nil_subset _
  | up inherits _ ih =>
      obtain ⟨version, found, -⟩ := found_of_parent? inherits
      obtain ⟨before, after, split, -⟩ := List.lookup_eq_some_iff.mp found
      exact List.cons_subset.mpr ⟨by simp [split], ih⟩

theorem length_le (climbs : Climbs definition name path top) (once : path.Nodup) :
    path.length ≤ definition.versions.length := by
  simpa using (once.subperm climbs.defined).length_le

theorem found (climbs : Climbs definition name path top)
    (reached : definition.version? top = some last) :
    ∃ version, definition.version? name = some version := by
  cases climbs with
  | here => exact ⟨last, reached⟩
  | up inherits _ =>
      obtain ⟨version, found, -⟩ := found_of_parent? inherits
      exact ⟨version, found⟩

theorem head (climbs : Climbs definition name path top) : (path ++ [top]).head? = some name := by
  cases climbs with
  | here => rfl
  | up _ _ => rfl

theorem links (climbs : Climbs definition name path top) :
    (path ++ [top]).IsChain fun lower upper => definition.parent? lower = some upper := by
  induction climbs with
  | here => exact .singleton _
  | up inherits onward ih =>
      apply List.isChain_cons.mpr
      refine ⟨?_, ih⟩
      intro next first
      cases first.symm.trans onward.head
      exact inherits

/-- The search goes this way, a round for each version on it. -/
theorem follow_eq (climbs : Climbs definition name path top)
    (found : definition.version? name = some version)
    (reached : definition.version? top = some last) (once : path.Nodup)
    (apart : ∀ other ∈ path, other ∉ before) :
    definition.follow before name version (rounds + path.length) =
      definition.follow (path.reverse ++ before) top last rounds := by
  induction climbs generalizing before version with
  | here =>
      cases found.symm.trans reached
      rfl
  | @up name parent path top inherits onward ih =>
      obtain ⟨new, once⟩ := List.nodup_cons.mp once
      obtain ⟨first, apart⟩ := List.forall_mem_cons.mp apart
      obtain ⟨next, next_found⟩ := onward.found reached
      have goes : version.parent = some parent := (parent?_of_found found).symm.trans inherits
      have later : ∀ other ∈ path, other ∉ name :: before := by
        intro other member
        have distinct : other ≠ name := fun same => new (same ▸ member)
        simp [distinct, apart other member]
      calc
        definition.follow before name version (rounds + (name :: path).length) =
            definition.follow (name :: before) parent next (rounds + path.length) := by
          rw [List.length_cons, ← Nat.add_assoc, follow]
          simp [first, goes, next_found]
        _ = definition.follow (path.reverse ++ name :: before) top last rounds :=
          ih next_found reached once later
        _ = definition.follow ((name :: path).reverse ++ before) top last rounds := by simp

end Climbs

theorem follow_outcome (climbs : Climbs definition name path.reverse top)
    (once : path.Nodup) (found : definition.version? top = some version)
    (enough : definition.versions.length < path.length + rounds) :
    Outcome definition name (definition.follow path top version rounds) := by
  induction rounds generalizing path top version with
  | zero =>
      have short := climbs.length_le (List.nodup_reverse.mpr once)
      rw [List.length_reverse] at short
      exact absurd enough (Nat.not_lt_of_le short)
  | succ rounds ih =>
      rw [follow]
      split
      · rename_i again
        apply Outcome.cycle climbs (List.nodup_reverse.mpr once)
        simpa using again
      · rename_i first
        have first : top ∉ path := by simpa using first
        split
        · rename_i free
          simpa using Outcome.root climbs found free
        · rename_i parent goes
          have inherits : definition.parent? top = some parent :=
            (parent?_of_found found).trans goes
          split
          · rename_i missing
            exact .dangling climbs inherits missing
          · rename_i next next_found
            apply ih
            · rw [List.reverse_cons]
              exact climbs.snoc inherits
            · exact List.nodup_cons.mpr ⟨first, once⟩
            · exact next_found
            · rw [List.length_cons]
              omega

theorem chain_outcome (definition : Definition) (name : String) :
    Outcome definition name (definition.chain name) := by
  rw [chain]
  split
  · exact .undefined ‹_›
  · rename_i found
    exact follow_outcome .here List.nodup_nil found (by simp)

/-- The search comes to this outcome with any bound above the number of versions. -/
theorem Outcome.follow_eq {result : Except CatalogError (List String)}
    (outcome : Outcome definition name result) (found : definition.version? name = some version)
    (enough : definition.versions.length < rounds) :
    definition.follow [] name version rounds = result := by
  have search : ∀ {path top last}, Climbs definition name path top → path.Nodup →
      definition.version? top = some last → ∃ left,
        definition.follow [] name version rounds =
          definition.follow path.reverse top last (left + 1) := by
    intro path top last climbs once reached
    have short := climbs.length_le once
    refine ⟨rounds - path.length - 1, ?_⟩
    calc
      definition.follow [] name version rounds =
          definition.follow [] name version (rounds - path.length - 1 + 1 + path.length) := by
        congr 1
        omega
      _ = definition.follow (path.reverse ++ []) top last (rounds - path.length - 1 + 1) :=
        climbs.follow_eq found reached once fun _ _ => List.not_mem_nil
      _ = definition.follow path.reverse top last (rounds - path.length - 1 + 1) := by
        rw [List.append_nil]
  cases outcome with
  | undefined missing => cases missing.symm.trans found
  | @root path top last climbs reached free =>
      obtain ⟨once, apart⟩ := climbs.nodup ((parent?_of_found reached).trans free)
      obtain ⟨left, same⟩ := search climbs once reached
      rw [same, follow]
      simp [apart, free]
  | @dangling path child parent climbs inherits missing =>
      obtain ⟨once, -⟩ := (climbs.snoc inherits).nodup (parent?_of_missing missing)
      obtain ⟨once, -, apart⟩ := List.nodup_append.mp once
      obtain ⟨last, reached, goes⟩ := found_of_parent? inherits
      obtain ⟨left, same⟩ := search climbs once reached
      have first : child ∉ path := fun member => apart child member child (.head _) rfl
      rw [same, follow]
      simp [first, goes, missing]
  | @cycle path top climbs once again =>
      obtain ⟨rest, lower, -⟩ := climbs.of_mem again
      cases lower with
      | up inherits _ =>
          obtain ⟨last, reached, -⟩ := found_of_parent? inherits
          obtain ⟨left, same⟩ := search climbs once reached
          rw [same, follow]
          simp [again]

theorem chain_eq_iff {result : Except CatalogError (List String)} :
    definition.chain name = result ↔ Outcome definition name result := by
  constructor
  · intro same
    rw [← same]
    exact chain_outcome definition name
  · intro outcome
    rw [chain]
    cases found : definition.version? name with
    | some version => exact outcome.follow_eq found (Nat.lt_succ_self _)
    | none =>
        cases outcome with
        | undefined => rfl
        | root climbs reached =>
            obtain ⟨-, rfl⟩ := climbs.of_missing found
            cases found.symm.trans reached
        | dangling climbs inherits =>
            obtain ⟨-, rfl⟩ := climbs.of_missing found
            cases (parent?_of_missing found).symm.trans inherits
        | cycle climbs _ again =>
            obtain ⟨rfl, -⟩ := climbs.of_missing found
            cases again

/-- A way that comes back to a version never ends. -/
theorem Climbs.never_ends (climbs : Climbs definition name path top) (again : top ∈ path)
    {whole : List String} (ends : Climbs definition name whole other) :
    definition.parent? other ≠ none := by
  intro stops
  obtain ⟨once, apart⟩ := ends.nodup stops
  obtain ⟨rest, onward, rfl⟩ := climbs.extends_to ends stops
  obtain ⟨-, -, distinct⟩ := List.nodup_append.mp once
  cases onward with
  | here => exact apart (List.mem_append_left _ again)
  | up => exact distinct top again top (.head _) rfl

/-- Where a way comes back to a version, the search finds the first time that it does. -/
theorem exists_cycle_iff : (∃ names, definition.chain name = .error (.inheritanceCycle names)) ↔
    ∃ path top, Climbs definition name path top ∧ top ∈ path := by
  constructor
  · intro ⟨names, same⟩
    cases chain_eq_iff.mp same with
    | cycle climbs _ again => exact ⟨_, _, climbs, again⟩
  · intro ⟨path, top, climbs, again⟩
    generalize same : definition.chain name = result
    cases chain_eq_iff.mp same with
    | undefined missing =>
        obtain ⟨rfl, -⟩ := climbs.of_missing missing
        cases again
    | root ends reached free =>
        exact absurd ((parent?_of_found reached).trans free) (climbs.never_ends again ends)
    | dangling ends inherits missing =>
        exact absurd (parent?_of_missing missing)
          (climbs.never_ends again (ends.snoc inherits))
    | cycle => exact ⟨_, rfl⟩

theorem chain_ok_iff {names : List String} : definition.chain name = .ok names ↔
    ∃ path top version, Climbs definition name path top ∧ (path ++ [top]).Nodup ∧
      definition.version? top = some version ∧ version.parent = none ∧
      names = (path ++ [top]).reverse := by
  rw [chain_eq_iff]
  constructor
  · intro outcome
    cases outcome with
    | root climbs reached free =>
        have once := climbs.distinct ((parent?_of_found reached).trans free)
        exact ⟨_, _, _, climbs, once, reached, free, rfl⟩
  · intro ⟨path, top, version, climbs, _, reached, free, same⟩
    rw [same]
    exact .root climbs reached free

theorem chain_unknownVersion_iff {missing : String} :
    definition.chain name = .error (.unknownVersion missing) ↔
      missing = name ∧ definition.version? name = none := by
  rw [chain_eq_iff]
  constructor
  · intro outcome
    cases outcome with
    | undefined missing => exact ⟨rfl, missing⟩
  · intro ⟨same, missing⟩
    rw [same]
    exact .undefined missing

theorem chain_unknownParent_iff :
    definition.chain name = .error (.unknownParent child parent) ↔
      ∃ path, Climbs definition name path child ∧ definition.parent? child = some parent ∧
        definition.version? parent = none := by
  rw [chain_eq_iff]
  constructor
  · intro outcome
    cases outcome with
    | dangling climbs inherits missing => exact ⟨_, climbs, inherits, missing⟩
  · intro ⟨path, climbs, inherits, missing⟩
    exact .dangling climbs inherits missing

theorem chain_cycle_iff {names : List String} :
    definition.chain name = .error (.inheritanceCycle names) ↔
      ∃ path top, Climbs definition name path top ∧ path.Nodup ∧ top ∈ path ∧
        names = path ++ [top] := by
  rw [chain_eq_iff]
  constructor
  · intro outcome
    cases outcome with
    | cycle climbs once again => exact ⟨_, _, climbs, once, again, rfl⟩
  · intro ⟨path, top, climbs, once, again, same⟩
    rw [same]
    exact .cycle climbs once again

/-- From the first version of a chain to the last one each is the parent of the next. -/
theorem chain_descends {names : List String} (same : definition.chain name = .ok names) :
    names.getLast? = some name ∧ names.Nodup ∧
      (∃ root version, names.head? = some root ∧ definition.version? root = some version ∧
        version.parent = none) ∧
      names.IsChain fun upper lower => definition.parent? lower = some upper := by
  obtain ⟨path, top, version, climbs, once, reached, free, rfl⟩ := chain_ok_iff.mp same
  refine ⟨?_, ?_, ⟨top, version, ?_, reached, free⟩, ?_⟩
  · rw [List.getLast?_reverse, climbs.head]
  · exact List.nodup_reverse.mpr once
  · simp
  · exact List.isChain_reverse.mpr climbs.links

/-- The chain of a version is the way up from it, if that ends at a version without a parent; it
then comes to no version twice. Otherwise the error says where the way leaves the definition or
comes back to a version for the first time. No version is without an outcome, whatever the parents
are, and a higher bound on the search changes nothing. -/
theorem chain_follows_parents (definition : Definition) (name : String) :
    (∀ names, definition.chain name = .ok names ↔
      ∃ path top version, Climbs definition name path top ∧ (path ++ [top]).Nodup ∧
        definition.version? top = some version ∧ version.parent = none ∧
        names = (path ++ [top]).reverse) ∧
    (∀ names, definition.chain name = .ok names →
      names.getLast? = some name ∧ names.Nodup ∧
      (∃ root version, names.head? = some root ∧ definition.version? root = some version ∧
        version.parent = none) ∧
      names.IsChain fun upper lower => definition.parent? lower = some upper) ∧
    (∀ missing, definition.chain name = .error (.unknownVersion missing) ↔
      missing = name ∧ definition.version? name = none) ∧
    (∀ child parent, definition.chain name = .error (.unknownParent child parent) ↔
      ∃ path, Climbs definition name path child ∧ definition.parent? child = some parent ∧
        definition.version? parent = none) ∧
    (∀ names, definition.chain name = .error (.inheritanceCycle names) ↔
      ∃ path top, Climbs definition name path top ∧ path.Nodup ∧ top ∈ path ∧
        names = path ++ [top]) ∧
    ((∃ names, definition.chain name = .error (.inheritanceCycle names)) ↔
      ∃ path top, Climbs definition name path top ∧ top ∈ path) ∧
    (∀ error, definition.chain name = .error error →
      error = .unknownVersion name ∨ (∃ child parent, error = .unknownParent child parent) ∨
        ∃ names, error = .inheritanceCycle names) ∧
    ∀ version rounds, definition.version? name = some version →
      definition.versions.length < rounds →
      definition.follow [] name version rounds = definition.chain name := by
  refine ⟨fun _ => chain_ok_iff, fun _ => chain_descends, fun _ => chain_unknownVersion_iff,
    fun _ _ => chain_unknownParent_iff, fun _ => chain_cycle_iff, exists_cycle_iff, ?_, ?_⟩
  · intro error same
    cases chain_eq_iff.mp same with
    | undefined => exact .inl rfl
    | dangling => exact .inr (.inl ⟨_, _, rfl⟩)
    | cycle => exact .inr (.inr ⟨_, rfl⟩)
  · intro version rounds found enough
    exact (chain_outcome definition name).follow_eq found enough

/-- A version with a parent, one whose parent is missing, and one that leads to two others, each the
parent of the other. -/
def tangled : Definition := ⟨"2", [("1", ⟨none, [], []⟩), ("2", ⟨some "1", [], []⟩),
  ("3", ⟨some "0", [], []⟩), ("4", ⟨some "5", [], []⟩), ("5", ⟨some "6", [], []⟩),
  ("6", ⟨some "5", [], []⟩)]⟩

theorem tangled_chains : tangled.chain "2" = .ok ["1", "2"] ∧
    (["1", "2"].IsChain fun upper lower => tangled.parent? lower = some upper) ∧
    tangled.chain "3" = .error (.unknownParent "3" "0") ∧
    (∃ path, Climbs tangled "3" path "3" ∧ tangled.parent? "3" = some "0" ∧
      tangled.version? "0" = none) ∧
    tangled.chain "4" = .error (.inheritanceCycle ["4", "5", "6", "5"]) ∧
    (∃ path top, Climbs tangled "4" path top ∧ path.Nodup ∧ top ∈ path ∧
      ["4", "5", "6", "5"] = path ++ [top]) ∧
    tangled.follow [] "4" ⟨some "5", [], []⟩ 100 = tangled.chain "4" := by
  obtain ⟨-, shape, -⟩ := chain_follows_parents tangled "2"
  obtain ⟨-, -, -, dangling, -⟩ := chain_follows_parents tangled "3"
  obtain ⟨-, -, -, -, cycle, -, -, bounded⟩ := chain_follows_parents tangled "4"
  obtain ⟨-, -, -, linked⟩ := shape ["1", "2"] rfl
  exact ⟨rfl, linked, rfl, (dangling "3" "0").mp rfl, rfl, (cycle _).mp rfl,
    bounded _ 100 rfl (by decide)⟩

end SqlAudit.Catalog.Definition
