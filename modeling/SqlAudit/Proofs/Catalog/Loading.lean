import SqlAudit.Proofs.Catalog.Resolution
/-!
Rules loaded one way and the other. A definition of one version that declares some rules and a
catalog that is built of them refuse the same rules in the same order, for a blank name or message
and for a name that is taken. Only a definition refuses rules for regions that could not be read.
-/
namespace SqlAudit

/-- The same kind of fault in rules of one name. -/
inductive CatalogError.Alike : CatalogError → CatalogError → Prop where
  | invalid {id : String} {first second : RuleDefect} :
      Alike (.invalidRule id first) (.invalidRule id second)
  | duplicate {id version : String} : Alike (.duplicateRule id version) (.duplicateRule id version)

namespace Catalog

/-- Two ways of loading rules come to catalogs in which the same is found, or stop at the same rule,
whatever comes after it, for the same kind of fault. -/
inductive LoadsAlike (load load' : List Rule → Except CatalogError Catalog) (rules : List Rule) :
    Prop where
  | loaded {catalog catalog' : Catalog} (built : load rules = .ok catalog)
      (built' : load' rules = .ok catalog') (all : catalog.rules = catalog'.rules)
      (kinds : ∀ kind, catalog.rulesFor kind = catalog'.rulesFor kind)
      (names : ∀ id, catalog.rule? id = catalog'.rule? id) : LoadsAlike load load' rules
  | refused {before after : List Rule} {rule : Rule} {error error' : CatalogError}
      (split : rules = before ++ rule :: after) (sound : ∃ catalog, load before = .ok catalog)
      (sound' : ∃ catalog, load' before = .ok catalog)
      (wrong : ∀ rest, load (before ++ rule :: rest) = .error error)
      (wrong' : ∀ rest, load' (before ++ rule :: rest) = .error error')
      (alike : error.Alike error') : LoadsAlike load load' rules

/-- A definition with one version, which declares these rules and nothing else. -/
def Definition.single (defaultVersion version : String) (rules : List Rule) : Definition :=
  ⟨defaultVersion, [(version, ⟨none, rules.map (⟨·, false⟩), []⟩)]⟩

/-- What is wrong with a rule that a version declares. -/
def declaredFault (version : String) : Fault := fun seen rule =>
  match Definition.defect? rule with
  | some defect => some (.invalidRule rule.id defect)
  | none => if rule.id ∈ seen then some (.duplicateRule rule.id version) else none

variable {version defaultVersion : String} {requested : Option String} {seen : List String}
  {rules before after : List Rule} {rule : Rule} {error error' : CatalogError}

theorem declaredFault_incomplete (version : String) (seen : List String)
    (incomplete : rule.Incomplete) :
    ∃ defect, declaredFault version seen rule = some (.invalidRule rule.id defect) := by
  cases found : Definition.defect? rule with
  | some defect => exact ⟨defect, by rw [declaredFault, found]⟩
  | none =>
      have valid := Definition.defect?_eq_none_iff.mp found
      rcases incomplete with unnamed | silent
      · cases valid.named.symm.trans unnamed
      · cases valid.worded.symm.trans silent

theorem declaredFault_reserved (complete : ¬ rule.Incomplete) (target : rule.target = .unparsed) :
    declaredFault version seen rule = some (.invalidRule rule.id .reservedTarget) := by
  obtain ⟨named, worded⟩ := not_or.mp complete
  simp [declaredFault, Definition.defect?, named, worded, target]

theorem declaredFault_plain (complete : ¬ rule.Incomplete) (target : rule.target ≠ .unparsed) :
    declaredFault version seen rule = plainFault version seen rule := by
  obtain ⟨named, worded⟩ := not_or.mp complete
  simp [declaredFault, Definition.defect?, named, worded, target, plainFault, complete]

/-- A definition lets the rules pass that a catalog lets pass, but for those for regions. -/
theorem declaredFault_eq_none_iff : declaredFault version seen rule = none ↔
    plainFault version seen rule = none ∧ rule.target ≠ .unparsed := by
  by_cases incomplete : rule.Incomplete
  · obtain ⟨defect, wrong⟩ := declaredFault_incomplete version seen incomplete
    simp [wrong, plainFault, incomplete]
  · by_cases target : rule.target = .unparsed
    · simp [declaredFault_reserved incomplete target, target]
    · simp [declaredFault_plain incomplete target, target]

theorem alike_of_declared (usual : rule.target = .unparsed → rule.Incomplete)
    (wrong : declaredFault version seen rule = some error') :
    ∃ error, plainFault version seen rule = some error ∧ error.Alike error' := by
  by_cases incomplete : rule.Incomplete
  · obtain ⟨defect, found⟩ := declaredFault_incomplete version seen incomplete
    cases wrong.symm.trans found
    exact ⟨_, plainFault_eq_some_iff.mpr (.inl ⟨incomplete, rfl⟩), .invalid⟩
  · rw [declaredFault_plain incomplete (mt usual incomplete)] at wrong
    refine ⟨error', wrong, ?_⟩
    rcases plainFault_eq_some_iff.mp wrong with ⟨-, rfl⟩ | ⟨-, -, rfl⟩
    · exact .invalid
    · exact .duplicate

theorem noDeclaredFault_iff : firstFaultBy (declaredFault version) seen rules = none ↔
    firstFaultBy (plainFault version) seen rules = none ∧
      ∀ rule ∈ rules, rule.target ≠ .unparsed := by
  simp only [firstFaultBy_eq_none_iff, declaredFault_eq_none_iff]
  constructor
  · intro sound
    refine ⟨fun before rule after split => (sound before rule after split).1, ?_⟩
    intro rule member
    obtain ⟨before, after, split⟩ := List.append_of_mem member
    exact (sound before rule after split).2
  · intro ⟨sound, targets⟩ before rule after split
    have member : rule ∈ rules := by simp [split]
    exact ⟨sound before rule after split, targets rule member⟩

variable {inherited : List Rule} {declarations : List Declaration}

theorem declare_plain_cons (covered : ids inherited ⊆ seen) :
    Definition.declare version seen inherited (⟨rule, false⟩ :: declarations) =
      match declaredFault version seen rule with
      | some error => .error error
      | none =>
        Definition.declare version (rule.id :: seen) (inherited ++ [rule]) declarations := by
  rw [Definition.declare, declaredFault]
  cases Definition.defect? rule with
  | some defect => rfl
  | none =>
      by_cases again : rule.id ∈ seen
      · simp [again]
      · have unknown : (inherited.any fun other => other.id == rule.id) = false := by
          rw [← Bool.not_eq_true, Definition.any_id_iff]
          exact fun old => again (covered old)
        simp [again, unknown]

/-- With no rules but those that it has declared, a version takes all up to the first at fault. -/
theorem declare_plain (covered : ids inherited ⊆ seen) :
    Definition.declare version seen inherited (rules.map (⟨·, false⟩)) =
      match firstFaultBy (declaredFault version) seen rules with
      | some error => .error error
      | none => .ok (inherited ++ rules) := by
  induction rules generalizing seen inherited with
  | nil => simp [Definition.declare, firstFaultBy]
  | cons rule rules ih =>
      rw [List.map_cons, declare_plain_cons covered, firstFaultBy]
      cases declaredFault version seen rule with
      | some error => rfl
      | none =>
          have later : ids (inherited ++ [rule]) ⊆ rule.id :: seen := by
            rw [ids, List.map_append]
            exact List.append_subset.mpr ⟨fun id old => .tail _ (covered old), by simp⟩
          simpa using ih later

theorem ofDefinition_single (chosen : requested.getD defaultVersion = version) :
    ofDefinition (.single defaultVersion version rules) requested =
      match firstFaultBy (declaredFault version) [] rules with
      | some error => .error error
      | none => ofRules version rules := by
  have found : (Definition.single defaultVersion version rules).version? version =
      some ⟨none, rules.map (⟨·, false⟩), []⟩ := by
    simp [Definition.version?, Definition.single]
  have declared : Definition.declare version [] [] (rules.map (⟨·, false⟩)) = _ :=
    declare_plain (List.nil_subset _)
  rw [ofDefinition]
  simp only [Definition.single]
  rw [← Definition.single, chosen, Definition.resolve_root found rfl, Definition.apply, found]
  simp only [declared]
  cases firstFaultBy (declaredFault version) [] rules with
  | some error => rfl
  | none => rfl

theorem exists_ofRules_iff : (∃ catalog, ofRules version rules = .ok catalog) ↔
    firstFaultBy (plainFault version) [] rules = none := by
  rw [ofRules, firstFault?_eq]
  cases firstFaultBy (plainFault version) [] rules <;> simp

/-- A definition takes the rules that a catalog can be built of, if none of them is for regions. -/
theorem ofDefinition_eq_ok_iff {catalog : Catalog}
    (chosen : requested.getD defaultVersion = version) :
    ofDefinition (.single defaultVersion version rules) requested = .ok catalog ↔
      ofRules version rules = .ok catalog ∧ ∀ rule ∈ rules, rule.target ≠ .unparsed := by
  rw [ofDefinition_single chosen]
  cases found : firstFaultBy (declaredFault version) [] rules with
  | none => exact (and_iff_left (noDeclaredFault_iff.mp found).2).symm
  | some error =>
      constructor
      · intro built
        cases built
      · intro ⟨built, targets⟩
        have sound := noDeclaredFault_iff.mpr ⟨exists_ofRules_iff.mp ⟨_, built⟩, targets⟩
        cases found.symm.trans sound

theorem exists_ofDefinition_iff (chosen : requested.getD defaultVersion = version) :
    (∃ catalog, ofDefinition (.single defaultVersion version rules) requested = .ok catalog) ↔
      firstFaultBy (declaredFault version) [] rules = none := by
  simp only [ofDefinition_eq_ok_iff chosen, exists_and_right, exists_ofRules_iff,
    noDeclaredFault_iff]

theorem ofRules_refused (sound : firstFaultBy (plainFault version) [] before = none)
    (wrong : plainFault version ((ids before).reverse ++ []) rule = some error)
    (rest : List Rule) : ofRules version (before ++ rule :: rest) = .error error := by
  rw [ofRules, firstFault?_eq, firstFaultBy_eq_some_iff.mpr ⟨before, rule, rest, rfl, sound, wrong⟩]

theorem ofDefinition_refused (chosen : requested.getD defaultVersion = version)
    (sound : firstFaultBy (declaredFault version) [] before = none)
    (wrong : declaredFault version ((ids before).reverse ++ []) rule = some error)
    (rest : List Rule) : ofDefinition (.single defaultVersion version (before ++ rule :: rest))
      requested = .error error := by
  rw [ofDefinition_single chosen,
    firstFaultBy_eq_some_iff.mpr ⟨before, rule, rest, rfl, sound, wrong⟩]

/-- The rule at which a catalog stops is the one that it finds at fault. -/
theorem plainFault_of_refused (sound : firstFaultBy (plainFault version) [] before = none)
    (wrong : ofRules version (before ++ [rule]) = .error error) :
    plainFault version ((ids before).reverse ++ []) rule = some error := by
  rw [ofRules, firstFault?_eq, firstFaultBy_append, sound, Option.none_or, firstFaultBy,
    firstFaultBy, Option.or_none] at wrong
  cases found : plainFault version ((ids before).reverse ++ []) rule with
  | some own =>
      rw [found] at wrong
      cases wrong
      rfl
  | none =>
      rw [found] at wrong
      cases wrong

/-- Of two rules of a list one stands before the other, or they are the same. -/
theorem compare_splits {first rest : List Rule} {other : Rule}
    (same : before ++ rule :: after = first ++ other :: rest) :
    rule ∈ first ∨ (before = first ∧ rule = other) ∨
      ∃ between, before = first ++ other :: between := by
  rcases List.append_eq_append_iff.mp same with ⟨between, longer, tail⟩ | ⟨between, longer, tail⟩
  · cases between with
    | nil =>
        cases tail
        exact .inr (.inl ⟨by simp [longer], rfl⟩)
    | cons next between =>
        cases tail
        exact .inl (by simp [longer])
  · cases between with
    | nil =>
        cases tail
        exact .inr (.inl ⟨by simp [longer], rfl⟩)
    | cons next between =>
        cases tail
        exact .inr (.inr ⟨between, longer⟩)

/-- A rule for regions tells the two ways apart if no rule before it is at fault, as only one of
them refuses it: rules that load alike cannot hold it, nor be refused for another one. -/
theorem incomplete_of_loadsAlike (chosen : requested.getD defaultVersion = version)
    (alike : LoadsAlike (ofRules version)
      (fun rules => ofDefinition (.single defaultVersion version rules) requested) rules)
    (split : rules = before ++ rule :: after) (target : rule.target = .unparsed)
    (sound : firstFaultBy (plainFault version) [] before = none) : rule.Incomplete := by
  have targets : ∀ {rules : List Rule}, (∃ catalog,
      ofDefinition (.single defaultVersion version rules) requested = .ok catalog) →
        ∀ rule ∈ rules, rule.target ≠ .unparsed := by
    intro rules built
    exact (noDeclaredFault_iff.mp ((exists_ofDefinition_iff chosen).mp built)).2
  cases alike with
  | loaded built built' =>
      exact absurd target (targets ⟨_, built'⟩ rule (by simp [split]))
  | @refused first rest other error error' place accepted accepted' wrong wrong' same =>
      have fault := plainFault_of_refused (exists_ofRules_iff.mp accepted) (wrong [])
      rcases compare_splits (split.symm.trans place) with earlier | ⟨rfl, rfl⟩ | ⟨between, later⟩
      · exact absurd target (targets accepted' rule earlier)
      · by_contra complete
        have reserved := ofDefinition_refused chosen
          ((exists_ofDefinition_iff chosen).mp accepted')
          (declaredFault_reserved complete target) []
        cases (wrong' []).symm.trans reserved
        rcases plainFault_eq_some_iff.mp fault with ⟨incomplete, -⟩ | ⟨-, -, rfl⟩
        · exact complete incomplete
        · cases same
      · have none_before := firstFaultBy_eq_none_iff.mp sound first other between later
        cases fault.symm.trans none_before

theorem loadsAlike_of_usual (chosen : requested.getD defaultVersion = version)
    (usual : ∀ before rule after, rules = before ++ rule :: after → rule.target = .unparsed →
      firstFaultBy (plainFault version) [] before = none → rule.Incomplete) :
    LoadsAlike (ofRules version)
      (fun rules => ofDefinition (.single defaultVersion version rules) requested) rules := by
  cases found : firstFaultBy (declaredFault version) [] rules with
  | none =>
      obtain ⟨plain, targets⟩ := noDeclaredFault_iff.mp found
      obtain ⟨catalog, built⟩ := exists_ofRules_iff.mpr plain
      have built' := (ofDefinition_eq_ok_iff chosen).mpr ⟨built, targets⟩
      exact .loaded built built' rfl (fun _ => rfl) fun _ => rfl
  | some error' =>
      obtain ⟨before, rule, after, split, sound', wrong'⟩ := firstFaultBy_eq_some_iff.mp found
      have sound := (noDeclaredFault_iff.mp sound').1
      have incomplete (target : rule.target = .unparsed) : rule.Incomplete :=
        usual before rule after split target sound
      obtain ⟨error, wrong, same⟩ := alike_of_declared incomplete wrong'
      apply LoadsAlike.refused split
      · exact exists_ofRules_iff.mpr sound
      · exact (exists_ofDefinition_iff chosen).mpr sound'
      · exact ofRules_refused sound wrong
      · exact ofDefinition_refused chosen sound' wrong'
      · exact same

/-- A definition of one version loads as the catalog of the same rules does, unless it stops at a
rule for regions that could not be read: a complete one, with no rule at fault before it. The
definition refuses it and the catalog holds it. -/
theorem loadsAlike_iff (chosen : requested.getD defaultVersion = version) (rules : List Rule) :
    (LoadsAlike (ofRules version)
        (fun rules => ofDefinition (.single defaultVersion version rules) requested) rules ↔
      ∀ before rule after, rules = before ++ rule :: after → rule.target = .unparsed →
        (∃ catalog, ofRules version before = .ok catalog) → rule.Incomplete) ∧
    ∀ catalog, ofDefinition (.single defaultVersion version rules) requested = .ok catalog ↔
      ofRules version rules = .ok catalog ∧ ∀ rule ∈ rules, rule.target ≠ .unparsed := by
  constructor
  · constructor
    · intro alike before rule after split target accepted
      exact incomplete_of_loadsAlike chosen alike split target (exists_ofRules_iff.mp accepted)
    · intro usual
      apply loadsAlike_of_usual chosen
      intro before rule after split target sound
      exact usual before rule after split target (exists_ofRules_iff.mpr sound)
  · intro catalog
    exact ofDefinition_eq_ok_iff chosen

/-- Both ways stop at a rule without a name, though it is one for regions. -/
theorem nameless_region_loadsAlike : ∃ first nameless last : Rule,
    first = ⟨"select", .select, .present, .info, "a query"⟩ ∧
    nameless = ⟨" ", .unparsed, .present, .info, "a region"⟩ ∧
    last = ⟨"drop", .drop, .present, .info, "a removal"⟩ ∧
    LoadsAlike (ofRules "1") (fun rules => ofDefinition (.single "1" "1" rules) none)
      [first, nameless, last] ∧
    ∃ catalog, ofRules "1" [first, last] = .ok catalog ∧
      ofDefinition (.single "1" "1" [first, last]) none = .ok catalog := by
  refine ⟨_, _, _, rfl, rfl, rfl, ?_, _, ofRules_ranked rfl (by decide), ?_⟩
  · obtain ⟨alike, -⟩ := @loadsAlike_iff "1" "1" none rfl
      [⟨"select", .select, .present, .info, "a query"⟩,
        ⟨" ", .unparsed, .present, .info, "a region"⟩,
        ⟨"drop", .drop, .present, .info, "a removal"⟩]
    apply alike.mpr
    intro before rule after split target accepted
    have usual : ∀ rule ∈ [(⟨"select", .select, .present, .info, "a query"⟩ : Rule),
        ⟨" ", .unparsed, .present, .info, "a region"⟩,
        ⟨"drop", .drop, .present, .info, "a removal"⟩],
        rule.target = .unparsed → rule.Incomplete := by decide
    exact usual rule (by simp [split]) target
  · obtain ⟨-, same⟩ := @loadsAlike_iff "1" "1" none rfl
      [⟨"select", .select, .present, .info, "a query"⟩,
        ⟨"drop", .drop, .present, .info, "a removal"⟩]
    exact (same _).mpr ⟨ofRules_ranked rfl (by decide), by decide⟩

/-- A catalog holds a rule for regions, at which a definition stops. -/
theorem region_rule_loads_apart : ∃ rule : Rule,
    rule = ⟨"a", .unparsed, .present, .info, "m"⟩ ∧
    ofRules "1" [rule] = .ok ⟨"1", [rule]⟩ ∧
    ofDefinition (.single "1" "1" [rule]) (some "1") =
      .error (.invalidRule "a" .reservedTarget) ∧
    ¬ LoadsAlike (ofRules "1") (fun rules => ofDefinition (.single "1" "1" rules) (some "1"))
      [rule] := by
  have built := @ofRules_ranked "1" [⟨"a", .unparsed, .present, .info, "m"⟩] rfl (by decide)
  have reserved := @ofDefinition_refused "1" "1" (some "1") [] _ _ rfl rfl
    (@declaredFault_reserved _ _ ⟨"a", .unparsed, .present, .info, "m"⟩ (by decide) rfl) []
  refine ⟨_, rfl, built, reserved, ?_⟩
  intro alike
  cases alike with
  | loaded _ built' => cases built'.symm.trans reserved
  | @refused before after _ _ _ split _ _ wrong =>
      have stopped := wrong after
      rw [← split] at stopped
      cases stopped.symm.trans built

end Catalog
end SqlAudit
