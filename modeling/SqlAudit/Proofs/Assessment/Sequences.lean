import SqlAudit.Proofs.Assessment.Findings
import SqlAudit.Proofs.Assessment.Upgrade
import SqlAudit.Proofs.Grammar.Sequences
import SqlAudit.Proofs.Rule.Rendering
import SqlAudit.Proofs.Script.Phrases
import SqlAudit.Proofs.Script.Schemas
/-!
Options of sequences that are changed. In every version of the catalog that comes with the program
one rule looks at them; it takes no single option for supported or not, but keeps silent about a
statement as soon as one of its options is an owner.
-/
namespace SqlAudit

namespace Catalog.Builtin

/-- What the catalog says of options of sequences that are changed. -/
def sequenceRule : Rule :=
  ⟨"alter-sequence-options", .alterSequence,
    .all [.hasChild .sequenceOption none, .not (.hasChild .sequenceOption (some ["OWNED BY"]))],
    .blocker, "ALTER SEQUENCE is only supported with OWNED BY"⟩

theorem exists_sequenceRule {version : Option String} (known : IsVersion version) :
    ∃ catalog, builtin version = .ok catalog ∧ Evaluation.Named catalog ∧
      sequenceRule ∈ catalog.rules :=
  exists_rule known (List.mem_of_getElem? (i := 33) rfl) (by decide) (by decide)

/-- A statement that has options, and among them no owner. -/
def Unowned (node : Node) : Prop :=
  node.hasChild .sequenceOption = true ∧
    Check.hasChildAmong node .sequenceOption (some ["OWNED BY"]) = false

theorem sequenceRule_evaluate (node : Node) (ancestors : List Node) :
    (Unowned node → sequenceRule.check.evaluate node ancestors = .ok (some ⟨none⟩)) ∧
    (¬ Unowned node → sequenceRule.check.evaluate node ancestors = .ok none) := by
  have some : Check.hasChildAmong node .sequenceOption none = node.hasChild .sequenceOption := by
    simp [Check.hasChildAmong, Node.childrenOf, Node.hasChild, List.any_filter]
  rw [Unowned, ← some, sequenceRule]
  cases first : Check.hasChildAmong node .sequenceOption none <;>
    cases second : Check.hasChildAmong node .sequenceOption (Option.some ["OWNED BY"]) <;>
    simp [Check.evaluate, Check.evaluateAll, Check.matchIf, first, second]

/-- What the rule says about a statement. -/
def sequenceFinding (context : Evaluation.Context) (statement : Node) : Finding :=
  .locate context.lines context.unitId "alter-sequence-options" .blocker
    "ALTER SEQUENCE is only supported with OWNED BY" statement.span

theorem applyRule_sequenceRule (context : Evaluation.Context) (ancestors : List Node)
    (node : Node) {finding : Finding} :
    Evaluation.applyRule context ancestors node sequenceRule = some finding ↔
      Unowned node ∧ finding = sequenceFinding context node := by
  obtain ⟨matched, silent⟩ := sequenceRule_evaluate node ancestors
  unfold Evaluation.applyRule
  by_cases unowned : Unowned node
  · have braceless : '\x7b' ∉ sequenceRule.message.toList := by decide
    have plain := Rule.render_plain braceless node.value node.kind none
    simp only [matched unowned, plain, unowned, true_and, Option.some_inj]
    exact eq_comm
  · simp [silent unowned, unowned]

end Catalog.Builtin

namespace Script

open Grammar (IsAlterSequence IsLeaf)

theorem nameOptions_leaf {kind : NodeKind} {node : Node} (text : List Char)
    (leaf : IsLeaf kind node) : IsLeaf kind (nameOptions text node) := by
  rw [IsLeaf, nameOptions_kind, nameOptions_children, leaf.2]
  exact ⟨leaf.1, rfl⟩

theorem nameOptions_optionNode {name : String} {node : Node} (text : List Char)
    (option : IsOptionNode name node) : IsOptionNode name (nameOptions text node) := by
  refine ⟨(nameOptions_kind text node).trans option.kind, ?_, ?_⟩
  · rw [nameOptions_value text (by simp [option.kind]), option.value]
  · rw [nameOptions_children]
    intro part member
    obtain ⟨original, inside, rfl⟩ := List.mem_map.mp member
    obtain ⟨listed, alone⟩ := option.parts original inside
    rw [nameOptions_kind, nameOptions_children, alone]
    exact ⟨listed, rfl⟩

theorem nameOptions_alterSequence {names : List String} {node : Node} (text : List Char)
    (statement : IsAlterSequence names node) : IsAlterSequence names (nameOptions text node) := by
  obtain ⟨kind, target, nodes, parts, leaf, same⟩ := statement
  refine ⟨(nameOptions_kind text node).trans kind, nameOptions text target,
    nodes.map (nameOptions text), ?_, nameOptions_leaf text leaf, ?_⟩
  · rw [nameOptions_children, parts, List.map_cons]
  · exact List.forall₂_map_right_iff.mpr (same.imp fun name node => nameOptions_optionNode text)

/-- A text that sets options of a sequence is read as that statement alone. -/
theorem read_alterSequence {sequence target : Lexeme} {tail lexemes : List Lexeme}
    {names : List String} (word : sequence.Means "SEQUENCE") (named : target.IsName)
    (certain : ¬ target.Means "IF") (rest : IsTail tail)
    (options : IsSequenceOptions names lexemes) (nonempty : names ≠ []) (d : Dialect)
    (text : String) (tokens : (tokenize d text).map (·.lexeme) =
      (.keyword .ALTER :: sequence :: target :: tail) ++ lexemes ++ [.finish]) :
    (read d text).errors = [] ∧ ∃ statement, (read d text).root.children = [statement] ∧
      IsAlterSequence names statement := by
  let c := Cursor.ofTokens (tokenize d text)
  have spelled : c.tokens.map (·.lexeme) =
      ((.keyword .ALTER :: sequence :: target :: tail) ++ lexemes) ++ .finish :: [] := by
    rw [tokens_ofTokens (tokenize_ne_nil d text), tokens]
  obtain ⟨e, passes, left⟩ := Cursor.exists_passes spelled
  have here : c.current.lexeme = .keyword .ALTER := passes.1
  have last : e.current.lexeme = .finish := (List.cons.inj left).1
  have enough : c.rest.length < c.tokens.length := Nat.lt_succ_self _
  obtain ⟨node, alters, reads⟩ := Grammar.reads_alterSequence word named certain rest options
    nonempty passes last enough
  have top : { c with depth := 0 } = c := by
    rw [← Cursor.depth_ofTokens (tokenize d text)]
  have one : readStatement { c with depth := 0 } = .ok (node, e) := by
    rw [top, readStatement, Grammar.run, reads]
    rfl
  have all := statements_one (tokenize d text).length (by rw [here]; rfl) one last
  refine ⟨?_, nameOptions text.toList node, ?_, nameOptions_alterSequence _ alters⟩
  · rw [read, ofTokens, all]
  · rw [read, ofTokens, all]
    rfl

end Script

open Catalog.Builtin Evaluation in
/-- In every version the rule about options of sequences finds the statements that have options, and
among them no owner, and nothing else goes by its name. -/
theorem sequence_findings {version : Option String} (known : IsVersion version) :
    ∃ catalog, Catalog.builtin version = .ok catalog ∧ ∀ d text id finding,
      (finding ∈ (Assessment.assess catalog d ⟨id, text⟩).findings ∧
        finding.ruleId = "alter-sequence-options") ↔
      ∃ path node, (Script.read d text).root.at? path = some node ∧ node.kind = .alterSequence ∧
        Unowned node ∧ finding = sequenceFinding ⟨catalog, id, .ofText text⟩ node := by
  obtain ⟨catalog, loaded, named, listed⟩ := exists_sequenceRule known
  refine ⟨catalog, loaded, fun d text id finding => ?_⟩
  refine (Assessment.mem_findings_iff named listed d ⟨id, text⟩).trans ?_
  constructor
  · rintro ⟨path, node, reached, -, target, applied⟩
    obtain ⟨unowned, same⟩ := (applyRule_sequenceRule ..).mp applied
    exact ⟨path, node, reached, target.symm, unowned, same⟩
  · rintro ⟨path, node, reached, kind, unowned, same⟩
    refine ⟨path, node, reached, by simp [kind], kind.symm, ?_⟩
    exact (applyRule_sequenceRule ..).mpr ⟨unowned, same⟩

namespace Grammar.IsAlterSequence

variable {names : List String} {statement : Node}

theorem childrenOf_option (alters : IsAlterSequence names statement) :
    (statement.childrenOf .sequenceOption).map (·.value) = names.map some := by
  obtain ⟨-, target, nodes, parts, leaf, same⟩ := alters
  have options : (nodes.filter (·.kind = .sequenceOption)).map (·.value) = names.map some := by
    clear parts
    induction same with
    | nil => rfl
    | cons option rest ih =>
        rw [List.filter_cons_of_pos (by simp [option.kind]), List.map_cons, List.map_cons, ih,
          option.value]
  rwa [Node.childrenOf, parts, List.filter_cons_of_neg (by simp [leaf.1])]

/-- Values are compared in capitals, in which no other option is called like an owner. -/
theorem unowned_iff (alters : IsAlterSequence names statement)
    (listed : ∀ name ∈ names, name ∈ optionNames) (nonempty : names ≠ []) :
    Catalog.Builtin.Unowned statement ↔ "OWNED BY" ∉ names := by
  have values := alters.childrenOf_option
  have option : statement.hasChild .sequenceOption = true := by
    obtain ⟨child, member⟩ := List.exists_mem_of_ne_nil (statement.childrenOf .sequenceOption)
      fun empty => nonempty (by simpa [empty] using values)
    obtain ⟨inside, kind⟩ := List.mem_filter.mp member
    exact List.any_eq_true.mpr ⟨child, inside, kind⟩
  have among : Check.hasChildAmong statement .sequenceOption (some ["OWNED BY"]) =
      names.any fun name => Text.capitals "OWNED BY" == Text.capitals name := by
    calc Check.hasChildAmong statement .sequenceOption (some ["OWNED BY"])
        = ((statement.childrenOf .sequenceOption).map (·.value)).any
            fun value => Check.valueAmong value ["OWNED BY"] := by
          rw [List.any_map]
          rfl
      _ = names.any fun name => Text.capitals "OWNED BY" == Text.capitals name := by
          rw [values, List.any_map]
          simp [Check.valueAmong, Function.comp_def]
  have distinct : ∀ name ∈ optionNames,
      (Text.capitals "OWNED BY" == Text.capitals name) = (name == "OWNED BY") := by
    decide +kernel
  rw [Catalog.Builtin.Unowned, option, among, ← Bool.not_eq_true, List.any_eq_true]
  simp only [true_and]
  constructor
  · intro none member
    exact none ⟨_, member, by rw [distinct _ (listed _ member)]; exact beq_self_eq_true _⟩
  · rintro absent ⟨name, member, same⟩
    rw [distinct name (listed name member), beq_iff_eq] at same
    exact absent (same ▸ member)

/-- Its parts are its name and its options, and theirs are names, types and numbers. -/
theorem below (alters : IsAlterSequence names statement) :
    ∀ child ∈ statement.children, child.Every (·.kind ≠ .alterSequence) := by
  obtain ⟨-, target, nodes, parts, leaf, same⟩ := alters
  have options : ∀ node ∈ nodes, node.Every (·.kind ≠ .alterSequence) := by
    clear parts
    induction same with
    | nil => nofun
    | cons option rest ih =>
        refine List.forall_mem_cons.mpr ⟨Node.every_iff.mpr ⟨by simp [option.kind], ?_⟩, ih⟩
        intro part member
        obtain ⟨listed, alone⟩ := option.parts part member
        refine Node.every_iff.mpr ⟨?_, by simp [alone]⟩
        intro kind
        simp [kind] at listed
  rw [parts]
  refine List.forall_mem_cons.mpr ⟨Node.every_iff.mpr ⟨by simp [leaf.1], ?_⟩, options⟩
  simp [leaf.2]

/-- No other node of a text of one such statement is one. -/
theorem eq_of_at? (alters : IsAlterSequence names statement) {root node : Node} {path : List Nat}
    (other : root.kind ≠ .alterSequence) (alone : root.children = [statement])
    (reached : root.at? path = some node) (kind : node.kind = .alterSequence) :
    node = statement := by
  cases path with
  | nil =>
      cases reached
      exact absurd kind other
  | cons i path =>
      obtain ⟨child, found, reached⟩ := Node.at?_cons.mp reached
      have first : child = statement := by
        have member := List.mem_of_getElem? found
        rw [alone] at member
        exact List.mem_singleton.mp member
      cases path with
      | nil =>
          cases reached
          exact first
      | cons j path =>
          obtain ⟨part, found, reached⟩ := Node.at?_cons.mp reached
          rw [first] at found
          exact absurd kind ((alters.below part (List.mem_of_getElem? found)).at? reached).here

end Grammar.IsAlterSequence

open Catalog.Builtin in
/-- A text that sets options of a sequence is reported at that statement where no option is an
owner. -/
theorem sequence_findings_alone {version : Option String} (known : IsVersion version) :
    ∃ catalog, Catalog.builtin version = .ok catalog ∧ ∀ {names : List String} {d : Dialect}
      {text : String} {statement : Node}, (∀ name ∈ names, name ∈ optionNames) → names ≠ [] →
      (Script.read d text).root.children = [statement] →
      Grammar.IsAlterSequence names statement → ∀ id finding,
        finding ∈ (Assessment.assess catalog d ⟨id, text⟩).findings ∧
          finding.ruleId = "alter-sequence-options" ↔
        "OWNED BY" ∉ names ∧ finding = sequenceFinding ⟨catalog, id, .ofText text⟩ statement := by
  obtain ⟨catalog, loaded, findings⟩ := sequence_findings known
  refine ⟨catalog, loaded, ?_⟩
  intro names d text statement listed nonempty alone alters id finding
  rw [findings, ← alters.unowned_iff listed nonempty]
  constructor
  · rintro ⟨path, node, reached, kind, unowned, same⟩
    have other : (Script.read d text).root.kind ≠ .alterSequence :=
      show NodeKind.script ≠ .alterSequence by decide
    obtain rfl := alters.eq_of_at? other alone reached kind
    exact ⟨unowned, same⟩
  · rintro ⟨unowned, same⟩
    refine ⟨[0], statement, ?_, alters.kind, unowned, same⟩
    simp [Node.at?, alone]

/-- ALTER SEQUENCE with any number of options is read as one statement, and every version reports it
exactly if none of the options is an owner: once, and as that statement. So a statement is reported
for each option that is something else exactly if owners are not set together with others. -/
theorem sequence_options_reported {sequence target : Lexeme} {tail lexemes : List Lexeme}
    {names : List String} (word : sequence.Means "SEQUENCE") (named : target.IsName)
    (certain : ¬ target.Means "IF") (rest : IsTail tail)
    (options : IsSequenceOptions names lexemes) (nonempty : names ≠ []) (d : Dialect)
    (text : String) (tokens : (tokenize d text).map (·.lexeme) =
      (.keyword .ALTER :: sequence :: target :: tail) ++ lexemes ++ [.finish])
    {version : Option String} (known : Catalog.Builtin.IsVersion version) :
    (Script.read d text).errors = [] ∧
    ∃ statement, (Script.read d text).root.children = [statement] ∧
      statement.kind = .alterSequence ∧
      (statement.childrenOf .sequenceOption).map (·.value) = names.map some ∧
    ∃ catalog, Catalog.builtin version = .ok catalog ∧ ∀ id,
      (∀ finding, finding ∈ (Assessment.assess catalog d ⟨id, text⟩).findings ∧
          finding.ruleId = "alter-sequence-options" ↔
        "OWNED BY" ∉ names ∧
          finding = Finding.locate (.ofText text) id "alter-sequence-options" .blocker
            "ALTER SEQUENCE is only supported with OWNED BY" statement.span) ∧
      (((∃ finding ∈ (Assessment.assess catalog d ⟨id, text⟩).findings,
          finding.ruleId = "alter-sequence-options") ↔ ∃ name ∈ names, name ≠ "OWNED BY") ↔
        ("OWNED BY" ∈ names → ∀ name ∈ names, name = "OWNED BY")) := by
  obtain ⟨errors, statement, alone, alters⟩ := Script.read_alterSequence word named certain rest
    options nonempty d text tokens
  obtain ⟨catalog, loaded, findings⟩ := sequence_findings_alone known
  have found := findings options.listed nonempty alone alters
  refine ⟨errors, statement, alone, alters.kind, alters.childrenOf_option, catalog, loaded,
    fun id => ⟨found id, ?_⟩⟩
  have reported : (∃ finding ∈ (Assessment.assess catalog d ⟨id, text⟩).findings,
      finding.ruleId = "alter-sequence-options") ↔ "OWNED BY" ∉ names := by
    constructor
    · rintro ⟨finding, member, name⟩
      exact ((found id finding).mp ⟨member, name⟩).1
    · intro unowned
      obtain ⟨member, name⟩ := (found id _).mpr ⟨unowned, rfl⟩
      exact ⟨_, member, name⟩
  rw [reported]
  constructor
  · intro agree owned name member
    by_contra different
    exact agree.mpr ⟨name, member, different⟩ owned
  · intro unmixed
    constructor
    · intro unowned
      obtain ⟨name, member⟩ := List.exists_mem_of_ne_nil names nonempty
      exact ⟨name, member, fun same => unowned (same ▸ member)⟩
    · rintro ⟨name, member, different⟩ owned
      exact different (unmixed owned name member)

/-- A type with lengths, a number with a sign and a denial are options that are reported. -/
theorem unowned_options_reported :
    let text := "ALTER SEQUENCE app.s AS numeric(9, 0) INCREMENT BY -2 NO CYCLE"
    let type : List Lexeme := [.word "numeric", .symbol .openParen, .number "9", .symbol .comma,
      .number "0", .symbol .closeParen]
    let lexemes : List Lexeme := .keyword .AS :: type ++ [.word "INCREMENT", .keyword .BY,
      .symbol .minus, .number "2", .word "NO", .word "CYCLE"]
    IsSequenceOptions ["AS", "INCREMENT", "NO CYCLE"] lexemes ∧
    (tokenize .postgres text).map (·.lexeme) = .keyword .ALTER :: .word "SEQUENCE" ::
      .word "app" :: .symbol .dot :: .word "s" :: lexemes ++ [.finish] ∧
    Catalog.Builtin.IsVersion none ∧
    ∃ catalog, Catalog.builtin none = .ok catalog ∧
      ∃ finding ∈ (Assessment.assess catalog .postgres ⟨"u", text⟩).findings,
        finding.ruleId = "alter-sequence-options" ∧ finding.severity = .blocker := by
  intro text type lexemes
  have name : IsTypeName [.word "numeric"] := .path (by decide) (by decide +kernel) .nil
  have lengths : IsBalanced [.number "9", .symbol .comma, .number "0"] :=
    .plain (by decide) (.plain (by decide) (.plain (by decide) .nil))
  have denied : IsSequenceOption "NO CYCLE" [.word "NO", .word "CYCLE"] :=
    @IsSequenceOption.no "CYCLE" _ _ (by decide +kernel) (by decide) (by decide +kernel)
  have options : IsSequenceOptions ["AS", "INCREMENT", "NO CYCLE"] lexemes :=
    .cons (.type (.common name (.group lengths) .nil))
      (.cons (.increment (by decide +kernel) .word (.minus "2")) (.cons denied .nil))
  have tokens : (tokenize .postgres text).map (·.lexeme) = .keyword .ALTER ::
      .word "SEQUENCE" :: .word "app" :: .symbol .dot :: .word "s" :: lexemes ++ [.finish] := by
    decide +kernel
  have known : Catalog.Builtin.IsVersion none := by decide
  refine ⟨options, tokens, known, ?_⟩
  have named : (Lexeme.word "app").IsName := by decide
  have rest : IsTail [.symbol .dot, .word "s"] := .cons (by decide) .nil
  obtain ⟨-, statement, -, -, -, catalog, loaded, reports⟩ := sequence_options_reported
    (by decide +kernel) named (by decide +kernel) rest options (by decide) .postgres text tokens
    known
  obtain ⟨member, name⟩ := ((reports "u").1 _).mpr ⟨by decide, rfl⟩
  exact ⟨catalog, loaded, _, member, name, rfl⟩

/-- A sequence that is given an owner and made to cycle is not reported. -/
theorem owner_hides_cycle :
    IsSequenceOptions ["OWNED BY", "CYCLE"]
      [.word "OWNED", .keyword .BY, .word "t", .symbol .dot, .word "c", .word "CYCLE"] ∧
    (tokenize .postgres "ALTER SEQUENCE s OWNED BY t.c CYCLE").map (·.lexeme) =
      [.keyword .ALTER, .word "SEQUENCE", .word "s", .word "OWNED", .keyword .BY, .word "t",
        .symbol .dot, .word "c", .word "CYCLE", .finish] ∧
    ∀ version, Catalog.Builtin.IsVersion version → ∃ catalog,
      Catalog.builtin version = .ok catalog ∧ ∀ id,
        ∀ finding ∈ (Assessment.assess catalog .postgres
          ⟨id, "ALTER SEQUENCE s OWNED BY t.c CYCLE"⟩).findings,
            finding.ruleId ≠ "alter-sequence-options" := by
  have owner : IsSequenceOption "OWNED BY"
      [.word "OWNED", .keyword .BY, .word "t", .symbol .dot, .word "c"] :=
    .ownedBy (by decide +kernel) (by decide) (by decide +kernel) (.cons (by decide) .nil)
  have options : IsSequenceOptions ["OWNED BY", "CYCLE"]
      [.word "OWNED", .keyword .BY, .word "t", .symbol .dot, .word "c", .word "CYCLE"] :=
    .cons owner (.cons (.cycle (by decide +kernel)) .nil)
  have tokens : (tokenize .postgres "ALTER SEQUENCE s OWNED BY t.c CYCLE").map (·.lexeme) =
      [.keyword .ALTER, .word "SEQUENCE", .word "s", .word "OWNED", .keyword .BY, .word "t",
        .symbol .dot, .word "c", .word "CYCLE", .finish] := by decide +kernel
  refine ⟨options, tokens, fun version known => ?_⟩
  have named : (Lexeme.word "s").IsName := by decide
  obtain ⟨-, statement, alone, alters⟩ := Script.read_alterSequence (by decide +kernel) named
    (by decide +kernel) .nil options (by decide) .postgres _ tokens
  obtain ⟨catalog, loaded, findings⟩ := sequence_findings_alone known
  refine ⟨catalog, loaded, fun id finding member name => ?_⟩
  have unowned := ((findings options.listed (by decide) alone alters id finding).mp
    ⟨member, name⟩).1
  exact unowned (by decide)

end SqlAudit
