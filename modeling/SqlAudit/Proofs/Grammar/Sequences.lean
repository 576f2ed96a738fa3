import Mathlib.Data.List.Forall2
import SqlAudit.Proofs.Grammar.Types
/-!
Options of sequences that are spelled out. Each option is told by its first word, which ends the
option before it, so any number of them is read, one node for each, by the names of what they set.
-/
namespace SqlAudit

/-- A keyword that may be missing. -/
inductive IsOptional (k : Keyword) : List Lexeme → Prop
  | nil : IsOptional k []
  | word : IsOptional k [.keyword k]

/-- An option of a sequence, by the name of what it sets. -/
inductive IsSequenceOption : String → List Lexeme → Prop
  | type {type : List Lexeme} (typed : IsType type) : IsSequenceOption "AS" (.keyword .AS :: type)
  | increment {word : Lexeme} {between number : List Lexeme} (first : word.Means "INCREMENT")
      (optional : IsOptional .BY between) (signed : IsSigned number) :
      IsSequenceOption "INCREMENT" (word :: between ++ number)
  | bound {name : String} {word : Lexeme} {number : List Lexeme}
      (listed : name ∈ ["MINVALUE", "MAXVALUE", "CACHE"]) (first : word.Means name)
      (signed : IsSigned number) : IsSequenceOption name (word :: number)
  | start {word : Lexeme} {between number : List Lexeme} (first : word.Means "START")
      (optional : IsOptional .WITH between) (signed : IsSigned number) :
      IsSequenceOption "START" (word :: between ++ number)
  | restart {word : Lexeme} (first : word.Means "RESTART") : IsSequenceOption "RESTART" [word]
  | restartAt {word : Lexeme} (text : String) (first : word.Means "RESTART") :
      IsSequenceOption "RESTART" [word, .number text]
  | restartWith {word : Lexeme} {number : List Lexeme} (first : word.Means "RESTART")
      (signed : IsSigned number) : IsSequenceOption "RESTART" (word :: .keyword .WITH :: number)
  | cycle {word : Lexeme} (first : word.Means "CYCLE") : IsSequenceOption "CYCLE" [word]
  | no {name : String} {word other : Lexeme} (first : word.Means "NO")
      (listed : name ∈ ["MINVALUE", "MAXVALUE", "CYCLE"]) (second : other.Means name) :
      IsSequenceOption ("NO " ++ name) [word, other]
  | ownedByNone {word none : Lexeme} (first : word.Means "OWNED") (nobody : none.Means "NONE") :
      IsSequenceOption "OWNED BY" [word, .keyword .BY, none]
  | ownedBy {word name : Lexeme} {tail : List Lexeme} (first : word.Means "OWNED")
      (named : name.IsName) (someone : ¬ name.Means "NONE") (rest : IsTail tail) :
      IsSequenceOption "OWNED BY" (word :: .keyword .BY :: name :: tail)
  | named {sequence word name : Lexeme} {tail : List Lexeme} (first : sequence.Means "SEQUENCE")
      (second : word.Means "NAME") (named : name.IsName) (rest : IsTail tail) :
      IsSequenceOption "SEQUENCE NAME" (sequence :: word :: name :: tail)

/-- Options of a sequence, one after another, by their names. -/
inductive IsSequenceOptions : List String → List Lexeme → Prop
  | nil : IsSequenceOptions [] []
  | cons {name : String} {names : List String} {option lexemes : List Lexeme}
      (first : IsSequenceOption name option) (rest : IsSequenceOptions names lexemes) :
      IsSequenceOptions (name :: names) (option ++ lexemes)

/-- The node of an option: its value is the name of what it sets, and its parts have no parts. -/
structure IsOptionNode (name : String) (node : Node) : Prop where
  kind : node.kind = .sequenceOption
  value : node.value = some name
  parts : ∀ part ∈ node.children,
    part.kind ∈ [.dataType, .literal, .qualifiedName] ∧ part.children = []

/-- What an option goes on to: the next one, or the end. -/
def Lexeme.EndsOption (lexeme : Lexeme) : Prop :=
  4 < lexeme.typePart ∧ TokenClass.number.holds lexeme = false

/-- The words that tell an option alone. -/
def optionWords : List String :=
  ["INCREMENT", "MINVALUE", "MAXVALUE", "START", "RESTART", "CACHE", "CYCLE", "NO", "OWNED"]

/-- How options start: by a keyword or a word of their own, or by two words. -/
inductive StartsOption : List Lexeme → Prop
  | type {lexemes : List Lexeme} : StartsOption (.keyword .AS :: lexemes)
  | word {spelling : String} {word : Lexeme} {lexemes : List Lexeme}
      (listed : spelling ∈ optionWords) (first : word.Means spelling) :
      StartsOption (word :: lexemes)
  | name {sequence word : Lexeme} {lexemes : List Lexeme} (first : sequence.Means "SEQUENCE")
      (second : word.Means "NAME") : StartsOption (sequence :: word :: lexemes)

theorem IsSequenceOption.starts {name : String} {lexemes : List Lexeme}
    (option : IsSequenceOption name lexemes) : StartsOption lexemes := by
  cases option with
  | type typed => exact .type
  | named first second named rest => exact .name first second
  | bound listed first signed =>
      simp only [List.mem_cons, List.not_mem_nil, or_false] at listed
      rcases listed with rfl | rfl | rfl <;> exact .word (by decide) first
  | increment first | start first | restart first | restartAt _ first | restartWith first
    | cycle first | no first | ownedByNone first | ownedBy first => exact .word (by decide) first

/-- The names of all options. -/
def optionNames : List String :=
  ["AS", "INCREMENT", "MINVALUE", "MAXVALUE", "CACHE", "START", "RESTART", "CYCLE", "NO MINVALUE",
    "NO MAXVALUE", "NO CYCLE", "OWNED BY", "SEQUENCE NAME"]

theorem IsSequenceOption.listed {name : String} {lexemes : List Lexeme}
    (option : IsSequenceOption name lexemes) : name ∈ optionNames := by
  cases option with
  | bound listed first signed =>
      have bounds : ∀ name ∈ ["MINVALUE", "MAXVALUE", "CACHE"], name ∈ optionNames := by decide
      exact bounds name listed
  | @no name word other first listed second =>
      have denied : ∀ name ∈ ["MINVALUE", "MAXVALUE", "CYCLE"], "NO " ++ name ∈ optionNames := by
        decide
      exact denied name listed
  | _ => decide

theorem IsSequenceOptions.listed {names : List String} {lexemes : List Lexeme}
    (options : IsSequenceOptions names lexemes) : ∀ name ∈ names, name ∈ optionNames := by
  induction options with
  | nil => nofun
  | cons first rest ih => exact List.forall_mem_cons.mpr ⟨first.listed, ih⟩

theorem IsSequenceOptions.starts {names : List String} {lexemes : List Lexeme}
    (options : IsSequenceOptions names lexemes) (nonempty : names ≠ []) :
    ∃ option others, StartsOption option ∧ lexemes = option ++ others := by
  cases options with
  | nil => exact absurd rfl nonempty
  | cons first rest => exact ⟨_, _, first.starts, rfl⟩

theorem endsOption_means {lexeme : Lexeme} {spelling : String} (means : lexeme.Means spelling)
    (listed : spelling ∈ "SEQUENCE" :: optionWords) : lexeme.EndsOption := by
  obtain ⟨text, rfl, capitals⟩ := means.exists
  refine ⟨?_, rfl⟩
  simp only [optionWords, List.mem_cons, List.not_mem_nil, or_false] at listed
  rcases listed with rfl | rfl | rfl | rfl | rfl | rfl | rfl | rfl | rfl | rfl <;>
    simp [Lexeme.typePart, typeParts, List.findIdx_cons, TokenClass.holds, capitals]

namespace Grammar

variable {call : Nonterminal → Frame → Cursor → Reading} {f : Frame} {c d : Cursor}
  {lexemes : List Lexeme} {name : String} {kind : NodeKind}

theorem readsNode_option {node : Node} {inner : Grammar} (kind : NodeKind)
    (listed : kind ∈ [.dataType, .literal, .qualifiedName]) (leaf : IsLeaf kind node)
    (reads : read call inner (.opened (some .sequenceOption) c) c =
      .ok (⟨some .sequenceOption, c.current.span.start, some name, [node]⟩, d)) :
    ReadsNode call (.node .sequenceOption inner) (IsOptionNode name) c d := by
  refine ⟨_, ⟨rfl, rfl, ?_⟩, fun f => read_node reads⟩
  intro part member
  rw [List.reverse_singleton, List.mem_singleton] at member
  rw [member, leaf.1]
  exact ⟨listed, leaf.2⟩

theorem readsNode_plainOption {inner : Grammar}
    (reads : read call inner (.opened (some .sequenceOption) c) c =
      .ok (⟨some .sequenceOption, c.current.span.start, some name, []⟩, d)) :
    ReadsNode call (.node .sequenceOption inner) (IsOptionNode name) c d := by
  refine ⟨_, ⟨rfl, rfl, ?_⟩, fun f => read_node reads⟩
  simp

variable (call) in
theorem read_accept {k : Keyword} (optional : IsOptional k lexemes) (passes : c.Passes lexemes d)
    (other : (TokenClass.keywords [k]).holds d.current.lexeme = false) :
    read call (accept (.here (.keywords [k]))) f c = .ok (f, d) := by
  cases optional with
  | nil =>
      cases passes
      have fails : (Test.here (.keywords [k])).holds f c = false := other
      rw [accept, read_absent fails]
  | word =>
      obtain ⟨here, -, rfl⟩ := passes
      rw [accept, whenever, read_yes (by simp [Test.holds, here]), read]

theorem signed_not_keyword (signed : IsSigned lexemes) (passes : c.Passes lexemes d)
    (ks : List Keyword) : (TokenClass.keywords ks).holds c.current.lexeme = false := by
  cases signed <;> rw [passes.1] <;> rfl

/-- An option is read by the case that its first word chooses. What follows ends it: it neither goes
on with a type or a name, nor stands for the number that a restart can have. -/
theorem reads_sequenceOption (option : IsSequenceOption name lexemes)
    (passes : c.Passes lexemes d) (ends : d.current.lexeme.EndsOption) {left : List Token}
    (enough : c.rest.length < left.length) :
    ReadsNode (callRule rules left) sequenceOption (IsOptionNode name) c d := by
  obtain ⟨later, notNumber⟩ := ends
  have dot := not_typePart (Nat.zero_lt_of_lt later) rfl (.symbols [.dot]) (by decide)
  have notWith := not_typePart (Nat.lt_of_le_of_lt (by decide : 2 ≤ 4) later) rfl
    (.keywords [.WITH]) (by decide)
  unfold sequenceOption
  cases option with
  | type typed =>
      obtain ⟨here, more, passes⟩ := passes
      have fewer : c.advance.rest.length < left.length :=
        (Cursor.advance_shorter more).trans enough
      obtain ⟨node, leaf, reads⟩ := reads_dataType typed passes later fewer
      apply readsNode_option .dataType (by decide) leaf
      simp [choose, append_eq_seq, takeAs, read, keyword, Test.holds, here, reads, Frame.opened,
        Frame.write, Frame.push, Spelling.of, Lexeme.capitals?, Keyword.text]
  | bound listed first signed =>
      obtain ⟨here, -, after⟩ := passes
      obtain ⟨text, rfl, capitals⟩ := first.exists
      obtain ⟨node, leaf, reads⟩ := reads_signedNumber (callRule rules left) signed after
      apply readsNode_option .literal (by decide) leaf
      simp only [List.mem_cons, List.not_mem_nil, or_false] at listed
      rcases listed with rfl | rfl | rfl <;>
        simp [choose, append_eq_seq, takeAs, read, keyword, word, words, Test.holds, here, capitals,
          reads, Frame.opened, Frame.write, Frame.push, Spelling.of, Lexeme.capitals?]
  | increment first optional signed | start first optional signed =>
      obtain ⟨i, ⟨here, more, before⟩, after⟩ := Cursor.passes_append.mp passes
      obtain ⟨text, rfl, capitals⟩ := first.exists
      obtain ⟨node, leaf, reads⟩ := reads_signedNumber (callRule rules left) signed after
      have accepted := fun f => read_accept (callRule rules left) (f := f) optional before
        (signed_not_keyword signed after _)
      apply readsNode_option .literal (by decide) leaf
      simp [choose, append_eq_seq, takeAs, read, keyword, word, words, Test.holds, here, capitals,
        reads, accepted, Frame.opened, Frame.write, Frame.push, Spelling.of, Lexeme.capitals?]
  | restart first | cycle first =>
      obtain ⟨here, -, rfl⟩ := passes
      obtain ⟨text, rfl, capitals⟩ := first.exists
      apply readsNode_plainOption
      simp [choose, append_eq_seq, takeAs, read, keyword, word, words, whenever, Test.holds, here,
        capitals, notWith, notNumber, Frame.opened, Frame.write, Spelling.of, Lexeme.capitals?]
  | restartAt number first =>
      obtain ⟨here, -, after⟩ := passes
      obtain ⟨text, rfl, capitals⟩ := first.exists
      have next : c.advance.current.lexeme = .number number := after.1
      obtain ⟨node, leaf, reads⟩ := reads_signedNumber (callRule rules left)
        (.plain number) after
      apply readsNode_option .literal (by decide) leaf
      simp [choose, append_eq_seq, takeAs, read, keyword, word, words, whenever, Test.holds, here,
        next, TokenClass.holds, capitals, reads, Frame.opened, Frame.write, Frame.push,
        Spelling.of, Lexeme.capitals?]
  | restartWith first signed =>
      obtain ⟨here, -, next, -, after⟩ := passes
      obtain ⟨text, rfl, capitals⟩ := first.exists
      obtain ⟨node, leaf, reads⟩ := reads_signedNumber (callRule rules left) signed after
      apply readsNode_option .literal (by decide) leaf
      simp [choose, append_eq_seq, takeAs, read, keyword, word, words, Test.holds, here,
        next, capitals, reads, Frame.opened, Frame.write, Frame.push, Spelling.of,
        Lexeme.capitals?]
  | no first listed second =>
      obtain ⟨here, -, next, -, rfl⟩ := passes
      obtain ⟨text, rfl, capitals⟩ := first.exists
      obtain ⟨text', rfl, capitals'⟩ := second.exists
      apply readsNode_plainOption
      simp only [List.mem_cons, List.not_mem_nil, or_false] at listed
      rcases listed with rfl | rfl | rfl <;>
        simp [choose, append_eq_seq, takeAs, read, keyword, word, words, expectWord, expect,
          Test.holds, here, next, capitals, capitals', Frame.opened, Frame.write, Frame.gap,
          Spelling.of, Lexeme.capitals?]
  | ownedByNone first nobody =>
      obtain ⟨here, -, next, -, last, -, rfl⟩ := passes
      obtain ⟨text, rfl, capitals⟩ := first.exists
      obtain ⟨text', rfl, capitals'⟩ := nobody.exists
      apply readsNode_plainOption
      simp [choose, append_eq_seq, read, keyword, word, words, expectKeyword, expect, Test.holds,
        here, next, last, capitals, capitals', Frame.opened, Frame.write]
  | ownedBy first named someone rest =>
      obtain ⟨here, -, next, -, after⟩ := passes
      obtain ⟨text, rfl, capitals⟩ := first.exists
      obtain ⟨node, leaf, reads⟩ := reads_qualifiedName (callRule rules left) named rest
        after dot
      apply readsNode_option .qualifiedName (by decide) leaf.isLeaf
      have notNone :
          (TokenClass.words ["NONE"]).holds c.advance.advance.current.lexeme = false := by
        rw [after.1]
        simpa [Lexeme.Means] using someone
      simp [choose, append_eq_seq, read, keyword, word, words, expectKeyword, expect, Test.holds,
        here, next, notNone, capitals, reads, Frame.opened, Frame.write, Frame.push]
  | named first second named rest =>
      obtain ⟨here, -, next, -, after⟩ := passes
      obtain ⟨text, rfl, capitals⟩ := first.exists
      obtain ⟨node, leaf, reads⟩ := reads_qualifiedName (callRule rules left) named rest
        after dot
      apply readsNode_option .qualifiedName (by decide) leaf.isLeaf
      simp [choose, append_eq_seq, read, keyword, word, words, Test.holds, here, capitals, reads,
        Frame.opened, Frame.write, Frame.push]

theorem starts_passes (starts : StartsOption lexemes) (passes : c.Passes lexemes d) :
    startsSequenceOption.holds f c = true ∧ c.current.lexeme.EndsOption ∧
      d.rest.length < c.rest.length := by
  have onward := passes.length
  cases starts with
  | type =>
      rw [List.length_cons] at onward
      have here := passes.1
      refine ⟨by simp [startsSequenceOption, keyword, Test.holds, here], ?_, by omega⟩
      rw [here]
      exact ⟨by decide, rfl⟩
  | word listed first =>
      rw [List.length_cons] at onward
      rw [← passes.1] at first
      refine ⟨?_, endsOption_means first (.tail _ listed), by omega⟩
      obtain ⟨text, here, capitals⟩ := first.exists
      simp only [optionWords] at listed
      simp [startsSequenceOption, words, Test.holds, here, capitals, listed]
  | name first second =>
      rw [List.length_cons] at onward
      obtain ⟨here, -, next, -⟩ := passes
      rw [Cursor.advance_current] at next
      rw [← here] at first
      rw [← next] at second
      refine ⟨?_, endsOption_means first (.head _), by omega⟩
      obtain ⟨text, here, capitals⟩ := first.exists
      obtain ⟨text', next, capitals'⟩ := second.exists
      simp [startsSequenceOption, word, nextWord, Test.holds, here, next, capitals, capitals']

/-- Each round of the options reads one of them. -/
theorem option_rounds {names : List String} (options : IsSequenceOptions names lexemes)
    (passes : c.Passes lexemes d) (last : d.current.lexeme = .finish) {left : List Token}
    (enough : c.rest.length < left.length) :
    c.current.lexeme.EndsOption ∧ ∃ nodes, List.Forall₂ IsOptionNode names nodes ∧
      ∀ f : Frame, Rounds (callRule rules left) startsSequenceOption sequenceOption f c
        { f with parts := nodes.reverse ++ f.parts } d := by
  induction options generalizing c with
  | nil =>
      cases passes
      have ends : d.current.lexeme.EndsOption := by
        rw [last]
        exact ⟨by decide, rfl⟩
      refine ⟨ends, [], .nil, fun f => .done ?_⟩
      simp [startsSequenceOption, keyword, words, word, Test.holds, TokenClass.holds, last]
  | cons first rest ih =>
      obtain ⟨e, before, after⟩ := Cursor.passes_append.mp passes
      have starts := fun f => starts_passes (f := f) first.starts before
      obtain ⟨-, ends, onward⟩ := starts (.opened none c)
      obtain ⟨next, nodes, same, rounds⟩ := ih after (by omega)
      obtain ⟨node, option, reads⟩ := reads_sequenceOption first before next enough
      refine ⟨ends, node :: nodes, .cons option same, fun f => ?_⟩
      have all := rounds (f.push node)
      rw [List.reverse_cons, List.append_assoc]
      exact .round (starts f).1 (reads f) onward all

/-- The node of a statement that sets these options: its name, and a node for each option. -/
structure IsAlterSequence (names : List String) (node : Node) : Prop where
  kind : node.kind = .alterSequence
  parts : ∃ target nodes, node.children = target :: nodes ∧ IsLeaf .qualifiedName target ∧
    List.Forall₂ IsOptionNode names nodes

/-- What follows the name is read as options where it starts as one does. -/
theorem read_alterSequence {target : Lexeme} {tail : List Lexeme} {names : List String}
    (named : target.IsName) (certain : ¬ target.Means "IF") (rest : IsTail tail)
    (options : IsSequenceOptions names lexemes) (nonempty : names ≠ [])
    (before : c.advance.Passes (target :: tail) d) {e : Cursor} (after : d.Passes lexemes e)
    (last : e.current.lexeme = .finish) {left : List Token} (enough : c.rest.length < left.length) :
    ∃ node nodes, IsLeaf .qualifiedName node ∧ List.Forall₂ IsOptionNode names nodes ∧
      ∀ f : Frame, read (callRule rules left) alterSequence f c =
        .ok ({ f with parts := nodes.reverse ++ node :: f.parts }, e) := by
  have onward := before.length
  have shorter := Cursor.rest_length_le c.advance_suffix
  have fewer : d.rest.length < left.length := by omega
  obtain ⟨ends, nodes, same, rounds⟩ := option_rounds options after last fewer
  have dot := not_typePart (Nat.zero_lt_of_lt ends.1) rfl (.symbols [.dot]) (by decide)
  obtain ⟨node, leaf, reads⟩ := reads_qualifiedName (callRule rules left) named rest before dot
  refine ⟨node, nodes, leaf.isLeaf, same, fun f => ?_⟩
  have notIf : (word "IF").holds f c.advance = false := by
    rw [← before.1] at certain
    exact Bool.eq_false_of_not_eq_true certain
  have noIf : read (callRule rules left) ifExists f c.advance = .ok (f, c.advance) := by
    rw [ifExists, read_absent notIf]
  have goes : startsSequenceOption.holds (f.push node) d = true := by
    obtain ⟨option, others, starts, rfl⟩ := options.starts nonempty
    obtain ⟨i, first, -⟩ := Cursor.passes_append.mp after
    exact (starts_passes starts first).1
  exact read_then (read_then (read_then (by rw [read]) noIf) (reads f))
    ((read_yes goes).trans (read_rounds (rounds (f.push node))))

theorem reads_alterSequence {sequence target : Lexeme} {tail : List Lexeme} {names : List String}
    (word : sequence.Means "SEQUENCE") (named : target.IsName) (certain : ¬ target.Means "IF")
    (rest : IsTail tail) (options : IsSequenceOptions names lexemes) (nonempty : names ≠ [])
    (passes : c.Passes ((.keyword .ALTER :: sequence :: target :: tail) ++ lexemes) d)
    (last : d.current.lexeme = .finish) {left : List Token} (enough : c.rest.length < left.length) :
    ReadsNode (callRule rules left) statement (IsAlterSequence names) c d := by
  obtain ⟨e, ⟨here, more, next, -, before⟩, after⟩ := Cursor.passes_append.mp passes
  have fewer : c.advance.rest.length < left.length :=
    (Cursor.advance_shorter more).trans enough
  obtain ⟨text, rfl, capitals⟩ := word.exists
  obtain ⟨node, nodes, leaf, same, reads⟩ := read_alterSequence named certain rest options
    nonempty before after last fewer
  have chosen : ∀ f, read (callRule rules left) statement f c =
      read (callRule rules left) alter f c := by
    simp [statement, choose, read, startsQuery, symbol, keyword, keywords, Test.holds, here]
  refine ⟨⟨.alterSequence, ⟨c.current.span.start, max d.previous.stop c.current.span.start⟩, none,
    node :: nodes⟩, ⟨rfl, node, nodes, rfl, leaf, same⟩, fun f => ?_⟩
  rw [chosen, alter, read_node (d := d)
    (g := ⟨some .alterSequence, c.current.span.start, none, nodes.reverse ++ [node]⟩)]
  · simp [Frame.close]
  · simp [choose, append_eq_seq, read, Grammar.word, Test.holds, next, capitals, reads,
      Frame.opened]

end Grammar
end SqlAudit
