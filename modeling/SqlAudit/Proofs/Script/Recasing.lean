import SqlAudit.Proofs.Grammar.Heeding
import SqlAudit.Proofs.Script.Nesting
import SqlAudit.Proofs.Tree.Shape
/-!
The case of names and keywords. A text that is read without errors is read alike when letters of its
names and keywords change their case; only the operators that an order item and an exclusion keep as
they are written, and the texts of routine options, tell the difference.
-/
namespace SqlAudit

namespace Text

theorem toUpper_of_not_isAlpha {c : Char} (other : c.isAlpha = false) : c.toUpper = c := by
  by_cases small : c.toNat < 128
  · have ascii : ∀ n < 128, (Char.ofNat n).isAlpha = false →
        (Char.ofNat n).toUpper = Char.ofNat n := by decide +kernel
    obtain ⟨n, bound, rfl⟩ := exists_ofNat small
    exact ascii n bound other
  · exact toUpper_of_large small

/-- Where there are no letters, nothing can change its case. -/
theorem eq_of_raised {chars chars' : List Char} (none : chars.any Char.isAlpha = false)
    (same : raised chars' = raised chars) : chars' = chars := by
  have letters : CaseBlind Char.isAlpha := caseBlind_of_ascii (by decide +kernel)
  induction chars generalizing chars' with
  | nil => exact List.map_eq_nil_iff.mp same
  | cons c rest ih =>
      obtain ⟨c', rest', rfl, first, others⟩ := List.map_eq_cons_iff.mp same
      obtain ⟨plain, none⟩ := Bool.or_eq_false_iff.mp (List.any_cons ▸ none)
      have plain' : c'.isAlpha = false := by rw [← letters c', first, letters c, plain]
      rw [toUpper_of_not_isAlpha plain, toUpper_of_not_isAlpha plain'] at first
      rw [first, ih none others]

end Text

namespace Node

/-- The tree without the texts that options of routines are given. -/
def withoutOptionTexts (node : Node) : Node :=
  node.revalue fun kind value => if kind = .routineOption then none else value

/-- No letter stands behind the mark of the value, so there is none that is kept as it is
written. -/
def Unlettered (node : Node) : Prop :=
  ∀ mark ∈ node.kind.mark?, ∀ text ∈ node.value,
    ∀ split ∈ Lexer.splitAt mark.toList text.toList, split.2.any Char.isAlpha = false

instance : DecidablePred Unlettered := fun node =>
  inferInstanceAs (Decidable (∀ mark ∈ node.kind.mark?, ∀ text ∈ node.value,
    ∀ split ∈ Lexer.splitAt mark.toList text.toList, split.2.any Char.isAlpha = false))

instance {P : Node → Prop} [DecidablePred P] : DecidablePred (Every P) := fun node =>
  decidable_of_iff (∀ entry ∈ node.walk, P entry.1) (by rw [walk, forall_walkThen]; simp)

theorem folded_withoutOptionTexts (node : Node) :
    node.withoutOptionTexts.folded = node.folded.withoutOptionTexts := by
  rw [withoutOptionTexts, withoutOptionTexts, folded, folded, revalue_revalue, revalue_revalue]
  congr 1
  funext kind value
  by_cases option : kind = .routineOption
  · subst option
    rfl
  · simp only [if_neg option]

theorem Every.withoutOptionTexts {node : Node} (every : node.Every Unlettered) :
    node.withoutOptionTexts.Every Unlettered := by
  induction node using Node.induct with
  | step node ih =>
      obtain ⟨here, below⟩ := every_iff.mp every
      refine every_iff.mpr ⟨fun mark marked text written => ?_, fun child member => ?_⟩
      · rw [Node.withoutOptionTexts, revalue_kind] at marked
        rw [Node.withoutOptionTexts, revalue_value] at written
        split at written
        · cases written
        · exact here mark marked text written
      · rw [Node.withoutOptionTexts, revalue_children, List.mem_map] at member
        obtain ⟨own, member, rfl⟩ := member
        exact ih own member (below own member)

/-- Where no name is kept as it is written, nothing is left open by the tree with folded names. -/
theorem eq_of_folded {first second : Node} (every : first.Every Unlettered)
    (same : second.folded = first.folded) : second = first := by
  induction first using Node.induct generalizing second with
  | step first ih =>
      obtain ⟨here, below⟩ := every_iff.mp every
      rw [folded_eq, folded_eq] at same
      obtain ⟨kind, span, value, children⟩ := Node.mk.inj same
      have values : second.value = first.value := by
        rw [kind] at value
        cases marked : first.kind.mark? with
        | none =>
            rw [marked] at value
            exact value
        | some mark =>
            rw [marked] at value
            rcases foldValue_some value with ⟨left, right⟩ | ⟨a, b, left, right, alike⟩
            · rw [left, right]
            · rw [left, right]
              rcases foldText_eq_iff.mp alike with
                rfl | ⟨before, after, after', split, split', raised⟩
              · rfl
              · have plain := here mark marked a left _ split
                rw [Text.eq_of_raised plain raised] at split'
                rw [← String.ofList_toList (s := b), ← String.ofList_toList (s := a),
                  ← Lexer.splitAt_covers split, ← Lexer.splitAt_covers split']
      have parts : second.children = first.children := by
        generalize second.children = others at children
        have each := below
        revert ih each children
        generalize first.children = nodes
        intro ih children each
        induction nodes generalizing others with
        | nil => exact List.map_eq_nil_iff.mp children
        | cons node nodes more =>
            obtain ⟨node', others', rfl, one, rest⟩ := List.map_eq_cons_iff.mp children
            rw [ih node (.head _) (each node (.head _)) one,
              more others' (fun child member => ih child (.tail _ member)) rest
                fun child member => each child (.tail _ member)]
      cases first
      cases second
      simp_all

end Node

namespace Script

variable {c d : Cursor}

theorem readStatement_recased {node : Node} {c' : Cursor} (cursor : c.Recased c')
    (read : readStatement c = .ok (node, d)) :
    ∃ node' d', readStatement c' = .ok (node', d') ∧ node'.folded = node.folded ∧ d.Recased d' := by
  obtain ⟨after, heeded⟩ := Option.isSome_iff_exists.mp Grammar.heeded_statement
  rw [readStatement] at read
  split at read <;> cases read
  rename_i kind start value rest ok
  obtain ⟨g, d', ok', alike, cursor'⟩ :=
    Grammar.run_recased Grammar.heeds_rules heeded cursor ok
  obtain ⟨kind', start', value', parts⟩ := g
  obtain ⟨node', rest', shape, same, -⟩ := List.map_eq_cons_iff.mp alike.parts
  cases shape
  exact ⟨node', d', by rw [readStatement, ok'], same, cursor'⟩

theorem isTerminator_recased {a b : Lexeme} (recased : a.Recased b) :
    isTerminator b = isTerminator a := by
  cases recased <;> rfl

theorem readComplete_recased {node : Node} {c' : Cursor} (cursor : c.Recased c')
    (read : readComplete c = .ok (node, d)) :
    ∃ node' d', readComplete c' = .ok (node', d') ∧ node'.folded = node.folded ∧ d.Recased d' := by
  rw [readComplete] at read
  split at read
  · rename_i own e found
    split at read <;> cases read
    rename_i ends
    obtain ⟨node', d', found', same, cursor'⟩ := readStatement_recased cursor found
    refine ⟨node', d', ?_, same, cursor'⟩
    rw [readComplete, found']
    dsimp only
    rw [isTerminator_recased cursor'.current.lexeme, if_pos ends]
  · cases read

/-- Statements without errors are read alike one after another. -/
theorem statements_recased (fuel : Nat) (cursor : c.Recased d)
    (clean : (statements fuel c).2 = []) : (statements fuel d).2 = [] ∧
      (statements fuel d).1.map Node.folded = (statements fuel c).1.map Node.folded := by
  induction fuel generalizing c d with
  | zero => exact ⟨rfl, rfl⟩
  | succ fuel ih =>
      have lexeme := cursor.current.lexeme
      cases ends : isTerminator c.current.lexeme with
      | true =>
          have same := lexeme.eq_of_silent fun text word => by
            rw [word] at ends
            cases ends
          rcases (isTerminator_iff _).mp ends with semicolon | finish
          · rw [statements, semicolon] at clean
            rw [statements, statements, same, semicolon]
            exact ih cursor.advance clean
          · rw [statements, statements, same, finish]
            exact ⟨rfl, rfl⟩
      | false =>
          have goes := (isTerminator_recased lexeme).trans ends
          rw [statements_readOne fuel ends] at clean ⊢
          rw [statements_readOne fuel goes]
          cases found : readComplete { c with depth := 0 } with
          | error error =>
              rw [readOne, found] at clean
              cases clean
          | ok result =>
              obtain ⟨node, b⟩ := result
              obtain ⟨node', b', found', same, cursor'⟩ :=
                readComplete_recased (cursor.turn 0) found
              have one : readOne c = (node, none, b) := by rw [readOne, found]
              have two : readOne d = (node', none, b') := by rw [readOne, found']
              rw [one] at clean ⊢
              obtain ⟨errors, nodes⟩ := ih cursor' clean
              rw [two, List.map_cons, List.map_cons, same, nodes]
              exact ⟨errors, rfl⟩

theorem ofTokens_recased {tokens tokens' : List Token}
    (recased : List.Forall₂ Token.Recased tokens tokens') :
    (Cursor.ofTokens tokens).Recased (.ofTokens tokens') := by
  cases recased with
  | nil => exact ⟨rfl, ⟨.same, rfl⟩, .nil, rfl⟩
  | cons here others => exact ⟨rfl, here, others, rfl⟩

theorem withoutOptionTexts_nameOptions (text : List Char) (node : Node) :
    (nameOptions text node).withoutOptionTexts = node.withoutOptionTexts := by
  induction node using Node.induct with
  | step node ih =>
      have value : (if node.kind = .routineOption then none else (nameOptions text node).value) =
          if node.kind = .routineOption then none else node.value := by
        cases node
        rw [nameOptions]
        split <;> rfl
      rw [Node.withoutOptionTexts, Node.withoutOptionTexts, Node.revalue_eq, Node.revalue_eq node,
        nameOptions_kind, nameOptions_span, nameOptions_children, List.map_map, value]
      exact congrArg _ (List.map_congr_left ih)

theorem folded_nameOptions (text text' : List Char) {node node' : Node}
    (same : node'.folded = node.folded) :
    (nameOptions text' node').withoutOptionTexts.folded =
      (nameOptions text node).withoutOptionTexts.folded := by
  rw [withoutOptionTexts_nameOptions, withoutOptionTexts_nameOptions,
    Node.folded_withoutOptionTexts, Node.folded_withoutOptionTexts, same]

end Script

theorem size_recased {d : Dialect} {a b : String} (recased : Recased d a b) :
    b.utf8ByteSize = a.utf8ByteSize := by
  rw [← Lexer.size_toList, ← Lexer.size_toList, Lexer.size_raised recased.letters]

/-- A text that is read without errors is read without errors in every case of its names and
keywords, as a tree of the same kinds, spans and parts. The values are the same too, but for the
texts of routine options and for the case of letters in the operators that order items keep after
USING and exclusions after OPERATOR; where there are no letters in these, nothing is different. -/
theorem recased_read_alike {d : Dialect} {a b : String} (recased : Recased d a b)
    (complete : (Script.read d a).errors = []) :
    (Script.read d b).errors = [] ∧
      (Script.read d b).root.withoutOptionTexts.folded =
        (Script.read d a).root.withoutOptionTexts.folded ∧
      ((Script.read d a).root.Every Node.Unlettered →
        (Script.read d b).root.withoutOptionTexts = (Script.read d a).root.withoutOptionTexts) := by
  have tokens := tokenize_recased recased
  have cursor := Script.ofTokens_recased tokens
  obtain ⟨errors, nodes⟩ := Script.statements_recased ((tokenize d a).length + 1) cursor complete
  rw [tokens.length_eq] at errors nodes
  have same : (Script.read d b).root.withoutOptionTexts.folded =
      (Script.read d a).root.withoutOptionTexts.folded := by
    refine Script.folded_nameOptions _ _ ?_
    rw [Node.folded_eq, Node.folded_eq, Script.ofTokens, Script.ofTokens, size_recased recased]
    refine congrArg _ (nodes.trans ?_)
    rw [tokens.length_eq]
  exact ⟨errors, same, fun every => Node.eq_of_folded every.withoutOptionTexts same⟩

/-- Names, keywords and words of clauses in every case. -/
theorem query_recased : ∃ a b : String, Recased .postgres a b ∧
    (Script.read .postgres a).errors = [] ∧
    (Script.read .postgres a).root.Every Node.Unlettered ∧ a ≠ b ∧
    (Script.read .postgres b).errors = [] ∧
    (Script.read .postgres b).root.withoutOptionTexts =
      (Script.read .postgres a).root.withoutOptionTexts := by
  obtain ⟨recased, complete, unlettered⟩ :
      Recased .postgres "SELECT Id FROM t ORDER BY Id USING >, 1 NULLS Last"
        "select ID from T order by iD using >, 1 nulls lAST" ∧
      (Script.read .postgres "SELECT Id FROM t ORDER BY Id USING >, 1 NULLS Last").errors = [] ∧
      (Script.read .postgres
        "SELECT Id FROM t ORDER BY Id USING >, 1 NULLS Last").root.Every Node.Unlettered := by
    decide +kernel
  obtain ⟨errors, -, same⟩ := recased_read_alike recased complete
  exact ⟨_, _, recased, complete, unlettered, by decide, errors, same unlettered⟩

/-- The operator of an order item is kept as it is written, and so is that of an exclusion. -/
theorem operator_spelling_kept :
    (Recased .postgres "SELECT 1 ORDER BY 1 USING Foo" "SELECT 1 ORDER BY 1 USING foo" ∧
      (Script.read .postgres "SELECT 1 ORDER BY 1 USING Foo").errors = [] ∧
      (Script.read .postgres "SELECT 1 ORDER BY 1 USING foo").root.withoutOptionTexts ≠
        (Script.read .postgres "SELECT 1 ORDER BY 1 USING Foo").root.withoutOptionTexts) ∧
    (Recased .postgres "CREATE TABLE t (c int, EXCLUDE (c WITH OPERATOR(Cat.=)))"
        "CREATE TABLE t (c int, EXCLUDE (c WITH OPERATOR(cat.=)))" ∧
      (Script.read .postgres
        "CREATE TABLE t (c int, EXCLUDE (c WITH OPERATOR(Cat.=)))").errors = [] ∧
      (Script.read .postgres
          "CREATE TABLE t (c int, EXCLUDE (c WITH OPERATOR(cat.=)))").root.withoutOptionTexts ≠
        (Script.read .postgres
          "CREATE TABLE t (c int, EXCLUDE (c WITH OPERATOR(Cat.=)))").root.withoutOptionTexts) := by
  refine ⟨⟨by decide +kernel, by decide +kernel, fun same => ?_⟩, by decide +kernel,
    by decide +kernel, fun same => ?_⟩
  · have values := congrArg (fun root : Node => (root.at? [0, 1, 0]).bind (·.value)) same
    revert values
    decide +kernel
  · have values := congrArg (fun root : Node => (root.at? [0, 2, 0]).bind (·.value)) same
    revert values
    decide +kernel

end SqlAudit
