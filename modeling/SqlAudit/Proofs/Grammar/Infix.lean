import SqlAudit.Proofs.Grammar.Origin
import SqlAudit.Proofs.Grammar.Phrased
/-!
The operators of binary expressions. The first token behind a left operand tells that an operator
follows, and its spelling is that of the operator or the start of it; so a token that is no infix
operator is none in any tree.
-/
namespace SqlAudit

/-- No binary expression of this operator. -/
def Node.IsNotBy (o : String) (node : Node) : Prop :=
  node.kind = .binaryExpr → node.value ≠ some o

/-- Only at an infix operator or at a keyword the test can be passed. -/
def Test.tellsInfix : Test → Bool
  | .here (.infixAt _) | .here (.keywords _) => true
  | _ => false

namespace Grammar

/-- An operator and what follows it, around what stands in front of it. -/
def readsInfix : Grammar → Bool
  | .wrap .binaryExpr (.seq (.seq (.copy .described) .take) (.call _)) => true
  | a => a == predicate

/-- Binary expressions are read only where their operator has been told. -/
def tellsInfix : Grammar → Bool
  | .branch test a b => ((a.readsInfix && test.tellsInfix) || a.tellsInfix) && b.tellsInfix
  | .node kind a | .wrap kind a => kind != .binaryExpr && a.tellsInfix
  | .become kind => kind != .binaryExpr
  | .seq a b => a.tellsInfix && b.tellsInfix
  | .loop _ a | .discard a | .deeper a => a.tellsInfix
  | _ => true

theorem rules_tell (name : Nonterminal) : tellsInfix (rules name) = true := by
  cases name <;> rfl

theorem statement_tells : tellsInfix statement = true := rfl

variable {o : String} {f g : Frame} {c d : Cursor} {a : Grammar}

theorem readsInfix_wrap (reads : a.readsInfix = true) : ∃ body, a = .wrap .binaryExpr body ∧
    ((∃ name, body = .seq (.seq (.copy .described) .take) (.call name)) ∨ a = predicate) := by
  rw [readsInfix.eq_def] at reads
  split at reads
  · exact ⟨_, rfl, .inl ⟨_, rfl⟩⟩
  · obtain rfl := beq_iff_eq.mp reads
    exact ⟨_, rfl, .inr rfl⟩

/-- Where the test is passed, the token is spelled otherwise, if no other operator is spelled so. -/
theorem describe_ne_of_test {test : Test} (tells : test.tellsInfix = true)
    (holds : test.holds f c = true) (other : c.current.lexeme ≠ .operator "~") :
    c.current.lexeme.describe ≠ "~" := by
  rw [Test.tellsInfix.eq_def] at tells
  split at tells
  · rw [Test.holds, TokenClass.holds, beq_iff_eq] at holds
    cases lexeme : c.current.lexeme with
    | symbol s =>
        rw [lexeme] at holds
        cases s <;> first | decide | cases holds
    | keyword k => cases k <;> decide
    | operator text =>
        rintro rfl
        exact other lexeme
    | _ =>
        rw [lexeme] at holds
        cases holds
  · rw [Test.holds] at holds
    cases lexeme : c.current.lexeme with
    | keyword k => cases k <;> decide
    | _ =>
        rw [lexeme] at holds
        cases holds
  · cases tells

/-- Behind what may be written first, an operand writes nothing. -/
theorem Derives.value_of_operator (derives : Derives rules (takeAs .described ++ a) f c g d)
    (quiet : a.spares true = true) :
    g.value = some (f.value.getD "" ++ c.current.lexeme.describe) := by
  obtain ⟨h, e, taken, rest⟩ := derives.of_seq
  obtain ⟨rfl, -⟩ := taken.of_takeAs
  exact (rest.spares voiced_rules.quiet quiet).2 rfl

theorem append_ne {before text : String} (long : 1 < before.length + text.length) :
    before ++ text ≠ "~" := by
  intro same
  have length := congrArg String.length same
  rw [String.length_append] at length
  have one : "~".length = 1 := rfl
  omega

/-- The frame gets this kind first, and keeps it. -/
def turnsInto (kind : NodeKind) : Grammar → Bool
  | .become own => own == kind
  | .seq a b => a.turnsInto kind && b.spares false
  | _ => false

theorem Derives.turnsInto {kind : NodeKind} (derives : Derives rules a f c g d)
    (turns : a.turnsInto kind = true) : g.kind = some kind := by
  induction derives with
  | change changes =>
      cases changes with
      | become real => exact congrArg some (beq_iff_eq.mp turns)
      | _ => cases turns
  | seq first second left right =>
      obtain ⟨one, quiet⟩ := Bool.and_eq_true_iff.mp turns
      exact (second.spares voiced_rules.quiet quiet).1.trans (left one)
  | _ => cases turns

/-- The value of a predicate is what its first token says, or goes on behind NOT. -/
theorem Derives.value_of_predicate {body : Grammar} (isBody : predicate = .wrap .binaryExpr body)
    (derives : Derives rules body f c g d) (unnamed : f.value = none)
    (told : c.current.lexeme.describe ≠ "~") (same : g.kind = some .binaryExpr) :
    g.value ≠ some "~" := by
  obtain rfl := (Grammar.wrap.inj isBody).2
  obtain ⟨h, e, denied, rest⟩ := derives.of_seq
  have start : h.value = some "NOT " ∨ (h.value = none ∧ e = c) := by
    rcases denied.of_branch with ⟨holds, taken⟩ | ⟨-, none⟩
    · obtain ⟨i, b, taken, gap⟩ := taken.of_seq
      obtain ⟨rfl, -⟩ := taken.of_takeAs
      cases gap with
      | change gaps =>
          cases gaps
          left
          cases lexeme : c.current.lexeme with
          | keyword k =>
              rw [keyword, Test.holds, TokenClass.holds.eq_def, lexeme] at holds
              obtain rfl : k = .NOT := by simpa using holds
              simp [Frame.gap, Frame.write, unnamed]
              rfl
          | _ =>
              rw [keyword, Test.holds, lexeme] at holds
              cases holds
    · cases none with
      | change nothing =>
          cases nothing
          exact .inr ⟨unnamed, rfl⟩
  rcases rest.of_branch with ⟨-, isIn⟩ | ⟨-, rest⟩
  · exact absurd ((@Derives.turnsInto _ _ _ _ _ .inList isIn rfl).symm.trans same) (by decide)
  rcases rest.of_branch with ⟨-, isBetween⟩ | ⟨-, rest⟩
  · exact absurd ((@Derives.turnsInto _ _ _ _ _ .between isBetween rfl).symm.trans same) (by decide)
  rcases rest.of_branch with ⟨-, isSimilar⟩ | ⟨-, like⟩
  · obtain ⟨i, b, words, pattern⟩ := isSimilar.of_seq
    obtain ⟨j, b', taken, written⟩ := words.of_seq
    rw [(pattern.spares voiced_rules.quiet rfl).2 rfl]
    cases written with
    | change writes =>
        cases writes
        have long : 1 < (j.value.getD "").length + "SIMILAR TO".length :=
          Nat.lt_of_lt_of_le (by decide) (Nat.le_add_left _ _)
        exact fun same => append_ne long (Option.some.inj same)
  · rw [like.value_of_operator rfl]
    rcases start with denied | ⟨none, rfl⟩
    · have long : 1 < "NOT ".length + e.current.lexeme.describe.length :=
        Nat.lt_of_lt_of_le (by decide) (Nat.le_add_right _ _)
      rw [denied]
      exact fun same => append_ne long (Option.some.inj same)
    · rw [none, Option.getD_none, String.empty_append]
      exact fun same => told (Option.some.inj same)

/-- Binary expressions are read as such from the start, and none has the operator of a token that
is no infix operator. -/
theorem derives_notBy (derives : Derives rules a f c g d)
    (absent : ∀ token ∈ c.tokens, token.lexeme ≠ .operator "~")
    (tells : a.tellsInfix = true ∨ (a.readsInfix = true ∧ c.current.lexeme.describe ≠ "~")) :
    (g.kind = some .binaryExpr → f.kind = some .binaryExpr) ∧
      (f.All (Node.IsNotBy "~") → g.All (Node.IsNotBy "~")) := by
  induction derives with
  | change changes =>
      refine ⟨fun same => ?_, changes.all⟩
      cases changes with
      | become real =>
          cases same
          rcases tells with tells | ⟨reads, -⟩
          · simp [tellsInfix] at tells
          · cases reads
      | dissolve => cases same
      | phrase spoken => split at same <;> exact same
      | splice => rwa [Frame.splice_kind] at same
      | echo =>
          obtain ⟨value, echoed⟩ := Frame.echo_eq _
          rwa [echoed] at same
      | _ => exact same
  | seq started finished left right =>
      rcases tells with tells | ⟨reads, -⟩
      · obtain ⟨one, other⟩ := Bool.and_eq_true_iff.mp tells
        have first := left absent (.inl one)
        have second := right (fun token member =>
          absent token (started.steps.path.suffix.mem member)) (.inl other)
        exact ⟨fun same => first.1 (second.1 same), fun all => second.2 (first.2 all)⟩
      · cases reads
  | yes holds taken ih =>
      rcases tells with tells | ⟨reads, -⟩
      · obtain ⟨one, other⟩ := Bool.and_eq_true_iff.mp tells
        rcases Bool.or_eq_true_iff.mp one with both | one
        · obtain ⟨reads, test⟩ := Bool.and_eq_true_iff.mp both
          exact ih absent (.inr ⟨reads, describe_ne_of_test test holds (absent _ (.head _))⟩)
        · exact ih absent (.inl one)
      · cases reads
  | no fails taken ih =>
      rcases tells with tells | ⟨reads, -⟩
      · exact ih absent (.inl (Bool.and_eq_true_iff.mp tells).2)
      · cases reads
  | stop fails => exact ⟨id, id⟩
  | round holds once again left right =>
      rcases tells with tells | ⟨reads, -⟩
      · have first := left absent (.inl tells)
        have second := right (fun token member =>
          absent token (once.steps.path.suffix.mem member)) (.inl tells)
        exact ⟨fun same => first.1 (second.1 same), fun all => second.2 (first.2 all)⟩
      · cases reads
  | @node kind a f g c d real inner moved ih =>
      rcases tells with tells | ⟨reads, -⟩
      · obtain ⟨other, below⟩ := Bool.and_eq_true_iff.mp tells
        obtain ⟨kinds, parts⟩ := ih absent (.inl below)
        refine ⟨fun same => by rwa [Frame.close_kind] at same, fun all => ?_⟩
        refine all_close all (parts (all_opened _ _ _)) ?_
        rintro own same binary
        obtain rfl : kind = .binaryExpr := Option.some.inj (kinds (same.trans (congrArg some binary)))
        simp at other
      · cases reads
  | @wrap kind a f g c d real inner moved ih =>
      have opened : (f.wrapLast kind c).1.kind = some kind ∧ (f.wrapLast kind c).1.value = none ∧
          (f.wrapLast kind c).2.kind = f.kind := by
        rw [Frame.wrapLast]
        split <;> exact ⟨rfl, rfl, rfl⟩
      obtain ⟨start, unnamed, outer⟩ := opened
      have told : a.tellsInfix = true ∧ (g.kind = some .binaryExpr → g.value ≠ some "~") := by
        rcases tells with tells | ⟨reads, other⟩
        · obtain ⟨distinct, below⟩ := Bool.and_eq_true_iff.mp tells
          refine ⟨below, fun same => ?_⟩
          have kinds := (ih absent (.inl below)).1 same
          rw [start] at kinds
          simp [Option.some.inj kinds] at distinct
        · obtain ⟨body, same, ⟨name, rfl⟩ | isPredicate⟩ := readsInfix_wrap reads
          · obtain ⟨rfl, rfl⟩ := Grammar.wrap.inj same
            refine ⟨rfl, fun _ => ?_⟩
            rw [inner.value_of_operator rfl, unnamed, Option.getD_none, String.empty_append]
            exact fun same => other (Option.some.inj same)
          · obtain ⟨rfl, rfl⟩ := Grammar.wrap.inj same
            refine ⟨?_, inner.value_of_predicate isPredicate.symm unnamed other⟩
            cases isPredicate
            rfl
      obtain ⟨below, named⟩ := told
      refine ⟨fun same => by rwa [Frame.close_kind, outer] at same, fun all => ?_⟩
      obtain ⟨first, left⟩ := all_wrapLast kind c all
      refine all_close left ((ih absent (.inl below)).2 first) ?_
      rintro own same binary
      exact named (same.trans (congrArg some binary))
  | discard inner ih => exact ⟨id, id⟩
  | deeper shallow inner ih =>
      rcases tells with tells | ⟨reads, -⟩
      · exact ih absent (.inl tells)
      · cases reads
  | call read moved ih => exact ih absent (.inl (rules_tell _))

end Grammar
end SqlAudit
