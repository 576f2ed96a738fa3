import SqlAudit.Proofs.Grammar.Derivation
import SqlAudit.Proofs.Grammar.Origin
/-!
What stands behind a text. A query is read the same wherever it stands if the grammar tells what
stands behind it in one place from what stands there in the other only where this is taken. Whether
that is so can be seen from the grammar: the tests are asked what they can see at the end of the text
and one token before it, and the tokens are counted that must still be taken.
-/
namespace SqlAudit

/-- The outlines of the first token behind a text and of the one after it. -/
structure Behind where
  here : Lexeme
  next : Lexeme

/-- What a test can see: the current token, where it is known, and the next one. -/
structure Sight where
  current : Option Lexeme
  next : Lexeme

/-- At the end of the text. -/
def Behind.atEnd (e : Behind) : Sight := ⟨some e.here, e.next⟩

/-- At its last token. -/
def Behind.before (e : Behind) : Sight := ⟨none, e.here⟩

structure Sight.Of (s : Sight) (c : Cursor) : Prop where
  current : s.current = some c.current.lexeme.outline ∨ s.current = none
  next : s.next = c.peek.lexeme.outline

variable {s s' : Sight} {f g : Frame} {c d : Cursor}

/-- The test may come out as given. -/
def Sight.allows (s : Sight) (verdict : Bool) (test : Test) : Bool :=
  test.may s.current (some s.next) verdict

theorem Sight.Of.allows (sees : s.Of c) (test : Test) : s.allows (test.holds f c) test = true :=
  Test.may_weaken sees.current (.inl (congrArg some sees.next)) (test.may_holds f c)

namespace Test

/-- Where `s` and `s'` are seen the test can come out as given and otherwise. A token that is not
known is the same in both places. -/
def differs (s s' : Sight) : Bool → Test → Bool
  | verdict, .here tokens => s.current.isSome && s'.current.isSome &&
      s.allows verdict (.here tokens) && s'.allows (!verdict) (.here tokens)
  | verdict, .phrase phrases => s.current.isSome && s'.current.isSome &&
      s.allows verdict (.phrase phrases) && s'.allows (!verdict) (.phrase phrases)
  | verdict, .next tokens => s.allows verdict (.next tokens) && s'.allows (!verdict) (.next tokens)
  | _, .valueIn _ => false
  | _, .lastIs _ => false
  | true, .both a b =>
      (a.differs s s' true && s.allows true b) || (s.allows true a && b.differs s s' true)
  | false, .both a b =>
      (a.differs s s' false && s'.allows true b) || (s'.allows true a && b.differs s s' false)
  | true, .either a b =>
      (a.differs s s' true && s'.allows false b) || (s'.allows false a && b.differs s s' true)
  | false, .either a b =>
      (a.differs s s' false && s.allows false b) || (s.allows false a && b.differs s s' false)
  | verdict, .neither a => a.differs s s' !verdict

/-- Frames that tests cannot tell apart. -/
structure Unseen (f g : Frame) : Prop where
  value : g.value = f.value
  last : g.parts.head?.map (·.kind) = f.parts.head?.map (·.kind)

theorem differs_of_holds (sees : s.Of c) (sees' : s'.Of d)
    (same : (s.current.isSome && s'.current.isSome) = false → d.current.lexeme = c.current.lexeme)
    (unseen : Unseen f g) {test : Test} {verdict : Bool} (one : test.holds f c = verdict)
    (two : test.holds g d = !verdict) : test.differs s s' verdict = true := by
  have allowed (test : Test) {verdict : Bool} (holds : test.holds f c = verdict) :
      s.allows verdict test = true := holds ▸ sees.allows test
  have allowed' (test : Test) {verdict : Bool} (holds : test.holds g d = verdict) :
      s'.allows verdict test = true := holds ▸ sees'.allows test
  have known {test : Test} {verdict : Bool} (plain : d.current.lexeme = c.current.lexeme →
      test.holds g d = test.holds f c) (one : test.holds f c = verdict)
      (two : test.holds g d = !verdict) : (s.current.isSome && s'.current.isSome) = true := by
    by_contra unknown
    rw [plain (same (Bool.eq_false_iff.mpr unknown)), one] at two
    cases verdict <;> cases two
  induction test generalizing verdict with
  | here tokens =>
      have both := known (fun same => by rw [holds, holds, same]) one two
      rw [differs, both, allowed _ one, allowed' _ two]
      rfl
  | next tokens => rw [differs, allowed _ one, allowed' _ two, Bool.and_self]
  | phrase phrases =>
      have both := known (fun same => by rw [holds, holds, same]) one two
      rw [differs, both, allowed _ one, allowed' _ two]
      rfl
  | valueIn values =>
      rw [holds, unseen.value, ← holds, one] at two
      cases verdict <;> cases two
  | lastIs kind =>
      have last : (g.parts.head?.map fun node => decide (node.kind = kind)) =
          f.parts.head?.map fun node => decide (node.kind = kind) := by
        have kinds := congrArg (Option.map fun own => decide (own = kind)) unseen.last
        simpa [Option.map_map, Function.comp_def] using kinds
      rw [holds, last, ← holds, one] at two
      cases verdict <;> cases two
  | both a b first second =>
      rw [holds] at one two
      cases verdict with
      | true =>
          obtain ⟨left, right⟩ := Bool.and_eq_true_iff.mp one
          rcases Bool.and_eq_false_iff.mp two with other | other
          · rw [differs, first left other, allowed b right]
            rfl
          · rw [differs, allowed a left, second right other, Bool.and_self, Bool.or_true]
      | false =>
          obtain ⟨left, right⟩ := Bool.and_eq_true_iff.mp two
          rcases Bool.and_eq_false_iff.mp one with other | other
          · rw [differs, first other left, allowed' b right]
            rfl
          · rw [differs, allowed' a left, second other right, Bool.and_self, Bool.or_true]
  | either a b first second =>
      rw [holds] at one two
      cases verdict with
      | true =>
          obtain ⟨left, right⟩ := Bool.or_eq_false_iff.mp two
          rcases Bool.or_eq_true_iff.mp one with other | other
          · rw [differs, first other left, allowed' b right]
            rfl
          · rw [differs, allowed' a left, second other right, Bool.and_self, Bool.or_true]
      | false =>
          obtain ⟨left, right⟩ := Bool.or_eq_false_iff.mp one
          rcases Bool.or_eq_true_iff.mp two with other | other
          · rw [differs, first left other, allowed b right]
            rfl
          · rw [differs, allowed a left, second right other, Bool.and_self, Bool.or_true]
  | neither a ih =>
      rw [holds] at one two
      rw [differs]
      refine ih (by rw [← one, Bool.not_not]) ?_
      rw [← two, Bool.not_not]

end Test

/-- What is known of the tokens at a cursor. -/
def Outlook.At (o : Outlook) (c : Cursor) : Prop :=
  o.possible (some c.current.lexeme.outline) (some c.peek.lexeme.outline) = true

namespace Outlook.At

variable {o : Outlook}

theorem unknown (c : Cursor) : (Outlook.unknown false false).At c := rfl

theorem learn (at' : o.At c) {test : Test} (holds : test.holds f c = true) : (o.learn test).At c := by
  have may := test.may_holds f c
  rw [holds, ← Test.may_plain] at may
  exact Bool.and_eq_true_iff.mpr ⟨may, at'⟩

theorem feasible (at' : o.At c) : o.feasible = true := by
  rw [Outlook.feasible, List.any_eq_true]
  rcases Outlook.mem_currents at' with known | unknown
  · exact ⟨_, known, Outlook.possible_weaken (.inl rfl) (.inr rfl) at'⟩
  · exact ⟨_, unknown, Outlook.possible_weaken (.inr rfl) (.inr rfl) at'⟩

end Outlook.At

namespace Grammar

/-- So many tokens at least are taken. What fails, or is not reached, takes as many as are ever asked
for. Where nothing is known, nothing is learned from tests. -/
def least : Grammar → Outlook → Nat
  | .fail _, _ => 2
  | .take, _ | .call _, _ => 1
  | .seq a b, o => a.least o + b.least (.unknown false false)
  | .branch test a b, o =>
    bif o.known.isEmpty then min (a.least o) (b.least o)
    else min (bif (o.learn test).feasible then a.least (o.learn test) else 2)
      (bif (o.learn test.neither).feasible then b.least (o.learn test.neither) else 2)
  | .node _ a, o | .wrap _ a, o => max 1 (a.least o)
  | .discard a, o | .deeper a, o => a.least o
  | _, _ => 0

variable {rules : Nonterminal → Grammar}

/-- Tokens are counted where the reading does not stay at the last one. -/
theorem Derives.least_le {a : Grammar} {o : Outlook} (derives : Derives rules a f c g d)
    (at' : o.At c) (more : 2 ≤ d.tokens.length) :
    d.tokens.length + a.least o ≤ c.tokens.length := by
  induction derives generalizing o with
  | @change a f g c d changes =>
      have shorter := changes.steps.path.suffix.length_le
      cases changes with
      | take =>
          rw [Cursor.length_tokens, Cursor.advance_rest, List.length_tail] at more ⊢
          rw [Cursor.length_tokens, least]
          omega
      | _ => exact shorter
  | seq first second left right =>
      have later := right (.unknown _) more
      have earlier := left at' (by omega)
      rw [least]
      omega
  | yes holds taken ih =>
      have known := at'.learn holds
      have here := ih known more
      have plain := ih at' more
      rw [least, known.feasible, cond_true]
      cases o.known.isEmpty <;> simp only [cond_true, cond_false] <;> omega
  | no fails taken ih =>
      have known := @Outlook.At.learn _ _ _ at' (.neither _) (by rw [Test.holds, fails]; rfl)
      have here := ih known more
      have plain := ih at' more
      rw [least, known.feasible, cond_true]
      cases o.known.isEmpty <;> simp only [cond_true, cond_false] <;> omega
  | stop fails => exact Nat.le_refl _
  | round holds once again left right =>
      exact (once.steps.path.trans again.steps.path).suffix.length_le
  | node real inner moved ih =>
      have here := ih at' more
      rw [Cursor.length_tokens, Cursor.length_tokens] at here ⊢
      rw [least]
      omega
  | wrap real inner moved ih =>
      have here := ih at' more
      rw [Cursor.length_tokens, Cursor.length_tokens] at here ⊢
      rw [least]
      omega
  | discard inner ih => exact ih at' more
  | deeper shallow inner ih => exact ih at' more
  | call ruled moved ih =>
      rw [Cursor.length_tokens, Cursor.length_tokens, least]
      omega

/-- Tokens that are taken at least, whatever is ahead. -/
def atLeast (a : Grammar) : Nat := a.least (.unknown false false)

/-- Tokens that are taken at least where the test holds. -/
def atLeastIf (a : Grammar) (test : Test) : Nat := a.least ((Outlook.unknown false false).learn test)

/-- The kinds that a frame is turned into. -/
def turns : Grammar → List (Option NodeKind)
  | .become kind => [some kind]
  | .dissolve => [none]
  | .seq a b | .branch _ a b => a.turns ++ b.turns
  | .loop _ a | .deeper a => a.turns
  | _ => []

/-- How often at most the last part of the frame gives up its place to its own parts. -/
def splices : Grammar → Nat
  | .splice => 1
  | .seq a b => a.splices + b.splices
  | .branch _ a b => max a.splices b.splices
  | .loop _ a => 2 * a.splices
  | .deeper a => a.splices
  | _ => 0

/-- Where the test tells two endings apart, a token must still be taken that stands there: `yes`
are taken at least if it holds, `no` if not. What is not told is that it fails at the end. -/
def settles (e e' : Behind) (test : Test) (yes no : Nat) : Bool :=
  (!test.differs e.atEnd e'.atEnd true || 1 ≤ yes) &&
    (!test.differs e.before e'.before true || 2 ≤ yes) &&
    (!test.differs e.before e'.before false || 2 ≤ no)

/-- At the end of the text the test may fail, and hold in the second place. -/
def misses (e e' : Behind) (test : Test) : Bool := test.differs e.atEnd e'.atEnd false

end Grammar

/-- Nodes that have tables as their parts. -/
def tableKinds : List NodeKind := [.fromClause, .join, .subquery, .usingClause]

/-- What tells of a test that the second place would have passed at the end: nothing so far, a call
of a function among the parts, a node with such a call for a table, or a part with such a node. -/
inductive Trace
  | missed | call | table | within
  deriving DecidableEq

namespace Trace

/-- What becomes this trace in a node around it. -/
def inside : Trace → List Trace
  | .missed => []
  | .call => [.missed]
  | .table => [.call]
  | .within => [.table, .within]

end Trace

/-- The traces that a rule can leave. -/
def Nonterminal.leaves : Nonterminal → Trace → Bool
  | .joinedTable, trace => trace != .missed
  | .query, trace => trace == .within
  | _, _ => false

namespace Grammar

/-- The last token taken is a closing parenthesis. -/
def closes : Grammar → Bool
  | .branch (.here (.symbols [.closeParen])) .take (.fail _) => true
  | .seq _ b => b.closes
  | _ => false

theorem closes_branch {test : Test} {a b : Grammar} (closes : (branch test a b).closes = true) :
    test = symbol .closeParen ∧ a = .take ∧ ∃ expected, b = .fail expected := by
  unfold Grammar.closes at closes
  split at closes
  · rename_i expected same
    cases same
    exact ⟨rfl, rfl, expected, rfl⟩
  · rename_i same
    cases same
  · cases closes

/-- The grammar can leave such a trace where tests may be missed behind a closing parenthesis; it
starts there where it is `closed`. -/
def spots (e e' : Behind) : Bool → Grammar → Trace → Bool
  | closed, .seq a b, trace =>
    b.spots e e' a.closes trace || (b.atLeast == 0 && (a.spots e e' closed trace ||
      (trace == .table && b.splices != 0 && a.spots e e' closed .within)))
  | closed, .branch test a b, trace =>
    (closed && trace == .missed && misses e e' test && b.atLeast == 0) ||
      a.spots e e' closed trace || b.spots e e' closed trace
  | _, .loop _ a, trace => a.spots e e' false trace
  | closed, .deeper a, trace => a.spots e e' closed trace
  | closed, .node _ a, trace | closed, .wrap _ a, trace =>
    (trace.inside.any fun inner => a.spots e e' closed inner) ||
      (trace != .missed && a.turns.contains none && a.spots e e' closed trace)
  | _, .call name, trace => name.leaves trace
  | _, _, _ => false

/-- The grammar can leave such a trace, if tests may be missed at all. -/
def leaves (e e' : Behind) (lax closed : Bool) (a : Grammar) (trace : Trace) : Bool :=
  lax && a.spots e e' closed trace

/-- Traces of the first part are not lost with the second one. -/
def keepsTraces (leaves : Trace → Bool) (b : Grammar) : Bool :=
  b.atLeast != 0 ||
    ((!(leaves .call || leaves .table) || b.splices == 0) && (!leaves .within || b.splices ≤ 1))

/-- A node of the kind turns each trace into the next one. -/
def marksTraces (leaves : Trace → Bool) (kind : NodeKind) (a : Grammar) : Bool :=
  (!leaves .missed || (kind == .functionCall && a.turns.isEmpty)) &&
    (!leaves .call || (tableKinds.contains kind && a.turns.all (· == none)))

/-- Endings are only told apart where the grammar goes on beyond the text, or else a trace of it is
left. So many tokens have been taken `before`, since the rule began, and so many are still to be
taken `after`. Loops and rules take a token each time. -/
def abides (e e' : Behind) (lax : Bool) : Bool → Nat → Nat → Grammar → Bool
  | _, _, after, .copy _ => 1 ≤ after
  | _, _, _, .phrase _ => false
  | closed, before, after, .seq a b =>
    keepsTraces (a.leaves e e' lax closed) b &&
      a.abides e e' lax closed before (after + b.atLeast) &&
      b.abides e e' lax a.closes (before + a.atLeast) after
  | closed, before, after, .branch test a b =>
    settles e e' test (after + a.atLeast) (after + b.atLeast) &&
      (!misses e e' test || (lax && closed) || 1 ≤ after + b.atLeast) &&
      a.abides e e' lax closed before after && b.abides e e' lax closed before after
  | _, before, after, .loop test a =>
    settles e e' test (after + a.atLeast) after && (!misses e e' test || 1 ≤ after) &&
      1 ≤ a.atLeastIf test && a.splices == 0 && a.abides e e' lax false before after
  | closed, before, after, .node kind a | closed, before, after, .wrap kind a =>
    marksTraces (a.leaves e e' lax closed) kind a && a.abides e e' lax closed before after
  | closed, before, after, .deeper a => a.abides e e' lax closed before after
  | closed, before, after, .discard a =>
    1 ≤ a.atLeast &&
      ([.missed, .call, .table, .within].all fun trace => !a.leaves e e' lax closed trace) &&
      a.abides e e' lax closed before after
  | _, before, _, .call name => name.inQuery && 1 ≤ before
  | _, _, _, _ => true

end Grammar
end SqlAudit
