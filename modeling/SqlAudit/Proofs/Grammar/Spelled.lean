import SqlAudit.Grammar.Statement
import SqlAudit.Proofs.Grammar.Survey
/-!
Where the spelling of a name could come into a tree. Values keep most names in lowercase or as
capitals; `heed` follows a grammar to those that it keeps as they are written, and admits them in
two kinds of nodes only, behind a text that tells them: the operator of an order item after USING,
and that of an exclusion after OPERATOR and a parenthesis.
-/
namespace SqlAudit

/-- The text in the value of a node behind which names are kept as they are written. -/
def NodeKind.mark? : NodeKind → Option String
  | .orderItem => some "USING "
  | .indexElement => some "OPERATOR("
  | _ => none

/-- Takes names in one case, whatever case they are written in. -/
def Spelling.folds : Spelling → Bool
  | .capitals | .lowered => true
  | .text | .described => false

/-- The names in a class, or outside of it, where they are few. -/
def TokenClass.names? (verdict : Bool) : TokenClass → Option (List String)
  | .words spellings => if verdict then some spellings else none
  | .anyWord => if verdict then none else some []
  | _ => if verdict then some [] else none

namespace Test

/-- The names that the current token can be when the test comes out so, where they are few; or those
that the token after it can be, if that is asked for, behind a token of this outline. -/
def names? (ahead : Bool) (current : Option Lexeme) : Bool → Test → Option (List String)
  | verdict, .here tokens =>
    if ahead then bif (Test.here tokens).may current none verdict then none else some []
    else tokens.names? verdict
  | verdict, .next tokens => if ahead then tokens.names? verdict else none
  | true, .both a b => (a.names? ahead current true).or (b.names? ahead current true)
  | false, .either a b => (a.names? ahead current false).or (b.names? ahead current false)
  | true, .either a b =>
    (a.names? ahead current true).bind fun l => (b.names? ahead current true).map (l ++ ·)
  | false, .both a b =>
    (a.names? ahead current false).bind fun l => (b.names? ahead current false).map (l ++ ·)
  | verdict, .neither a => a.names? ahead current !verdict
  | _, _ => none

/-- Asks for what has been built of the value. -/
def asksValue : Test → Bool
  | .valueIn _ => true
  | .both a b | .either a b => a.asksValue || b.asksValue
  | .neither a => a.asksValue
  | _ => false

/-- The kind that the last node has if the test holds. -/
def lastKind? : Test → Option NodeKind
  | .lastIs kind => some kind
  | .both a b => a.lastKind?.or b.lastKind?
  | _ => none

end Test

/-- What is known at one place of a grammar: tests that hold there, and all the names that the
current token can be; the mark of the last node, if there is one; whether the node under
construction may leave its parts only, and whether its value has its mark. -/
structure Notice where
  known : List Test
  names : Option (List String)
  last : Option (Option String)
  dissolves : Bool
  marked : Bool

namespace Notice

def outlook (n : Notice) : Outlook := ⟨n.known, false, false, false, false⟩

/-- The current token is not known. -/
def forget (n : Notice) : Notice := { n with known := [], names := none }

/-- Nothing gets here. -/
def unreached : Notice := ⟨[], some [], some none, false, true⟩

def learn (test : Test) (n : Notice) : Notice where
  known := test :: n.known
  names := n.names
  last := (test.lastKind?.map (·.mark?)).or n.last
  dissolves := n.dissolves
  marked := n.marked

/-- The names that the current token can be. -/
def bound (n : Notice) : Option (List String) :=
  (n.names.or (n.known.findSome? (·.names? false none true))).map
    (·.filter fun name => n.outlook.possible (some (.word name)) none)

/-- The current token is no name. -/
def silent (n : Notice) : Bool := n.bound == some []

/-- The names that can follow a token of this outline. -/
def ahead (n : Notice) (current : Option Lexeme) : Option (List String) :=
  (n.known.findSome? (·.names? true current true)).map
    (·.filter fun name => n.outlook.possible current (some (.word name)))

/-- The outlines that the current token can have, or just one that is not known. -/
def currents (n : Notice) : List (Option Lexeme) :=
  n.outlook.currents.filter (n.outlook.possible · none)

def afterTake (n : Notice) : Notice :=
  { n with
    known := []
    names := bif n.currents.all fun current => (n.ahead current).isSome then
      some (n.currents.flatMap fun current => (n.ahead current).getD []) else none }

/-- What holds on either of two ways. -/
def join (a b : Notice) : Notice where
  known := []
  names := a.bound.bind fun first => b.bound.map (first ++ ·)
  last := bif a.last == b.last then a.last else none
  dissolves := a.dissolves || b.dissolves
  marked := a.marked && b.marked

/-- Before a round of a loop. -/
def round (test : Test) (last : Option (Option String)) (n : Notice) : Notice :=
  ⟨[test.plain], none, last, n.dissolves, n.marked⟩

/-- A round has left its node as it found it. -/
def keeps (n round : Notice) : Bool :=
  (!round.dissolves || n.dissolves) && (round.marked || !n.marked)

/-- In a node that has just been opened. -/
def opened (last : Option (Option String)) (n : Notice) : Notice :=
  { n with last := last, dissolves := false, marked := false }

/-- After a node of this kind. If it may leave its parts only, the last of them counts, or the one
before it. -/
def closed (kind : NodeKind) (before : Option (Option String)) (n inner : Notice) : Notice where
  known := inner.known
  names := inner.names
  last :=
    bif !inner.dissolves || (inner.last == some kind.mark? && before == some kind.mark?) then
      some kind.mark? else none
  dissolves := n.dissolves
  marked := n.marked

end Notice

open Notice in
/-- What is known after a grammar, from what is known before it, in a node with this mark; none if
the spelling of a name could come into a value without a mark. The mark is not known in a rule,
which builds the node that it is called for; there the value stays as it is. -/
def heed (mark : Option (Option String)) : Grammar → Notice → Option Notice
  | .nothing, n => some n
  | .fail _, _ => some unreached
  | .take, n => some n.afterTake
  | .copy spelling, n =>
    bif mark.isSome && (spelling.folds || n.marked || n.silent) then some n else none
  | .write text, n => mark.map fun own => { n with marked := n.marked || own == some text }
  | .gap, n => mark.map fun _ => n
  | .phrase _, n => mark.map fun _ => n.forget
  | .seq a b, n => (heed mark a n).bind (heed mark b)
  | .branch test a b, n =>
    bif test.asksValue && mark != some none then none
    else (heed mark a (n.learn test)).bind fun yes =>
      (heed mark b (n.learn test.neither)).map yes.join
  | .loop test a, n =>
    let rounds (last : Option (Option String)) :=
      (heed mark a (n.round test last)).any fun round =>
        n.keeps round && (last == none || round.last == last)
    bif test.asksValue && mark != some none then none
    else bif n.last == some none && rounds (some none) then some { n.forget with last := some none }
    else bif rounds none then some { n.forget with last := none }
    else none
  | .node kind a, n => (heed (some kind.mark?) a (n.opened (some none))).map (n.closed kind n.last)
  | .wrap kind a, n => (heed (some kind.mark?) a (n.opened n.last)).map (n.closed kind none)
  | .become kind, n => bif mark == some none && kind.mark? == none then some n else none
  | .dissolve, n => bif mark == some none then some { n with dissolves := true } else none
  | .splice, n =>
    bif mark.isSome && (n.last == some none || n.last == mark) then
      some { n with last := none, marked := false }
    else none
  | .echo, n => bif mark.isSome && n.last == some none then some n else none
  | .discard a, n =>
    (heed (some none) a { n with last := some none, dissolves := true, marked := false }).map
      fun inner => { inner with last := n.last, dissolves := n.dissolves, marked := n.marked }
  | .deeper a, n => heed mark a n
  | .call _, n => some { n.forget with last := bif n.last == some none then n.last else none }

/-- A rule keeps names in one case, and leaves no node with a mark behind one without. -/
def Grammar.heeds (a : Grammar) : Bool :=
  (heed none a ⟨[], none, none, true, false⟩).isSome &&
    (heed none a ⟨[], none, some none, true, false⟩).any (·.last == some none)

namespace Grammar

/-- The power of an expression makes no difference to it. -/
theorem heeds_expressionFrom (power : Nat) :
    (expressionFrom power).heeds = (expressionFrom 0).heeds := by
  have rounds (last : Option (Option String)) (n : Notice) :
      n.round (continues power) last = n.round (continues 0) last := rfl
  have asks : (continues power).asksValue = (continues 0).asksValue := rfl
  have parts (p : Nat) : expressionFrom p =
      .deeper (.seq operand (.loop (continues p) operatorTail)) := rfl
  simp only [heeds, parts, heed, rounds, asks]

theorem heeds_expression : (expressionFrom 0).heeds = true := by decide +kernel

theorem heeds_rules (name : Nonterminal) : (rules name).heeds = true := by
  cases name with
  | expression power =>
      rw [rules, heeds_expressionFrom]
      exact heeds_expression
  | query => decide +kernel
  | joinedTable => decide +kernel
  | createStatement => decide +kernel
  | group => decide +kernel
  | atomicBody => decide +kernel

theorem heeded_statement :
    (heed (some none) statement ⟨[], none, some none, true, false⟩).isSome = true := by
  decide +kernel

end Grammar
end SqlAudit
