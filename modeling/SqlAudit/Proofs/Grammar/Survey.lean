import SqlAudit.Proofs.Grammar.Outline
/-!
A survey of a grammar finds out, without any tokens, what every reading by it keeps to: that a
token of a watched sort is only taken right after a loose one, that nodes and rounds of a loop take
at least one token, that a rule does so before it calls another one, that no test asks for the
token after a watched one, and that no node is of the kind of a region that could not be read.
-/
namespace SqlAudit

deriving instance DecidableEq for Test

/-- What a survey is about. Tests that are `barred` never hold where it is put to use, and rules
that are `closed` are never called. -/
structure Watch where
  watched : Lexeme
  loose : List Lexeme
  barred : List Test
  closed : List Nonterminal
  notWord : watched.capitals? = none

namespace Test

/-- The test without the power that an infix operator is asked for. -/
def plain : Test → Test
  | .here (.infixFrom _) => .here (.infixFrom 0)
  | .next (.infixFrom _) => .next (.infixFrom 0)
  | .both a b => .both a.plain b.plain
  | .either a b => .either a.plain b.plain
  | .neither a => .neither a.plain
  | test => test

def looksAhead : Test → Bool
  | .next _ => true
  | .both a b | .either a b => a.looksAhead || b.looksAhead
  | .neither a => a.looksAhead
  | _ => false

end Test

/-- What is known at one place of a grammar: tests that hold there; that the current token, if it is
watched, stands after a loose one; that it is not the end of the text; that the node under
construction, and that the rule, has taken a token. -/
structure Outlook where
  known : List Test
  guarded : Bool
  ready : Bool
  moved : Bool
  entered : Bool

namespace Outlook

def unknown (moved entered : Bool) : Outlook := ⟨[], false, false, moved, entered⟩

/-- Nothing gets here. -/
def unreached : Outlook := ⟨[], true, true, true, true⟩

/-- The known tests can hold of these tokens. -/
def possible (o : Outlook) (current next : Option Lexeme) : Bool :=
  o.known.all (·.may current next true)

def excludes (o : Outlook) (lexeme : Lexeme) : Bool := !o.possible (some lexeme) none

def safe (w : Watch) (o : Outlook) : Bool := o.excludes w.watched || o.guarded

def live (o : Outlook) : Bool := o.excludes .finish || o.ready

/-- The outlines that the current token can have, or just one that is not known. -/
def currents (o : Outlook) : List (Option Lexeme) :=
  match o.known.findSome? (·.outlines? true) with
  | some outlines => outlines.map some
  | none => [none]

def feasible (o : Outlook) : Bool := o.currents.any (o.possible · none)

def learn (test : Test) (o : Outlook) : Outlook := { o with known := test.plain :: o.known }

def isLoose (w : Watch) (current : Option Lexeme) : Bool :=
  (current.map w.loose.contains).getD false

def afterTake (w : Watch) (o : Outlook) : Outlook where
  known := []
  guarded := o.currents.all fun current =>
    !o.possible current (some w.watched) || isLoose w current
  ready := o.currents.all fun current => !o.possible current (some .finish)
  moved := o.live || o.moved
  entered := o.live || o.entered

/-- What holds on either of two ways. -/
def join (w : Watch) (a b : Outlook) : Outlook :=
  ⟨[], a.safe w && b.safe w, a.live && b.live, a.moved && b.moved, a.entered && b.entered⟩

/-- At a watched token the test comes out the same whatever stands after it. -/
def settles (w : Watch) (test : Test) (o : Outlook) : Bool :=
  !test.looksAhead || !test.may (some w.watched) none true ||
    !test.may (some w.watched) none false || o.excludes w.watched

/-- After a loop that runs as long as the test holds, and that the outlook `o` came upon. -/
def afterLoop (test : Test) (o : Outlook) : Outlook :=
  let first := !(o.learn test.neither).feasible
  (unknown (o.moved || first) (o.entered || first)).learn test.neither

end Outlook

open Outlook in
/-- The outlook after a grammar, from the one before it; none if it does something unwatched. -/
def survey (w : Watch) : Grammar → Outlook → Option Outlook
  | .nothing, o => some { o with moved := o.moved || !o.feasible }
  | .fail _, _ => some unreached
  | .take, o => bif o.safe w then some (o.afterTake w) else none
  | .copy _, o | .write _, o | .gap, o | .dissolve, o | .splice, o | .echo, o => some o
  | .become kind, o => bif kind == .unparsed then none else some o
  | .phrase phrases, o =>
    let first := o.known.contains (.phrase phrases)
    some (unknown (o.moved || first) (o.entered || first))
  | .seq a b, o => (survey w a o).bind (survey w b)
  | .branch test a b, o =>
    bif w.barred.contains test then survey w b o
    else bif o.settles w test then
      (survey w a (o.learn test)).bind fun yes => (survey w b (o.learn test.neither)).map (join w yes)
    else none
  | .loop test a, o =>
    bif (unknown false false).settles w test then
      (survey w a ((unknown false o.entered).learn test)).bind fun round =>
        bif round.moved then some (o.afterLoop test) else none
    else none
  | .node kind a, o | .wrap kind a, o =>
    (survey w a { o with moved := false }).bind fun inner =>
      bif inner.moved && !(kind == .unparsed) then
        some { inner with moved := true, entered := true }
      else none
  | .discard a, o | .deeper a, o => survey w a o
  | .call name, o =>
    bif o.entered && !w.closed.contains name then some (unknown true true) else none

variable {w : Watch} {o o' : Outlook} {a b : Grammar} {test : Test} {kind : NodeKind}

theorem survey_take (surveyed : survey w .take o = some o') :
    o.safe w = true ∧ o' = o.afterTake w := by
  rw [survey, Bool.cond_eq_ite] at surveyed
  split at surveyed
  · cases surveyed
    exact ⟨‹_›, rfl⟩
  · cases surveyed

theorem survey_become (surveyed : survey w (.become kind) o = some o') :
    kind ≠ .unparsed ∧ o' = o := by
  rw [survey, Bool.cond_eq_ite] at surveyed
  split at surveyed
  · cases surveyed
  · rename_i read
    cases surveyed
    exact ⟨by simpa using read, rfl⟩

/-- A branch is only surveyed where its test is barred or settled. -/
theorem survey_branch (surveyed : survey w (.branch test a b) o = some o') :
    (w.barred.contains test = true ∧ survey w b o = some o') ∨
      (o.settles w test = true ∧ ∃ yes no, survey w a (o.learn test) = some yes ∧
        survey w b (o.learn test.neither) = some no ∧ o' = yes.join w no) := by
  rw [survey, Bool.cond_eq_ite] at surveyed
  split at surveyed
  · exact .inl ⟨‹_›, surveyed⟩
  · rw [Bool.cond_eq_ite] at surveyed
    split at surveyed
    · obtain ⟨yes, left, rest⟩ := Option.bind_eq_some_iff.mp surveyed
      obtain ⟨no, right, rfl⟩ := Option.map_eq_some_iff.mp rest
      exact .inr ⟨‹_›, yes, no, left, right, rfl⟩
    · cases surveyed

/-- Each round of a loop takes a token. -/
theorem survey_loop (surveyed : survey w (.loop test a) o = some o') :
    (Outlook.unknown false false).settles w test = true ∧
      ∃ round, survey w a ((Outlook.unknown false o.entered).learn test) = some round ∧
        round.moved = true ∧ o' = o.afterLoop test := by
  rw [survey, Bool.cond_eq_ite] at surveyed
  split at surveyed
  · obtain ⟨round, body, rest⟩ := Option.bind_eq_some_iff.mp surveyed
    rw [Bool.cond_eq_ite] at rest
    split at rest
    · cases rest
      exact ⟨‹_›, round, body, ‹_›, rfl⟩
    · cases rest
  · cases surveyed

/-- So does a node, whether or not it begins with the last one. -/
theorem survey_node (surveyed : survey w (.node kind a) o = some o') :
    ∃ inner, survey w a { o with moved := false } = some inner ∧ inner.moved = true ∧
      kind ≠ .unparsed ∧ o' = { inner with moved := true, entered := true } := by
  obtain ⟨inner, body, rest⟩ := Option.bind_eq_some_iff.mp surveyed
  rw [Bool.cond_eq_ite] at rest
  split at rest
  · rename_i flags
    cases rest
    simp only [Bool.and_eq_true, Bool.not_eq_true', beq_eq_false_iff_ne] at flags
    exact ⟨inner, body, flags.1, flags.2, rfl⟩
  · cases rest

theorem survey_call {name : Nonterminal} (surveyed : survey w (.call name) o = some o') :
    o.entered = true ∧ w.closed.contains name = false ∧ o' = .unknown true true := by
  rw [survey, Bool.cond_eq_ite] at surveyed
  split at surveyed
  · rename_i may
    cases surveyed
    simp only [Bool.and_eq_true, Bool.not_eq_true'] at may
    exact ⟨may.1, may.2, rfl⟩
  · cases surveyed

/-- A rule, or another grammar, keeps to what is watched and takes a token at least. -/
def passes (w : Watch) (a : Grammar) (entered : Bool) : Bool :=
  ((survey w a (.unknown false entered)).map (·.moved)).getD false

end SqlAudit
