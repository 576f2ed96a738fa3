import SqlAudit.Grammar.Statement
import SqlAudit.Proofs.Grammar.Nesting
/-!
A statement is read as one node. `isWhole` tells from a grammar that it opens a node before anything
else and that whatever is read later goes into that node or into one around it, so the node spans
all that has been read.
-/
namespace SqlAudit

namespace Grammar

/-- The node under construction stays one, and is not left as its parts. -/
def keepsNode : Grammar → Bool
  | .dissolve => false
  | .seq a b | .branch _ a b => a.keepsNode && b.keepsNode
  | .loop _ a | .deeper a => a.keepsNode
  | _ => true

/-- Puts a node around the only one there is, or leaves it. -/
def isAround : Grammar → Bool
  | .fail _ => true
  | .branch _ a b => a.isAround && b.isAround
  | .wrap _ a => a.keepsNode
  | _ => false

/-- Reads one node and nothing beside it, if the rules of these names do. -/
def isWhole (names : List Nonterminal) : Grammar → Bool
  | .fail _ => true
  | .seq a b => a.isWhole names && b.isAround
  | .branch _ a b => a.isWhole names && b.isWhole names
  | .node _ a => a.keepsNode
  | .call name => names.contains name
  | _ => false

variable {call : Nonterminal → Frame → Cursor → Reading}

/-- Where a frame starts does not change, and it stays a node. -/
def KeepsFrame (node : Bool) (f : Frame) : Reading → Prop
  | .ok (g, _) => g.start = f.start ∧ (node = true → f.kind.isSome → g.kind.isSome)
  | .error _ => True

theorem KeepsFrame.trans {a b : Bool} {f g : Frame} {d : Cursor} {reading : Reading}
    (first : KeepsFrame a f (.ok (g, d))) (second : KeepsFrame b g reading) :
    KeepsFrame (a && b) f reading := by
  match reading, second with
  | .error _, _ => trivial
  | .ok (h, _), second =>
      refine ⟨second.1.trans first.1, ?_⟩
      intro both isNode
      obtain ⟨left, right⟩ := Bool.and_eq_true_iff.mp both
      exact second.2 right (first.2 left isNode)

theorem KeepsFrame.weaken {a b : Bool} {f : Frame} {reading : Reading}
    (kept : KeepsFrame a f reading) (weaker : b = true → a = true) : KeepsFrame b f reading := by
  match reading, kept with
  | .error _, _ => trivial
  | .ok (g, _), kept => exact ⟨kept.1, fun node => kept.2 (weaker node)⟩

theorem repeatWhile_keepsFrame {test : Test} {step : Frame → Cursor → Reading} {node : Bool}
    (kept : ∀ f c, KeepsFrame node f (step f c)) (left : List Token) (f : Frame) (c : Cursor) :
    KeepsFrame node f (repeatWhile test step left f c) := by
  induction left generalizing f c with
  | nil => exact ⟨rfl, fun _ => id⟩
  | cons token left ih =>
      rw [repeatWhile]
      split
      · have first := kept f c
        split <;> rename_i found <;> rw [found] at first
        · simpa using first.trans (ih _ _)
        · trivial
      · exact ⟨rfl, fun _ => id⟩

theorem read_keepsFrame (called : ∀ name f c, KeepsFrame true f (call name f c)) (a : Grammar)
    (f : Frame) (c : Cursor) : KeepsFrame a.keepsNode f (read call a f c) := by
  induction a generalizing f c with
  | fail expected => trivial
  | phrase phrases =>
      rw [read]
      split <;> exact ⟨rfl, fun _ => id⟩
  | seq a b first second =>
      have left := first f c
      rw [read]
      split <;> rename_i found <;> rw [found] at left
      · exact left.trans (second _ _)
      · trivial
  | branch test a b first second =>
      rw [read]
      split
      · exact (first f c).weaken fun both => (Bool.and_eq_true_iff.mp both).1
      · exact (second f c).weaken fun both => (Bool.and_eq_true_iff.mp both).2
  | loop test a ih => exact repeatWhile_keepsFrame ih c.tokens f c
  | node kind a ih =>
      rw [read]
      split
      · refine ⟨?_, fun _ => ?_⟩ <;> unfold Frame.close <;> split <;> simp [Frame.push]
      · trivial
  | wrap kind a ih =>
      rw [read]
      split
      · refine ⟨?_, fun _ => ?_⟩ <;> unfold Frame.close <;> split <;>
          unfold Frame.wrapLast <;> split <;> simp [Frame.push]
      · trivial
  | become kind => exact ⟨rfl, fun _ _ => rfl⟩
  | dissolve => exact ⟨rfl, by simp [keepsNode]⟩
  | splice =>
      refine ⟨?_, fun _ => ?_⟩ <;> unfold Frame.splice <;> split <;> simp
  | echo =>
      refine ⟨?_, fun _ => ?_⟩ <;> unfold Frame.echo <;> split <;> simp [Frame.write]
  | discard a ih =>
      rw [read]
      split
      · exact ⟨rfl, fun _ => id⟩
      · trivial
  | deeper a ih =>
      have inner := ih f { c with depth := c.depth + 1 }
      rw [read]
      dsimp only
      split
      · trivial
      · split <;> rename_i found <;> rw [found] at inner
        · exact inner
        · trivial
  | call name => exact called name f c
  | _ => exact ⟨rfl, fun _ => id⟩

theorem callRule_keepsFrame {rules : Nonterminal → Grammar}
    (kept : ∀ name, (rules name).keepsNode = true) (left : List Token) (name : Nonterminal)
    (f : Frame) (c : Cursor) : KeepsFrame true f (callRule rules left name f c) := by
  induction left generalizing name f c with
  | nil => trivial
  | cons token left ih =>
      have inner := read_keepsFrame ih (rules name) f c
      rwa [kept name] at inner

/-- The frame holds one node, which starts at `start` and takes in all that has been read. -/
def OneNode (start : Nat) : Reading → Prop
  | .ok (g, d) => ∃ node, g.parts = [node] ∧ node.span = ⟨start, max d.previous.stop start⟩
  | .error _ => True

/-- A frame that is a node is closed as one. -/
theorem close_oneNode {f inner : Frame} (empty : f.parts = []) (isNode : inner.kind.isSome)
    (d : Cursor) : OneNode inner.start (.ok (f.close inner d, d)) := by
  unfold Frame.close
  split
  · exact ⟨_, by rw [Frame.push, empty], rfl⟩
  · rename_i none
    simp [none] at isNode

theorem read_isAround (called : ∀ name f c, KeepsFrame true f (call name f c)) {a : Grammar}
    (around : a.isAround = true) {f : Frame} {node : Node} (single : f.parts = [node])
    (c : Cursor) :
    OneNode node.span.start (read call a f c) := by
  induction a with
  | fail expected => trivial
  | branch test a b first second =>
      obtain ⟨left, right⟩ := Bool.and_eq_true_iff.mp around
      rw [read]
      split
      · exact first left
      · exact second right
  | wrap kind a ih =>
      have own : f.wrapLast kind c =
          (⟨kind, node.span.start, none, [node]⟩, { f with parts := [] }) := by
        rw [Frame.wrapLast, single]
      have kept := read_keepsFrame called a (f.wrapLast kind c).1 c
      rw [read]
      rw [isAround] at around
      rw [around, own] at kept
      rw [own]
      split <;> rename_i found <;> rw [found] at kept
      · rename_i inner d
        obtain ⟨start, isNode⟩ := kept
        have closed := close_oneNode (f := { f with parts := [] }) rfl (isNode rfl rfl) d
        rwa [start] at closed
      · trivial
  | _ => cases around

theorem read_isWhole (names : List Nonterminal)
    (called : ∀ name f c, KeepsFrame true f (call name f c))
    (wholeCalls : ∀ name ∈ names, ∀ f c, f.parts = [] →
      OneNode c.current.span.start (call name f c))
    {a : Grammar} (whole : a.isWhole names = true) {f : Frame} (empty : f.parts = []) (c : Cursor) :
    OneNode c.current.span.start (read call a f c) := by
  induction a generalizing f c with
  | fail expected => trivial
  | seq a b first second =>
      obtain ⟨left, right⟩ := Bool.and_eq_true_iff.mp whole
      have one := first left empty c
      rw [read]
      split <;> rename_i found <;> rw [found] at one
      · obtain ⟨node, single, span⟩ := one
        have around := read_isAround called right single
        rw [span] at around
        exact around _
      · trivial
  | branch test a b first second =>
      obtain ⟨left, right⟩ := Bool.and_eq_true_iff.mp whole
      rw [read]
      split
      · exact first left empty c
      · exact second right empty c
  | node kind a ih =>
      have kept := read_keepsFrame called a (.opened kind c) c
      rw [isWhole] at whole
      rw [whole] at kept
      rw [read]
      split <;> rename_i found <;> rw [found] at kept
      · rename_i inner d
        obtain ⟨start, isNode⟩ := kept
        have closed := close_oneNode empty (isNode rfl rfl) d
        rwa [start] at closed
      · trivial
  | call name => exact wholeCalls name (List.contains_iff_mem.mp whole) f c empty
  | _ => cases whole

theorem rules_keepNode (name : Nonterminal) : (rules name).keepsNode = true := by
  cases name <;> rfl

/-- The rules that a statement can be read by. -/
def statementRules : List Nonterminal := [.query, .createStatement]

theorem statement_oneNode (f : Frame) (empty : f.parts = []) (c : Cursor) :
    OneNode c.current.span.start (statement.run rules f c) := by
  apply read_isWhole statementRules (callRule_keepsFrame rules_keepNode c.tokens) ?_ rfl empty c
  intro name member g b none
  rw [Cursor.tokens, callRule]
  refine read_isWhole [] (callRule_keepsFrame rules_keepNode _) (by simp) ?_ none b
  simp only [statementRules, List.mem_cons, List.not_mem_nil, or_false] at member
  rcases member with rfl | rfl <;> rfl

end Grammar

/-- Of the kind of a region that could not be read is neither the frame nor any node in it. -/
structure Frame.Parsed (f : Frame) : Prop where
  kind : f.kind ≠ some .unparsed
  parts : f.All (·.kind ≠ .unparsed)

variable {ok : Cursor → Prop} {f g : Frame} {c d : Cursor}

theorem parsed_close (parsed : f.Parsed) (inner : g.Parsed) : (f.close g d).Parsed := by
  refine ⟨?_, all_close parsed.parts inner.parts ?_⟩
  · unfold Frame.close
    split <;> exact parsed.kind
  · rintro kind same rfl
    exact inner.kind same

theorem parsed_splice (parsed : f.Parsed) : f.splice.Parsed := by
  refine ⟨?_, all_splice parsed.parts⟩
  unfold Frame.splice
  split <;> exact parsed.kind

theorem parsed_wrapLast {kind : NodeKind} (read : kind ≠ .unparsed) (parsed : f.Parsed) :
    (f.wrapLast kind c).1.Parsed ∧ (f.wrapLast kind c).2.Parsed := by
  obtain ⟨own, outer⟩ := all_wrapLast kind c parsed.parts
  refine ⟨⟨?_, own⟩, ?_, outer⟩
  · unfold Frame.wrapLast
    split <;> simpa [Frame.opened] using read
  · unfold Frame.wrapLast
    split <;> exact parsed.kind

theorem steps_parsed (steps : Steps ok f c g d) (parsed : f.Parsed) : g.Parsed := by
  induction steps with
  | done => exact parsed
  | take allowed => exact parsed
  | turn depth => exact parsed
  | write value => exact ⟨parsed.kind, parsed.parts⟩
  | become kind read => exact ⟨read, parsed.parts⟩
  | splice => exact parsed_splice parsed
  | node read inner moved ih =>
      exact parsed_close parsed (ih ⟨by simpa [Frame.opened] using read, all_opened _ _ _⟩)
  | wrap read inner moved ih =>
      obtain ⟨own, outer⟩ := parsed_wrapLast read parsed
      exact parsed_close outer (ih own)
  | discard inner ih => exact parsed
  | trans first second left right => exact right (left parsed)

end SqlAudit
