import SqlAudit.Proofs.Grammar.Names
import SqlAudit.Proofs.Grammar.Outcomes
import SqlAudit.Proofs.Grammar.Queries
import SqlAudit.Proofs.Script.Layout
/-!
Expressions in parentheses. What the lexemes between two parentheses are read as does not depend on
what has been read before them, nor on where they stand, nor on what stands behind the closing
parenthesis, if that is no word that the language looks for there.
-/
namespace SqlAudit

namespace Cursor

variable {c d e : Cursor} {lexemes lexemes' : List Lexeme}

theorem Passes.not_finish {size : Nat} (passes : c.Passes lexemes d) (ordered : c.Ordered size) :
    ∀ lexeme ∈ lexemes, lexeme ≠ .finish := by
  induction lexemes generalizing c with
  | nil => nofun
  | cons first lexemes ih =>
      obtain ⟨here, more, later⟩ := passes
      intro lexeme member
      rcases List.mem_cons.mp member with rfl | member
      · intro finish
        exact more (ordered.finish_iff.mp (here.trans finish))
      · exact ih later ordered.advance lexeme member

theorem Passes.ordered {size : Nat} (passes : c.Passes lexemes d) (ordered : c.Ordered size) :
    d.Ordered size := by
  induction lexemes generalizing c with
  | nil => exact passes ▸ ordered
  | cons lexeme lexemes ih => exact ih passes.2.2 ordered.advance

end Cursor

/-- A path that does not go to the last token passes the tokens on its way. -/
theorem Path.passes {ok : Cursor → Prop} {c d : Cursor} (path : Path ok c d) (more : d.rest ≠ []) :
    ∃ lexemes, c.Passes lexemes { d with depth := c.depth } := by
  induction path with
  | here => exact ⟨[], rfl⟩
  | @take d before allowed ih =>
      have goes : d.rest ≠ [] := by
        intro none
        rw [Cursor.advance_rest, none] at more
        exact more rfl
      obtain ⟨lexemes, passes⟩ := ih goes
      refine ⟨lexemes ++ [d.current.lexeme], Cursor.passes_append.mpr ⟨_, passes, rfl, goes, ?_⟩⟩
      exact (Cursor.advance_turn d c.depth).symm
  | turn before depth ih => exact ih more

/-- How far lexemes reach when they are spaced evenly does not depend on those behind them. -/
theorem evenly_append (lexemes : List Lexeme) (offset : Nat) : ∃ front : List Token,
    front.length = lexemes.length ∧ ∀ behind, behind ≠ [] →
      evenly offset (lexemes ++ behind) = front ++ evenly (offset + 2 * lexemes.length) behind := by
  induction lexemes generalizing offset with
  | nil => exact ⟨[], rfl, fun behind some => rfl⟩
  | cons lexeme lexemes ih =>
      obtain ⟨front, length, splits⟩ := ih (offset + 2)
      refine ⟨⟨lexeme, ⟨offset, offset + 1⟩⟩ :: front, congrArg (· + 1) length, fun behind some => ?_⟩
      obtain ⟨next, others, same⟩ :=
        List.exists_cons_of_ne_nil (List.append_ne_nil_of_right_ne_nil lexemes some)
      have onward : offset + 2 * (lexeme :: lexemes).length = offset + 2 + 2 * lexemes.length := by
        rw [List.length_cons]
        omega
      rw [List.cons_append, same, evenly, ← same, splits behind some, onward]
      rfl

theorem evenly_closed (lexemes : List Lexeme) (plain : ∀ lexeme ∈ lexemes, lexeme ≠ .finish)
    (offset : Nat) : ∃ stop, InOrder offset stop (evenly offset (lexemes ++ [.finish])) := by
  induction lexemes generalizing offset with
  | nil => exact ⟨offset, .finish (Nat.le_refl _)⟩
  | cons lexeme lexemes ih =>
      obtain ⟨stop, ordered⟩ := ih (fun other member => plain other (.tail _ member)) (offset + 2)
      obtain ⟨next, others, same⟩ :=
        List.exists_cons_of_ne_nil (List.append_ne_nil_of_right_ne_nil lexemes
          (List.cons_ne_nil Lexeme.finish []))
      rw [same] at ordered
      refine ⟨stop, ?_⟩
      rw [List.cons_append, same, evenly]
      exact .token (Nat.le_refl _) (Nat.lt_succ_self _) (plain _ (.head _))
        (ordered.lower (Nat.le_succ _))

/-- Before these lexemes, where a closing parenthesis and the end of the text follow. -/
def enclosing (lexemes : List Lexeme) : Cursor :=
  .ofTokens (evenly 0 (lexemes ++ [.symbol .closeParen, .finish]))

namespace Cursor.Passes

variable {c d : Cursor} {lexemes : List Lexeme} {size : Nat}

theorem enclosing_ordered (passes : c.Passes lexemes d) (ordered : c.Ordered size) :
    ∃ stop, (enclosing lexemes).Ordered stop := by
  have plain : ∀ lexeme ∈ lexemes ++ [.symbol .closeParen], lexeme ≠ .finish := by
    intro lexeme member
    rcases List.mem_append.mp member with inner | last
    · exact passes.not_finish ordered lexeme inner
    · rw [List.mem_singleton.mp last]
      nofun
  obtain ⟨stop, inOrder⟩ := evenly_closed _ plain 0
  rw [List.append_assoc] at inOrder
  exact ⟨stop, Script.ofTokens_ordered inOrder⟩

/-- Tokens that are passed are the evenly spaced ones of their lexemes, moved to where they are. -/
theorem beside (passes : c.Passes lexemes d) (ordered : c.Ordered size) (top : c.depth = 0) :
    ∃ place : Nat → Nat, Monotone place ∧
      Beside place 0 (evenly (2 * lexemes.length) [.symbol .closeParen, .finish]) d.tokens
        (enclosing lexemes) c := by
  obtain ⟨place, mono, above, moves⟩ := InOrder.exists_place ordered 0
  obtain ⟨front, length, splits⟩ := evenly_append lexemes 0
  obtain ⟨own, tokens, spelled⟩ := passes.front
  rw [Nat.zero_add] at splits
  have whole := moves place fun _ _ => rfl
  have some : d.tokens.map (·.lexeme) ≠ [] := by simp [Cursor.tokens]
  rw [tokens, List.map_append, spelled, splits _ some, List.map_append] at whole
  have lengths : (front.map (·.relocate place)).length = own.length := by
    rw [List.length_map, length, ← spelled, List.length_map]
  have closed := splits [.symbol .closeParen, .finish] (List.cons_ne_nil _ _)
  refine ⟨place, mono, ⟨front, ?_, ?_⟩, .inr ⟨?_, above 0⟩, ?_⟩
  · rw [enclosing, closed, Script.tokens_ofTokens]
    simp [evenly]
  · rw [tokens, (List.append_inj whole lengths).1]
  · cases front <;> simp [enclosing, closed, evenly, ofTokens]
  · rw [top, enclosing, depth_ofTokens]

end Cursor.Passes

/-- Nothing is kept but whether there are parts. -/
def Domain.bare : Domain Unit where
  start := ()
  around := id
  take := id
  node _ _ _ := some ()
  wrap _ _ _ := some ()
  join _ _ := some ()
  splice _ := some ()
  enter := id
  leave := id
  merge _ _ := some ()

theorem Domain.bare_lawful (size : Nat) : Domain.bare.Lawful size fun _ _ _ _ _ => True where
  start _ := trivial
  around _ _ _ := trivial
  take _ _ := trivial
  pass _ _ _ _ := .inl trivial
  node _ _ _ _ _ _ _ := trivial
  wrap _ _ _ _ _ _ _ _ := trivial
  join _ _ _ _ _ _ _ := trivial
  splice _ _ _ _ := trivial
  enter _ _ := trivial
  leave _ _ _ := trivial
  merge _ _ := trivial

/-- Which rules leave parts behind. -/
def leftParts : Nonterminal → Sketch Unit
  | .group | .atomicBody => ⟨none, false, ()⟩
  | _ => ⟨none, true, ()⟩

/-- Looks at no part of the frame. -/
def Test.isBlind : Test → Bool
  | .here _ | .next _ | .phrase _ => true
  | .valueIn _ | .lastIs _ => false
  | .both a b | .either a b => a.isBlind && b.isBlind
  | .neither a => a.isBlind

theorem Test.holds_blind {test : Test} (blind : test.isBlind = true) (f g : Frame) (c : Cursor) :
    test.holds f c = test.holds g c := by
  induction test with
  | valueIn values => cases blind
  | lastIs kind => cases blind
  | both a b first second | either a b first second =>
      obtain ⟨left, right⟩ := Bool.and_eq_true_iff.mp blind
      rw [holds, holds, first left, second right]
  | neither a ih => rw [holds, holds, ih blind]
  | _ => rfl

namespace Frame

/-- The frame with more parts, the latest first. -/
def add (nodes : List Node) (f : Frame) : Frame := { f with parts := nodes ++ f.parts }

theorem close_add (f inner : Frame) (c d : Cursor) :
    f.close inner c = f.add ((opened none d).close inner c).parts := by
  unfold close
  split <;> simp [add, push, opened]

end Frame

namespace Grammar

variable {call : Nonterminal → Frame → Cursor → Reading} {f g : Frame} {c d : Cursor}
  {left : List Token}

/-- Reads what goes to a node of its own, whatever frame that goes to. -/
def opensNode : Grammar → Bool
  | .fail _ => true
  | .branch test a b => test.isBlind && a.opensNode && b.opensNode
  | .node _ _ => true
  | _ => false

/-- Puts a node around the last one or leaves it. -/
def wrapsLast : Grammar → Bool
  | .fail _ | .nothing => true
  | .branch test a b => test.isBlind && a.wrapsLast && b.wrapsLast
  | .wrap _ a => a.keepsNode
  | _ => false

theorem read_opensNode {a : Grammar} (opens : a.opensNode = true)
    (ok : read call a f c = .ok (g, d)) :
    ∃ h, g = f.close h d ∧ ∀ f, read call a f c = .ok (f.close h d, d) := by
  induction a with
  | fail expected => cases ok
  | branch test a b first second =>
      simp only [opensNode, Bool.and_eq_true] at opens
      obtain ⟨⟨blind, left⟩, right⟩ := opens
      rw [read] at ok
      split at ok <;> rename_i goes
      · obtain ⟨h, same, reads⟩ := first left ok
        refine ⟨h, same, fun f' => ?_⟩
        rw [read, Test.holds_blind blind f' f, if_pos goes, reads]
      · obtain ⟨h, same, reads⟩ := second right ok
        refine ⟨h, same, fun f' => ?_⟩
        rw [read, Test.holds_blind blind f' f, if_neg goes, reads]
  | node kind a ih =>
      rw [read] at ok
      split at ok <;> rename_i found <;> cases ok
      exact ⟨_, rfl, fun f => read_node found⟩
  | _ => cases opens

theorem read_wrapsLast {a : Grammar} (wraps : a.wrapsLast = true) {nodes : List Node}
    (some : nodes ≠ []) (ok : read (callRule rules left) a (f.add nodes) c = .ok (g, d)) :
    ∃ nodes' ≠ [], g = f.add nodes' ∧
      ∀ f, read (callRule rules left) a (Frame.add nodes f) c = .ok (f.add nodes', d) := by
  induction a with
  | fail expected => cases ok
  | nothing =>
      cases ok
      exact ⟨nodes, some, rfl, fun f => by rw [read]⟩
  | branch test a b first second =>
      simp only [wrapsLast, Bool.and_eq_true] at wraps
      obtain ⟨⟨blind, yes⟩, no⟩ := wraps
      rw [read] at ok
      split at ok <;> rename_i goes
      · obtain ⟨nodes', some', same, reads⟩ := first yes ok
        refine ⟨nodes', some', same, fun f' => ?_⟩
        rw [read, Test.holds_blind blind (f'.add nodes) (f.add nodes), if_pos goes, reads]
      · obtain ⟨nodes', some', same, reads⟩ := second no ok
        refine ⟨nodes', some', same, fun f' => ?_⟩
        rw [read, Test.holds_blind blind (f'.add nodes) (f.add nodes), if_neg goes, reads]
  | wrap kind a ih =>
      obtain ⟨last, nodes, rfl⟩ := List.exists_cons_of_ne_nil some
      have around (f : Frame) : (Frame.add (last :: nodes) f).wrapLast kind c =
          (⟨kind, last.span.start, none, [last]⟩, f.add nodes) := rfl
      rw [read, around] at ok
      split at ok <;> rename_i found <;> cases ok
      rename_i h
      have kept := read_keepsFrame (callRule_keepsFrame rules_keepNode left) a
        ⟨kind, last.span.start, none, [last]⟩ c
      rw [found] at kept
      obtain ⟨own, isNode⟩ := Option.isSome_iff_exists.mp (kept.2 wraps rfl)
      refine ⟨h.closed own d :: nodes, List.cons_ne_nil _ _, ?_, fun f => ?_⟩
      · rw [Frame.close_some isNode]
        rfl
      · rw [read, around, found]
        simp only
        rw [Frame.close_some isNode]
        rfl
  | _ => cases wraps

theorem repeatWhile_wrapsLast {test : Test} {a : Grammar} (blind : test.isBlind = true)
    (wraps : a.wrapsLast = true) {nodes : List Node} (some : nodes ≠ []) (rounds : List Token)
    (ok : repeatWhile test (read (callRule rules left) a) rounds (f.add nodes) c = .ok (g, d)) :
    ∃ nodes' ≠ [], g = f.add nodes' ∧ ∀ f,
      repeatWhile test (read (callRule rules left) a) rounds (Frame.add nodes f) c =
        .ok (f.add nodes', d) := by
  induction rounds generalizing nodes c with
  | nil =>
      cases ok
      exact ⟨nodes, some, rfl, fun f => rfl⟩
  | cons token rounds ih =>
      rw [repeatWhile] at ok
      split at ok <;> rename_i goes
      · split at ok <;> rename_i found
        · obtain ⟨nodes', some', rfl, reads⟩ := read_wrapsLast wraps some found
          obtain ⟨last, some'', same, others⟩ := ih some' ok
          refine ⟨last, some'', same, fun f' => ?_⟩
          rw [repeatWhile, Test.holds_blind blind (f'.add nodes) (f.add nodes), if_pos goes, reads]
          exact others f'
        · cases ok
      · cases ok
        refine ⟨nodes, some, rfl, fun f' => ?_⟩
        rw [repeatWhile, Test.holds_blind blind (f'.add nodes) (f.add nodes), if_neg goes]

theorem expression_derives {size : Nat} (ordered : c.Ordered size) {power : Nat}
    (enough : c.rest.length ≤ left.length)
    (ok : read (callRule rules left) (expressionFrom power) f c = .ok (g, d)) :
    Derives rules (expressionFrom power) f c g d :=
  passes_derives rfl (Script.unbarred_lexical c) (fun name _ => lexical_rules name)
    (lexical_rules (.expression power)) (Script.within_range ordered c.depth) enough ok

/-- An operand leaves something behind. -/
theorem operand_parts {size : Nat} (ordered : c.Ordered size) (shallow : c.depth ≤ maxDepth)
    (enough : c.rest.length ≤ left.length)
    (ok : read (callRule rules left) operand (.opened none c) c = .ok (g, d)) : g.parts ≠ [] := by
  have derives : Derives rules operand (.opened none c) c g d :=
    passes_derives rfl (Script.unbarred_lexical c) (fun name _ => lexical_rules name)
      (by decide +kernel) (Script.within_range ordered c.depth) enough ok
  have found : ((outcomes .bare leftParts operand none (.opening .bare)).any
      fun all => all.all (·.filled)) = true := by decide +kernel
  obtain ⟨all, outcomes, filled⟩ := (Option.any_eq_true ..).mp found
  obtain ⟨s, member, describes⟩ := derives_describes (Domain.bare_lawful size)
    (summarized_rules (fun _ => rfl) (by decide +kernel)) outcomes ordered shallow derives
  exact describes.filled (List.all_eq_true.mp filled s member)

/-- An expression is read the same, whatever has been read before it. -/
theorem read_expression {size : Nat} (ordered : c.Ordered size) {power : Nat}
    (enough : c.rest.length ≤ left.length)
    (ok : read (callRule rules left) (expressionFrom power) (.opened none c) c = .ok (g, d)) :
    ∀ f, read (callRule rules left) (expressionFrom power) f c = .ok (f.add g.parts, d) := by
  rw [expressionFrom, read] at ok
  dsimp only at ok
  split at ok <;> rename_i shallow
  · cases ok
  · split at ok <;> rename_i found <;> cases ok
    rename_i d
    change read _ (.seq operand _) _ _ = _ at found
    rw [read] at found
    split at found <;> rename_i first
    · rename_i e
      obtain ⟨h, rfl, reads⟩ := read_opensNode (by decide +kernel) first
      have some := operand_parts (c := { c with depth := c.depth + 1 }) ordered
        (Nat.le_of_not_lt shallow) enough first
      let nodes := ((Frame.opened none c).close h e).parts
      have filled (f : Frame) : f.close h e = f.add nodes := Frame.close_add f h e c
      have loop : repeatWhile (continues power) (read (callRule rules left) operatorTail) e.tokens
          ((Frame.opened none c).add nodes) e = .ok (g, d) := by
        rw [← filled, ← found, read]
      obtain ⟨nodes', some', rfl, rounds⟩ :=
        repeatWhile_wrapsLast rfl (by decide +kernel) some e.tokens loop
      intro f
      have all : read (callRule rules left) (operand ++ .loop (continues power) operatorTail) f
          { c with depth := c.depth + 1 } = .ok (f.add nodes', d) := by
        rw [read_append (reads f), filled, read]
        exact rounds f
      have alone : ((Frame.opened none c).add nodes').parts = nodes' := List.append_nil _
      rw [expressionFrom, read, alone]
      simp only [if_neg shallow, all]
    · cases found

/-- The lexemes are read as this expression, but for its places, where a closing parenthesis and the
end of the text follow. -/
def IsEnclosed (lexemes : List Lexeme) (node : Node) : Prop :=
  ∃ e d, e.unplaced = node ∧ expression.run rules (.opened none (enclosing lexemes))
      (enclosing lexemes) = .ok ((Frame.opened none (enclosing lexemes)).push e, d) ∧
    d.tokens.map (·.lexeme) = [.symbol .closeParen, .finish]

variable {lexemes : List Lexeme} {node : Node}

theorem endings_closed (offset : Nat) (closes : d.current.lexeme = .symbol .closeParen)
    (more : d.rest ≠ []) : Endings ⟨.symbol .closeParen, .finish⟩
      ⟨.symbol .closeParen, d.advance.current.lexeme.outline⟩
      (evenly offset [.symbol .closeParen, .finish]) d.tokens := by
  obtain ⟨next, others, same⟩ := List.exists_cons_of_ne_nil more
  refine ⟨⟨rfl, rfl⟩, ⟨?_, ?_⟩, Nat.le_refl _⟩
  · simp [Cursor.tokens, closes, Lexeme.outline]
  · simp [Cursor.tokens, Cursor.advance, same]

/-- What two parentheses enclose is read in any text, if the language takes no notice of the token
behind them. -/
theorem IsEnclosed.reads (enclosed : IsEnclosed lexemes node) (passes : c.Passes lexemes d)
    (closes : d.current.lexeme = .symbol .closeParen) (more : d.rest ≠ [])
    (follows : Overlooks ⟨.symbol .closeParen, .finish⟩
      ⟨.symbol .closeParen, d.advance.current.lexeme.outline⟩ false)
    {size : Nat} (ordered : c.Ordered size) (top : c.depth = 0)
    (enough : c.rest.length < left.length) :
    ReadsNode (callRule rules left) expression (fun e => e.unplaced = node) c d := by
  obtain ⟨e, b, rfl, ok, ends⟩ := enclosed
  obtain ⟨place, mono, beside⟩ := passes.beside ordered top
  obtain ⟨stop, ordered₀⟩ := passes.enclosing_ordered ordered
  have endings := endings_closed (2 * lexemes.length) closes more
  have derives := expression_derives ordered₀ (Nat.le_refl _) ok
  have inside : b.tokens.length = 2 := by
    simpa using congrArg List.length ends
  have least := derives.least_le (.unknown _) (Nat.le_of_eq inside.symm)
  have moves : 1 ≤ (expressionFrom 0).atLeast := by decide +kernel
  rw [atLeast] at moves
  have behind : (evenly (2 * lexemes.length) [.symbol .closeParen, .finish]).length = 2 :=
    length_evenly ..
  obtain ⟨token, left, rfl⟩ := List.exists_cons_of_ne_nil
    (List.ne_nil_of_length_pos (Nat.zero_lt_of_lt enough))
  rw [List.length_cons] at enough
  have abides := (Bool.and_eq_true_iff.mp (follows (.expression 0) rfl)).1
  have carried := derives.transplanted endings mono follows abides beside
    (Nat.le_of_eq inside.symm) (Nat.le_of_lt_succ enough)
  rw [beside.opened (by omega) none] at carried
  rcases carried with ⟨d', read, next⟩ | ⟨deep, -⟩
  · have derives' := expression_derives ordered (Nat.le_of_lt_succ enough) read
    obtain ⟨-, there⟩ := next.ended (inside.trans behind.symm)
    have rest : d'.rest = d.rest := (List.cons.inj there).2
    obtain ⟨others, arrives⟩ := derives'.steps.path.passes (rest ▸ more)
    rw [← derives'.depth] at arrives
    obtain rfl := arrives.unique passes (congrArg List.length rest)
    refine ⟨e.relocate place, Node.unplaced_relocate place e, fun f => ?_⟩
    exact read_expression ordered (Nat.le_of_lt_succ enough) read f
  · exact absurd deep (Nat.lt_irrefl 0)

end Grammar
end SqlAudit
