import SqlAudit.Proofs.Grammar.Analysis
/-!
Where the nodes of a kind come from, and what they cannot hold. If a grammar and all rules read
nodes of a kind by certain grammars only, whatever node of that kind comes of a reading was read by
one of them. If neither a grammar nor the rules it leads to have nodes of some kinds, nothing that is
read by it holds any.
-/
namespace SqlAudit

deriving instance DecidableEq for Grammar

variable {kind : NodeKind} {body : Grammar} {bodies : Grammar → Bool}
  {rules : Nonterminal → Grammar} {tokens : List Token} {size : Nat} {f g : Frame} {c d : Cursor} {node : Node}

/-- The node was read from one cursor among the tokens to another. -/
structure Node.ReadBetween (rules : Nonterminal → Grammar) (body : Grammar) (tokens : List Token)
    (size : Nat) (node : Node) (c d : Cursor) : Prop where
  inside : c.tokens <:+ tokens
  ordered : c.Ordered size
  moved : d.rest.length < c.rest.length
  derived : ∃ g, Grammar.Derives rules body (.opened node.kind c) c g d ∧
    node = g.closed node.kind d

def Node.ReadBy (rules : Nonterminal → Grammar) (bodies : Grammar → Bool) (tokens : List Token)
    (size : Nat) (node : Node) : Prop :=
  ∃ body c d, bodies body = true ∧ node.ReadBetween rules body tokens size c d

/-- The rules that queries and expressions are made of. -/
def Nonterminal.inQuery : Nonterminal → Bool
  | .expression _ | .query | .joinedTable | .group => true
  | .createStatement | .atomicBody => false

namespace Grammar

/-- Nodes of the kind are only read by these grammars, and no other node becomes one. -/
def onlyBy (kind : NodeKind) (bodies : Grammar → Bool) : Grammar → Bool
  | .node own a => (own != kind || bodies a) && onlyBy kind bodies a
  | .wrap own a => own != kind && onlyBy kind bodies a
  | .become own => own != kind
  | .seq a b | .branch _ a b => onlyBy kind bodies a && onlyBy kind bodies b
  | .loop _ a | .discard a | .deeper a => onlyBy kind bodies a
  | _ => true

variable {a : Grammar}

/-- A frame is of the kind only if it has been so from the start. -/
theorem Derives.kind_of_onlyBy (ruled : ∀ name, onlyBy kind bodies (rules name) = true)
    (derives : Derives rules a f c g d) (only : onlyBy kind bodies a = true)
    (same : g.kind = some kind) : f.kind = some kind := by
  induction derives with
  | change changes =>
      cases changes with
      | become real =>
          cases same
          simp [onlyBy] at only
      | dissolve => cases same
      | phrase spoken => split at same <;> exact same
      | splice => rwa [Frame.splice_kind] at same
      | echo =>
          obtain ⟨value, echoed⟩ := Frame.echo_eq _
          rwa [echoed] at same
      | _ => exact same
  | seq first second left right =>
      obtain ⟨one, other⟩ := Bool.and_eq_true_iff.mp only
      exact left one (right other same)
  | yes holds taken ih => exact ih (Bool.and_eq_true_iff.mp only).1 same
  | no fails taken ih => exact ih (Bool.and_eq_true_iff.mp only).2 same
  | stop fails => exact same
  | round holds once again left right => exact left only (right only same)
  | node real inner moved ih => rwa [Frame.close_kind] at same
  | @wrap own a f g c d real inner moved ih =>
      rw [Frame.close_kind, Frame.wrapLast] at same
      split at same <;> exact same
  | discard inner ih => exact same
  | deeper shallow inner ih => exact ih only same
  | call read moved ih => exact ih (ruled _) same

/-- Every node of the kind that a reading leaves was read by one of the grammars. -/
theorem derives_readBy (ruled : ∀ name, onlyBy kind bodies (rules name) = true)
    (derives : Derives rules a f c g d) (only : onlyBy kind bodies a = true)
    (inside : c.tokens <:+ tokens) (ordered : c.Ordered size)
    (all : f.All fun node => node.kind = kind → node.ReadBy rules bodies tokens size) :
    g.All fun node => node.kind = kind → node.ReadBy rules bodies tokens size := by
  induction derives with
  | change changes => exact changes.all all
  | seq first second left right =>
      obtain ⟨one, other⟩ := Bool.and_eq_true_iff.mp only
      have path := first.steps.path
      exact right other (path.suffix.trans inside) (path.ordered ordered)
        (left one inside ordered all)
  | yes holds taken ih => exact ih (Bool.and_eq_true_iff.mp only).1 inside ordered all
  | no fails taken ih => exact ih (Bool.and_eq_true_iff.mp only).2 inside ordered all
  | stop fails => exact all
  | round holds once again left right =>
      have path := once.steps.path
      exact right only (path.suffix.trans inside) (path.ordered ordered)
        (left only inside ordered all)
  | @node own a f g c d real inner moved ih =>
      obtain ⟨here, below⟩ := Bool.and_eq_true_iff.mp only
      apply all_close all (ih below inside ordered (all_opened _ _ _))
      rintro other same rfl
      have opened := inner.kind_of_onlyBy ruled below same
      obtain rfl : own = other := Option.some.inj opened
      have listed : bodies a = true := by simpa using here
      exact ⟨a, c, d, listed, inside, ordered, moved, g, inner, rfl⟩
  | @wrap own a f g c d real inner moved ih =>
      obtain ⟨other, below⟩ := Bool.and_eq_true_iff.mp only
      obtain ⟨first, left⟩ := all_wrapLast own c all
      apply all_close left (ih below inside ordered first)
      rintro named same rfl
      have opened := inner.kind_of_onlyBy ruled below same
      have wrapped : (f.wrapLast own c).1.kind = some own := by
        rw [Frame.wrapLast]
        split <;> rfl
      rw [wrapped] at opened
      simp [Option.some.inj opened] at other
  | discard inner ih => exact all
  | deeper shallow inner ih => exact ih only inside ordered all
  | call read moved ih => exact ih (ruled _) inside ordered all

/-- No node is of these kinds, and no rules are called but those of queries. -/
def lacks (kinds : List NodeKind) : Grammar → Bool
  | .node own a | .wrap own a => !kinds.contains own && lacks kinds a
  | .become own => !kinds.contains own
  | .seq a b | .branch _ a b => lacks kinds a && lacks kinds b
  | .loop _ a | .discard a | .deeper a => lacks kinds a
  | .call name => name.inQuery
  | _ => true

variable {kinds : List NodeKind}

theorem Derives.kind_of_lacks
    (ruled : ∀ name, name.inQuery = true → lacks kinds (rules name) = true)
    (derives : Derives rules a f c g d) (lack : lacks kinds a = true)
    (start : ∀ kind, f.kind = some kind → kind ∉ kinds) :
    ∀ kind, g.kind = some kind → kind ∉ kinds := by
  induction derives with
  | change changes =>
      cases changes with
      | become real =>
          rintro kind ⟨⟩
          simpa [lacks] using lack
      | dissolve => nofun
      | phrase spoken => split <;> exact start
      | splice => rwa [Frame.splice_kind]
      | echo =>
          obtain ⟨value, echoed⟩ := Frame.echo_eq _
          rwa [echoed]
      | _ => exact start
  | seq first second left right =>
      obtain ⟨one, other⟩ := Bool.and_eq_true_iff.mp lack
      exact right other (left one start)
  | yes holds taken ih => exact ih (Bool.and_eq_true_iff.mp lack).1 start
  | no fails taken ih => exact ih (Bool.and_eq_true_iff.mp lack).2 start
  | stop fails => exact start
  | round holds once again left right => exact right lack (left lack start)
  | node real inner moved ih => rwa [Frame.close_kind]
  | @wrap own a f g c d real inner moved ih =>
      rw [Frame.close_kind, Frame.wrapLast]
      split <;> exact start
  | discard inner ih => exact start
  | deeper shallow inner ih => exact ih lack start
  | call read moved ih => exact ih (ruled _ lack) start

/-- What is read by a grammar holds no node of the kinds that it leaves out. -/
theorem derives_lacks
    (ruled : ∀ name, name.inQuery = true → lacks kinds (rules name) = true)
    (derives : Derives rules a f c g d) (lack : lacks kinds a = true)
    (all : f.All (·.kind ∉ kinds)) : g.All (·.kind ∉ kinds) := by
  have opened : ∀ {own : NodeKind} {a : Grammar}, lacks kinds (.node own a) = true →
      (∀ kind, some own = some kind → kind ∉ kinds) ∧ lacks kinds a = true := by
    intro own a lack
    obtain ⟨here, below⟩ := Bool.and_eq_true_iff.mp lack
    refine ⟨?_, below⟩
    rintro kind ⟨⟩
    simpa using here
  induction derives with
  | change changes => exact changes.all all
  | seq first second left right =>
      obtain ⟨one, other⟩ := Bool.and_eq_true_iff.mp lack
      exact right other (left one all)
  | yes holds taken ih => exact ih (Bool.and_eq_true_iff.mp lack).1 all
  | no fails taken ih => exact ih (Bool.and_eq_true_iff.mp lack).2 all
  | stop fails => exact all
  | round holds once again left right => exact right lack (left lack all)
  | node real inner moved ih =>
      obtain ⟨own, below⟩ := opened lack
      exact all_close all (ih below (all_opened _ _ _)) (inner.kind_of_lacks ruled below own)
  | @wrap own a f g c d real inner moved ih =>
      obtain ⟨start, below⟩ := opened lack
      obtain ⟨first, left⟩ := all_wrapLast own c all
      apply all_close left (ih below first) (inner.kind_of_lacks ruled below _)
      rw [Frame.wrapLast]
      split <;> exact start
  | discard inner ih => exact all
  | deeper shallow inner ih => exact ih lack all
  | call read moved ih => exact ih (ruled _ lack) all

end Grammar

namespace Node.ReadBetween

theorem span_eq (read : node.ReadBetween rules body tokens size c d) :
    node.span = ⟨c.current.span.start, d.previous.stop⟩ := by
  obtain ⟨g, derives, same⟩ := read.derived
  have start : g.start = c.current.span.start := derives.steps.start_eq
  have passed := derives.steps.path.previous_stop_le read.ordered read.moved
  have token := read.ordered.current_span
  rw [same, Frame.closed, start, Nat.max_eq_left (token.trans passed)]

/-- The tokens within a node are those that were taken for it. -/
theorem contains_iff (read : node.ReadBetween rules body tokens size c d)
    (inOrder : InOrder 0 size tokens) {taken : List Token} (split : c.tokens = taken ++ d.tokens)
    {token : Token} (member : token ∈ tokens) (notFinish : token.lexeme ≠ .finish) :
    node.span.contains token.span = true ↔ token ∈ taken := by
  obtain ⟨g, derives, -⟩ := read.derived
  have path := derives.steps.path
  have nonempty := inOrder.nonempty token member notFinish
  obtain ⟨before, whole⟩ := read.inside
  rw [read.span_eq, Span.contains, Bool.and_eq_true, decide_eq_true_eq, decide_eq_true_eq]
  constructor
  · rintro ⟨lower, upper⟩
    dsimp only at lower upper
    rw [← whole, split] at member
    rcases List.mem_append.mp member with early | member
    · have apart := inOrder.apart
      rw [← whole, List.pairwise_append] at apart
      have earlier := apart.2.2 token early c.current (.head _)
      omega
    · rcases List.mem_append.mp member with inside | late
      · exact inside
      · have later := InOrder.after (path.ordered read.ordered) token late
        omega
  · exact path.passed read.ordered split token

end Node.ReadBetween

end SqlAudit
