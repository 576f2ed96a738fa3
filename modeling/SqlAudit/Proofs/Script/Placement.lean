import SqlAudit.Proofs.Grammar.Joins
import SqlAudit.Proofs.Grammar.Outcomes
import SqlAudit.Proofs.Grammar.Padding
import SqlAudit.Proofs.Grammar.Queries
import SqlAudit.Proofs.Script.Isolation
import SqlAudit.Proofs.Script.Layout
import SqlAudit.Proofs.Script.Subqueries
import SqlAudit.Proofs.Token.Opening
/-!
The text of a query within another text. What it is read as does not depend on where it stands, as
long as it leaves the end of its own text where that is and the language tells what stands behind it
from this end only where it takes it.
-/
namespace SqlAudit

theorem Node.every_relocate {P : Node → Prop} {place : Nat → Nat} (node : Node) :
    (node.relocate place).Every P ↔ node.Every fun part => P (part.relocate place) := by
  induction node using Node.induct with
  | step node ih =>
      rw [every_iff, every_iff, relocate_children, List.forall_mem_map]
      exact and_congr_right fun _ => forall₂_congr ih

theorem Node.EndsInCall.relocate {stop : Nat} {node : Node} (ends : node.EndsInCall stop)
    {place : Nat → Nat} (mono : Monotone place) :
    (node.relocate place).EndsInCall (place stop) := by
  obtain ⟨table, child, member, call, reaches⟩ := ends
  refine ⟨by rwa [relocate_kind], child.relocate place, ?_, by rwa [relocate_kind], ?_⟩
  · rw [relocate_children]
    exact List.mem_map_of_mem member
  · rw [relocate_span]
    exact mono reaches

/-- The tokens in front of others are passed, and end with the last one of them. -/
theorem Cursor.exists_passes_front {c : Cursor} {front rest : List Token} {n : Nat}
    (tokens : c.tokens = front ++ rest) (more : rest ≠ []) (before : c.previous.stop ≤ n)
    (within : ∀ token ∈ front, token.span.stop ≤ n) :
    ∃ d, c.Passes (front.map (·.lexeme)) d ∧ d.tokens = rest ∧ d.previous.stop ≤ n := by
  induction front generalizing c with
  | nil => exact ⟨c, rfl, tokens, before⟩
  | cons token front ih =>
      obtain ⟨here, -⟩ := List.cons.inj tokens
      have later : c.rest = front ++ rest := (List.cons.inj tokens).2
      have some : c.rest ≠ [] := by simp [later, more]
      have advanced : c.advance.tokens = front ++ rest := by
        rw [← later]
        exact (List.cons.inj (tokens_advance some)).2.symm
      have passed : c.advance.previous.stop ≤ n := by
        rw [advance_previous, here]
        exact within token (.head _)
      obtain ⟨d, passes, left, stop⟩ := ih advanced passed fun token member =>
        within token (.tail _ member)
      exact ⟨d, ⟨congrArg _ here, some, passes⟩, left, stop⟩

theorem Behind.begins_of_lexemes {tokens : List Token} {here next : Lexeme} {others : List Lexeme}
    (spelled : tokens.map (·.lexeme) = here :: next :: others) :
    Behind.Begins ⟨here.outline, next.outline⟩ tokens := by
  cases tokens with
  | nil => cases spelled
  | cons first tokens =>
      obtain ⟨here, spelled⟩ := List.cons.inj spelled
      cases tokens with
      | nil => cases spelled
      | cons second tokens =>
          obtain ⟨next, -⟩ := List.cons.inj spelled
          rw [← here, ← next]
          exact ⟨rfl, rfl⟩

/-- A trace other than that of a call itself is within the node that is closed around it. -/
theorem Frame.Left.within {stop : Nat} {h : Frame} {trace : Trace} (left : h.Left stop trace)
    (kinds : trace = .table ∨ trace = .within) (kind : NodeKind) (d : Cursor) :
    ¬(h.closed kind d).Every fun node => ¬node.EndsInCall stop := by
  intro none
  have parts {part : Node} (member : part ∈ h.parts) : part.Every fun node => ¬node.EndsInCall stop :=
    (Node.every_iff.mp none).2 part (List.mem_reverse.mpr member)
  rcases kinds with rfl | rfl
  · obtain ⟨part, member, ends⟩ := left
    exact (parts member).here ends
  · obtain ⟨part, member, child, below, some⟩ := left
    exact some ((Node.every_iff.mp (parts member)).2 child below)

namespace Script

open Grammar (Derives Overlooks ClosedAt Fails callRule rules query selectBody)

/-- A text of one query that is read without errors. -/
structure IsQuery (d : Dialect) (q : String) (s : Node) : Prop where
  plain : ∀ token ∈ tokenize d q, token.lexeme ≠ .symbol .semicolon ∧ ¬token.IsInvalid
  complete : (read d q).errors = []
  single : (read d q).root.children = [s]
  select : s.kind = .select

/-- A statement takes the end of the text for a part of itself. -/
def TakesEnd (d : Dialect) (q : String) : Prop :=
  ∃ statement ∈ (read d (q ++ "\n")).root.children, q.utf8ByteSize < statement.span.stop

/-- The query ends in a call of a function among its tables, and the call in its parentheses. -/
def EndsInCall (d : Dialect) (q : String) (s : Node) : Prop :=
  (tokenize d q).dropLast.getLast?.map (·.lexeme) = some (.symbol .closeParen) ∧
    ¬s.Every fun node => ¬node.EndsInCall s.span.stop

mutual

theorem nameOptions_eq_self (text : List Char) :
    ∀ node : Node, node.Every (·.kind ≠ .routineOption) → nameOptions text node = node
  | ⟨_, _, _, children⟩, ⟨here, below⟩ => by
    rw [nameOptions, if_neg here, nameOptionsOfList_eq_self text children below]

theorem nameOptionsOfList_eq_self (text : List Char) :
    ∀ nodes : List Node, Node.EveryOf (·.kind ≠ .routineOption) nodes →
      nameOptionsOfList text nodes = nodes
  | [], _ => rfl
  | node :: nodes, ⟨first, others⟩ => by
    rw [nameOptionsOfList, nameOptions_eq_self text node first,
      nameOptionsOfList_eq_self text nodes others]

end

/-- What a text is read as, from what its lexemes are read as when they are spaced evenly. -/
theorem read_moved (d : Dialect) (text : String) {lexemes : List Lexeme}
    (spelled : (tokenize d text).map (·.lexeme) = lexemes) :
    ∃ place, Monotone place ∧ (evenly 0 lexemes).map (·.relocate place) = tokenize d text ∧
      (read d text).root.children =
        (spaced lexemes).1.map (fun node => nameOptions text.toList (node.relocate place)) ∧
      (read d text).errors = (spaced lexemes).2.map (·.relocate place) := by
  obtain ⟨place, mono, -, moves⟩ := (tokenize_inOrder d text).exists_place 0
  obtain ⟨stop, inOrder⟩ := (tokenize_inOrder d text).evenly_inOrder 0
  rw [spelled] at moves inOrder
  have moved := moves place fun _ _ => rfl
  have whole := statements_moved mono inOrder moved
  refine ⟨place, mono, moved, ?_, ?_⟩
  · rw [read_children, ofTokens, whole, List.map_map]
    rfl
  · rw [read, ofTokens, whole]

/-- The language tells these tokens from the end of a text, behind a query, only where it takes
them; or, if it is lax, also behind the call of a function. -/
structure Follows (e' : Behind) (lax : Bool) : Prop where
  ruled : Overlooks ⟨.finish, .finish⟩ e' lax
  abides : selectBody.abides ⟨.finish, .finish⟩ e' lax false 0 0 = true
  traces : ∀ trace, selectBody.leaves ⟨.finish, .finish⟩ e' lax false trace = true →
    trace = .table ∨ trace = .within

theorem Follows.of_checks {e' : Behind} {lax : Bool}
    (ruled : [.expression 0, .query, .joinedTable, .group].all
      (Grammar.overlooks ⟨.finish, .finish⟩ e' lax) = true)
    (abides : selectBody.abides ⟨.finish, .finish⟩ e' lax false 0 0 = true)
    (traces : [Trace.missed, .call].any
      (selectBody.leaves ⟨.finish, .finish⟩ e' lax false) = false) : Follows e' lax := by
  refine ⟨Grammar.overlooks_of ruled, abides, fun trace left => ?_⟩
  simp only [List.any_cons, List.any_nil, Bool.or_false, Bool.or_eq_false_iff] at traces
  obtain ⟨missed, call⟩ := traces
  cases trace with
  | missed => exact absurd left (by simp [missed])
  | call => exact absurd left (by simp [call])
  | table => exact .inl rfl
  | within => exact .inr rfl

variable {c e : Cursor} {s : Node}

/-- The only statement of tokens without a semicolon is read up to their end. -/
theorem readStatement_of_statements {fuel : Nat}
    (plain : ∀ token ∈ c.tokens, token.lexeme ≠ .symbol .semicolon) {size : Nat}
    (ordered : c.Ordered size) (one : statements (fuel + 1) c = ([s], [])) :
    ∃ d, readStatement { c with depth := 0 } = .ok (s, d) ∧ d.current.lexeme = .finish := by
  have starts : isTerminator c.current.lexeme = false := by
    apply Bool.eq_false_iff.mpr
    intro ends
    rcases (isTerminator_iff _).mp ends with semicolon | finish
    · exact plain c.current List.mem_cons_self semicolon
    · rw [statements, finish] at one
      cases one
  rw [statements_readOne fuel starts] at one
  have ends := (readOne_found ordered starts).1
  cases found : readComplete { c with depth := 0 } with
  | error error =>
      rw [readOne, found] at one
      cases (Prod.mk.inj one).2
  | ok result =>
      obtain ⟨node, d⟩ := result
      have path := readComplete_found ordered
      rw [readOne, found] at one ends
      rw [found] at path
      obtain rfl : node = s := (List.cons.inj (Prod.mk.inj one).1).1
      refine ⟨d, ?_, ?_⟩
      · rw [readComplete] at found
        split at found
        · split at found <;> cases found
          assumption
        · cases found
      · apply ((isTerminator_iff _).mp ends).resolve_left
        exact plain d.current (path.path.suffix.subset List.mem_cons_self)

theorem lack_selectBody : Grammar.lacks Grammar.statementKinds selectBody = true := by
  decide

theorem lexical_selectBody : passes .lexical selectBody false = true := by decide

/-- A query that is the only statement is derived as queries are everywhere. -/
theorem select_derives {size fuel : Nat} (ordered : c.Ordered size) (top : c.depth = 0)
    (plain : ∀ token ∈ c.tokens, token.lexeme ≠ .symbol .semicolon)
    (one : statements (fuel + 1) c = ([s], [])) (select : s.kind = .select) :
    ∃ h e, Derives rules selectBody (.opened (some .select) c) c h e ∧
      s = h.closed .select e ∧ e.current.lexeme = .finish := by
  obtain ⟨e, found, last⟩ := readStatement_of_statements plain ordered one
  have zero : { c with depth := 0 } = c := by rw [← top]
  rw [zero, readStatement] at found
  split at found <;> cases found
  rename_i ok
  obtain ⟨left, h, enough, body, isSelect, same⟩ :=
    Grammar.statement_select ok (Nat.lt_succ_self _) select
  refine ⟨h, e, ?_, same, last⟩
  exact Grammar.passes_derives rfl (unbarred_lexical c) (fun name _ => Grammar.lexical_rules name)
    lexical_selectBody (within_range ordered c.depth) enough body

/-- A query has no options of routines. -/
theorem closed_optionless {place : Nat → Nat} {h : Frame} {e : Cursor}
    (derives : Derives rules selectBody (.opened (some .select) c) c h e) :
    ((h.closed .select e).relocate place).Every (·.kind ≠ .routineOption) := by
  have other : (h.closed .select e).kind ≠ .routineOption := NodeKind.noConfusion
  rw [Node.every_relocate]
  simp only [Node.relocate_kind]
  refine Node.every_iff.mpr ⟨other, fun part member => ?_⟩
  have without := Grammar.derives_lacks Grammar.rules_lack derives lack_selectBody
    (all_opened _ _ c) part (List.mem_reverse.mp member)
  refine Node.Every.mono (fun part lacks isOption => lacks ?_) part without
  rw [isOption]
  decide

namespace IsQuery

variable {d : Dialect} {q : String}

theorem valid (isQuery : IsQuery d q s) :
    ∀ token ∈ tokenize d q, ∀ message, token.lexeme ≠ .invalid message := by
  intro token member message invalid
  exact (isQuery.plain token member).2 (by rw [Token.IsInvalid, invalid]; rfl)

/-- A text of one statement that is a query. -/
theorem of_kinds
    (checks : (∀ token ∈ tokenize d q, token.lexeme ≠ .symbol .semicolon ∧ ¬token.IsInvalid) ∧
      (read d q).errors = [] ∧ (read d q).root.children.map (·.kind) = [.select]) :
    ∃ s, IsQuery d q s := by
  obtain ⟨plain, complete, kinds⟩ := checks
  obtain ⟨s, single, select⟩ := List.map_eq_singleton_iff.mp kinds
  exact ⟨s, plain, complete, single, select⟩

/-- The query is derived from evenly spaced tokens, with the end of the text twice behind them. -/
theorem derived (isQuery : IsQuery d q s) (stays : ¬TakesEnd d q) :
    ∃ (place : Nat → Nat) (front : List Token) (last : Token) (h : Frame) (e : Cursor),
      Monotone place ∧ last.lexeme = .finish ∧
      (front ++ [last]).map (·.relocate place) = tokenize d q ∧
      Derives rules selectBody (.opened (some .select) (.ofTokens (front ++ [last, last])))
        (.ofTokens (front ++ [last, last])) h e ∧
      e.tokens = [last, last] ∧ s = (h.closed .select e).relocate place ∧
      (h.closed .select e).span.stop = e.previous.stop := by
  obtain ⟨place, mono, moved, children, errors⟩ := read_moved d q rfl
  obtain ⟨stop, inOrder⟩ := (tokenize_inOrder d q).evenly_inOrder 0
  have lexemes : (tokenize d (q ++ "\n")).map (·.lexeme) = (tokenize d q).map (·.lexeme) := by
    have longer := tokenize_newline d q "" isQuery.valid
    rw [String.append_empty, tokenize_empty] at longer
    rw [longer, List.map_append]
    conv_rhs => rw [(tokenize_inOrder d q).split_last.1, List.map_append]
    rfl
  obtain ⟨place', mono', moved', children', -⟩ := read_moved d (q ++ "\n") lexemes
  generalize (tokenize d q).map (·.lexeme) = all at *
  have one : ∃ s₀, spaced all = ([s₀], []) := by
    rw [isQuery.single] at children
    rw [isQuery.complete] at errors
    obtain ⟨s₀, nodes, -⟩ := List.map_eq_singleton_iff.mp children.symm
    exact ⟨s₀, Prod.ext nodes (List.map_eq_nil_iff.mp errors.symm)⟩
  obtain ⟨s₀, one⟩ := one
  rw [one, List.map_singleton] at children children'
  have named : s = nameOptions q.toList (s₀.relocate place) :=
    (List.cons.inj (isQuery.single.symm.trans children)).1
  have isSelect : s₀.kind = .select := by
    have moved : (s₀.relocate place).kind = .select := by
      rw [← nameOptions_kind q.toList, ← named, isQuery.select]
    rwa [Node.relocate_kind] at moved
  let c := Cursor.ofTokens (evenly 0 all)
  have tokens : c.tokens = evenly 0 all := tokens_ofTokens inOrder.ne_nil
  have ordered : c.Ordered stop := ofTokens_ordered inOrder
  have plain : ∀ token ∈ c.tokens, token.lexeme ≠ .symbol .semicolon := by
    rw [tokens]
    intro token member
    have inText : token.relocate place ∈ tokenize d q := moved ▸ List.mem_map_of_mem member
    exact (isQuery.plain _ inText).1
  obtain ⟨h, e, derives, closed, finish⟩ :=
    select_derives ordered (Cursor.depth_ofTokens _) plain one isSelect
  let last : Token := ⟨.finish, ⟨stop, stop⟩⟩
  have split : evenly 0 all = (evenly 0 all).dropLast ++ [last] := inOrder.split_last.1
  have ends : c.EndsWith last := by
    rw [Cursor.EndsWith, tokens, split, List.getLast?_append]
    rfl
  have before : ¬e.Beyond last := by
    rintro ⟨-, taken⟩
    refine stays ⟨_, by rw [children']; exact .head _, ?_⟩
    have moved'' := moved'
    rw [split, List.map_append, (tokenize_inOrder d (q ++ "\n")).split_last.1] at moved''
    have lasts := (List.append_inj' moved'' rfl).2
    have place_stop : place' stop = (q ++ "\n").utf8ByteSize :=
      congrArg (·.span.stop) (List.cons.inj lasts).1
    have reaches : place' stop ≤ place' s₀.span.stop := by
      apply mono'
      rw [closed, ← show last.span.stop = stop from rfl, ← taken]
      exact Nat.le_max_left ..
    rw [nameOptions_span, Node.relocate_span]
    rw [String.utf8ByteSize_append] at place_stop
    have size : "\n".utf8ByteSize = 1 := rfl
    show q.utf8ByteSize < place' s₀.span.stop
    omega
  have there : e.tokens = [last] := by
    have rest := (derives.steps.path.ordered ordered).finish_iff.mp finish
    have here := (ends.after derives.steps.path.suffix).current rest
    rw [Cursor.tokens, here, rest]
  have padded := derives.padded rfl ends before
  have twice : c.padded last = .ofTokens ((evenly 0 all).dropLast ++ [last, last]) := by
    have longer : (evenly 0 all).dropLast ++ [last, last] = evenly 0 all ++ [last] := by
      conv_rhs => rw [split]
      rw [List.append_assoc]
      rfl
    rw [longer]
    obtain ⟨first, others, same⟩ := List.exists_cons_of_ne_nil inOrder.ne_nil
    simp [c, same, Cursor.ofTokens, Cursor.padded]
  refine ⟨place, (evenly 0 all).dropLast, last, h, e.padded last, mono, rfl, ?_, ?_, ?_, ?_, ?_⟩
  · rw [← split, moved]
  · rw [← twice]
    exact padded
  · rw [Cursor.padded_tokens, there]
    rfl
  · rw [named, nameOptions_eq_self, closed]
    · rfl
    · rw [closed]
      exact closed_optionless derives
  · have least := padded.least_le (.unknown _) (by rw [Cursor.padded_tokens, there]; rfl)
    have moves : 1 ≤ selectBody.atLeast := by decide
    rw [Grammar.atLeast] at moves
    simp only [Cursor.padded_tokens, List.length_append, Cursor.length_tokens] at least
    have start : h.start = c.current.span.start := derives.steps.start_eq
    have passed := derives.steps.path.previous_stop_le ordered (by omega)
    have token := ordered.current_span
    rw [Frame.closed, start]
    exact Nat.max_eq_left (token.trans passed)

theorem optionless (isQuery : IsQuery d q s) (stays : ¬TakesEnd d q) :
    s.Every (·.kind ≠ .routineOption) := by
  obtain ⟨place, front, last, h, e, -, -, -, derives, -, same, -⟩ := isQuery.derived stays
  rw [same]
  exact closed_optionless derives

theorem shift_optionless (isQuery : IsQuery d q s) (stays : ¬TakesEnd d q) (n : Nat) :
    (s.shift n).Every (·.kind ≠ .routineOption) := by
  rw [Node.shift, Node.every_relocate]
  simpa only [Node.relocate_kind] using isQuery.optionless stays

/-- The tokens of a query between others, where a line break stands behind it. -/
theorem between (isQuery : IsQuery d q s) {a : String} (b : String) {lexemes : List Lexeme}
    (opens : Lexer.Opens d a.toList lexemes) :
    ∃ n c, (Cursor.ofTokens (tokenize d (a ++ q ++ "\n" ++ b))).Passes lexemes c ∧
      c.tokens = (tokenize d q).dropLast.map (·.shift a.utf8ByteSize) ++
        (tokenize d b).map (·.shift n) ∧ c.previous.stop ≤ a.utf8ByteSize := by
  obtain ⟨front, rfl, within, tokens⟩ := tokenize_between d q b opens isQuery.valid
  have more : (tokenize d b).map (·.shift (a.utf8ByteSize + q.utf8ByteSize + 1)) ≠ [] := by
    simpa using (tokenize_inOrder d b).ne_nil
  have start := tokens_ofTokens (tokenize_inOrder d (a ++ q ++ "\n" ++ b)).ne_nil
  have origin : (Cursor.ofTokens (tokenize d (a ++ q ++ "\n" ++ b))).previous.stop ≤
      a.utf8ByteSize := by
    cases tokenize d (a ++ q ++ "\n" ++ b) <;> exact Nat.zero_le _
  obtain ⟨c, passes, left, stop⟩ := Cursor.exists_passes_front (start.trans tokens)
    (List.append_ne_nil_of_right_ne_nil _ more) origin within
  exact ⟨_, c, passes, left, stop⟩

/-- Where a query is read after others, it is read as the same tree, or nested too deep. -/
theorem placed (isQuery : IsQuery d q s) (stays : ¬TakesEnd d q) {e' : Behind} {lax : Bool}
    (follows : Follows e' lax) (closed : lax = true → ¬EndsInCall d q s) {after' : List Token}
    (begins : e'.Begins after') {n : Nat} (before : c.previous.stop ≤ n)
    (tokens : c.tokens = (tokenize d q).dropLast.map (·.shift n) ++ after') {left : List Token}
    (enough : c.rest.length < left.length) :
    (∃ d', d'.tokens = after' ∧ d'.depth = c.depth ∧
      ∀ f, Grammar.read (callRule rules left) query f c = .ok (f.push (s.shift n), d')) ∨
    (0 < c.depth ∧ ∀ f, Fails .tooDeep (Grammar.read (callRule rules left) query f c)) := by
  obtain ⟨place, front, last, h, e, mono, finish, moved, derives, ends, same, reaches⟩ :=
    isQuery.derived stays
  obtain ⟨ruled, abides, traces⟩ := follows
  let away := (· + n) ∘ place
  have further : Monotone away := fun a b less => Nat.add_le_add_right (mono less) n
  have here : (Cursor.ofTokens (front ++ [last, last])).tokens = front ++ [last, last] := by
    cases front <;> rfl
  have there : c.tokens = front.map (·.relocate away) ++ after' := by
    rw [tokens, ← moved, List.map_append, List.map_singleton, List.dropLast_concat, List.map_map]
    rfl
  have beside : Beside away c.depth [last, last] after' (.ofTokens (front ++ [last, last])) c := by
    have origin : (Cursor.ofTokens (front ++ [last, last])).previous.stop = 0 := by
      cases front <;> rfl
    refine ⟨⟨front, here, there⟩, .inr ⟨origin, before.trans (Nat.le_add_left ..)⟩, ?_⟩
    rw [Cursor.depth_ofTokens, Nat.zero_add]
  have endings : Endings ⟨.finish, .finish⟩ e' [last, last] after' := by
    have outline : last.lexeme.outline = .finish := by rw [finish]; rfl
    exact ⟨⟨congrArg some outline, congrArg some outline⟩, begins, Nat.le_refl _⟩
  have inside : 2 ≤ e.tokens.length := by
    rw [ends]
    exact Nat.le_refl _
  have least := derives.least_le (.unknown _) inside
  have moves : 1 ≤ selectBody.atLeast := by decide
  rw [Grammar.atLeast] at moves
  have opened := beside.opened (show 2 < _ by omega) (some .select)
  obtain ⟨token, left, rfl⟩ := List.exists_cons_of_ne_nil
    (List.ne_nil_of_length_pos (Nat.zero_lt_of_lt enough))
  have carried := Grammar.carried_read fun rounds => derives.carried endings further ruled abides
    beside inside (List.suffix_refl _) (absurd · Bool.false_ne_true) (Nat.le_of_lt_succ enough)
  rw [opened] at carried
  have enters (f : Frame) : Grammar.read (callRule rules (token :: left)) query f c =
    Grammar.read (callRule rules left) (.node .select selectBody) f c := rfl
  rcases carried with (⟨d', body, beside'⟩ | ⟨deep, error, b, failed, cause⟩) |
    ⟨-, ⟨closing, isClosing, behind⟩, trace, isLeft, leaves⟩
  · left
    have turned := derives.turns
    have isSelect : h.kind = some .select := turned.resolve_right List.not_mem_nil
    refine ⟨d', (beside'.ended (congrArg List.length ends)).2, ?_, fun f => ?_⟩
    · have level := beside'.depth
      rw [derives.depth, Cursor.depth_ofTokens, Nat.zero_add] at level
      exact level
    · have made : (h.relocate away).kind = some .select := isSelect
      rw [enters, Grammar.read, body, same, Node.shift, Node.relocate_relocate,
        Grammar.relocate_closed further beside'.abreast]
      dsimp only
      rw [Frame.close_some made]
  · right
    refine ⟨deep, fun f => ?_⟩
    obtain ⟨own, span⟩ := error
    cases cause
    refine ⟨span, b, ?_⟩
    rw [enters, Grammar.read, failed]
  · exfalso
    refine closed (Bool.and_eq_true_iff.mp isLeft).1 ⟨?_, fun none => ?_⟩
    · obtain ⟨first, split⟩ := behind
      rw [here, show first ++ closing :: [last, last] = (first ++ [closing]) ++ [last, last] by
        simp] at split
      rw [← moved, List.map_append, List.map_singleton, List.dropLast_concat,
        ← List.append_cancel_right split, List.map_append, List.getLast?_append]
      exact congrArg some isClosing
    · refine leaves.within (traces trace isLeft) .select e ?_
      rw [same, Node.every_relocate] at none
      refine Node.Every.mono (fun node never ends => never ?_) _ none
      rw [Node.relocate_span]
      exact Node.EndsInCall.relocate (reaches ▸ ends) mono

end IsQuery
end Script
end SqlAudit
