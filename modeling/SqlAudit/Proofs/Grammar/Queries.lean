import SqlAudit.Proofs.Grammar.Transplants
import SqlAudit.Proofs.Grammar.Whole
import SqlAudit.Proofs.Script.Reads
/-!
Queries as statements and as parts of others. A statement that is a query is read by the rule that
reads queries everywhere, and that rule tells no endings apart but where it takes what stands behind
the query; so a query that is read as a statement is read as a part of any other statement, too.
-/
namespace SqlAudit

namespace Grammar

/-- What the node of a query is read by. -/
def selectBody : Grammar := whenever (keyword .WITH) withClause ++ queryBody

/-- Reads one node, and of another kind. -/
def shuns (kind : NodeKind) : Grammar → Bool
  | .fail _ => true
  | .branch _ a b => a.shuns kind && b.shuns kind
  | .node own a => own != kind && a.turns.all fun turned => turned.any (· != kind)
  | .call name => name == .createStatement
  | _ => false

variable {call : Nonterminal → Frame → Cursor → Reading} {f g : Frame} {c d : Cursor}
  {kind : NodeKind}

def KeepsKind (call : Nonterminal → Frame → Cursor → Reading) : Prop :=
  ∀ name f c g d, call name f c = .ok (g, d) → g.kind = f.kind

theorem repeatWhile_turns {test : Test} {step : Frame → Cursor → Reading}
    {kinds : List (Option NodeKind)}
    (once : ∀ f c g d, step f c = .ok (g, d) → g.kind = f.kind ∨ g.kind ∈ kinds)
    (left : List Token) (ok : repeatWhile test step left f c = .ok (g, d)) :
    g.kind = f.kind ∨ g.kind ∈ kinds := by
  induction left generalizing f c with
  | nil =>
      cases ok
      exact .inl rfl
  | cons token left ih =>
      rw [repeatWhile] at ok
      split at ok
      · split at ok
        · rename_i h b found
          rcases ih ok with same | turned
          · rw [same]
            exact once _ _ _ _ found
          · exact .inr turned
        · cases ok
      · cases ok
        exact .inl rfl

/-- A frame keeps its kind unless it is turned into another one. -/
theorem read_turns (keeps : KeepsKind call) (a : Grammar) (ok : read call a f c = .ok (g, d)) :
    g.kind = f.kind ∨ g.kind ∈ a.turns := by
  induction a generalizing f c g d with
  | phrase phrases =>
      rw [read] at ok
      split at ok <;> cases ok <;> exact .inl rfl
  | seq a b first second =>
      rw [read] at ok
      split at ok
      · rename_i h e found
        rcases second ok with same | turned
        · rw [same]
          exact (first found).imp_right (List.mem_append_left _)
        · exact .inr (List.mem_append_right _ turned)
      · cases ok
  | branch test a b first second =>
      rw [read] at ok
      split at ok
      · exact (first ok).imp_right (List.mem_append_left _)
      · exact (second ok).imp_right (List.mem_append_right _)
  | loop test a ih => exact repeatWhile_turns (fun f c g d => ih) c.tokens ok
  | node kind a ih =>
      rw [read] at ok
      split at ok <;> cases ok
      exact .inl (Frame.close_kind ..)
  | wrap kind a ih =>
      rw [read] at ok
      split at ok <;> cases ok
      left
      rw [Frame.close_kind, Frame.wrapLast]
      split <;> rfl
  | become kind =>
      cases ok
      exact .inr (.head _)
  | dissolve =>
      cases ok
      exact .inr (.head _)
  | splice =>
      cases ok
      exact .inl (Frame.splice_kind f)
  | echo =>
      cases ok
      obtain ⟨value, echoed⟩ := f.echo_eq
      exact .inl (by rw [echoed])
  | discard a ih =>
      rw [read] at ok
      split at ok <;> cases ok
      exact .inl rfl
  | deeper a ih =>
      rw [read] at ok
      dsimp only at ok
      split at ok
      · cases ok
      · split at ok <;> cases ok
        exact ih ‹_›
  | call name => exact .inl (keeps name f c g d ok)
  | fail expected => cases ok
  | _ =>
      cases ok
      exact .inl rfl

theorem callRule_kind (left : List Token) : KeepsKind (callRule rules left) := by
  induction left with
  | nil =>
      intro name f c g d ok
      cases ok
  | cons token left ih =>
      intro name f c g d ok
      have turned := read_turns ih (rules name) ok
      rw [rules_turn name] at turned
      exact turned.resolve_right List.not_mem_nil

/-- The node around the last one is of the kind that it is opened with. -/
theorem wrap_of_read (keeps : KeepsKind call) {a : Grammar} (plain : a.turns = [])
    (ok : read call (.wrap kind a) f c = .ok (g, d)) :
    ∃ h, read call a (f.wrapLast kind c).1 c = .ok (h, d) ∧ h.kind = some kind ∧
      g = (f.wrapLast kind c).2.push (h.closed kind d) := by
  rw [read] at ok
  split at ok <;> rename_i found <;> cases ok
  rename_i h
  have turned := read_turns keeps a found
  rw [plain] at turned
  have same : h.kind = some kind := by
    rw [turned.resolve_right List.not_mem_nil, Frame.wrapLast]
    split <;> rfl
  exact ⟨h, found, same, by rw [Frame.close, same]; rfl⟩

theorem node_of_read (keeps : KeepsKind call) {a : Grammar} (plain : a.turns = [])
    (ok : read call (.node kind a) f c = .ok (g, d)) :
    ∃ h, read call a (.opened kind c) c = .ok (h, d) ∧ h.kind = some kind ∧
      g = f.push (h.closed kind d) := by
  rw [read] at ok
  split at ok <;> rename_i found <;> cases ok
  rename_i h
  have turned := read_turns keeps a found
  rw [plain] at turned
  have same : h.kind = some kind := turned.resolve_right List.not_mem_nil
  exact ⟨h, found, same, by rw [Frame.close, same]; rfl⟩

/-- What is read by a grammar that shuns a kind is one node, of another kind. -/
theorem read_shuns (keeps : KeepsKind call)
    (created : ∀ f c g d, f.parts = [] → call .createStatement f c = .ok (g, d) →
      ∀ node ∈ g.parts, node.kind ≠ kind)
    {a : Grammar} (shuns : a.shuns kind = true) (empty : f.parts = [])
    (ok : read call a f c = .ok (g, d)) : ∀ node ∈ g.parts, node.kind ≠ kind := by
  induction a with
  | fail expected => cases ok
  | branch test a b first second =>
      obtain ⟨left, right⟩ := Bool.and_eq_true_iff.mp shuns
      rw [read] at ok
      split at ok
      · exact first left ok
      · exact second right ok
  | node own a ih =>
      obtain ⟨other, turned⟩ := Bool.and_eq_true_iff.mp shuns
      rw [read] at ok
      split at ok <;> rename_i found <;> cases ok
      rename_i h
      have kinds : ∃ made, h.kind = some made ∧ made ≠ kind := by
        rcases read_turns keeps a found with same | member
        · exact ⟨own, same, by simpa using other⟩
        · have fine := List.all_eq_true.mp turned _ member
          cases made : h.kind with
          | none =>
              rw [made] at fine
              cases fine
          | some own => exact ⟨own, rfl, by simpa [made] using fine⟩
      obtain ⟨made, same, different⟩ := kinds
      intro node inside
      have parts : (f.close h d).parts = [h.closed made d] := by
        rw [Frame.close, same]
        exact congrArg _ empty
      rw [parts, List.mem_singleton] at inside
      rw [inside]
      exact different
  | call name =>
      obtain rfl := beq_iff_eq.mp shuns
      exact created f c g d empty ok
  | _ => cases shuns

theorem callRule_created (left : List Token) (f : Frame) (c : Cursor) (g : Frame) (d : Cursor)
    (empty : f.parts = []) (ok : callRule rules left .createStatement f c = .ok (g, d)) :
    ∀ node ∈ g.parts, node.kind ≠ .select := by
  induction left generalizing f c g d with
  | nil => cases ok
  | cons token left ih =>
      exact read_shuns (a := createRule) (callRule_kind left) ih (by decide +kernel) empty ok

/-- A node is the same, whatever frame it goes to. -/
theorem read_node_anywhere {left : List Token} {a : Grammar} (plain : a.turns = [])
    (ok : read (callRule rules left) (.node kind a) f c = .ok (g, d)) :
    ∃ node, node.span.start = c.current.span.start ∧
      ∀ f, read (callRule rules left) (.node kind a) f c = .ok (f.push node, d) := by
  obtain ⟨h, inner, same, -⟩ := node_of_read (callRule_kind left) plain ok
  have kept := read_keepsFrame (callRule_keepsFrame rules_keepNode left) a (.opened kind c) c
  rw [inner] at kept
  refine ⟨h.closed kind d, kept.1, fun f => ?_⟩
  rw [read, inner]
  dsimp only
  rw [Frame.close, same]
  rfl

/-- What stands around the last node is of the kind that it is opened with. -/
theorem wrap_kind {left : List Token} {a : Grammar} {start : Nat} {value : Option String} {s : Node}
    {others : List Node} {made : Option NodeKind} (plain : a.turns = [])
    (ok : read (callRule rules left) (.wrap kind a) f c =
      .ok (⟨made, start, value, s :: others⟩, d)) : s.kind = kind := by
  obtain ⟨h, -, -, same⟩ := wrap_of_read (callRule_kind left) plain ok
  have parts := congrArg Frame.parts same
  rw [(List.cons.inj parts).1]
  rfl

/-- A query whose WITH clause was read first is read by what queries are read by. -/
theorem statement_with {left : List Token} {start : Nat} {value : Option String} {s : Node}
    {others : List Node} {made : Option NodeKind}
    (ok : read (callRule rules left) queryStatement (.opened none c) c =
      .ok (⟨made, start, value, s :: others⟩, d))
    (leads : c.current.lexeme = .keyword .WITH) (select : s.kind = .select) :
    ∃ h, read (callRule rules left) selectBody (.opened (some .select) c) c = .ok (h, d) ∧
      h.kind = some .select ∧ s = h.closed .select d := by
  have goes (f : Frame) : (keyword .WITH).holds f c = true := by
    show (TokenClass.keywords [.WITH]).holds c.current.lexeme = true
    rw [leads]
    rfl
  rw [queryStatement, read, if_pos (goes _)] at ok
  change read _ (.seq withClause _) _ _ = _ at ok
  rw [read] at ok
  split at ok
  · rename_i f b found
    obtain ⟨clause, begins, anywhere⟩ := read_node_anywhere rfl found
    have here := (anywhere _).symm.trans found
    cases here
    simp only [choose] at ok
    rw [read] at ok
    split at ok
    · cases (wrap_kind rfl ok).symm.trans select
    · rw [read] at ok
      split at ok
      · cases (wrap_kind rfl ok).symm.trans select
      · rw [read] at ok
        split at ok
        · cases (wrap_kind rfl ok).symm.trans select
        · obtain ⟨h, body, isSelect, same⟩ := wrap_of_read (callRule_kind left) rfl ok
          have parts := congrArg Frame.parts same
          refine ⟨h, ?_, isSelect, (List.cons.inj parts).1⟩
          change read _ (.seq (.branch _ withClause .nothing) queryBody) _ _ = _
          have taken := anywhere (.opened (some .select) c)
          rw [read, read, if_pos (goes _), withClause, taken, ← body]
          simp [Frame.wrapLast, Frame.push, Frame.opened, begins]
  · cases ok

/-- A statement that makes a query is read by what queries are read by. -/
theorem statement_select {left : List Token} {start : Nat} {value : Option String} {s : Node}
    {others : List Node} {made : Option NodeKind}
    (ok : read (callRule rules left) statement (.opened none c) c =
      .ok (⟨made, start, value, s :: others⟩, d))
    (enough : c.rest.length < left.length) (select : s.kind = .select) :
    ∃ rest h, c.rest.length ≤ rest.length ∧
      read (callRule rules rest) selectBody (.opened (some .select) c) c = .ok (h, d) ∧
      h.kind = some .select ∧ s = h.closed .select d := by
  rw [statement, choose, read] at ok
  split at ok
  · by_cases leads : c.current.lexeme = .keyword .WITH
    · obtain ⟨h, body, isSelect, same⟩ := statement_with ok leads select
      exact ⟨left, h, Nat.le_of_lt enough, body, isSelect, same⟩
    · have stays : (keyword .WITH).holds (.opened none c) c = false := by
        cases lexeme : c.current.lexeme <;>
          simp_all [keyword, Test.holds, TokenClass.holds]
      obtain ⟨token, left, rfl⟩ := List.exists_cons_of_ne_nil
        (List.ne_nil_of_length_pos (Nat.zero_lt_of_lt enough))
      rw [queryStatement, read, if_neg (by simp [stays])] at ok
      have called : read (callRule rules left) (.node .select selectBody) (.opened none c) c =
        .ok (⟨made, start, value, s :: others⟩, d) := ok
      obtain ⟨h, body, isSelect, same⟩ := node_of_read (callRule_kind left) rfl called
      have parts := congrArg Frame.parts same
      exact ⟨left, h, Nat.le_of_lt_succ enough, body, isSelect, (List.cons.inj parts).1⟩
  · have other := read_shuns (callRule_kind left) (callRule_created left) (by decide +kernel) rfl ok
    exact absurd select (other s (.head _))

/-- What a rule that passes its survey goes on with is derived, wherever it was read to the end. -/
theorem passes_derives {w : Watch} {r : Range} (whole : r.beyond = 0) (unbarred : Unbarred w r)
    (passed : ∀ name, w.closed.contains name = false → passes w (rules name) false = true)
    {a : Grammar} (passes : passes w a false = true) {left : List Token} (within : c.Within r)
    (enough : c.rest.length ≤ left.length) (ok : read (callRule rules left) a f c = .ok (g, d)) :
    Derives rules a f c g d := by
  rw [SqlAudit.passes] at passes
  cases surveyed : survey w a (.unknown false false) with
  | none => simp [surveyed] at passes
  | some outlook =>
      have calls : CallsSound w r (callRule rules left) c.rest.length := by
        intro name f b called within deeper
        exact callRule_sound unbarred passed left name f b called within (by omega)
      have derive : CallsDerive rules w r (callRule rules left) c.rest.length := by
        intro name f b g d called within deeper ok
        exact callRule_derives whole unbarred passed left name f b g d called within (by omega) ok
      have start : Fits w r c.rest.length c.rest.length (.unknown false false) c :=
        .unknown within (Nat.le_refl _) (by simp) (Nat.le_refl _) (by simp)
      exact read_derives whole unbarred (callRule_suffix rules left) calls derive a surveyed start
        ok

/-- The power of an expression makes no difference to what stands behind it. -/
theorem overlooks_expressionFrom (e e' : Behind) (lax : Bool) (power : Nat) :
    overlooks e e' lax (.expression power) = overlooks e e' lax (.expression 0) := rfl

theorem overlooks_of {e e' : Behind} {lax : Bool}
    (all : [.expression 0, .query, .joinedTable, .group].all (overlooks e e' lax)) :
    Overlooks e e' lax := by
  simp only [List.all_cons, List.all_nil, Bool.and_true, Bool.and_eq_true] at all
  obtain ⟨expression, query, joined, group⟩ := all
  intro name inQuery
  cases name with
  | expression power =>
      rw [overlooks_expressionFrom]
      exact expression
  | query => exact query
  | joinedTable => exact joined
  | group => exact group
  | createStatement | atomicBody => cases inQuery

variable {e e' : Behind} {place : Nat → Nat} {levels : Nat} {after after' : List Token}
  {a : Grammar}

/-- What is derived within the text is read beside it, where no test may be missed. -/
theorem Derives.transplanted (endings : Endings e e' after after') (mono : Monotone place)
    (ruled : Overlooks e e' false) (derives : Derives rules a f c g d) {before awaited : Nat}
    (abides : a.abides e e' false false before awaited = true) {c' : Cursor}
    (beside : Beside place levels after after' c c')
    (inside : after.length + awaited ≤ d.tokens.length) {left : List Token}
    (enough : c'.rest.length + before ≤ left.length) :
    Carried place levels after after' g d
      (read (callRule rules left) a (f.relocate place) c') := by
  rcases carried_read fun rounds => derives.carried endings mono ruled abides beside inside
    (List.suffix_refl _) nofun enough with carried | ⟨-, -, trace, found, -⟩
  · exact carried
  · cases found

theorem relocate_closed (mono : Monotone place) (abreast : c.Abreast place d) :
    (g.closed kind c).relocate place = (g.relocate place).closed kind d := by
  have stop := abreast.stop mono g.start
  simp [Frame.closed, Frame.relocate, Node.relocate, Node.relocateAll_eq_map, Span.relocate, stop]

end Grammar
end SqlAudit
