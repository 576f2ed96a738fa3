import SqlAudit.Proofs.Grammar.Names
import SqlAudit.Proofs.Grammar.Origin
import SqlAudit.Proofs.Tree.Respelled
/-!
Two readings of tokens in which one operator stands for another. Nothing that a grammar asks tells
operators apart, so both take the same steps; and a grammar that takes each operator whose spelling
it copies, and copies no value twice, spells it in one place of the tree at most.
-/
namespace SqlAudit

/-- A text of letters and blanks. -/
def Text.isWords (text : String) : Bool := text.toList.all fun c => c.isAlpha || c == ' '

/-- An operator is told from words by its spelling. -/
def IsSign (o : String) : Prop := Text.isWords o = false

instance : DecidablePred IsSign := fun _ => inferInstanceAs (Decidable (_ = false))

variable {o o' : String} {m n : Nat}

/-- The same lexeme, or one operator for the other. -/
inductive Lexeme.Respelled (o o' : String) : Nat → Lexeme → Lexeme → Prop
  | same {n : Nat} (lexeme : Lexeme) : Respelled o o' n lexeme lexeme
  | operator {n : Nat} : Respelled o o' (n + 1) (.operator o) (.operator o')

namespace Lexeme.Respelled

variable {x y : Lexeme}

theorem holds (respelled : Lexeme.Respelled o o' n x y) (tokens : TokenClass) :
    tokens.holds y = tokens.holds x := by
  cases respelled with
  | same => rfl
  | operator => cases tokens <;> rfl

theorem capitals? (respelled : Lexeme.Respelled o o' n x y) : y.capitals? = x.capitals? := by
  cases respelled <;> rfl

theorem eq_of_other (respelled : Lexeme.Respelled o o' n x y)
    (other : ∀ text, x ≠ .operator text) : y = x := by
  cases respelled with
  | same => rfl
  | operator => exact absurd rfl (other o)

theorem mono (respelled : Lexeme.Respelled o o' m x y) (le : m ≤ n) :
    Lexeme.Respelled o o' n x y := by
  cases respelled with
  | same => exact .same _
  | operator =>
      obtain ⟨n, rfl⟩ := Nat.exists_eq_add_one.mpr (Nat.lt_of_lt_of_le (Nat.succ_pos _) le)
      exact .operator

/-- What is copied of both tokens. -/
theorem spelling (respelled : Lexeme.Respelled o o' n x y) (spelling : Spelling) {a b : String}
    (text : Text.Respelled o o' m a b) :
    Text.Respelled o o' (m + n) (a ++ spelling.of x) (b ++ spelling.of y) := by
  cases respelled with
  | same => exact (text.append _).mono (Nat.le_add_right ..)
  | operator =>
      have both : spelling.of (.operator o) = o ∧ spelling.of (.operator o') = o' := by
        cases spelling <;> exact ⟨rfl, rfl⟩
      rw [both.1, both.2]
      exact text.operator.mono (by omega)

end Lexeme.Respelled

/-- The last token is the same, and the others share a number of places. -/
inductive TokensRespelled (o o' : String) : Nat → List Token → List Token → Prop
  | last {n : Nat} {x y : Token} (same : y.lexeme = x.lexeme) : TokensRespelled o o' n [x] [y]
  | cons {m n : Nat} {x y : Token} {xs ys : List Token} (first : x.lexeme.Respelled o o' m y.lexeme)
      (others : TokensRespelled o o' n xs ys) : TokensRespelled o o' (m + n) (x :: xs) (y :: ys)

/-- Cursors at the same place of such tokens. -/
structure Cursor.Respelled (o o' : String) (n : Nat) (c d : Cursor) : Prop where
  tokens : TokensRespelled o o' n c.tokens d.tokens
  depth : d.depth = c.depth

theorem TokensRespelled.length {xs ys : List Token} (respelled : TokensRespelled o o' n xs ys) :
    xs.length = ys.length := by
  induction respelled with
  | last => rfl
  | cons first others ih => rw [List.length_cons, List.length_cons, ih]

theorem TokensRespelled.mono {xs ys : List Token} (respelled : TokensRespelled o o' m xs ys)
    (le : m ≤ n) : TokensRespelled o o' n xs ys := by
  induction respelled generalizing n with
  | last same => exact .last same
  | cons first others ih =>
      obtain ⟨k, rfl⟩ := Nat.exists_eq_add_of_le (Nat.le_of_add_right_le le)
      exact .cons first (ih (Nat.le_of_add_le_add_left le))

namespace Cursor.Respelled

variable {c d : Cursor}

theorem mono (respelled : Cursor.Respelled o o' m c d) (le : m ≤ n) :
    Cursor.Respelled o o' n c d :=
  ⟨respelled.tokens.mono le, respelled.depth⟩

theorem turn (respelled : Cursor.Respelled o o' n c d) (depth : Nat) :
    Cursor.Respelled o o' n { c with depth := depth } { d with depth := depth } :=
  ⟨respelled.tokens, rfl⟩

/-- Where a token is taken, its places are gone. -/
theorem advance (respelled : Cursor.Respelled o o' n c d) : ∃ i k, i + k = n ∧
    c.current.lexeme.Respelled o o' i d.current.lexeme ∧
    Cursor.Respelled o o' k c.advance d.advance := by
  obtain ⟨tokens, depth⟩ := respelled
  have level : d.advance.depth = c.advance.depth := by
    rw [Cursor.advance_depth, Cursor.advance_depth, depth]
  have next (c : Cursor) (more : c.rest ≠ []) : c.advance.tokens = c.rest :=
    (List.cons.inj (Cursor.tokens_advance more)).2.symm
  rw [Cursor.tokens, Cursor.tokens] at tokens
  generalize before : c.rest = xs, after : d.rest = ys at tokens
  cases tokens with
  | last same =>
      refine ⟨0, n, Nat.zero_add n, same ▸ .same _, ?_, level⟩
      rw [Cursor.advance_last before, Cursor.advance_last after]
      show TokensRespelled o o' n (_ :: c.rest) (_ :: d.rest)
      rw [before, after]
      exact .last same
  | @cons i k _ _ _ _ first others =>
      refine ⟨i, k, rfl, first, ?_, level⟩
      rwa [next c, next d, before, after]
      · rw [after]
        rintro rfl
        cases others
      · rw [before]
        rintro rfl
        cases others

theorem current (respelled : Cursor.Respelled o o' n c d) :
    c.current.lexeme.Respelled o o' n d.current.lexeme := by
  obtain ⟨i, k, rfl, lexeme, -⟩ := respelled.advance
  exact lexeme.mono (Nat.le_add_right i k)

theorem advance_of_eq (respelled : Cursor.Respelled o o' n c d)
    (_same : d.current.lexeme = c.current.lexeme) :
    Cursor.Respelled o o' n c.advance d.advance := by
  obtain ⟨i, k, rfl, lexeme, next⟩ := respelled.advance
  exact next.mono (Nat.le_add_left k i)

theorem peek (respelled : Cursor.Respelled o o' n c d) :
    c.peek.lexeme.Respelled o o' n d.peek.lexeme := by
  obtain ⟨i, k, rfl, lexeme, next⟩ := respelled.advance
  rw [← Cursor.advance_current, ← Cursor.advance_current]
  exact next.current.mono (Nat.le_add_left k i)

theorem phrase (respelled : Cursor.Respelled o o' n c d) (phrases : Phrases)
    (matched : List String) {left left' : List Token} (same : left.length = left'.length) :
    (d.phrase phrases matched left').1 = (c.phrase phrases matched left).1 ∧
      Cursor.Respelled o o' n (c.phrase phrases matched left).2
        (d.phrase phrases matched left').2 := by
  induction left generalizing matched left' c d with
  | nil =>
      obtain rfl := List.length_eq_zero_iff.mp same.symm
      exact ⟨rfl, respelled⟩
  | cons token left ih =>
      obtain ⟨token', left', rfl⟩ := List.exists_cons_of_length_eq_add_one same.symm
      rw [Cursor.phrase, Cursor.phrase, respelled.current.capitals?]
      split
      · rename_i word capitals
        have lexeme : d.current.lexeme = c.current.lexeme :=
          respelled.current.eq_of_other fun text operator => by
            rw [operator] at capitals
            cases capitals
        split
        · exact ih (respelled.advance_of_eq lexeme) _ (by simpa using same)
        · exact ⟨rfl, respelled⟩
      · exact ⟨rfl, respelled⟩

end Cursor.Respelled

/-- Frames that are filled alike but for such places. -/
structure Frame.Respelled (o o' : String) (n : Nat) (f g : Frame) : Prop where
  kind : g.kind = f.kind
  shares : ∃ i j, i + j = n ∧ Value.Respelled o o' i f.value g.value ∧
    Shared (Node.Respelled o o') j f.parts g.parts

namespace Frame.Respelled

variable {f g f' g' : Frame} {c d : Cursor}

theorem opened (kind : Option NodeKind) (c d : Cursor) :
    Frame.Respelled o o' 0 (.opened kind c) (.opened kind d) :=
  ⟨rfl, 0, 0, rfl, .none, .nil⟩

/-- What is written differs in so many places more. -/
theorem write_more {x y : String} (respelled : Frame.Respelled o o' n f g)
    (more : ∀ {i : Nat} {a b : String}, Text.Respelled o o' i a b →
      Text.Respelled o o' (i + m) (a ++ x) (b ++ y)) :
    Frame.Respelled o o' (n + m) (f.write x) (g.write y) := by
  obtain ⟨kind, i, j, rfl, value, parts⟩ := respelled
  exact ⟨kind, i + m, j, by omega, .some (more value.getD), parts⟩

theorem write (respelled : Frame.Respelled o o' n f g) (text : String) :
    Frame.Respelled o o' n (f.write text) (g.write text) :=
  respelled.write_more (m := 0) fun before => before.append text

theorem gap (respelled : Frame.Respelled o o' n f g) : Frame.Respelled o o' n f.gap g.gap := by
  obtain ⟨kind, i, j, sum, value, parts⟩ := respelled
  refine ⟨kind, i, j, sum, ?_, parts⟩
  rw [Frame.gap, Frame.gap]
  generalize f.value = value, g.value = value' at value
  cases value with
  | none => exact .none
  | some text => exact .some (text.append " ")

theorem push {node node' : Node} (respelled : Frame.Respelled o o' m f g)
    (last : node.Respelled o o' n node') :
    Frame.Respelled o o' (m + n) (f.push node) (g.push node') := by
  obtain ⟨kind, i, j, rfl, value, parts⟩ := respelled
  exact ⟨kind, i, n + j, by omega, value, .cons last parts⟩

theorem close (outer : Frame.Respelled o o' m f g) (inner : Frame.Respelled o o' n f' g')
    (c d : Cursor) : Frame.Respelled o o' (m + n) (f.close f' c) (g.close g' d) := by
  obtain ⟨same, i, j, rfl, value, parts⟩ := inner
  rw [Frame.close, Frame.close, same]
  cases f'.kind with
  | some kind => exact outer.push (.node value parts.reverse)
  | none =>
      obtain ⟨kind, k, l, rfl, value', parts'⟩ := outer
      exact ⟨kind, k, l + (i + j), by omega, value', (parts.append parts').mono (by omega)⟩

theorem wrapLast (kind : NodeKind) (respelled : Frame.Respelled o o' n f g) (c d : Cursor) :
    ∃ i j, i + j = n ∧ Frame.Respelled o o' i (f.wrapLast kind c).1 (g.wrapLast kind d).1 ∧
      Frame.Respelled o o' j (f.wrapLast kind c).2 (g.wrapLast kind d).2 := by
  obtain ⟨_, _, _, parts⟩ := f
  obtain ⟨_, _, _, parts'⟩ := g
  obtain ⟨same, i, j, rfl, value, shared⟩ := respelled
  dsimp only at same value shared
  cases shared with
  | nil => exact ⟨0, i + j, by omega, opened _ _ _, same, i, j, rfl, value, .nil⟩
  | @cons k l _ _ _ _ first others =>
      have last : Shared (Node.Respelled o o') k [_] [_] := .cons first (.nil : Shared _ 0 [] [])
      exact ⟨k, i + l, by omega, ⟨rfl, 0, k, Nat.zero_add k, .none, last⟩, same, i, l, rfl, value,
        others⟩

theorem splice (respelled : Frame.Respelled o o' n f g) :
    Frame.Respelled o o' n f.splice g.splice := by
  obtain ⟨_, _, _, parts⟩ := f
  obtain ⟨_, _, _, parts'⟩ := g
  obtain ⟨same, i, j, rfl, value, shared⟩ := respelled
  dsimp only at same value shared
  cases shared with
  | nil => exact ⟨same, i, j, rfl, value, .nil⟩
  | @cons k l _ _ _ _ first others =>
      cases first with
      | @node p q _ _ _ _ _ _ _ written children =>
          exact ⟨same, p + i, q + l, by omega, written.or value, children.reverse.append others⟩

theorem become (respelled : Frame.Respelled o o' n f g) (kind : Option NodeKind) :
    Frame.Respelled o o' n { f with kind := kind } { g with kind := kind } :=
  ⟨rfl, respelled.shares⟩

end Frame.Respelled

/-- The test asks for no value but those of words. -/
def Test.asksWords : Test → Bool
  | .valueIn values => values.all Text.isWords
  | .both a b | .either a b => a.asksWords && b.asksWords
  | .neither a => a.asksWords
  | _ => true

/-- The test fails at an operator. -/
def Test.excludes (test : Test) : Bool := !test.may (some (.operator "")) none true

section tests

variable {f g : Frame} {c d : Cursor} {a b : String}

/-- Texts that differ are no words. -/
theorem Text.Respelled.eq_or_signs (respelled : Text.Respelled o o' n a b) (sign : IsSign o)
    (sign' : IsSign o') : b = a ∨ (Text.isWords a = false ∧ Text.isWords b = false) := by
  cases respelled with
  | same => exact .inl rfl
  | more before after =>
      rw [IsSign, Text.isWords] at sign sign'
      simp only [Text.isWords, String.toList_append, List.all_append, sign, sign', Bool.and_false,
        Bool.false_and, and_self, or_true]

theorem Test.holds_respelled (test : Test) (asks : test.asksWords = true) (sign : IsSign o)
    (sign' : IsSign o') (frame : Frame.Respelled o o' m f g) (cursor : Cursor.Respelled o o' n c d) :
    test.holds g d = test.holds f c := by
  induction test with
  | here tokens => exact cursor.current.holds tokens
  | next tokens => exact cursor.peek.holds tokens
  | phrase phrases => rw [holds, holds, cursor.current.capitals?]
  | valueIn values =>
      obtain ⟨-, i, j, -, value, -⟩ := frame
      have worded := List.all_eq_true.mp asks
      rw [holds, holds]
      generalize f.value = v, g.value = v' at value
      cases value with
      | none => rfl
      | some text =>
          rename_i a b
          rcases text.eq_or_signs sign sign' with rfl | ⟨left, right⟩
          · rfl
          · have absent {text : String} (not : Text.isWords text = false) : text ∉ values :=
              fun member => absurd (not.symm.trans (worded text member)) (by decide)
            simp [absent left, absent right]
  | lastIs kind =>
      obtain ⟨-, i, j, -, -, parts⟩ := frame
      rw [holds, holds]
      generalize f.parts = nodes, g.parts = nodes' at parts
      cases parts with
      | nil => rfl
      | cons first others =>
          cases first
          rfl
  | both a b first second =>
      obtain ⟨left, right⟩ := Bool.and_eq_true_iff.mp asks
      rw [holds, holds, first left, second right]
  | either a b first second =>
      obtain ⟨left, right⟩ := Bool.and_eq_true_iff.mp asks
      rw [holds, holds, first left, second right]
  | neither a ih => rw [holds, holds, ih asks]

theorem Test.excludes_sound (test : Test) (excludes : test.excludes = true)
    (holds : test.holds f c = true) (text : String) : c.current.lexeme ≠ .operator text := by
  intro operator
  have may := test.may_holds f c
  rw [holds, operator] at may
  have weak : test.may (some (.operator "")) none true = true :=
    Test.may_weaken (.inl rfl) (.inr rfl) may
  rw [Test.excludes] at excludes
  simp [weak] at excludes

end tests

namespace Grammar

/-- Takes the current token, or takes it if it is as expected and fails at an operator. -/
def takesCopied : Grammar → Bool
  | .take => true
  | .branch test .take (.fail _) => test.excludes && test.asksWords
  | _ => false

/-- Reads nothing. -/
def idles : Grammar → Bool
  | .write _ | .gap => true
  | _ => false

def copies : Grammar → Bool
  | .copy _ => true
  | _ => false

/-- An operator is taken where it is copied, and no value is copied from a node but a name. A place
may be known to hold no operator. -/
def steady (known : Bool) : Grammar → Bool
  | .copy _ => known
  | .echo => false
  | .seq a b =>
    (a.copies && b.takesCopied) || (a == .seq .take qualifiedName && b == .echo) ||
      (steady known a && steady (known && a.idles) b)
  | .branch test a b =>
    test.asksWords && steady (known || test.excludes) a && steady known b
  | .loop test a => test.asksWords && steady test.excludes a
  | .node _ a | .wrap _ a | .discard a | .deeper a => steady known a
  | _ => true

theorem steady_rules : ∀ name, steady false (rules name) = true := by
  intro name
  cases name <;> rfl

theorem steady_statement : steady false statement = true := rfl

variable {call call' : Nonterminal → Frame → Cursor → Reading} {test : Test} {f g f' : Frame}
  {c d c' : Cursor} {k : Nat}

/-- Two readings have come to the same place; frames and tokens share what differs. -/
def Respelling (o o' : String) (k : Nat) (f : Frame) (c : Cursor) (f' : Frame) (c' : Cursor) :
    Prop :=
  ∃ m n, m + n = k ∧ Frame.Respelled o o' m f f' ∧ Cursor.Respelled o o' n c c'

/-- Loops make the same rounds where what relates the frames and cursors is kept. -/
theorem repeatWhile_related {R : Frame → Cursor → Frame → Cursor → Prop}
    {step step' : Frame → Cursor → Reading}
    (verdict : ∀ f c f' c', R f c f' c' → test.holds f' c' = test.holds f c)
    (rounds : ∀ f c f' c' g d, R f c f' c' → test.holds f c = true → step f c = .ok (g, d) →
      ∃ g' d', step' f' c' = .ok (g', d') ∧ R g d g' d')
    {left left' : List Token} (same : left.length = left'.length) (related : R f c f' c')
    (ok : repeatWhile test step left f c = .ok (g, d)) :
    ∃ g' d', repeatWhile test step' left' f' c' = .ok (g', d') ∧ R g d g' d' := by
  induction left generalizing left' f f' c c' with
  | nil =>
      obtain rfl := List.length_eq_zero_iff.mp same.symm
      cases ok
      exact ⟨f', c', rfl, related⟩
  | cons token left ih =>
      obtain ⟨token', left', rfl⟩ := List.exists_cons_of_length_eq_add_one same.symm
      rw [repeatWhile] at ok
      rw [repeatWhile, verdict f c f' c' related]
      split at ok
      · rename_i holds
        rw [if_pos holds]
        split at ok
        · rename_i h b found
          obtain ⟨h', b', read, related⟩ := rounds f c f' c' h b related holds found
          rw [read]
          exact ih (by simpa using same) related ok
        · cases ok
      · rename_i fails
        cases ok
        rw [if_neg fails]
        exact ⟨f', c', rfl, related⟩

/-- Both readings write the same name. -/
theorem read_name_respelled (call' : Nonterminal → Frame → Cursor → Reading)
    (cursor : Cursor.Respelled o o' n c c')
    (ok : read call name f c = .ok (g, d)) :
    ∃ text d', g = f.write text ∧ Cursor.Respelled o o' n d d' ∧
      ∀ f', read call' name f' c' = .ok (f'.write text, d') := by
  by_cases named : c.current.lexeme.IsName
  · have same : c'.current.lexeme = c.current.lexeme := by
      refine cursor.current.eq_of_other fun text operator => ?_
      rw [operator] at named
      cases named
    rw [read_name named] at ok
    cases ok
    exact ⟨_, _, rfl, cursor.advance_of_eq same, fun f' => same ▸ read_name (same ▸ named)⟩
  · have other : anyName.holds f c = false := Bool.eq_false_iff.mpr named
    rw [name, read_no other] at ok
    cases ok

theorem read_dottedName_respelled (call' : Nonterminal → Frame → Cursor → Reading)
    (cursor : Cursor.Respelled o o' n c c')
    (ok : read call dottedName f c = .ok (g, d)) (f' : Frame) :
    ∃ text d', read call' dottedName f' c' = .ok (f'.write text, d') ∧ g = f.write text ∧
      Cursor.Respelled o o' n d d' := by
  rw [dottedName, append_eq_seq, read] at ok ⊢
  split at ok
  · rename_i h b found
    obtain ⟨text, b', rfl, cursor, reads⟩ := read_name_respelled call' cursor found
    rw [reads]
    have rounds : ∃ g' d', repeatWhile (symbol .dot) (read call' (.take ++ .write "." ++ name))
        b'.tokens (f'.write text) b' = .ok (g', d') ∧ ∃ text, g = f.write text ∧
          g' = f'.write text ∧ Cursor.Respelled o o' n d d' := by
      refine repeatWhile_related
        (R := fun g c g' c' => ∃ text, g = f.write text ∧ g' = f'.write text ∧
          Cursor.Respelled o o' n c c') ?_ ?_ cursor.tokens.length ⟨text, rfl, rfl, cursor⟩ ok
      · rintro g c g' c' ⟨text, -, -, cursor⟩
        exact cursor.current.holds (.symbols [.dot])
      · rintro g c g' c' h d ⟨text, rfl, rfl, cursor⟩ dot ok
        have same :=
          cursor.current.eq_of_other (Test.excludes_sound (symbol .dot) rfl dot)
        obtain ⟨more, d', rfl, cursor, reads⟩ :=
          read_name_respelled call' (cursor.advance_of_eq same) ok
        exact ⟨_, d', reads _, text ++ "." ++ more, by simp, by simp, cursor⟩
    obtain ⟨g', d', rounds, text, rfl, rfl, cursor⟩ := rounds
    exact ⟨text, d', rounds, rfl, cursor⟩
  · cases ok

/-- What the rules read alike. -/
def CallsRespelled (o o' : String) (call call' : Nonterminal → Frame → Cursor → Reading) : Prop :=
  ∀ name f f' c c' k g d, Respelling o o' k f c f' c' → call name f c = .ok (g, d) →
    ∃ g' d', call' name f' c' = .ok (g', d') ∧ Respelling o o' k g d g' d'

/-- An operator that is copied and taken differs in one place, and is none of those left. -/
theorem read_copied_respelled (sign : IsSign o) (sign' : IsSign o') {b : Grammar}
    (takes : b.takesCopied = true) (spelling : Spelling) (related : Respelling o o' k f c f' c')
    (ok : read call (.seq (.copy spelling) b) f c = .ok (g, d)) :
    ∃ g' d', read call' (.seq (.copy spelling) b) f' c' = .ok (g', d') ∧
      Respelling o o' k g d g' d' := by
  obtain ⟨m, n, rfl, frame, cursor⟩ := related
  obtain ⟨i, j, rfl, lexeme, next⟩ := cursor.advance
  have written : Frame.Respelled o o' (m + i) (f.write (spelling.of c.current.lexeme))
      (f'.write (spelling.of c'.current.lexeme)) :=
    frame.write_more fun before => lexeme.spelling spelling before
  rw [takesCopied.eq_def] at takes
  split at takes
  · cases ok
    exact ⟨_, _, rfl, m + i, j, Nat.add_assoc .., written, next⟩
  · rename_i test expected
    obtain ⟨excludes, asks⟩ := Bool.and_eq_true_iff.mp takes
    have verdict := test.holds_respelled asks sign sign' written cursor
    rw [read, read] at ok
    rw [read, read]
    dsimp only at ok ⊢
    rw [read] at ok ⊢
    rw [verdict]
    split at ok
    · rename_i holds
      rw [if_pos holds]
      cases ok
      exact ⟨_, _, rfl, m + i, j, Nat.add_assoc .., written, next⟩
    · cases ok
  · cases takes

/-- The value that is copied from a name does not differ. -/
theorem read_echoed_respelled (related : Respelling o o' k f c f' c')
    (ok : read call (.seq (.seq .take qualifiedName) .echo) f c = .ok (g, d)) :
    ∃ g' d', read call' (.seq (.seq .take qualifiedName) .echo) f' c' = .ok (g', d') ∧
      Respelling o o' k g d g' d' := by
  obtain ⟨m, n, rfl, frame, cursor⟩ := related
  obtain ⟨i, j, rfl, lexeme, next⟩ := cursor.advance
  rw [read, read, read] at ok ⊢
  dsimp only at ok ⊢
  rw [qualifiedName, read] at ok ⊢
  split at ok <;> rename_i one <;> cases ok
  split at one <;> rename_i found <;> cases one
  obtain ⟨text, d', reads, rfl, cursor⟩ :=
    read_dottedName_respelled call' next found (.opened (some .qualifiedName) c'.advance)
  rw [reads]
  have spelled : Text.Respelled o o' 0 ("" ++ text) ("" ++ text) := .same _
  have last (span span' : Span) : Node.Respelled o o' 0
      ⟨.qualifiedName, span, some ("" ++ text), []⟩
      ⟨.qualifiedName, span', some ("" ++ text), []⟩ :=
    .node (m := 0) (n := 0) (.some spelled) .nil
  exact ⟨_, _, rfl, m, i + j, rfl, (frame.push (last _ _)).write ("" ++ text),
    cursor.mono (Nat.le_add_left j i)⟩

theorem read_respelled (sign : IsSign o) (sign' : IsSign o')
    (calls : CallsRespelled o o' call call') (a : Grammar) {known : Bool}
    (steady : steady known a = true)
    (other : known = true → ∀ text, c.current.lexeme ≠ .operator text)
    (related : Respelling o o' k f c f' c') (ok : read call a f c = .ok (g, d)) :
    ∃ g' d', read call' a f' c' = .ok (g', d') ∧ Respelling o o' k g d g' d' := by
  induction a generalizing known f f' c c' g d k with
  | nothing =>
      cases ok
      exact ⟨f', c', rfl, related⟩
  | fail expected => cases ok
  | take =>
      cases ok
      obtain ⟨m, n, rfl, frame, cursor⟩ := related
      obtain ⟨i, j, rfl, -, next⟩ := cursor.advance
      exact ⟨f', _, rfl, m, i + j, rfl, frame, next.mono (Nat.le_add_left j i)⟩
  | copy spelling =>
      cases ok
      obtain ⟨m, n, rfl, frame, cursor⟩ := related
      have same := cursor.current.eq_of_other (other steady)
      refine ⟨_, c', rfl, m, n, rfl, ?_, cursor⟩
      rw [same]
      exact frame.write _
  | write text =>
      cases ok
      obtain ⟨m, n, rfl, frame, cursor⟩ := related
      exact ⟨_, c', rfl, m, n, rfl, frame.write text, cursor⟩
  | gap =>
      cases ok
      obtain ⟨m, n, rfl, frame, cursor⟩ := related
      exact ⟨_, c', rfl, m, n, rfl, frame.gap, cursor⟩
  | phrase phrases =>
      obtain ⟨m, n, rfl, frame, cursor⟩ := related
      obtain ⟨words, next⟩ := cursor.phrase phrases [] cursor.tokens.length
      rw [read] at ok ⊢
      cases one : c.phrase phrases [] c.tokens with
      | mk spoken b =>
          cases two : c'.phrase phrases [] c'.tokens with
          | mk spoken' b' =>
              rw [one, two] at words next
              rw [one] at ok
              dsimp only at words next
              subst words
              cases spoken' with
              | nil =>
                  cases ok
                  exact ⟨f', b', rfl, m, n, rfl, frame, next⟩
              | cons word others =>
                  cases ok
                  exact ⟨_, b', rfl, m, n, rfl, frame.gap.write _, next⟩
  | seq a b first second =>
      rw [Grammar.steady, Bool.or_eq_true, Bool.or_eq_true] at steady
      rcases steady with (copied | echoed) | steady
      · obtain ⟨copies, takes⟩ := Bool.and_eq_true_iff.mp copied
        cases a <;> cases copies
        exact read_copied_respelled sign sign' takes _ related ok
      · obtain ⟨left, right⟩ := Bool.and_eq_true_iff.mp echoed
        obtain rfl := beq_iff_eq.mp left
        obtain rfl := beq_iff_eq.mp right
        exact read_echoed_respelled related ok
      · obtain ⟨left, right⟩ := Bool.and_eq_true_iff.mp steady
        rw [read] at ok
        split at ok
        · rename_i h b found
          obtain ⟨h', b', read', related⟩ := first left other related found
          rw [read, read']
          refine second right (fun both => ?_) related ok
          obtain ⟨known, idles⟩ := Bool.and_eq_true_iff.mp both
          cases a <;> cases idles <;> cases found <;> exact other known
        · cases ok
  | branch test a b first second =>
      obtain ⟨m, n, rfl, frame, cursor⟩ := related
      rw [Grammar.steady, Bool.and_eq_true, Bool.and_eq_true] at steady
      obtain ⟨⟨asks, left⟩, right⟩ := steady
      rw [read] at ok
      rw [read, test.holds_respelled asks sign sign' frame cursor]
      split at ok
      · rename_i holds
        rw [if_pos holds]
        refine first left (fun known => ?_) ⟨m, n, rfl, frame, cursor⟩ ok
        exact (Bool.or_eq_true_iff.mp known).elim other (Test.excludes_sound _ · holds)
      · rename_i fails
        rw [if_neg fails]
        exact second right other ⟨m, n, rfl, frame, cursor⟩ ok
  | loop test a ih =>
      obtain ⟨asks, body⟩ := Bool.and_eq_true_iff.mp steady
      have tokens : c.tokens.length = c'.tokens.length := by
        obtain ⟨m, n, rfl, frame, cursor⟩ := related
        exact cursor.tokens.length
      refine repeatWhile_related ?_ ?_ tokens related ok
      · rintro f c f' c' ⟨m, n, rfl, frame, cursor⟩
        exact test.holds_respelled asks sign sign' frame cursor
      · intro f c f' c' g d related holds ok
        exact ih body (Test.excludes_sound _ · holds) related ok
  | node kind a ih =>
      obtain ⟨m, n, rfl, frame, cursor⟩ := related
      rw [read] at ok
      split at ok <;> rename_i found <;> cases ok
      obtain ⟨h', d', read', i, j, rfl, inner, cursor⟩ :=
        ih steady other ⟨0, n, Nat.zero_add n, .opened (some kind) c c', cursor⟩ found
      exact ⟨_, d', by rw [read, read'], m + i, j, Nat.add_assoc .., frame.close inner _ _, cursor⟩
  | wrap kind a ih =>
      obtain ⟨m, n, rfl, frame, cursor⟩ := related
      obtain ⟨p, q, rfl, within, outside⟩ := frame.wrapLast kind c c'
      rw [read] at ok
      split at ok <;> rename_i found <;> cases ok
      obtain ⟨h', d', read', i, j, sum, inner, cursor⟩ :=
        ih steady other ⟨p, n, rfl, within, cursor⟩ found
      exact ⟨_, d', by rw [read, read'], q + i, j, by omega, outside.close inner _ _, cursor⟩
  | become kind =>
      cases ok
      obtain ⟨m, n, rfl, frame, cursor⟩ := related
      exact ⟨_, c', rfl, m, n, rfl, frame.become (some kind), cursor⟩
  | dissolve =>
      cases ok
      obtain ⟨m, n, rfl, frame, cursor⟩ := related
      exact ⟨_, c', rfl, m, n, rfl, frame.become none, cursor⟩
  | splice =>
      cases ok
      obtain ⟨m, n, rfl, frame, cursor⟩ := related
      exact ⟨_, c', rfl, m, n, rfl, frame.splice, cursor⟩
  | echo => cases steady
  | discard a ih =>
      obtain ⟨m, n, rfl, frame, cursor⟩ := related
      rw [read] at ok
      split at ok <;> rename_i found <;> cases ok
      obtain ⟨h', d', read', i, j, rfl, -, cursor⟩ :=
        ih steady other ⟨0, n, Nat.zero_add n, .opened none c c', cursor⟩ found
      exact ⟨f', d', by rw [read, read'], m, i + j, rfl, frame, cursor.mono (Nat.le_add_left j i)⟩
  | deeper a ih =>
      obtain ⟨m, n, rfl, frame, cursor⟩ := related
      rw [read] at ok
      rw [read, cursor.depth]
      dsimp only at ok ⊢
      split at ok
      · cases ok
      · rename_i shallow
        rw [if_neg shallow]
        split at ok <;> rename_i found <;> cases ok
        have inside : Respelling o o' (m + n) f { c with depth := c.depth + 1 } f'
            { c' with depth := c.depth + 1 } := ⟨m, n, rfl, frame, cursor.turn _⟩
        obtain ⟨g', d', read', i, j, sum, frame, cursor'⟩ := ih (c := { c with depth := c.depth + 1 }) steady other inside found
        refine ⟨g', _, by rw [read'], i, j, sum, frame, ?_⟩
        rw [cursor'.depth]
        exact cursor'.turn _
  | call name => exact calls name f f' c c' k g d related ok

/-- Rules that are steady read alike, nested equally deep. -/
theorem callRule_respelled (sign : IsSign o) (sign' : IsSign o') {left left' : List Token}
    (same : left.length = left'.length) :
    CallsRespelled o o' (callRule rules left) (callRule rules left') := by
  induction left generalizing left' with
  | nil => exact fun name f f' c c' k g d related ok => by cases ok
  | cons token left ih =>
      obtain ⟨token', left', rfl⟩ := List.exists_cons_of_length_eq_add_one same.symm
      intro name f f' c c' k g d related ok
      exact read_respelled sign sign' (ih (by simpa using same)) (rules name) (steady_rules name)
        nofun related ok

end Grammar

end SqlAudit
