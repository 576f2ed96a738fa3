import SqlAudit.Proofs.Grammar.Nesting
import SqlAudit.Proofs.Grammar.Soundness
import SqlAudit.Proofs.Grammar.Spelled
import SqlAudit.Proofs.Token.Recasing
import SqlAudit.Proofs.Tree.Values
/-!
Two readings of tokens that differ in the spelling of names. By a grammar that heeds their case they
take the same steps and build the same nodes, but for the values with a mark, which are the same up
to the case of letters.
-/
namespace SqlAudit

namespace Lexeme.Recased

variable {a b : Lexeme}

theorem capitals? (recased : a.Recased b) : b.capitals? = a.capitals? := by
  cases recased with
  | same => rfl
  | word same => rw [Lexeme.capitals?, Lexeme.capitals?, same]

theorem holds (recased : a.Recased b) (tokens : TokenClass) : tokens.holds b = tokens.holds a := by
  cases recased with
  | same => rfl
  | word same => cases tokens <;> simp [TokenClass.holds, Lexeme.infixPower?, same]

/-- Where names are taken in one case, it does not matter in which they are written. -/
theorem spelling_eq (recased : a.Recased b) {spelling : Spelling} (folds : spelling.folds = true) :
    spelling.of b = spelling.of a := by
  cases recased with
  | same => rfl
  | word same =>
      cases spelling with
      | capitals => rw [Spelling.of, Spelling.of, Lexeme.capitals?, Lexeme.capitals?, same]; rfl
      | lowered => rw [Spelling.of, Spelling.of, Text.lowercase_eq same]
      | text | described => cases folds

theorem capitals_spelling (recased : a.Recased b) (spelling : Spelling) :
    Text.capitals (spelling.of b) = Text.capitals (spelling.of a) := by
  cases recased with
  | same => rfl
  | @word first second same =>
      cases spelling with
      | text | described => exact same.symm
      | capitals | lowered => rw [Recased.spelling_eq (.word same) rfl]

theorem eq_of_silent (recased : a.Recased b) (silent : ∀ text, a ≠ .word text) : b = a := by
  cases recased with
  | same => rfl
  | word same => exact absurd rfl (silent _)

end Lexeme.Recased

/-- Cursors at the same place of tokens that differ in the spelling of names. -/
structure Cursor.Recased (c d : Cursor) : Prop where
  previous : d.previous = c.previous
  current : c.current.Recased d.current
  rest : List.Forall₂ Token.Recased c.rest d.rest
  depth : d.depth = c.depth

namespace Cursor.Recased

variable {c d : Cursor}

theorem tokens (recased : c.Recased d) : List.Forall₂ Token.Recased c.tokens d.tokens :=
  .cons recased.current recased.rest

theorem length (recased : c.Recased d) : c.tokens.length = d.tokens.length :=
  recased.tokens.length_eq

theorem peek (recased : c.Recased d) : c.peek.Recased d.peek := by
  have rest := recased.rest
  rw [Cursor.peek, Cursor.peek]
  generalize c.rest = tokens, d.rest = tokens' at rest
  cases rest with
  | nil => exact recased.current
  | cons here others => exact here

theorem advance (recased : c.Recased d) : c.advance.Recased d.advance := by
  refine ⟨?_, ?_, ?_, ?_⟩
  · rw [Cursor.advance_previous, Cursor.advance_previous, recased.current.span]
  · rw [Cursor.advance_current, Cursor.advance_current]
    exact recased.peek
  · have rest := recased.rest
    rw [Cursor.advance_rest, Cursor.advance_rest]
    generalize c.rest = tokens, d.rest = tokens' at rest
    cases rest with
    | nil => exact .nil
    | cons here others => exact others
  · rw [Cursor.advance_depth, Cursor.advance_depth, recased.depth]

theorem turn (recased : c.Recased d) (depth : Nat) :
    Cursor.Recased { c with depth := depth } { d with depth := depth } :=
  ⟨recased.previous, recased.current, recased.rest, rfl⟩

theorem phrase (recased : c.Recased d) (phrases : Phrases) (matched : List String)
    {left left' : List Token} (same : left.length = left'.length) :
    (d.phrase phrases matched left').1 = (c.phrase phrases matched left).1 ∧
      (c.phrase phrases matched left).2.Recased (d.phrase phrases matched left').2 := by
  induction left generalizing matched left' c d with
  | nil =>
      obtain rfl := List.length_eq_zero_iff.mp same.symm
      exact ⟨rfl, recased⟩
  | cons token left ih =>
      obtain ⟨token', left', rfl⟩ := List.exists_cons_of_length_eq_add_one same.symm
      rw [Cursor.phrase, Cursor.phrase, recased.current.lexeme.capitals?]
      split
      · split
        · exact ih recased.advance _ (by simpa using same)
        · exact ⟨rfl, recased⟩
      · exact ⟨rfl, recased⟩

end Cursor.Recased

theorem Lexer.splitAt_isSome (mark front back : List Char) :
    (splitAt mark (front ++ (mark ++ back))).isSome := by
  induction front with
  | nil =>
      rw [List.nil_append]
      cases whole : mark ++ back with
      | nil =>
          obtain ⟨rfl, rfl⟩ := List.append_eq_nil_iff.mp whole
          rfl
      | cons c rest =>
          have begins : mark <+: c :: rest := ⟨back, whole⟩
          rw [splitAt, if_pos (List.isPrefixOf_iff_prefix.mpr begins)]
          rfl
  | cons c front ih =>
      rw [List.cons_append, splitAt]
      split
      · rfl
      · rwa [Option.isSome_map]

/-- The text with capitals behind the mark, if it has the mark. -/
def foldText (mark text : String) : String :=
  match Lexer.splitAt mark.toList text.toList with
  | some (before, after) => String.ofList (before ++ mark.toList ++ Text.raised after)
  | none => text

def foldValue (mark : Option String) (value : Option String) : Option String :=
  match mark with
  | some own => value.map (foldText own)
  | none => value

section fold

variable {own a b x y : String} {mark value value' : Option String}

/-- Folding moves no mark, so texts that are folded to the same one differ behind it only. -/
theorem foldText_eq_iff : foldText own b = foldText own a ↔
    b = a ∨ ∃ before after after', Lexer.splitAt own.toList a.toList = some (before, after) ∧
      Lexer.splitAt own.toList b.toList = some (before, after') ∧
      Text.raised after' = Text.raised after := by
  have marked {text : String} {before after : List Char}
      (split : Lexer.splitAt own.toList text.toList = some (before, after)) :
      Lexer.splitAt own.toList (foldText own text).toList = some (before, Text.raised after) := by
    rw [foldText, split, String.toList_ofList]
    exact Lexer.splitAt_steady split
  have unmarked {text : String} (none : Lexer.splitAt own.toList text.toList = none) :
      foldText own text = text := by
    rw [foldText, none]
  constructor
  · intro same
    cases left : Lexer.splitAt own.toList a.toList with
    | none =>
        cases right : Lexer.splitAt own.toList b.toList with
        | none =>
            rw [unmarked left, unmarked right] at same
            exact .inl same
        | some split =>
            have found := marked right
            rw [same, unmarked left, left] at found
            cases found
    | some split =>
        obtain ⟨before, after⟩ := split
        cases right : Lexer.splitAt own.toList b.toList with
        | none =>
            have found := marked left
            rw [← same, unmarked right, right] at found
            cases found
        | some split' =>
            obtain ⟨before', after'⟩ := split'
            have found := marked right
            rw [same, marked left] at found
            obtain ⟨rfl, raised⟩ := Prod.mk.inj (Option.some.inj found)
            exact .inr ⟨before, after, after', rfl, rfl, raised.symm⟩
  · rintro (rfl | ⟨before, after, after', left, right, raised⟩)
    · rfl
    · rw [foldText, foldText, left, right]
      dsimp only
      rw [raised]

/-- What is written behind texts alike is the same, or has the mark in front of it. -/
theorem foldText_append (alike : foldText own b = foldText own a)
    (more : y = x ∨ ((Lexer.splitAt own.toList a.toList).isSome ∧
      Text.capitals y = Text.capitals x)) :
    foldText own (b ++ y) = foldText own (a ++ x) := by
  have raise (same : Text.capitals y = Text.capitals x) :
      Text.raised y.toList = Text.raised x.toList := by
    rw [← Text.toList_capitals, ← Text.toList_capitals, same]
  rw [foldText_eq_iff] at alike ⊢
  rw [String.toList_append, String.toList_append]
  rcases alike with rfl | ⟨before, after, after', left, right, same⟩
  · rcases more with rfl | ⟨marked, raised⟩
    · exact .inl rfl
    · obtain ⟨⟨before, after⟩, split⟩ := Option.isSome_iff_exists.mp marked
      refine .inr ⟨before, _, _, Lexer.splitAt_append _ split, Lexer.splitAt_append _ split, ?_⟩
      rw [Lexer.raised_append, Lexer.raised_append, raise raised]
  · refine .inr ⟨before, _, _, Lexer.splitAt_append _ left, Lexer.splitAt_append _ right, ?_⟩
    have raised : Text.capitals y = Text.capitals x := more.elim (congrArg _) (·.2)
    rw [Lexer.raised_append, Lexer.raised_append, same, raise raised]

theorem foldValue_some (same : foldValue (some own) value' = foldValue (some own) value) :
    (value = none ∧ value' = none) ∨
      ∃ a b, value = some a ∧ value' = some b ∧ foldText own b = foldText own a := by
  rw [foldValue, foldValue] at same
  cases value <;> cases value' <;> simp_all

theorem foldValue_or {more more' : Option String}
    (first : foldValue mark value' = foldValue mark value)
    (second : foldValue mark more' = foldValue mark more) :
    foldValue mark (value'.or more') = foldValue mark (value.or more) := by
  cases mark with
  | none => exact congrArg₂ Option.or first second
  | some own =>
      rcases foldValue_some first with ⟨rfl, rfl⟩ | ⟨a, b, rfl, rfl, same⟩
      · exact second
      · exact first

end fold

/-- The tree with the names behind marks as capitals. -/
def Node.folded (node : Node) : Node := node.revalue fun kind => foldValue kind.mark?

theorem Node.folded_eq (node : Node) : node.folded =
    ⟨node.kind, node.span, foldValue node.kind.mark? node.value, node.children.map folded⟩ :=
  node.revalue_eq

/-- The mark of the node that is being read. -/
def Frame.mark? (f : Frame) : Option String := f.kind.bind NodeKind.mark?

/-- Frames that differ in the spelling of names behind marks. -/
structure Frame.Alike (f g : Frame) : Prop where
  kind : g.kind = f.kind
  start : g.start = f.start
  value : foldValue f.mark? g.value = foldValue f.mark? f.value
  parts : g.parts.map Node.folded = f.parts.map Node.folded

namespace Frame.Alike

variable {f g f' g' : Frame} {c d : Cursor} {x y : String}

theorem opened (kind : Option NodeKind) (cursor : c.Recased d) :
    (Frame.opened kind c).Alike (Frame.opened kind d) :=
  ⟨rfl, congrArg Span.start cursor.current.span.symm, rfl, rfl⟩

theorem value_eq (alike : f.Alike g) (plain : f.mark? = none) : g.value = f.value := by
  have value := alike.value
  rwa [plain] at value

/-- What is written is the same, or stands behind the mark. -/
theorem write (alike : f.Alike g) (more : y = x ∨ (Text.capitals y = Text.capitals x ∧
      ∃ own text, f.mark? = some own ∧ f.value = some text ∧
        (Lexer.splitAt own.toList text.toList).isSome)) :
    (f.write x).Alike (g.write y) := by
  refine ⟨alike.kind, alike.start, ?_, alike.parts⟩
  have value := alike.value
  show foldValue f.mark? (some (g.value.getD "" ++ y)) =
    foldValue f.mark? (some (f.value.getD "" ++ x))
  cases kind : f.mark? with
  | none =>
      rw [kind] at value
      rcases more with rfl | ⟨-, own, text, marked, -⟩
      · exact congrArg (fun value => some (value.getD "" ++ y)) value
      · rw [kind] at marked
        cases marked
  | some own =>
      have start : foldText own (g.value.getD "") = foldText own (f.value.getD "") := by
        rw [kind] at value
        rcases foldValue_some value with ⟨left, right⟩ | ⟨a, b, left, right, same⟩
        · rw [left, right]
        · rw [left, right]
          exact same
      refine congrArg Option.some (foldText_append start ?_)
      refine more.imp_right ?_
      rintro ⟨raised, own', text, marked, written, inside⟩
      rw [kind] at marked
      cases marked
      rw [written]
      exact ⟨inside, raised⟩

theorem gap (alike : f.Alike g) : f.gap.Alike g.gap := by
  have written := alike.write (x := " ") (.inl rfl)
  cases kind : f.mark? with
  | none =>
      refine ⟨alike.kind, alike.start, ?_, alike.parts⟩
      rw [Frame.gap, Frame.gap, alike.value_eq kind]
  | some own =>
      have value := alike.value
      rw [kind] at value
      rcases foldValue_some value with ⟨left, right⟩ | ⟨a, b, left, right, -⟩
      · refine ⟨alike.kind, alike.start, ?_, alike.parts⟩
        rw [Frame.gap, Frame.gap, left, right]
      · rw [Frame.write, Frame.write, left, right] at written
        rw [Frame.gap, Frame.gap, left, right]
        exact written

theorem push {node node' : Node} (alike : f.Alike g) (same : node'.folded = node.folded) :
    (f.push node).Alike (g.push node') := by
  refine ⟨alike.kind, alike.start, alike.value, ?_⟩
  rw [Frame.push, Frame.push, List.map_cons, List.map_cons, same, alike.parts]

/-- Nodes made of frames alike are alike, wherever they go. -/
theorem close (alike : f.Alike g) (inner : f'.Alike g') (cursor : c.Recased d) :
    (f.close f' c).Alike (g.close g' d) := by
  rw [Frame.close, Frame.close, inner.kind]
  cases kind : f'.kind with
  | none =>
      refine ⟨alike.kind, alike.start, alike.value, ?_⟩
      rw [List.map_append, List.map_append, inner.parts, alike.parts]
  | some kind' =>
      refine alike.push ?_
      have value := inner.value
      rw [Frame.mark?, kind, Option.bind_some] at value
      have parts := congrArg List.reverse inner.parts
      rw [← List.map_reverse, ← List.map_reverse] at parts
      rw [Node.folded_eq, Node.folded_eq, inner.start, cursor.previous]
      dsimp only
      rw [value, parts]

theorem wrapLast (kind : NodeKind) (alike : f.Alike g) (cursor : c.Recased d) :
    (f.wrapLast kind c).1.Alike (g.wrapLast kind d).1 ∧
      (f.wrapLast kind c).2.Alike (g.wrapLast kind d).2 := by
  have parts := alike.parts
  rw [Frame.wrapLast, Frame.wrapLast]
  cases left : f.parts with
  | nil =>
      rw [left, List.map_nil, List.map_eq_nil_iff] at parts
      rw [parts]
      exact ⟨opened kind cursor, alike⟩
  | cons node others =>
      rw [left] at parts
      obtain ⟨node', others', right, same, rest⟩ := List.map_eq_cons_iff.mp parts
      rw [right]
      have span : node'.span = node.span := by
        have spans := congrArg Node.span same
        rwa [Node.folded_eq, Node.folded_eq] at spans
      refine ⟨⟨rfl, congrArg Span.start span, rfl, ?_⟩, alike.kind, alike.start, alike.value, rest⟩
      rw [List.map_singleton, List.map_singleton, same]

/-- The last node gives up a value that has no mark, or the same mark. -/
theorem splice (alike : f.Alike g)
    (last : ∀ node ∈ f.parts.head?, node.kind.mark? = none ∨ node.kind.mark? = f.mark?) :
    f.splice.Alike g.splice := by
  have parts := alike.parts
  rw [Frame.splice, Frame.splice]
  cases left : f.parts with
  | nil =>
      rw [left, List.map_nil, List.map_eq_nil_iff] at parts
      rw [parts]
      exact alike
  | cons node others =>
      rw [left] at parts last
      obtain ⟨node', others', right, same, rest⟩ := List.map_eq_cons_iff.mp parts
      rw [right]
      rw [Node.folded_eq, Node.folded_eq] at same
      obtain ⟨kind, -, value, children⟩ := Node.mk.inj same
      refine ⟨alike.kind, alike.start, ?_, ?_⟩
      · show foldValue f.mark? (node'.value.or g.value) = foldValue f.mark? (node.value.or f.value)
        have value' : foldValue f.mark? node'.value = foldValue f.mark? node.value := by
          rw [kind] at value
          rcases last node rfl with plain | marked
          · rw [plain] at value
            exact congrArg _ value
          · rwa [marked] at value
        exact foldValue_or value' alike.value
      · rw [List.map_append, List.map_append, List.map_reverse, List.map_reverse, children, rest]

theorem echo (alike : f.Alike g) (last : ∀ node ∈ f.parts.head?, node.kind.mark? = none) :
    f.echo.Alike g.echo := by
  have parts := alike.parts
  rw [Frame.echo, Frame.echo]
  cases left : f.parts with
  | nil =>
      rw [left, List.map_nil, List.map_eq_nil_iff] at parts
      rw [parts]
      exact alike
  | cons node others =>
      rw [left] at parts last
      obtain ⟨node', others', right, same, rest⟩ := List.map_eq_cons_iff.mp parts
      rw [right]
      rw [Node.folded_eq, Node.folded_eq] at same
      obtain ⟨kind, -, value, children⟩ := Node.mk.inj same
      rw [kind, last node rfl] at value
      exact alike.write (.inl (congrArg (·.getD "") value))

/-- A node without a mark turns out to be of another kind, or none. -/
theorem become (alike : f.Alike g) (plain : f.mark? = none) (kind : Option NodeKind) :
    Frame.Alike { f with kind := kind } { g with kind := kind } := by
  refine ⟨rfl, alike.start, ?_, alike.parts⟩
  rw [alike.value_eq plain]

end Frame.Alike

section tests

variable {f g : Frame} {c d : Cursor}

/-- Tests come out alike, if they do not ask for a value that depends on spelling. -/
theorem Test.holds_alike (test : Test) (alike : f.Alike g) (cursor : c.Recased d)
    (value : test.asksValue = true → f.mark? = none) : test.holds g d = test.holds f c := by
  induction test with
  | here tokens => exact cursor.current.lexeme.holds tokens
  | next tokens => exact cursor.peek.lexeme.holds tokens
  | phrase phrases => rw [holds, holds, cursor.current.lexeme.capitals?]
  | valueIn values => rw [holds, holds, alike.value_eq (value rfl)]
  | lastIs kind =>
      have parts := alike.parts
      rw [holds, holds]
      cases left : f.parts with
      | nil =>
          rw [left, List.map_nil, List.map_eq_nil_iff] at parts
          rw [parts]
      | cons node others =>
          rw [left] at parts
          obtain ⟨node', others', right, same, -⟩ := List.map_eq_cons_iff.mp parts
          have kinds := congrArg Node.kind same
          rw [Node.folded_eq, Node.folded_eq] at kinds
          rw [right]
          exact congrArg (fun k => decide (k = kind)) kinds
  | both a b first second =>
      rw [holds, holds, first fun asks => value (Bool.or_eq_true_iff.mpr (.inl asks)),
        second fun asks => value (Bool.or_eq_true_iff.mpr (.inr asks))]
  | either a b first second =>
      rw [holds, holds, first fun asks => value (Bool.or_eq_true_iff.mpr (.inl asks)),
        second fun asks => value (Bool.or_eq_true_iff.mpr (.inr asks))]
  | neither a ih => rw [holds, holds, ih value]

theorem TokenClass.names?_sound {tokens : TokenClass} {verdict : Bool} {names : List String}
    {name : String} (listed : tokens.names? verdict = some names)
    (may : tokens.may (.word name) verdict = true) : name ∈ names := by
  cases tokens <;> cases verdict <;>
    simp_all [names?, TokenClass.may, holds, Lexeme.infixPower?]

/-- A name with which the test can come out so is among those listed. -/
theorem Test.names?_sound {test : Test} {guess current next : Option Lexeme}
    {ahead verdict : Bool} {names : List String} {name : String}
    (listed : test.names? ahead guess verdict = some names) (known : ahead = true → guess = current)
    (may : test.may current next verdict = true)
    (here : (if ahead then next else current) = some (.word name)) : name ∈ names := by
  induction test generalizing verdict names with
  | here tokens =>
      rw [names?] at listed
      cases ahead with
      | true =>
          have possible := Test.may_weaken (.inl rfl) (.inr rfl) may
          rw [known rfl, if_pos rfl, possible] at listed
          cases listed
      | false =>
          rw [if_neg Bool.false_ne_true] at here listed
          rw [here] at may
          exact TokenClass.names?_sound listed may
  | next tokens =>
      rw [names?] at listed
      cases ahead with
      | true =>
          rw [if_pos rfl] at here listed
          rw [here] at may
          exact TokenClass.names?_sound listed may
      | false => cases listed
  | both a b first second =>
      cases verdict
      · apply mem_of_bind listed
        intro l left r right
        simp only [Test.may, Bool.or_eq_true] at may
        exact may.imp (first left) (second right)
      · simp only [Test.may, Bool.and_eq_true] at may
        exact mem_of_or listed (fun l left => first left may.1) fun r right => second right may.2
  | either a b first second =>
      cases verdict
      · simp only [Test.may, Bool.and_eq_true] at may
        exact mem_of_or listed (fun l left => first left may.1) fun r right => second right may.2
      · apply mem_of_bind listed
        intro l left r right
        simp only [Test.may, Bool.or_eq_true] at may
        exact may.imp (first left) (second right)
  | neither a ih => exact ih listed may
  | _ => cases verdict <;> cases listed

end tests

end SqlAudit
