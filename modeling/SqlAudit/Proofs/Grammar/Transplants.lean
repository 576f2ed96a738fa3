import SqlAudit.Proofs.Grammar.Endings
import SqlAudit.Proofs.Grammar.Twins
/-!
A text read in another place. Two cursors stand beside one another in texts that agree, up to the
places of their tokens, as far as their endings, and the second may be nested deeper. What a grammar
that abides by the endings derives from the first one within the text is read from the second one as
well, unless it is nested too deep there.
-/
namespace SqlAudit

/-- The second cursor sees what the first one sees, up to their endings, so many levels deeper. -/
structure Beside (place : Nat → Nat) (levels : Nat) (after after' : List Token) (c d : Cursor) :
    Prop where
  tokens : ∃ front, c.tokens = front ++ after ∧ d.tokens = front.map (·.relocate place) ++ after'
  abreast : c.Abreast place d
  depth : d.depth = c.depth + levels

/-- The tokens begin with those that stand behind a text. -/
structure Behind.Begins (e : Behind) (tokens : List Token) : Prop where
  here : tokens.head?.map (·.lexeme.outline) = some e.here
  next : ((tokens.tail.head?.or tokens.head?).map (·.lexeme.outline)) = some e.next

/-- The tokens behind a text in both places; in the first one there are two at least. -/
structure Endings (e e' : Behind) (after after' : List Token) : Prop where
  begins : e.Begins after
  begins' : e'.Begins after'
  more : 2 ≤ after.length

/-- The result of a reading, in the place of the second cursor, or that it is nested too deep
there. -/
def Carried (place : Nat → Nat) (levels : Nat) (after after' : List Token) (g : Frame) (d : Cursor)
    (reading : Reading) : Prop :=
  (∃ d', reading = .ok (g.relocate place, d') ∧ Beside place levels after after' d d') ∨
    (0 < levels ∧ ∃ error b, reading = .error (error, b) ∧ error.cause = .tooDeep)

variable {e e' : Behind} {place : Nat → Nat} {levels : Nat} {after after' : List Token}
  {c d : Cursor} {f g : Frame}

namespace Behind.Begins

/-- A cursor with these tokens sees what stands behind the text. -/
theorem atEnd (begins : e.Begins c.tokens) : e.atEnd.Of c := by
  have here : c.current.lexeme.outline = e.here := Option.some.inj begins.here
  have next := begins.next
  refine ⟨.inl (congrArg some here.symm), ?_⟩
  rw [Cursor.tokens, List.tail_cons, List.head?_cons] at next
  rw [Cursor.peek]
  cases rest : c.rest with
  | nil =>
      rw [rest] at next
      exact (Option.some.inj next).symm
  | cons token tokens =>
      rw [rest] at next
      exact (Option.some.inj next).symm

/-- So does one with a token in front of them, but one token before. -/
theorem before (begins : e.Begins c.rest) : e.before.Of c := by
  have here := begins.here
  refine ⟨.inr rfl, ?_⟩
  rw [Cursor.peek]
  cases rest : c.rest with
  | nil =>
      rw [rest] at here
      cases here
  | cons token tokens =>
      rw [rest] at here
      exact (Option.some.inj here).symm

end Behind.Begins

namespace Endings

variable (endings : Endings e e' after after')

include endings

theorem ne_nil : after ≠ [] := by
  have more := endings.more
  rintro rfl
  cases more

theorem ne_nil' : after' ≠ [] := by
  rintro rfl
  cases endings.begins'.here

end Endings

namespace Beside

theorem turn (beside : Beside place levels after after' c d) (depth : Nat) :
    Beside place levels after after' { c with depth := depth } { d with depth := depth + levels } :=
  ⟨beside.tokens, beside.abreast, rfl⟩

/-- As much is left to the one as to the other, up to the endings. -/
theorem lengths (beside : Beside place levels after after' c d) :
    d.tokens.length + after.length = c.tokens.length + after'.length := by
  obtain ⟨front, here, there⟩ := beside.tokens
  rw [here, there]
  simp only [List.length_append, List.length_map]
  omega

/-- Within the text the cursors are twins, but for the depth. -/
theorem twin (beside : Beside place levels after after' c d)
    (inside : after.length < c.tokens.length) :
    Twin place after after' c { d with depth := c.depth } := by
  obtain ⟨front, here, there⟩ := beside.tokens
  cases front with
  | nil =>
      rw [here] at inside
      exact absurd inside (Nat.lt_irrefl _)
  | cons token front =>
      obtain ⟨current, rest⟩ := List.cons.inj here
      obtain ⟨current', rest'⟩ := List.cons.inj there
      exact ⟨by rw [current, current'], ⟨front, rest, rest'⟩, beside.abreast, rfl⟩

theorem advance (beside : Beside place levels after after' c d) (some : after ≠ [])
    (some' : after' ≠ []) (inside : after.length < c.tokens.length) :
    Beside place levels after after' c.advance d.advance := by
  have twin := beside.twin inside
  obtain ⟨front, rest, rest'⟩ := twin.ahead
  have more : c.rest ≠ [] := by simp [rest, some]
  have more' : d.rest ≠ [] := fun none => by simp [none, some'] at rest'
  refine ⟨⟨front, ?_, ?_⟩, .inl ?_, ?_⟩
  · rw [← rest]
    exact (List.cons.inj (Cursor.tokens_advance more)).2.symm
  · rw [← rest']
    exact (List.cons.inj (Cursor.tokens_advance more')).2.symm
  · rw [Cursor.advance_previous, Cursor.advance_previous]
    exact congrArg Token.span twin.current
  · rw [Cursor.advance_depth, Cursor.advance_depth, beside.depth]

theorem opened (beside : Beside place levels after after' c d)
    (inside : after.length < c.tokens.length) (kind : Option NodeKind) :
    (Frame.opened kind c).relocate place = .opened kind d := by
  have same := Frame.relocate_opened kind (beside.twin inside)
  exact same

theorem wrapLast (beside : Beside place levels after after' c d)
    (inside : after.length < c.tokens.length) (kind : NodeKind) :
    (f.relocate place).wrapLast kind d =
      ((f.wrapLast kind c).1.relocate place, (f.wrapLast kind c).2.relocate place) := by
  have same := Frame.relocate_wrapLast (f := f) kind (beside.twin inside)
  exact same

/-- Where the cursors have come to the end of the text, they stand at what is behind it. -/
theorem ended (beside : Beside place levels after after' c d)
    (ends : c.tokens.length = after.length) : c.tokens = after ∧ d.tokens = after' := by
  obtain ⟨front, here, there⟩ := beside.tokens
  have none : front = [] := by
    have lengths := congrArg List.length here
    rw [List.length_append] at lengths
    exact List.length_eq_zero_iff.mp (by omega)
  subst none
  exact ⟨here, there⟩

/-- A test comes out the same at both cursors, unless it can tell what stands behind the text and
has come there. -/
theorem holds (beside : Beside place levels after after' c d) (endings : Endings e e' after after')
    (test : Test) : test.holds (f.relocate place) d = test.holds f c ∨
      (c.tokens.length = after.length ∧
        test.differs e.atEnd e'.atEnd (test.holds f c) = true) ∨
      (c.tokens.length = after.length + 1 ∧
        test.differs e.before e'.before (test.holds f c) = true) := by
  have unseen : Test.Unseen f (f.relocate place) := by
    refine ⟨rfl, ?_⟩
    cases parts : f.parts <;> simp [Frame.relocate, parts]
  by_cases same : test.holds (f.relocate place) d = test.holds f c
  · exact .inl same
  · have other : test.holds (f.relocate place) d = !test.holds f c := by
      cases left : test.holds f c <;> cases right : test.holds (f.relocate place) d <;> simp_all
    obtain ⟨front, here, there⟩ := beside.tokens
    rcases front with - | ⟨token, - | ⟨next, front⟩⟩
    · refine .inr (.inl ⟨by rw [here]; rfl, ?_⟩)
      have sees := Behind.Begins.atEnd (e := e) (c := c) (here ▸ endings.begins)
      have sees' := Behind.Begins.atEnd (e := e') (c := d) (there ▸ endings.begins')
      exact Test.differs_of_holds sees sees' (absurd · Bool.noConfusion) unseen rfl other
    · obtain ⟨current, rest⟩ := List.cons.inj here
      obtain ⟨current', rest'⟩ := List.cons.inj there
      refine .inr (.inr ⟨by rw [here]; rfl, ?_⟩)
      have sees := Behind.Begins.before (e := e) (c := c) (rest ▸ endings.begins)
      have sees' := Behind.Begins.before (e := e') (c := d) (rest' ▸ endings.begins')
      exact Test.differs_of_holds sees sees' (fun _ => by rw [current, current']; rfl) unseen rfl
        other
    · obtain ⟨current, rest⟩ := List.cons.inj here
      obtain ⟨current', rest'⟩ := List.cons.inj there
      refine absurd (Test.holds_relocate ?_ fun _ => ?_) same
      · rw [current, current']
        rfl
      · rw [Cursor.peek, Cursor.peek, rest, rest']
        rfl

/-- Where a grammar that settles the test goes on as it must, the test holds in both places. -/
theorem decides_yes (beside : Beside place levels after after' c d)
    (endings : Endings e e' after after') {test : Test} {yes no : Nat}
    (settles : Grammar.settles e e' test yes no = true) (holds : test.holds f c = true)
    (taken : after.length + yes ≤ c.tokens.length) : test.holds (f.relocate place) d = true := by
  simp only [Grammar.settles, Bool.and_eq_true, Bool.or_eq_true, Bool.not_eq_true',
    decide_eq_true_eq] at settles
  obtain ⟨⟨atEnd, before⟩, -⟩ := settles
  rcases beside.holds (f := f) endings test with same | ⟨ends, differs⟩ | ⟨ends, differs⟩
  · rw [same, holds]
  · rw [holds] at differs
    have must := atEnd.resolve_left (by simp [differs])
    omega
  · rw [holds] at differs
    have must := before.resolve_left (by simp [differs])
    omega

/-- It fails in both places, unless it misses what it would find at the end of the text. -/
theorem decides_no (beside : Beside place levels after after' c d)
    (endings : Endings e e' after after') {test : Test} {yes no : Nat}
    (settles : Grammar.settles e e' test yes no = true) (fails : test.holds f c = false)
    (taken : after.length + no ≤ c.tokens.length) : test.holds (f.relocate place) d = false ∨
      (c.tokens.length = after.length ∧ Grammar.misses e e' test = true) := by
  simp only [Grammar.settles, Bool.and_eq_true, Bool.or_eq_true, Bool.not_eq_true',
    decide_eq_true_eq] at settles
  rcases beside.holds (f := f) endings test with same | ⟨ends, differs⟩ | ⟨ends, differs⟩
  · exact .inl (same.trans fails)
  · rw [fails] at differs
    exact .inr ⟨ends, differs⟩
  · rw [fails] at differs
    have must := settles.2.resolve_left (by simp [differs])
    omega

end Beside

/-- A call of a function that goes up to this place. -/
def Node.IsCallUpTo (stop : Nat) (node : Node) : Prop :=
  node.kind = .functionCall ∧ stop ≤ node.span.stop

/-- One of the tables is such a call. -/
def Node.EndsInCall (stop : Nat) (node : Node) : Prop :=
  node.kind ∈ tableKinds ∧ ∃ child ∈ node.children, child.IsCallUpTo stop

namespace Frame

/-- The trace among the parts of a frame. -/
def Left (stop : Nat) (f : Frame) : Trace → Prop
  | .missed => True
  | .call => ∃ part ∈ f.parts, part.IsCallUpTo stop
  | .table => ∃ part ∈ f.parts, part.EndsInCall stop
  | .within => ∃ part ∈ f.parts, ∃ child ∈ part.children,
      ¬child.Every fun node => ¬node.EndsInCall stop

variable {stop : Nat} {h : Frame} {trace inner : Trace}

theorem Left.mono (left : f.Left stop trace) (more : ∀ part ∈ f.parts, part ∈ g.parts) :
    g.Left stop trace := by
  cases trace with
  | missed => trivial
  | call | table =>
      obtain ⟨part, member, calls⟩ := left
      exact ⟨part, more part member, calls⟩
  | within =>
      obtain ⟨part, member, child, below, some⟩ := left
      exact ⟨part, more part member, child, below, some⟩

/-- A node around a trace is a trace of its own. -/
theorem Left.closes {kind : NodeKind} (left : h.Left stop inner) (isNode : h.kind = some kind)
    (next : inner ∈ trace.inside) (ends : stop ≤ d.previous.stop)
    (calls : inner = .missed → kind = .functionCall) (tables : inner = .call → kind ∈ tableKinds) :
    (f.close h d).Left stop trace := by
  have last : h.closed kind d ∈ (f.close h d).parts := by
    rw [close, isNode]
    exact .head _
  have parts {part : Node} (member : part ∈ h.parts) : part ∈ (h.closed kind d).children :=
    List.mem_reverse.mpr member
  cases trace with
  | missed => trivial
  | call =>
      obtain rfl := List.mem_singleton.mp next
      exact ⟨_, last, calls rfl, ends.trans (Nat.le_max_left _ _)⟩
  | table =>
      obtain rfl := List.mem_singleton.mp next
      obtain ⟨part, member, call⟩ := left
      exact ⟨_, last, tables rfl, part, parts member, call⟩
  | within =>
      rcases List.mem_cons.mp next with rfl | next
      · obtain ⟨part, member, call⟩ := left
        exact ⟨_, last, part, parts member, fun none => none.here call⟩
      · obtain rfl := List.mem_singleton.mp next
        obtain ⟨part, member, child, below, some⟩ := left
        refine ⟨_, last, part, parts member, fun none => some ?_⟩
        exact (Node.every_iff.mp none).2 child below

/-- Parts without a node around them keep their traces. -/
theorem Left.flows (left : h.Left stop trace) (loose : h.kind = none) :
    (f.close h d).Left stop trace := by
  refine left.mono fun part member => ?_
  rw [close, loose]
  exact List.mem_append_left _ member

theorem Left.splice (left : f.Left stop .within) :
    f.splice.Left stop .within ∨ f.splice.Left stop .table := by
  obtain ⟨part, member, child, below, some⟩ := left
  cases parts : f.parts with
  | nil =>
      rw [parts] at member
      cases member
  | cons last others =>
      have spliced : f.splice.parts = last.children.reverse ++ others := by
        rw [Frame.splice, parts]
      rw [parts] at member
      rcases List.mem_cons.mp member with rfl | member
      · have inside : child ∈ f.splice.parts := by
          rw [spliced]
          exact List.mem_append_left _ (List.mem_reverse.mpr below)
        by_cases here : child.EndsInCall stop
        · exact .inr ⟨child, inside, here⟩
        · rw [Node.every_iff, not_and] at some
          exact .inl ⟨child, inside, by simpa only [not_forall, exists_prop] using some here⟩
      · refine .inl ⟨part, ?_, child, below, some⟩
        rw [spliced]
        exact List.mem_append_right _ member

end Frame

namespace Cursor

/-- A phrase that takes nothing leaves the cursor where it is. -/
theorem phrase_stays {phrases : Phrases} {matched : List String} {left : List Token}
    (more : c.rest ≠ [])
    (stays : c.tokens.length ≤ (c.phrase phrases matched left).2.tokens.length) :
    (c.phrase phrases matched left).2 = c := by
  cases left with
  | nil => rfl
  | cons token left =>
      rw [phrase] at stays ⊢
      split
      · rename_i word spelled
        split
        · rename_i goes
          have suffix := (c.advance.phrase_suffix phrases (matched ++ [word]) left).length_le
          have shorter := advance_shorter more
          rw [spelled] at stays
          simp only [goes, if_true, length_tokens] at stays suffix
          omega
        · rfl
      · rfl

end Cursor

namespace Grammar

variable {call : Nonterminal → Frame → Cursor → Reading} {a b : Grammar} {h : Frame} {stop : Nat}
  {lax : Bool} {kind : NodeKind}

theorem rules_turn (name : Nonterminal) : (rules name).turns = [] := by
  cases name <;> rfl

/-- A frame keeps its kind unless it is turned into another one. -/
theorem Derives.turns (derives : Derives rules a f c g d) : g.kind = f.kind ∨ g.kind ∈ a.turns := by
  induction derives with
  | change changes =>
      cases changes with
      | become real => exact .inr (.head _)
      | dissolve => exact .inr (.head _)
      | phrase spoken => left; split <;> rfl
      | splice => exact .inl (Frame.splice_kind _)
      | echo =>
          obtain ⟨value, echoed⟩ := Frame.echo_eq _
          exact .inl (by rw [echoed])
      | _ => exact .inl rfl
  | seq first second left right =>
      rcases right with same | turned
      · rw [same]
        exact left.imp_right (List.mem_append_left _)
      · exact .inr (List.mem_append_right _ turned)
  | yes holds taken ih => exact ih.imp_right (List.mem_append_left _)
  | no fails taken ih => exact ih.imp_right (List.mem_append_right _)
  | stop fails => exact .inl rfl
  | round holds once again left right =>
      rcases right with same | turned
      · rw [same]
        exact left
      · exact .inr turned
  | node real inner moved ih => exact .inl (Frame.close_kind ..)
  | wrap real inner moved ih =>
      left
      rw [Frame.close_kind, Frame.wrapLast]
      split <;> rfl
  | discard inner ih => exact .inl rfl
  | deeper shallow inner ih => exact ih
  | call ruled moved ih =>
      rw [rules_turn] at ih
      exact .inl (ih.resolve_right List.not_mem_nil)

/-- What takes no token keeps the parts, but for those it splices. -/
theorem Derives.idle (derives : Derives rules a f c g d) (more : c.rest ≠ [])
    (stays : c.tokens.length ≤ d.tokens.length) : d.previous = c.previous ∧
      (a.splices = 0 → g.parts = f.parts) ∧
      (a.splices ≤ 1 → f.Left stop .within →
        g.Left stop .within ∨ (a.splices ≠ 0 ∧ g.Left stop .table)) := by
  have kept {f g : Frame} {n : Nat} (same : g.parts = f.parts) : (n = 0 → g.parts = f.parts) ∧
      (n ≤ 1 → f.Left stop .within → g.Left stop .within ∨ (n ≠ 0 ∧ g.Left stop .table)) :=
    ⟨fun _ => same, fun _ left => .inl (left.mono fun part member => same ▸ member)⟩
  have onward {c d e : Cursor} (first : d.tokens <:+ c.tokens) (second : e.tokens <:+ d.tokens)
      (more : c.rest ≠ []) (stays : c.tokens.length ≤ e.tokens.length) :
      c.tokens.length ≤ d.tokens.length ∧ d.rest ≠ [] ∧ d.tokens.length ≤ e.tokens.length := by
    have one := first.length_le
    have two := second.length_le
    have some := List.length_pos_iff.mpr more
    refine ⟨by omega, List.length_pos_iff.mp ?_, by omega⟩
    simp only [Cursor.length_tokens] at one two stays
    omega
  induction derives with
  | @change a f g c d changes =>
      cases changes with
      | take =>
          have shorter := Cursor.advance_shorter more
          simp only [Cursor.length_tokens] at stays
          omega
      | @phrase _ _ _ phrases words spoken =>
          have same := Cursor.phrase_stays more (by rw [spoken]; exact stays)
          rw [spoken] at same
          refine ⟨congrArg Cursor.previous same, kept ?_⟩
          split <;> rfl
      | splice => exact ⟨rfl, nofun, fun _ left => left.splice.imp_right fun left => ⟨nofun, left⟩⟩
      | echo =>
          obtain ⟨value, echoed⟩ := Frame.echo_eq f
          exact ⟨rfl, kept (by rw [echoed])⟩
      | _ => exact ⟨rfl, kept rfl⟩
  | @seq a b f g h c d e first second left right =>
      obtain ⟨one, rest, two⟩ :=
        onward first.steps.path.suffix second.steps.path.suffix more stays
      obtain ⟨place, same, within⟩ := left more one
      obtain ⟨place', same', within'⟩ := right rest two
      rw [splices]
      refine ⟨place'.trans place, fun none => ?_, fun single trace => ?_⟩
      · rw [same' (by omega), same (by omega)]
      · by_cases early : a.splices = 0
        · have trace : g.Left stop .within := trace.mono fun part member => same early ▸ member
          exact (within' (by omega) trace).imp_right fun ⟨found, left⟩ => ⟨by omega, left⟩
        · have parts := same' (by omega)
          rcases within (by omega) trace with left | ⟨some, left⟩
          · exact .inl (left.mono fun part member => parts ▸ member)
          · exact .inr ⟨by omega, left.mono fun part member => parts ▸ member⟩
  | @yes test a b f g c d holds taken ih =>
      obtain ⟨place, same, within⟩ := ih more stays
      rw [splices]
      refine ⟨place, fun none => same (by omega), fun single trace => ?_⟩
      exact (within (by omega) trace).imp_right fun ⟨found, left⟩ => ⟨by omega, left⟩
  | @no test a b f g c d fails taken ih =>
      obtain ⟨place, same, within⟩ := ih more stays
      rw [splices]
      refine ⟨place, fun none => same (by omega), fun single trace => ?_⟩
      exact (within (by omega) trace).imp_right fun ⟨found, left⟩ => ⟨by omega, left⟩
  | stop fails => exact ⟨rfl, kept rfl⟩
  | @round test a f g h c d e holds once again left right =>
      obtain ⟨one, rest, two⟩ := onward once.steps.path.suffix again.steps.path.suffix more stays
      obtain ⟨place, same, -⟩ := left more one
      obtain ⟨place', same', -⟩ := right rest two
      rw [splices] at same' ⊢
      refine ⟨place'.trans place, fun none => ?_, fun single trace => .inl (trace.mono ?_)⟩
      · rw [same' none, same (by omega)]
      · rw [same' (by omega), same (by omega)]
        exact fun part member => member
  | node real inner moved ih | wrap real inner moved ih =>
      simp only [Cursor.length_tokens] at stays
      omega
  | discard inner ih => exact ⟨(ih more stays).1, kept rfl⟩
  | deeper shallow inner ih => exact ih more stays
  | call ruled moved ih =>
      simp only [Cursor.length_tokens] at stays
      omega

/-- So much of the text is left behind a closing parenthesis. -/
def ClosedAt (text left : List Token) : Prop :=
  ∃ before : Token, before.lexeme = .symbol .closeParen ∧ (before :: left) <:+ text

theorem Derives.closes {text : List Token} (derives : Derives rules a f c g d)
    (closes : a.closes = true) (more : 2 ≤ d.tokens.length) (inText : c.tokens <:+ text) :
    ClosedAt text d.tokens := by
  induction derives with
  | seq first second left right => exact right closes more (first.steps.path.suffix.trans inText)
  | @yes test a b f g c d holds taken ih =>
      obtain ⟨rfl, rfl, -⟩ := closes_branch closes
      have next : d = c.advance := by
        cases taken with
        | change changes =>
            cases changes
            rfl
      have rest : c.rest ≠ [] := by
        intro last
        rw [next, Cursor.advance_last last, Cursor.length_tokens, last] at more
        exact absurd more (by decide)
      refine ⟨c.current, ?_, ?_⟩
      · cases here : c.current.lexeme <;> simp_all [symbol, Test.holds, TokenClass.holds]
      · rw [next, ← Cursor.tokens_advance rest]
        exact inText
  | @no test a b f g c d fails taken ih =>
      obtain ⟨-, -, expected, rfl⟩ := closes_branch closes
      cases taken with
      | change changes => cases changes
  | change changes => cases changes <;> cases closes
  | _ => cases closes

/-- The first reading has come to the end of the text, which is closed by a parenthesis, and has left
such a trace there. -/
def Missed (text after : List Token) (leaves : Trace → Bool) (g : Frame) (d : Cursor) : Prop :=
  d.tokens.length = after.length ∧ ClosedAt text after ∧
    ∃ trace, leaves trace = true ∧ g.Left d.previous.stop trace

variable {text : List Token} {closed : Bool}

theorem Missed.mono {leaves leaves' : Trace → Bool} (missed : Missed text after leaves g d)
    (more : ∀ trace, leaves trace = true → leaves' trace = true) : Missed text after leaves' g d := by
  obtain ⟨ends, closing, trace, found, left⟩ := missed
  exact ⟨ends, closing, trace, more trace found, left⟩

theorem Missed.of_part {closed' : Bool} (missed : Missed text after (a.leaves e e' lax closed) g d)
    (more : ∀ trace, a.spots e e' closed trace = true → b.spots e e' closed' trace = true) :
    Missed text after (b.leaves e e' lax closed') g d := by
  refine missed.mono fun trace found => ?_
  obtain ⟨isLax, found⟩ := Bool.and_eq_true_iff.mp found
  rw [leaves, isLax, more trace found]
  rfl

/-- What goes on from there takes no token and keeps the trace. -/
theorem Missed.later {b' : Cursor} (missed : Missed text after (a.leaves e e' lax closed) g d)
    (keeps : keepsTraces (a.leaves e e' lax closed) b = true) (second : Derives rules b g d h b')
    (more : 2 ≤ after.length) (inside : after.length ≤ b'.tokens.length) :
    Missed text after ((Grammar.seq a b).leaves e e' lax closed) h b' := by
  obtain ⟨ends, closing, trace, found, left⟩ := missed
  have least := second.least_le (.unknown d) (by omega)
  have none : b.atLeast = 0 := by
    rw [atLeast]
    omega
  simp only [keepsTraces, none, bne_self_eq_false, Bool.false_or, Bool.and_eq_true,
    Bool.or_eq_true, Bool.not_eq_true', Bool.or_eq_false_iff, beq_iff_eq, decide_eq_true_eq] at keeps
  have rest : d.rest ≠ [] := by
    rw [Cursor.length_tokens] at ends
    exact List.length_pos_iff.mp (by omega)
  obtain ⟨place, same, within⟩ := @Derives.idle _ _ _ _ _ d.previous.stop second rest (by omega)
  rw [Missed, place]
  refine ⟨by omega, closing, ?_⟩
  have kept (trace : Trace) (found : a.leaves e e' lax closed trace = true) :
      (Grammar.seq a b).leaves e e' lax closed trace = true := by
    obtain ⟨isLax, found⟩ := Bool.and_eq_true_iff.mp found
    simp [leaves, spots, isLax, none, found]
  have parts (same : h.parts = g.parts) : h.Left d.previous.stop trace :=
    left.mono fun part member => same ▸ member
  cases trace with
  | missed => exact ⟨.missed, kept _ found, trivial⟩
  | call => exact ⟨.call, kept _ found, parts (same (keeps.1.resolve_left (by simp [found])))⟩
  | table => exact ⟨.table, kept _ found, parts (same (keeps.1.resolve_left (by simp [found])))⟩
  | within =>
      rcases within (keeps.2.resolve_left (by simp [found])) left with left | ⟨some, left⟩
      · exact ⟨.within, kept _ found, left⟩
      · obtain ⟨isLax, found⟩ := Bool.and_eq_true_iff.mp found
        exact ⟨.table, by simp [leaves, spots, isLax, none, found, some], left⟩

/-- A node around it turns the trace into another one. -/
theorem Missed.around (missed : Missed text after (a.leaves e e' lax closed) h d)
    (marks : marksTraces (a.leaves e e' lax closed) kind a = true)
    (kinds : h.kind = some kind ∨ h.kind ∈ a.turns) :
    Missed text after ((Grammar.node kind a).leaves e e' lax closed) (f.close h d) d := by
  obtain ⟨ends, closing, trace, found, left⟩ := missed
  simp only [marksTraces, Bool.and_eq_true, Bool.or_eq_true, Bool.not_eq_true', beq_iff_eq,
    List.isEmpty_iff, List.contains_iff_mem, List.all_eq_true] at marks
  obtain ⟨calls, tables⟩ := marks
  refine ⟨ends, closing, ?_⟩
  cases made : h.kind with
  | none =>
      have loose : none ∈ a.turns := by
        rw [made] at kinds
        exact kinds.resolve_left (Option.some_ne_none kind).symm
      refine ⟨trace, ?_, left.flows made⟩
      have shown : trace ≠ .missed := by
        rintro rfl
        have plain := (calls.resolve_left (by simp [found])).2
        rw [plain] at loose
        cases loose
      obtain ⟨isLax, found⟩ := Bool.and_eq_true_iff.mp found
      simp [leaves, spots, isLax, found, shown, loose]
  | some own =>
      have next : ∃ outer : Trace, trace ∈ outer.inside := by
        cases trace
        · exact ⟨.call, .head _⟩
        · exact ⟨.table, .head _⟩
        · exact ⟨.within, .head _⟩
        · exact ⟨.within, .tail _ (.head _)⟩
      obtain ⟨outer, next⟩ := next
      refine ⟨outer, ?_, left.closes made next (Nat.le_refl _) ?_ ?_⟩
      · obtain ⟨isLax, found⟩ := Bool.and_eq_true_iff.mp found
        rw [leaves, isLax, Bool.true_and, spots, Bool.or_eq_true, List.any_eq_true]
        exact .inl ⟨trace, next, found⟩
      · rintro rfl
        obtain ⟨same, plain⟩ := calls.resolve_left (by simp [found])
        rw [made, plain] at kinds
        exact (Option.some.inj (kinds.resolve_right List.not_mem_nil)).trans same
      · rintro rfl
        obtain ⟨table, loose⟩ := tables.resolve_left (by simp [found])
        rw [made] at kinds
        rcases kinds with same | turned
        · rwa [Option.some.inj same]
        · cases loose _ turned

/-- Reads by a grammar, a loop in at most so many rounds. -/
def readWithin (call : Nonterminal → Frame → Cursor → Reading) (rounds : List Token) :
    Grammar → Frame → Cursor → Reading
  | .loop test a, f, c => repeatWhile test (read call a) rounds f c
  | a, f, c => read call a f c

theorem readWithin_tokens (a : Grammar) (f : Frame) (c : Cursor) :
    readWithin call c.tokens a f c = read call a f c := by
  cases a <;> rfl

theorem Changes.carried (endings : Endings e e' after after') (changes : Changes a f c g d)
    {before awaited : Nat} (abides : a.abides e e' lax closed before awaited = true) {c' : Cursor}
    (beside : Beside place levels after after' c c')
    (inside : after.length + awaited ≤ d.tokens.length) (rounds : List Token) :
    Carried place levels after after' g d (readWithin call rounds a (f.relocate place) c') := by
  have more := endings.more
  cases changes with
  | nothing | write | gap | become | dissolve => exact .inl ⟨c', rfl, beside⟩
  | take =>
      have within : after.length < c.tokens.length := by
        by_cases last : c.rest = []
        · rw [Cursor.advance_last last, Cursor.length_tokens, last, List.length_nil] at inside
          omega
        · have shorter := Cursor.advance_shorter last
          rw [Cursor.length_tokens] at inside ⊢
          omega
      exact .inl ⟨_, rfl, beside.advance endings.ne_nil endings.ne_nil' within⟩
  | copy spelling =>
      have awaits : 1 ≤ awaited := of_decide_eq_true abides
      have lexeme : c'.current.lexeme = c.current.lexeme := (beside.twin (by omega)).lexeme
      refine .inl ⟨c', ?_, beside⟩
      rw [readWithin, read, lexeme]
      · rfl
      · intro test round same
        cases same
  | phrase spoken => cases abides
  | splice => exact .inl ⟨c', by rw [Frame.relocate_splice]; rfl, beside⟩
  | echo => exact .inl ⟨c', by rw [Frame.relocate_echo]; rfl, beside⟩

/-- However many rounds of a loop are allowed, if they are enough. -/
theorem carried_read {c' : Cursor} {P : Prop} (every : ∀ rounds : List Token,
    c'.rest.length < rounds.length →
      Carried place levels after after' g d (readWithin call rounds a f c') ∨ P) :
    Carried place levels after after' g d (read call a f c') ∨ P :=
  @readWithin_tokens call a f c' ▸ every c'.tokens (Nat.lt_succ_self _)

/-- The rule tells one ending from the other only where it takes what stands there, or else leaves
one of its traces. -/
def overlooks (e e' : Behind) (lax : Bool) (name : Nonterminal) : Bool :=
  (rules name).abides e e' lax false 0 0 && [.missed, .call, .table, .within].all fun trace =>
    !(rules name).leaves e e' lax false trace || (lax && name.leaves trace)

/-- So do all rules that a query can call. -/
def Overlooks (e e' : Behind) (lax : Bool) : Prop :=
  ∀ name, name.inQuery = true → overlooks e e' lax name = true

theorem Overlooks.leaves (ruled : Overlooks e e' lax) {name : Nonterminal}
    (inQuery : name.inQuery = true) {trace : Trace}
    (found : (rules name).leaves e e' lax false trace = true) : (lax && name.leaves trace) = true := by
  obtain ⟨-, traces⟩ := Bool.and_eq_true_iff.mp (ruled name inQuery)
  have listed : trace ∈ [Trace.missed, .call, .table, .within] := by cases trace <;> simp
  simpa [found] using List.all_eq_true.mp traces trace listed

/-- What is derived within the text is read beside it, or leaves a trace. -/
theorem Derives.carried (endings : Endings e e' after after') (mono : Monotone place)
    (ruled : Overlooks e e' lax) (derives : Derives rules a f c g d) {before awaited : Nat}
    (abides : a.abides e e' lax closed before awaited = true) {c' : Cursor}
    (beside : Beside place levels after after' c c')
    (inside : after.length + awaited ≤ d.tokens.length) (inText : c.tokens <:+ text)
    (closing : closed = true → ClosedAt text c.tokens) {left rounds : List Token}
    (enough : c'.rest.length + before ≤ left.length) (enough' : c'.rest.length < rounds.length) :
    Carried place levels after after' g d
        (readWithin (callRule rules left) rounds a (f.relocate place) c') ∨
      Missed text after (a.leaves e e' lax closed) g d := by
  have more := endings.more
  induction derives generalizing closed before awaited c' left rounds with
  | change changes => exact .inl (changes.carried endings abides beside inside rounds)
  | @seq a b f g h c d e₁ first second ih ih' =>
      show Carried place levels after after' h e₁ (read _ (.seq a b) _ _) ∨ _
      simp only [Grammar.abides, Bool.and_eq_true] at abides
      obtain ⟨⟨keeps, left'⟩, right'⟩ := abides
      have later := second.least_le (.unknown d) (by omega)
      have earlier := first.least_le (.unknown c) (by omega)
      have lengths := beside.lengths
      rw [read]
      rcases carried_read fun rounds => ih left' beside (by rw [atLeast]; omega) inText closing
          enough with
        (⟨d', found, next⟩ | ⟨deep, error, b', failed, cause⟩) | missed
      · rw [found]
        have lengths' := next.lengths
        simp only [Cursor.length_tokens] at lengths lengths' earlier
        have onward := first.steps.path.suffix.trans inText
        have closing' (closes : a.closes = true) := first.closes closes (by omega) inText
        refine (carried_read fun rounds => ih' right' next inside onward closing'
          (by rw [atLeast]; omega)).imp_right
          fun missed => missed.of_part fun trace found => by simp [spots, found]
      · rw [failed]
        exact .inl (.inr ⟨deep, error, b', rfl, cause⟩)
      · exact .inr (missed.later keeps second more (by omega))
  | @yes test a b f g c d holds taken ih =>
      show Carried place levels after after' g d (read _ (.branch test a b) _ _) ∨ _
      simp only [Grammar.abides, Bool.and_eq_true] at abides
      obtain ⟨⟨⟨settles, -⟩, left'⟩, -⟩ := abides
      have least := taken.least_le (.unknown c) (by omega)
      have same := beside.decides_yes endings settles holds (by rw [atLeast]; omega)
      rw [read, if_pos same]
      exact (carried_read fun rounds => ih left' beside inside inText closing enough).imp_right
        fun missed => missed.of_part fun trace found => by simp [spots, found]
  | @no test a b f g c d fails taken ih =>
      show Carried place levels after after' g d (read _ (.branch test a b) _ _) ∨ _
      simp only [Grammar.abides, Bool.and_eq_true, Bool.or_eq_true, Bool.not_eq_true',
        decide_eq_true_eq] at abides
      obtain ⟨⟨⟨settles, missing⟩, -⟩, right'⟩ := abides
      have least := taken.least_le (.unknown c) (by omega)
      rcases beside.decides_no endings settles fails (by rw [atLeast]; omega) with
        same | ⟨ends, misses⟩
      · rw [read, if_neg (by simp [same])]
        exact (carried_read fun rounds => ih right' beside inside inText closing enough).imp_right
          fun missed => missed.of_part fun trace found => by simp [spots, found]
      · rw [← atLeast] at least
        have none : b.atLeast = 0 := by omega
        rcases missing with (never | ⟨isLax, isClosed⟩) | must
        · rw [never] at misses
          cases misses
        · have closing := closing isClosed
          rw [(beside.ended ends).1] at closing
          exact .inr ⟨by omega, closing, .missed,
            by simp [leaves, spots, isLax, isClosed, misses, none], trivial⟩
        · omega
  | @stop test a f c fails =>
      simp only [Grammar.abides, Bool.and_eq_true, Bool.or_eq_true, Bool.not_eq_true',
        decide_eq_true_eq] at abides
      obtain ⟨⟨⟨⟨settles, missing⟩, -⟩, -⟩, -⟩ := abides
      have same : test.holds (f.relocate place) c' = false := by
        rcases beside.decides_no endings settles fails inside with same | ⟨ends, misses⟩
        · exact same
        · have must := missing.resolve_left (by simp [misses])
          omega
      obtain ⟨token, rounds, rfl⟩ := List.exists_cons_of_ne_nil
        (List.ne_nil_of_length_pos (Nat.zero_lt_of_lt enough'))
      rw [readWithin, repeatWhile, if_neg (by simp [same])]
      exact .inl (.inl ⟨c', rfl, beside⟩)
  | @round test a f g h c d e₁ holds once again ih ih' =>
      have body := abides
      simp only [Grammar.abides, Bool.and_eq_true, decide_eq_true_eq, beq_iff_eq] at body
      obtain ⟨⟨⟨⟨settles, -⟩, moves⟩, unspliced⟩, body⟩ := body
      have goes := again.steps.path.suffix.length_le
      have least := once.least_le (.unknown c) (by omega)
      have progress := once.least_le ((Outlook.At.unknown c).learn holds) (by omega)
      have same := beside.decides_yes endings settles holds (by rw [atLeast]; omega)
      obtain ⟨token, rounds, rfl⟩ := List.exists_cons_of_ne_nil
        (List.ne_nil_of_length_pos (Nat.zero_lt_of_lt enough'))
      have lengths := beside.lengths
      rw [readWithin, repeatWhile, if_pos same]
      rcases carried_read fun rounds => ih body beside (by omega) inText (absurd · Bool.false_ne_true) enough with
        (⟨d', found, next⟩ | ⟨deep, error, b', failed, cause⟩) | ⟨ends, closing', trace, found, left'⟩
      · rw [found]
        have lengths' := next.lengths
        rw [atLeastIf] at moves
        simp only [Cursor.length_tokens, List.length_cons] at lengths lengths' progress enough'
        exact @ih' false _ _ abides _ next inside (once.steps.path.suffix.trans inText)
          (absurd · Bool.false_ne_true) _ _
          (by omega) (by omega)
      · rw [failed]
        exact .inl (.inr ⟨deep, error, b', rfl, cause⟩)
      · have rest : d.rest ≠ [] := by
          rw [Cursor.length_tokens] at ends
          exact List.length_pos_iff.mp (by omega)
        obtain ⟨place', parts, -⟩ :=
          @Derives.idle _ _ _ _ _ d.previous.stop again rest (by omega)
        have parts := parts (by rw [splices, unspliced])
        refine .inr ⟨by omega, closing', trace, found, ?_⟩
        rw [place']
        exact left'.mono fun part member => parts ▸ member
  | @node kind a f g c d real own moved ih =>
      show Carried place levels after after' _ d (read _ (.node kind a) _ _) ∨ _
      simp only [Grammar.abides, Bool.and_eq_true] at abides
      obtain ⟨marks, body⟩ := abides
      have within : after.length < c.tokens.length := by
        rw [Cursor.length_tokens] at inside ⊢
        omega
      have opened := beside.opened within (some kind)
      have inner := carried_read fun rounds => ih body beside inside inText closing enough
      rw [opened] at inner
      rw [read]
      rcases inner with (⟨d', found, next⟩ | ⟨deep, error, b', failed, cause⟩) | missed
      · rw [found]
        exact .inl (.inl ⟨d', by rw [Frame.relocate_close mono next.abreast], next⟩)
      · rw [failed]
        exact .inl (.inr ⟨deep, error, b', rfl, cause⟩)
      · exact .inr (missed.around marks own.turns)
  | @wrap kind a f g c d real own moved ih =>
      show Carried place levels after after' _ d (read _ (.wrap kind a) _ _) ∨ _
      simp only [Grammar.abides, Bool.and_eq_true] at abides
      obtain ⟨marks, body⟩ := abides
      have within : after.length < c.tokens.length := by
        rw [Cursor.length_tokens] at inside ⊢
        omega
      rw [read, beside.wrapLast within kind]
      rcases carried_read fun rounds => ih body beside inside inText closing enough with
        (⟨d', found, next⟩ | ⟨deep, error, b', failed, cause⟩) | missed
      · rw [found]
        exact .inl (.inl ⟨d', by rw [Frame.relocate_close mono next.abreast], next⟩)
      · rw [failed]
        exact .inl (.inr ⟨deep, error, b', rfl, cause⟩)
      · have first : (f.wrapLast kind c).1.kind = some kind := by
          rw [Frame.wrapLast]
          split <;> rfl
        exact .inr (missed.around marks (first ▸ own.turns))
  | @discard a f g c d own ih =>
      show Carried place levels after after' f d (read _ (.discard a) _ _) ∨ _
      simp only [Grammar.abides, Bool.and_eq_true, decide_eq_true_eq, List.all_eq_true,
        Bool.not_eq_true'] at abides
      obtain ⟨⟨moves, traceless⟩, body⟩ := abides
      have least := own.least_le (.unknown c) (by omega)
      have within : after.length < c.tokens.length := by
        rw [atLeast] at moves
        omega
      have opened := beside.opened within none
      have inner := carried_read fun rounds => ih body beside inside inText closing enough
      rw [opened] at inner
      rw [read]
      rcases inner with (⟨d', found, next⟩ | ⟨deep, error, b', failed, cause⟩) |
        ⟨-, -, trace, found, -⟩
      · rw [found]
        exact .inl (.inl ⟨d', rfl, next⟩)
      · rw [failed]
        exact .inl (.inr ⟨deep, error, b', rfl, cause⟩)
      · have none := traceless trace (by cases trace <;> simp)
        rw [none] at found
        cases found
  | @deeper a f g c d shallow own ih =>
      show Carried place levels after after' g _ (read _ (.deeper a) _ _) ∨ _
      have depth : c'.depth + 1 = c.depth + 1 + levels := by
        have levels := beside.depth
        omega
      have lower := beside.turn (c.depth + 1)
      rw [← depth] at lower
      rw [read]
      dsimp only
      split
      · exact .inl (.inr ⟨by omega, _, _, rfl, rfl⟩)
      · rcases carried_read fun rounds => ih abides lower inside inText closing enough with
          (⟨d', found, next⟩ | ⟨deep, error, b', failed, cause⟩) | missed
        · rw [found]
          have ends : d.depth = c.depth + 1 := own.depth
          have level := next.depth
          have raised : d.depth - 1 + levels = d'.depth - 1 := by omega
          have higher := next.turn (d.depth - 1)
          rw [raised] at higher
          exact .inl (.inl ⟨_, rfl, higher⟩)
        · rw [failed]
          exact .inl (.inr ⟨deep, error, b', rfl, cause⟩)
        · exact .inr missed
  | @call name f g c d ruling moved ih =>
      show Carried place levels after after' g d (callRule _ left name _ _) ∨ _
      simp only [Grammar.abides, Bool.and_eq_true, decide_eq_true_eq] at abides
      obtain ⟨inQuery, begun⟩ := abides
      obtain ⟨token, left, rfl⟩ := List.exists_cons_of_ne_nil
        (List.ne_nil_of_length_pos (l := left) (by omega))
      rw [List.length_cons] at enough
      rw [callRule]
      have ruling := (Bool.and_eq_true_iff.mp (ruled name inQuery)).1
      exact (carried_read fun rounds => ih ruling beside (by omega) inText
        (absurd · Bool.false_ne_true) (by omega)).imp_right
          fun missed => missed.mono fun trace => ruled.leaves inQuery

end Grammar
end SqlAudit
