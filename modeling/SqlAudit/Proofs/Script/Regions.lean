import Mathlib.Data.List.Forall2
import SqlAudit.Proofs.Script.Coverage
/-!
Regions that were given up. Each goes with one error, whose message it carries and which was met
inside it or at the terminator that ends it; the errors of a script follow one another as the
regions do. Such a region has no parts, and no other node is of its kind.
-/
namespace SqlAudit

namespace Script

variable {size : Nat} {c d : Cursor} {nodes : List Node} {errors : List SyntaxError}

def regions (script : Script) : List Node := script.root.childrenOf .unparsed

/-- A region was given up for an error, which stands in it or is about the terminator that ends
it. -/
structure GivenUp (tokens : List Token) (region : Node) (error : SyntaxError) : Prop where
  value : region.value = some error.message
  begins : region.span.start ≤ error.span.start
  place : region.span.contains error.span = true ∨
    ∃ before terminator after, tokens = before ++ terminator :: after ∧
      isTerminator terminator.lexeme = true ∧ terminator.span = error.span ∧
      region.span.stop ≤ terminator.span.start ∧
      ∀ token ∈ before, token.span.stop ≤ region.span.stop

/-- Nothing is skipped from a terminator on. -/
theorem skip_stays (skip : Path Skipped c d) (ends : isTerminator c.current.lexeme = true) :
    d.tokens = c.tokens ∧ d.previous = c.previous := by
  induction skip with
  | here => exact ⟨rfl, rfl⟩
  | @take d before allowed ih =>
      have current : d.current = c.current := by injection ih.1
      rw [Skipped, current, ends] at allowed
      cases allowed
  | turn before depth ih => exact ih

variable {b : Cursor} {error : SyntaxError} {node : Node}

/-- An error inside a region has its token passed; else it is about the terminator. -/
theorem Region.error_cases (read : Region size c error b node d) (ordered : c.Ordered size)
    (ends : isTerminator d.current.lexeme = true) :
    (error.span.start < error.span.stop ∧ error.span.stop ≤ d.previous.stop) ∨
      (b.tokens = d.tokens ∧ d.previous = b.previous ∧ isTerminator b.current.lexeme = true) := by
  have there := read.path.ordered ordered
  by_cases goes : isTerminator b.current.lexeme = true
  · have stays := skip_stays read.skip goes
    exact .inr ⟨stays.1.symm, stays.2, goes⟩
  · left
    rw [read.blamed]
    rw [Bool.not_eq_true] at goes
    refine ⟨there.current_nonempty (ne_finish goes), ?_⟩
    rcases read.skip.previous_cases there with ⟨same, -⟩ | ⟨-, passed⟩
    · have current : d.current = b.current := by injection same
      rw [current, goes] at ends
      cases ends
    · exact passed

theorem Region.givenUp (read : Region size c error b node d) (ordered : c.Ordered size)
    (ends : isTerminator d.current.lexeme = true) : GivenUp c.tokens node error := by
  have later := read.path.current_mono ordered
  have begins : node.span.start ≤ error.span.start := by
    rw [read.region, read.blamed]
    exact later
  refine ⟨by rw [read.region]; rfl, begins, ?_⟩
  rcases read.error_cases ordered ends with ⟨-, passed⟩ | ⟨-, same, goes⟩
  · left
    rw [read.region] at begins ⊢
    simp only [Span.contains, Bool.and_eq_true, decide_eq_true_eq]
    exact ⟨begins, passed⟩
  · right
    obtain ⟨front, split⟩ := read.path.suffix
    have stop : node.span.stop = b.previous.stop := by rw [read.region, ← same]; rfl
    refine ⟨front, b.current, b.rest, split.symm, goes, read.blamed.symm, ?_, ?_⟩
    · rw [stop]
      exact (read.path.ordered ordered).previous_stop_le
    · intro token member
      rw [stop]
      exact (read.path.passed ordered split.symm token member).2

/-- Among more tokens before it, a region ends at the same terminator. -/
theorem GivenUp.later {front tokens : List Token} (givenUp : GivenUp tokens node error)
    (before : ∀ token ∈ front, token.span.stop ≤ node.span.stop) :
    GivenUp (front ++ tokens) node error := by
  obtain ⟨value, begins, inside | ⟨passed, terminator, after, split, rest⟩⟩ := givenUp
  · exact ⟨value, begins, .inl inside⟩
  · refine ⟨value, begins, .inr ⟨front ++ passed, terminator, after, ?_, rest.1, rest.2.1,
      rest.2.2.1, ?_⟩⟩
    · rw [split, List.append_assoc]
    · intro token member
      exact (List.mem_append.mp member).elim (before token) (rest.2.2.2 token)

/-- Regions from `c` on and the errors that they were given up for. -/
def Matched (c : Cursor) (nodes : List Node) (errors : List SyntaxError) : Prop :=
  List.Forall₂ (fun region error => c.current.span.start ≤ region.span.start ∧
      region.span.start ≤ region.span.stop ∧ GivenUp c.tokens region error)
    (nodes.filter (·.kind = .unparsed)) errors

theorem Matched.later (matched : Matched d nodes errors) (ordered : c.Ordered size)
    (path : Path (fun _ => True) c d) : Matched c nodes errors := by
  refine List.Forall₂.imp ?_ matched
  rintro region error ⟨starts, forward, givenUp⟩
  have after := (path.ordered ordered).previous_stop_le
  obtain ⟨front, split⟩ := path.suffix
  refine ⟨(path.current_mono ordered).trans starts, forward, ?_⟩
  rw [← split]
  apply givenUp.later
  intro token member
  have passed := (path.passed ordered split.symm token member).2
  omega

theorem reads_matched (reads : Reads size c nodes errors) (ordered : c.Ordered size) :
    Matched c nodes errors := by
  induction reads with
  | finish last => exact .nil
  | @semicolon c nodes errors here rest ih =>
      exact (ih ordered.advance).later ordered (.take .here trivial)
  | @statement c d node nodes errors starts read ends rest ih =>
      have later := (ih (read.path.ordered ordered)).later ordered read.passes
      have other : node.kind ≠ .unparsed := read.parsed.here
      rw [Matched, List.filter_cons_of_neg (by simpa using other)]
      exact later
  | @region c b d error node nodes errors starts read ends rest ih =>
      have later := (ih (read.passes.ordered ordered)).later ordered read.passes
      have passed := read.passes.previous_stop_le ordered read.moved
      have token := ordered.current_span
      have unread : node.kind = .unparsed := by rw [read.region]; rfl
      rw [Matched, List.filter_cons_of_pos (by simpa using unread)]
      refine .cons ⟨?_, ?_, read.givenUp ordered ends⟩ later
      · rw [read.region]
        exact Nat.le_refl _
      · rw [read.region]
        exact token.trans passed

theorem errors_after (reads : Reads size c nodes errors) (ordered : c.Ordered size) :
    ∀ error ∈ errors, c.current.span.start ≤ error.span.start := by
  have matched := reads_matched reads ordered
  unfold Matched at matched
  generalize nodes.filter _ = found at matched
  clear reads
  induction matched with
  | nil => simp
  | cons pair rest ih =>
      obtain ⟨starts, -, givenUp⟩ := pair
      intro error member
      rcases List.mem_cons.mp member with rfl | later
      · exact starts.trans givenUp.begins
      · exact ih error later

/-- After the end of a statement, errors are only met past the terminator. -/
theorem errors_beyond (reads : Reads size c nodes errors) (ordered : c.Ordered size)
    (ends : isTerminator c.current.lexeme = true) :
    ∀ error ∈ errors, c.current.span.start < error.span.start := by
  cases reads with
  | finish last => simp
  | semicolon here rest =>
      intro error member
      have later := errors_after rest ordered.advance error member
      have nonempty := ordered.current_nonempty (by simp [here])
      have next := ordered.advance.previous_stop_le
      rw [Cursor.advance_previous] at next
      omega
  | statement starts => simp [ends] at starts
  | region starts => simp [ends] at starts

theorem errors_increasing (reads : Reads size c nodes errors) (ordered : c.Ordered size) :
    errors.Pairwise fun first second => first.span.start < second.span.start := by
  induction reads with
  | finish last => exact .nil
  | semicolon here rest ih => exact ih ordered.advance
  | statement starts read ends rest ih => exact ih (read.path.ordered ordered)
  | @region c b d error node nodes errors starts read ends rest ih =>
      have after := read.passes.ordered ordered
      refine .cons ?_ (ih after)
      intro second member
      rcases read.error_cases ordered ends with ⟨nonempty, passed⟩ | ⟨same, -, -⟩
      · have next := after.previous_stop_le
        have later := errors_after rest after second member
        omega
      · have current : b.current = d.current := by injection same
        rw [read.blamed, current]
        exact errors_beyond rest after ends second member

/-- A statement is a region without parts, or a node that was read further on. -/
theorem reads_mem (reads : Reads size c nodes errors) (ordered : c.Ordered size) :
    ∀ node ∈ nodes, (∃ span value, node = .leaf .unparsed span value) ∨
      ∃ b e, b.tokens <:+ c.tokens ∧ b.Ordered size ∧ Statement size b node e := by
  induction reads with
  | finish last => simp
  | @semicolon c nodes errors here rest ih =>
      intro node member
      refine (ih ordered.advance node member).imp_right ?_
      rintro ⟨b, e, inside, read⟩
      exact ⟨b, e, inside.trans c.advance_suffix, read⟩
  | statement starts read ends rest ih =>
      intro node member
      rcases List.mem_cons.mp member with rfl | later
      · exact .inr ⟨_, _, List.suffix_refl _, ordered, read⟩
      · refine (ih (read.path.ordered ordered) node later).imp_right ?_
        rintro ⟨b, e, inside, found⟩
        exact ⟨b, e, inside.trans read.path.suffix, found⟩
  | region starts read ends rest ih =>
      intro node member
      rcases List.mem_cons.mp member with rfl | later
      · exact .inl ⟨_, _, read.region⟩
      · refine (ih (read.passes.ordered ordered) node later).imp_right ?_
        rintro ⟨b, e, inside, found⟩
        exact ⟨b, e, inside.trans read.passes.suffix, found⟩

theorem Statement.solid (read : Statement size c node d) (ordered : c.Ordered size) :
    node.Every Node.Solid := by
  apply read.of_derives
  intro g derives
  exact steps_solid derives.steps (c := { c with depth := 0 }) ordered
    (fitted_opened none { c with depth := 0 }) (all_opened _ none c)

mutual

theorem every_nameOptions {P Q : Node → Prop} (text : List Char)
    (keeps : ∀ node, P node → Q (nameOptions text node)) :
    ∀ node : Node, node.Every P → (nameOptions text node).Every Q
  | ⟨kind, span, value, children⟩, ⟨here, below⟩ =>
    ⟨keeps ⟨kind, span, value, children⟩ here, every_nameOptionsOfList text keeps children below⟩

theorem every_nameOptionsOfList {P Q : Node → Prop} (text : List Char)
    (keeps : ∀ node, P node → Q (nameOptions text node)) :
    ∀ nodes : List Node, Node.EveryOf P nodes → Node.EveryOf Q (nameOptionsOfList text nodes)
  | [], _ => trivial
  | node :: nodes, ⟨first, rest⟩ =>
    ⟨every_nameOptions text keeps node first, every_nameOptionsOfList text keeps nodes rest⟩

end

theorem nameOptions_region (text : List Char) (span : Span) (value : Option String) :
    nameOptions text (.leaf .unparsed span value) = .leaf .unparsed span value := rfl

/-- Each statement of a text is a region without parts, or was read from somewhere among the tokens
and had its options named. -/
theorem read_statement (d : Dialect) (text : String) : ∀ node ∈ (read d text).root.children,
    (∃ span value, node = .leaf .unparsed span value) ∨
      ∃ original c e, node = nameOptions text.toList original ∧ c.tokens <:+ tokenize d text ∧
        c.Ordered text.utf8ByteSize ∧ Statement text.utf8ByteSize c original e := by
  obtain ⟨ordered, reads⟩ := tokenize_reads d text
  rw [read_children]
  intro node member
  obtain ⟨original, inside, rfl⟩ := List.mem_map.mp member
  rcases reads_mem reads ordered original inside with
    ⟨span, value, rfl⟩ | ⟨c, e, later, start, read⟩
  · exact .inl ⟨span, value, nameOptions_region ..⟩
  · rw [tokens_ofTokens (tokenize_ne_nil d text)] at later
    exact .inr ⟨original, c, e, rfl, later, start, read⟩

/-- A statement that is no region has no region in it and no node that spans nothing. -/
theorem read_mem (d : Dialect) (text : String) : ∀ node ∈ (read d text).root.children,
    (∃ span value, node = .leaf .unparsed span value) ∨
      (node.Every (·.kind ≠ .unparsed) ∧ node.Every Node.Solid) := by
  intro node member
  rcases read_statement d text node member with region | ⟨original, c, e, rfl, -, start, read⟩
  · exact .inl region
  · right
    constructor
    · refine every_nameOptions text.toList ?_ original read.parsed
      intro part parsed
      rwa [nameOptions_kind]
    · refine every_nameOptions text.toList ?_ original (read.solid start)
      intro part solid
      rwa [Node.Solid, nameOptions_span]

theorem read_regions (d : Dialect) (text : String) :
    List.Forall₂ (GivenUp (tokenize d text)) (read d text).regions (read d text).errors := by
  obtain ⟨ordered, reads⟩ := tokenize_reads d text
  have matched := reads_matched reads ordered
  have found : (read d text).regions =
      (ofTokens text.utf8ByteSize (tokenize d text)).root.children.filter (·.kind = .unparsed) := by
    rw [regions, Node.childrenOf, read_children, List.filter_map]
    have kinds : (fun child : Node => decide (child.kind = .unparsed)) ∘ nameOptions text.toList =
        fun child : Node => decide (child.kind = .unparsed) := by
      funext child
      simp [nameOptions_kind]
    rw [kinds]
    refine (List.map_congr_left ?_).trans (List.map_id _)
    intro child member
    obtain ⟨inside, unread⟩ := List.mem_filter.mp member
    rcases reads_mem reads ordered child inside with ⟨span, value, rfl⟩ | ⟨c, e, -, start, read⟩
    · rfl
    · exact absurd (by simpa using unread) read.parsed.here
  rw [found]
  refine List.Forall₂.imp ?_ matched
  rintro region error ⟨-, -, givenUp⟩
  rwa [tokens_ofTokens (tokenize_ne_nil d text)] at givenUp

theorem read_errors_increasing (d : Dialect) (text : String) :
    (read d text).errors.Pairwise fun first second => first.span.start < second.span.start := by
  obtain ⟨ordered, reads⟩ := tokenize_reads d text
  exact errors_increasing reads ordered

/-- Statements follow one another, and each spans something. -/
theorem read_disjoint (d : Dialect) (text : String) :
    ((read d text).root.children.Pairwise fun first second =>
      first.span.stop ≤ second.span.start) ∧
    ∀ statement ∈ (read d text).root.children, statement.Solid := by
  refine ⟨Node.row_pairwise ((Node.nested_iff_row _).mp (read_nested d text)), ?_⟩
  intro statement member
  exact ((read_covers d text).begins statement member).1

/-- All nodes below the root span something. -/
theorem read_solid (d : Dialect) (text : String) :
    ∀ statement ∈ (read d text).root.children, statement.Every Node.Solid := by
  intro statement member
  rcases read_mem d text statement member with ⟨span, value, rfl⟩ | every
  · exact ⟨(read_disjoint d text).2 _ member, trivial⟩
  · exact every.2

end Script
end SqlAudit
