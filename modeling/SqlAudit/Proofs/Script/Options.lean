import SqlAudit.Proofs.Grammar.Options
import SqlAudit.Proofs.Script.Regions
/-!
Options of routines in scripts. What follows a statement is a semicolon or the end of the text, so
whatever stands before these is read into the statement or makes an error of it; and into an option
that no rule looks into everything is read up to the next word that a characteristic starts with, be
it another statement.
-/
namespace SqlAudit

/-- Reserved words that statements start with. -/
def Lexeme.startsStatement (lexeme : Lexeme) : Bool :=
  (TokenClass.keywords [.CREATE, .ALTER, .DROP, .GRANT, .REVOKE, .INSERT, .UPDATE, .DELETE,
    .SELECT]).holds lexeme

/-- Within the node stand the tokens that an option goes on over, from where the node starts. -/
def Node.IsOption (tokens : List Token) (node : Node) : Prop :=
  ∃ before first after, tokens = before ++ first :: after ∧
    first.span.start = node.span.start ∧ ∀ token ∈ tokens, token.lexeme ≠ .finish →
      (node.span.contains token.span = true ↔ token ∈ Grammar.optionTokens (first :: after))

namespace Script

variable {size : Nat} {c d : Cursor} {node : Node} {nodes : List Node} {errors : List SyntaxError}
  {tokens : List Token}

theorem isOption_of_readBy (inOrder : InOrder 0 size tokens)
    (read : node.ReadBy Grammar.rules Grammar.isOptionBody tokens size) : node.IsOption tokens := by
  obtain ⟨body, c, d, same, read⟩ := read
  obtain rfl : body = Grammar.optionBody := eq_of_beq same
  obtain ⟨g, derives, -⟩ := read.derived
  obtain ⟨before, whole⟩ := read.inside
  refine ⟨before, c.current, c.rest, whole.symm, by rw [read.span_eq], ?_⟩
  intro token member notFinish
  exact read.contains_iff inOrder (Grammar.option_tokens derives read.ordered read.moved) member
    notFinish

theorem Statement.options (read : Statement size c node d) (ordered : c.Ordered size)
    (inside : c.tokens <:+ tokens) : node.Every fun part =>
      part.kind = .routineOption → part.ReadBy Grammar.rules Grammar.isOptionBody tokens size := by
  apply read.of_derives
  intro g derives
  exact Grammar.derives_readBy Grammar.rules_option derives Grammar.statement_option inside ordered
    (all_opened _ none c)

theorem read_options (d : Dialect) (text : String) : (read d text).root.Every
    fun node => node.kind = .routineOption → node.IsOption (tokenize d text) := by
  refine Node.every_iff.mpr ⟨nofun, fun node member => ?_⟩
  rcases read_statement d text node member with
    ⟨span, value, rfl⟩ | ⟨original, c, e, rfl, later, start, read⟩
  · exact ⟨nofun, trivial⟩
  · apply every_nameOptions text.toList _ original (read.options start later)
    intro part option same
    rw [nameOptions_kind] at same
    rw [Node.IsOption, nameOptions_span]
    exact isOption_of_readBy (tokenize_inOrder d text) (option same)

/-- The next token after the node ends a statement. -/
def Ended (tokens : List Token) (node : Node) : Prop :=
  ∃ before next after, tokens = before ++ next :: after ∧ isTerminator next.lexeme = true ∧
    node.span.stop ≤ next.span.start ∧ ∀ token ∈ before, token.span.stop ≤ node.span.stop

theorem ended_of_path (path : Path (fun _ => True) c d) (ordered : c.Ordered size)
    (ends : isTerminator d.current.lexeme = true) (stop : node.span.stop = d.previous.stop) :
    Ended c.tokens node := by
  obtain ⟨front, split⟩ := path.suffix
  refine ⟨front, d.current, d.rest, split.symm, ends, ?_, ?_⟩
  · rw [stop]
    exact (path.ordered ordered).previous_stop_le
  · intro token member
    rw [stop]
    exact (path.passed ordered split.symm token member).2

/-- Where one statement follows another one, what came before ends before it does. -/
theorem Ended.onward (ended : Ended d.tokens node) (path : Path (fun _ => True) c d)
    (ordered : c.Ordered size) (later : d.previous.stop ≤ node.span.stop) :
    Ended c.tokens node := by
  obtain ⟨front, split⟩ := path.suffix
  obtain ⟨before, next, after, whole, ends, stop, passed⟩ := ended
  refine ⟨front ++ before, next, after, ?_, ends, stop, ?_⟩
  · rw [← split, whole, List.append_assoc]
  · intro token member
    rcases List.mem_append.mp member with early | late
    · exact (path.passed ordered split.symm token early).2.trans later
    · exact passed token late

theorem later_stop (covers : Covers d nodes) (ordered : d.Ordered size) (member : node ∈ nodes) :
    d.previous.stop ≤ node.span.stop := by
  obtain ⟨nonempty, token, inside, start⟩ := covers.begins node member
  have after := InOrder.after ordered token inside
  omega

theorem reads_ended (reads : Reads size c nodes errors) (ordered : c.Ordered size) :
    ∀ node ∈ nodes, Ended c.tokens node := by
  induction reads with
  | finish last => simp
  | @semicolon c nodes errors here rest ih =>
      intro node member
      have path : Path (fun _ => True) c c.advance := .take .here trivial
      exact (ih ordered.advance node member).onward path ordered
        (later_stop (reads_covers rest ordered.advance) ordered.advance member)
  | statement starts read ends rest ih =>
      have next := read.path.ordered ordered
      intro node member
      rcases List.mem_cons.mp member with rfl | later
      · exact ended_of_path read.passes ordered ends (by rw [read.span])
      · exact (ih next node later).onward read.passes ordered
          (later_stop (reads_covers rest next) next later)
  | region starts read ends rest ih =>
      have next := read.passes.ordered ordered
      intro node member
      rcases List.mem_cons.mp member with rfl | later
      · exact ended_of_path read.passes ordered ends (by rw [read.region]; rfl)
      · exact (ih next node later).onward read.passes ordered
          (later_stop (reads_covers rest next) next later)

theorem read_ended (d : Dialect) (text : String) :
    ∀ node ∈ (read d text).root.children, Ended (tokenize d text) node := by
  obtain ⟨ordered, reads⟩ := tokenize_reads d text
  rw [read_children]
  intro node member
  obtain ⟨original, inside, rfl⟩ := List.mem_map.mp member
  have ended := reads_ended reads ordered original inside
  rwa [tokens_ofTokens (tokenize_ne_nil d text), Ended, ← nameOptions_span text.toList] at ended

end Script

/-- Within an option of a routine that no rule looks into stand all tokens from its first word up to
the next one that can start a characteristic, so that one that starts a statement stands within it
exactly if there is one among these. What follows a statement is always a semicolon or the end of
the text. -/
theorem routine_options (d : Dialect) (text : String) :
    (∀ path node, (Script.read d text).root.at? path = some node → node.kind = .routineOption →
      ∃ before first after, tokenize d text = before ++ first :: after ∧
        first.span.start = node.span.start ∧
        (∀ token ∈ tokenize d text, token.lexeme ≠ .finish →
          (node.span.contains token.span = true ↔
            token ∈ Grammar.optionTokens (first :: after))) ∧
        ((∃ token ∈ tokenize d text, token.lexeme.startsStatement = true ∧
            node.span.contains token.span = true) ↔
          ∃ token ∈ Grammar.optionTokens (first :: after), token.lexeme.startsStatement = true)) ∧
    ∀ statement ∈ (Script.read d text).root.children,
      Script.Ended (tokenize d text) statement := by
  refine ⟨fun path node reached same => ?_, Script.read_ended d text⟩
  obtain ⟨before, first, after, split, start, within⟩ :=
    ((Script.read_options d text).at? reached).here same
  refine ⟨before, first, after, split, start, within, ?_⟩
  have inside : Grammar.optionTokens (first :: after) ⊆ tokenize d text := by
    rw [split]
    exact List.Subset.trans (Grammar.optionTokens_subset _) (List.subset_append_right ..)
  have notFinish : ∀ token : Token, token.lexeme.startsStatement = true →
      token.lexeme ≠ .finish := by
    intro token starts finish
    rw [finish] at starts
    cases starts
  constructor
  · rintro ⟨token, member, starts, contains⟩
    exact ⟨token, (within token member (notFinish token starts)).mp contains, starts⟩
  · rintro ⟨token, member, starts⟩
    exact ⟨token, inside member, starts,
      (within token (inside member) (notFinish token starts)).mpr member⟩

/-- A statement after a routine is read into an option of it without an error. -/
theorem drop_read_into_option :
    let text := "CREATE FUNCTION f() IMMUTABLE DROP TABLE t"
    let script := Script.read .postgres text
    script.isComplete = true ∧ ∃ routine option token,
      script.root.at? [0] = some routine ∧ routine.kind = .createFunction ∧
      routine.at? [1] = some option ∧ option.kind = .routineOption ∧
      token ∈ tokenize .postgres text ∧ token.lexeme = .keyword .DROP ∧
      option.span.contains token.span = true := by
  refine ⟨by decide +kernel, _, _, ⟨.keyword .DROP, ⟨30, 34⟩⟩, rfl, ?_, rfl, ?_⟩ <;> decide +kernel

end SqlAudit
