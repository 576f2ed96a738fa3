import Mathlib.Data.List.Infix
import SqlAudit.Proofs.Grammar.Names
/-!
Groups in parentheses and blocks of statements, which are passed over without a look at what stands
in them. The rules of both call themselves for what is opened inside. Counting comes to the same:
they end behind the first closer before which as much is closed as opened, unless something stops
them before it.
-/
namespace SqlAudit

/-- A sort of block: what opens one, what closes one, and what none goes on over. -/
structure Block where
  opener : Lexeme
  closer : Lexeme
  stops : Lexeme → Bool
  apart : opener ≠ closer := by decide
  opens : stops opener = false := by rfl
  closes : stops closer = false := by rfl
  ends : stops .finish = true := by rfl

namespace Block

/-- A group in parentheses, which lies within its statement. -/
def parens : Block where
  opener := .symbol .openParen
  closer := .symbol .closeParen
  stops
    | .symbol .semicolon | .finish | .invalid _ => true
    | _ => false

/-- A block of statements; what ends one of them is no end of the block. -/
def statements : Block where
  opener := .keyword .CASE
  closer := .keyword .END
  stops
    | .finish | .invalid _ => true
    | _ => false

/-- How many blocks are open after these lexemes; below zero where too many were closed. -/
def count (b : Block) (lexemes : List Lexeme) : Int :=
  lexemes.count b.opener - lexemes.count b.closer

variable {b : Block} {first second lexemes rest rest' : List Lexeme} {lexeme last last' : Lexeme}

theorem ne_finish (goes : b.stops lexeme = false) : lexeme ≠ .finish := by
  rintro rfl
  rw [b.ends] at goes
  cases goes

theorem closer_goes (closer : lexeme = b.closer) : b.stops lexeme ≠ true := by
  rw [closer, b.closes]
  decide

@[simp] theorem count_nil : b.count [] = 0 := rfl

theorem count_append : b.count (first ++ second) = b.count first + b.count second := by
  simp only [count, List.count_append]
  omega

theorem count_opener : b.count [b.opener] = 1 := by
  simp [count, b.apart]

theorem count_closer : b.count [b.closer] = -1 := by
  simp [count, b.apart.symm]

theorem count_other (other : lexeme ≠ b.opener) (other' : lexeme ≠ b.closer) :
    b.count [lexeme] = 0 := by
  simp [count, other, other']

theorem count_opened : b.count (b.opener :: lexemes) = 1 + b.count lexemes := by
  rw [← List.singleton_append, count_append, count_opener]

theorem count_group : b.count (b.opener :: lexemes ++ [b.closer]) = b.count lexemes := by
  rw [count_append, count_opened, count_closer]
  omega

/-- What can stand in a block: nothing that stops it, and nowhere more closers than openers. -/
structure Inside (b : Block) (lexemes : List Lexeme) : Prop where
  goes : ∀ lexeme ∈ lexemes, b.stops lexeme = false
  level : ∀ front, front <+: lexemes → 0 ≤ b.count front

instance (b : Block) (lexemes : List Lexeme) : Decidable (b.Inside lexemes) :=
  decidable_of_iff ((∀ lexeme ∈ lexemes, b.stops lexeme = false) ∧
      ∀ front ∈ lexemes.inits, 0 ≤ b.count front)
    ⟨fun ⟨goes, level⟩ => ⟨goes, fun front before => level front ((List.mem_inits _ _).mpr before)⟩,
      fun ⟨goes, level⟩ => ⟨goes, fun front before => level front ((List.mem_inits _ _).mp before)⟩⟩

namespace Inside

theorem nil : b.Inside [] where
  goes := by simp
  level := by simp

theorem single (goes : b.stops lexeme = false) (level : 0 ≤ b.count [lexeme]) :
    b.Inside [lexeme] where
  goes := by simpa using goes
  level := by
    intro front before
    rcases List.prefix_cons_iff.mp before with rfl | ⟨behind, rfl, none⟩
    · simp
    · rwa [List.prefix_nil.mp none]

/-- What follows may close what is still open. -/
theorem append (inside : b.Inside first) (goes : ∀ lexeme ∈ second, b.stops lexeme = false)
    (level : ∀ front, front <+: second → 0 ≤ b.count first + b.count front) :
    b.Inside (first ++ second) where
  goes := by
    intro lexeme member
    exact (List.mem_append.mp member).elim (inside.goes lexeme) (goes lexeme)
  level := by
    intro front before
    rcases List.prefix_or_prefix_of_prefix before (List.prefix_append first second)
      with within | ⟨behind, rfl⟩
    · exact inside.level front within
    · rw [count_append]
      exact level behind ((List.prefix_append_right_inj first).mp before)

theorem behind (inside : b.Inside second) (before : b.Inside first) (more : 0 ≤ b.count first) :
    b.Inside (first ++ second) := by
  apply before.append inside.goes
  intro front within
  have level := inside.level front within
  omega

theorem opened (inside : b.Inside lexemes) : b.Inside (b.opener :: lexemes) := by
  have one : 0 ≤ b.count [b.opener] := by
    rw [count_opener]
    decide
  exact inside.behind (.single b.opens one) one

/-- A whole block within another one. -/
theorem group (inside : b.Inside lexemes) (even : b.count lexemes = 0) :
    b.Inside (b.opener :: lexemes ++ [b.closer]) := by
  apply inside.opened.append
  · simpa using b.closes
  · intro front before
    rw [count_opened, even]
    rcases List.prefix_cons_iff.mp before with rfl | ⟨behind, rfl, none⟩
    · simp
    · rw [List.prefix_nil.mp none, count_closer]
      decide

end Inside

/-- Of two fronts of the same lexemes the first one ends where the other does, or goes beyond. -/
theorem front_or_beyond (same : first ++ last :: rest = second ++ last' :: rest') :
    first <+: second ∨ second ++ [last'] <+: first := by
  rcases List.append_eq_append_iff.mp same with ⟨between, rfl, -⟩ | ⟨between, rfl, left⟩
  · exact .inl (List.prefix_append _ _)
  · cases between with
    | nil => exact .inl (by simp)
    | cons next between =>
        obtain ⟨rfl, -⟩ := List.cons.inj left
        exact .inr ⟨between, by simp⟩

/-- A block does not go on over the closer that it ends with. -/
theorem before_closer (inside : b.Inside first) (even : b.count second = 0)
    (same : first ++ last :: rest = second ++ b.closer :: rest') : first <+: second := by
  rcases front_or_beyond same with before | beyond
  · exact before
  · have level := inside.level _ beyond
    rw [count_append, even, count_closer] at level
    exact absurd level (by decide)

/-- A block does not go on over what stops it. -/
theorem before_stop (goes : ∀ lexeme ∈ first, b.stops lexeme = false)
    (stop : b.stops last' = true) (same : first ++ last :: rest = second ++ last' :: rest') :
    first <+: second := by
  rcases front_or_beyond same with before | beyond
  · exact before
  · have none := goes last' (beyond.subset (by simp))
    rw [stop] at none
    cases none

/-- What a block that holds these lexemes can end before: its closer, or what stops it. -/
def EndsBefore (b : Block) (lexemes : List Lexeme) (last : Lexeme) : Prop :=
  last = b.closer ∧ b.count lexemes = 0 ∨ b.stops last = true

theorem Inside.before_end (inside : b.Inside first) (ends : b.EndsBefore second last')
    (same : first ++ last :: rest = second ++ last' :: rest') : first <+: second := by
  rcases ends with ⟨rfl, even⟩ | stop
  · exact before_closer inside even same
  · exact before_stop inside.goes stop same

/-- A block ends in one place at most. -/
theorem Inside.unique (one : b.Inside first) (other : b.Inside second)
    (ends : b.EndsBefore first last) (ends' : b.EndsBefore second last')
    (same : first ++ last :: rest = second ++ last' :: rest') : first = second :=
  (one.before_end ends' same).eq_of_length_le (other.before_end ends same.symm).length_le

/-- Where a block is stopped, no closer that it could end with stands before all that stops it. -/
theorem stop_before_closer (inside : b.Inside first) (stop : b.stops last = true)
    (goes : ∀ lexeme ∈ second, b.stops lexeme = false) (even : b.count second = 0) :
    first ++ last :: rest ≠ second ++ b.closer :: rest' := by
  intro same
  obtain rfl := (before_closer inside even same).eq_of_length_le
    (before_stop goes stop same.symm).length_le
  exact closer_goes (List.cons.inj (List.append_cancel_left same)).1 stop

end Block

/-- The tokens of a text, from any place on, come to the end of the text. -/
theorem InOrder.finishes {lo hi : Nat} {tokens : List Token} (ordered : InOrder lo hi tokens) :
    .finish ∈ tokens.map (·.lexeme) := by
  induction ordered with
  | finish after => exact .head _
  | token after nonempty plain rest ih => exact .tail _ ih

namespace Cursor

variable {c d : Cursor} {lexemes : List Lexeme}

/-- The end of a text stands among the tokens that are left. -/
def Finishes (c : Cursor) : Prop := .finish ∈ c.tokens.map (·.lexeme)

namespace Finishes

theorem more (finishes : c.Finishes) (plain : c.current.lexeme ≠ .finish) : c.rest ≠ [] := by
  intro none
  rw [Finishes, tokens, none] at finishes
  exact plain (List.mem_singleton.mp finishes).symm

theorem advance (finishes : c.Finishes) (plain : c.current.lexeme ≠ .finish) :
    c.advance.Finishes := by
  have more := finishes.more plain
  rw [Finishes, tokens_advance more, List.map_cons, List.mem_cons] at finishes
  exact finishes.resolve_left plain.symm

theorem passed (finishes : c.Finishes) (passes : c.Passes lexemes d)
    (plain : ∀ lexeme ∈ lexemes, lexeme ≠ .finish) : d.Finishes := by
  induction lexemes generalizing c with
  | nil => exact passes ▸ finishes
  | cons lexeme lexemes ih =>
      obtain ⟨here, -, later⟩ := passes
      obtain ⟨first, others⟩ := List.forall_mem_cons.mp plain
      exact ih (finishes.advance (here ▸ first)) later others

end Finishes

theorem Passes.tokens_eq (passes : c.Passes lexemes d) :
    c.tokens.map (·.lexeme) = lexemes ++ d.current.lexeme :: d.rest.map (·.lexeme) := by
  obtain ⟨front, tokens, rfl⟩ := passes.front
  rw [tokens, List.map_append, Cursor.tokens, List.map_cons]

end Cursor

namespace Block

open Grammar

/-- The parts of a rule that reads a block from within: up to what closes it, what is opened is read
by `inner`, what stops it is an error, and all else is taken. -/
structure Rule where
  opens : Test
  closes : Test
  stops : Test
  inner : Grammar
  close : Grammar

/-- What is repeated up to the closer. -/
def Rule.step (r : Rule) (b : Block) : Grammar :=
  choose [(r.opens, r.inner), (r.stops, .fail b.closer.describe)] .take

def Rule.loop (r : Rule) (b : Block) : Grammar := .loop (~~~r.closes) (r.step b)

variable {b : Block} {r : Rule} {left : List Token} {f : Frame} {c d e : Cursor}
  {reading : Reading} {call : Nonterminal → Frame → Cursor → Reading}
  {front inside inside' : List Lexeme}

/-- From `c` on, a block that holds these lexemes ends before the token at `d`. -/
structure Reaches (b : Block) (c : Cursor) (inside : List Lexeme) (d : Cursor) : Prop where
  within : b.Inside inside
  passes : c.Passes inside d
  ends : b.EndsBefore inside d.current.lexeme

theorem Reaches.unique (reaches : b.Reaches c inside d) (other : b.Reaches c inside' e) :
    inside = inside' ∧ d = e := by
  obtain rfl := reaches.within.unique other.within reaches.ends other.ends
    (reaches.passes.tokens_eq.symm.trans other.passes.tokens_eq)
  have length := reaches.passes.length
  have length' := other.passes.length
  exact ⟨rfl, reaches.passes.unique other.passes (by omega)⟩

theorem Reaches.finishes (reaches : b.Reaches c inside d) (finishes : c.Finishes) : d.Finishes :=
  finishes.passed reaches.passes fun _ member => ne_finish (reaches.within.goes _ member)

theorem Reaches.even (reaches : b.Reaches c inside d) (closer : d.current.lexeme = b.closer) :
    b.count inside = 0 := by
  rcases reaches.ends with ⟨-, even⟩ | stop
  · exact even
  · exact absurd stop (closer_goes closer)

/-- What leaves as much open as there was before can stand in front. -/
theorem Reaches.behind (reaches : b.Reaches d inside e) (before : b.Inside front)
    (even : b.count front = 0) (passes : c.Passes front d) : b.Reaches c (front ++ inside) e where
  within := reaches.within.behind before even.ge
  passes := Cursor.passes_append.mpr ⟨d, passes, reaches.passes⟩
  ends := by
    have ends := reaches.ends
    rwa [EndsBefore, count_append, even, Int.zero_add]

/-- A reading goes on through a block, up to its closer or to what stops it. -/
def Ended (b : Block) (f : Frame) (c : Cursor) (reading : Reading) : Prop :=
  ∃ inside d, b.Reaches c inside d ∧
    ((d.current.lexeme = b.closer ∧ reading = .ok (f, d)) ∨
      (b.stops d.current.lexeme = true ∧
        reading = .error (.unexpected b.closer.describe d.current, d)))

/-- A step within a block passes a token or a whole block, or is stopped in one that it opens. -/
def Stepped (b : Block) (f : Frame) (c : Cursor) (reading : Reading) : Prop :=
  (∃ front d, b.Inside front ∧ b.count front = 0 ∧ c.Passes front d ∧ front ≠ [] ∧
      reading = .ok (f, d)) ∨
    ∃ inside d, b.Reaches c inside d ∧ b.stops d.current.lexeme = true ∧
      reading = .error (.unexpected b.closer.describe d.current, d)

/-- A rule for this sort of block, which reads blocks that are opened inside as it reads itself. -/
structure ReadBy (b : Block) (r : Rule) : Prop where
  opens : ∀ f c, r.opens.holds f c = decide (c.current.lexeme = b.opener)
  closes : ∀ f c, r.closes.holds f c = decide (c.current.lexeme = b.closer)
  stops : ∀ f c, r.stops.holds f c = b.stops c.current.lexeme
  nested : ∀ token left f c, c.current.lexeme = b.opener →
    read (callRule rules (token :: left)) r.inner f c =
      read (callRule rules left) (r.loop b ++ r.close) f c.advance
  close : ∀ call f c, c.current.lexeme = b.closer → read call r.close f c = .ok (f, c.advance)

namespace ReadBy

theorem step_opened (reads : b.ReadBy r) (token : Token) (opened : c.current.lexeme = b.opener) :
    read (callRule rules (token :: left)) (r.step b) f c =
      read (callRule rules left) (r.loop b ++ r.close) f c.advance := by
  rw [Rule.step, choose, read_yes (by simp [reads.opens, opened])]
  exact reads.nested token left f c opened

theorem step_stopped (reads : b.ReadBy r) (stop : b.stops c.current.lexeme = true) :
    read call (r.step b) f c = .error (.unexpected b.closer.describe c.current, c) := by
  have other : c.current.lexeme ≠ b.opener := by
    intro opened
    rw [opened, b.opens] at stop
    cases stop
  rw [Rule.step, choose, read_no (by simp [reads.opens, other]), choose,
    read_yes ((reads.stops f c).trans stop), Grammar.read]

theorem step_other (reads : b.ReadBy r) (goes : b.stops c.current.lexeme = false)
    (other : c.current.lexeme ≠ b.opener) : read call (r.step b) f c = .ok (f, c.advance) := by
  rw [Rule.step, choose, read_no (by simp [reads.opens, other]), choose,
    read_no ((reads.stops f c).trans goes), choose, Grammar.read]

theorem closed (reads : b.ReadBy r) (looped : read call (r.loop b) f c = .ok (f, d))
    (closer : d.current.lexeme = b.closer) :
    read call (r.loop b ++ r.close) f c = .ok (f, d.advance) :=
  (read_append looped).trans (reads.close call f d closer)

theorem stepped (reads : b.ReadBy r) (finishes : c.Finishes)
    (goes : b.stops c.current.lexeme = false) (token : Token)
    (nested : b.Ended f c.advance (read (callRule rules left) (r.loop b) f c.advance))
    (notCloser : c.current.lexeme ≠ b.closer) :
    b.Stepped f c (read (callRule rules (token :: left)) (r.step b) f c) := by
  have more := finishes.more (ne_finish goes)
  by_cases opened : c.current.lexeme = b.opener
  · rw [reads.step_opened token opened]
    obtain ⟨inside, d, reaches, ⟨closer, looped⟩ | ⟨stop, failed⟩⟩ := nested
    -- The step takes the closer as well, so nothing of the inner block is left open behind it.
    · have even := reaches.even closer
      have later := (reaches.finishes (finishes.advance (ne_finish goes))).more
        (ne_finish (closer ▸ b.closes))
      refine .inl ⟨_, d.advance, reaches.within.group even, count_group.trans even, ?_, by simp,
        reads.closed looped closer⟩
      exact ⟨opened, more, Cursor.passes_append.mpr ⟨d, reaches.passes, closer, later, rfl⟩⟩
    · exact .inr ⟨b.opener :: inside, d, ⟨reaches.within.opened, ⟨opened, more, reaches.passes⟩,
        .inr stop⟩, stop, read_broken failed⟩
  · have level := count_other opened notCloser
    exact .inl ⟨[c.current.lexeme], c.advance, .single goes level.ge, level, ⟨rfl, more, rfl⟩,
      by simp, reads.step_other goes opened⟩

/-- By induction on the tokens that are left: a block that is opened inside is read by the same
loop, which has fewer of them, and so has what goes on behind it. -/
theorem ended (reads : b.ReadBy r) (left rounds : List Token) (f : Frame) (finishes : c.Finishes)
    (enough : c.rest.length ≤ left.length) (lasting : c.rest.length < rounds.length) :
    b.Ended f c (repeatWhile (~~~r.closes) (read (callRule rules left) (r.step b)) rounds f c) := by
  generalize size : c.rest.length = n at enough lasting
  induction n using Nat.strongRecOn generalizing c left rounds f with
  | ind n ih =>
      subst size
      obtain ⟨round, rounds, rfl⟩ := List.exists_cons_of_length_pos (Nat.zero_lt_of_lt lasting)
      rw [List.length_cons] at lasting
      rw [repeatWhile]
      by_cases closed : c.current.lexeme = b.closer
      · rw [if_neg (by simp [reads.closes, closed])]
        exact ⟨[], c, ⟨.nil, rfl, .inl ⟨closed, count_nil⟩⟩, .inl ⟨closed, rfl⟩⟩
      rw [if_pos (by simp [reads.closes, closed])]
      cases stop : b.stops c.current.lexeme with
      | true =>
          rw [reads.step_stopped stop]
          exact ⟨[], c, ⟨.nil, rfl, .inr stop⟩, .inr ⟨stop, rfl⟩⟩
      | false =>
          have onward := Cursor.advance_shorter (finishes.more (ne_finish stop))
          have some : 0 < left.length := by omega
          obtain ⟨token, left, rfl⟩ := List.exists_cons_of_length_pos some
          rw [List.length_cons] at enough
          have nested := ih _ onward left c.advance.tokens f (finishes.advance (ne_finish stop)) rfl
            (by omega) (Nat.lt_succ_self _)
          rcases reads.stepped finishes stop token nested closed with
            ⟨front, d, before, even, passes, nonempty, step⟩ | ⟨inside, d, reaches, stops, failed⟩
          · have along := passes.length
            have passed := List.length_pos_iff.mpr nonempty
            have later := finishes.passed passes fun _ member => ne_finish (before.goes _ member)
            have enough : d.rest.length ≤ (token :: left).length := by
              rw [List.length_cons]
              omega
            obtain ⟨inside, e, reaches, outcome⟩ :=
              ih _ (by omega) (token :: left) rounds f later rfl enough (by omega)
            rw [step]
            exact ⟨_, e, reaches.behind before even passes, outcome⟩
          · rw [failed]
            exact ⟨inside, d, reaches, .inr ⟨stops, rfl⟩⟩

end ReadBy

/-- A reading from `c` on skips a block. It succeeds where, before anything stops it, there is a
closer behind as many closers as openers. It has then passed everything up to the first one, and the
count of what is open has not fallen below zero on the way; else it has come to what stops it in the
same manner. It builds nothing. -/
structure Skips (b : Block) (f : Frame) (c : Cursor) (reading : Reading) : Prop where
  succeeds : (∃ g d, reading = .ok (g, d)) ↔
    ∃ inside rest, c.tokens.map (·.lexeme) = inside ++ b.closer :: rest ∧ b.count inside = 0 ∧
      ∀ lexeme ∈ inside, b.stops lexeme = false
  ok_iff : ∀ g d, reading = .ok (g, d) ↔
    g = f ∧ ∃ inside, b.Inside inside ∧ b.count inside = 0 ∧ c.Passes (inside ++ [b.closer]) d
  error_iff : ∀ error d, reading = .error (error, d) ↔
    error = .unexpected b.closer.describe d.current ∧ b.stops d.current.lexeme = true ∧
      ∃ inside, b.Inside inside ∧ c.Passes inside d

theorem Reaches.skips_closed (reaches : b.Reaches c inside d) (finishes : c.Finishes)
    (closer : d.current.lexeme = b.closer) : b.Skips f c (.ok (f, d.advance)) := by
  have even := reaches.even closer
  have more := (reaches.finishes finishes).more (ne_finish (closer ▸ b.closes))
  constructor
  · constructor
    · intro _
      exact ⟨inside, _, closer ▸ reaches.passes.tokens_eq, even, reaches.within.goes⟩
    · intro _
      exact ⟨f, d.advance, rfl⟩
  · intro g e
    constructor
    · rintro ⟨⟩
      exact ⟨rfl, inside, reaches.within, even,
        Cursor.passes_append.mpr ⟨d, reaches.passes, closer, more, rfl⟩⟩
    · rintro ⟨rfl, inside', within, even', passes⟩
      obtain ⟨d', before, closer', -, rfl⟩ := Cursor.passes_append.mp passes
      obtain ⟨-, rfl⟩ := reaches.unique ⟨within, before, .inl ⟨closer', even'⟩⟩
      rfl
  · intro error e
    constructor
    · rintro ⟨⟩
    · rintro ⟨-, stop, inside', within, passes⟩
      obtain ⟨-, rfl⟩ := reaches.unique ⟨within, passes, .inr stop⟩
      exact absurd stop (closer_goes closer)

theorem Reaches.skips_stopped (reaches : b.Reaches c inside d)
    (stop : b.stops d.current.lexeme = true) :
    b.Skips f c (.error (.unexpected b.closer.describe d.current, d)) := by
  constructor
  · constructor
    · rintro ⟨g, e, ⟨⟩⟩
    · rintro ⟨inside', rest, same, even, goes⟩
      exact absurd (reaches.passes.tokens_eq.symm.trans same)
        (stop_before_closer reaches.within stop goes even)
  · intro g e
    constructor
    · rintro ⟨⟩
    · rintro ⟨-, inside', within, even, passes⟩
      obtain ⟨d', before, closer, -, -⟩ := Cursor.passes_append.mp passes
      obtain ⟨-, rfl⟩ := reaches.unique ⟨within, before, .inl ⟨closer, even⟩⟩
      exact absurd stop (closer_goes closer)
  · intro error e
    constructor
    · rintro ⟨⟩
      exact ⟨rfl, stop, inside, reaches.within, reaches.passes⟩
    · rintro ⟨rfl, stop', inside', within, passes⟩
      obtain ⟨-, rfl⟩ := reaches.unique ⟨within, passes, .inr stop'⟩
      rfl

theorem ReadBy.skips (reads : b.ReadBy r) (finishes : c.Finishes)
    (enough : c.rest.length ≤ left.length) :
    b.Skips f c (read (callRule rules left) (r.loop b ++ r.close) f c) := by
  have ended := reads.ended left c.tokens f finishes enough (Nat.lt_succ_self _)
  obtain ⟨inside, d, reaches, ⟨closer, looped⟩ | ⟨stop, failed⟩⟩ := ended
  · rw [reads.closed looped closer]
    exact reaches.skips_closed finishes closer
  · have failed : read (callRule rules left) (r.loop b) f c = _ := failed
    rw [read_broken failed]
    exact reaches.skips_stopped stop

/-- A group behind its first parenthesis. -/
def parensRule : Rule :=
  ⟨symbol .openParen, symbol .closeParen, terminator ||| invalid, group, expectSymbol .closeParen⟩

def statementsRule : Rule :=
  ⟨keyword .CASE, keyword .END, .here .finish ||| invalid, .take ++ .call .atomicBody, .take⟩

theorem parens_opens :
    (symbol .openParen).holds f c = decide (c.current.lexeme = parens.opener) := by
  simp only [symbol, Test.holds]
  cases c.current.lexeme <;> simp [TokenClass.holds, parens]

theorem parens_closes :
    (symbol .closeParen).holds f c = decide (c.current.lexeme = parens.closer) := by
  simp only [symbol, Test.holds]
  cases c.current.lexeme <;> simp [TokenClass.holds, parens]

/-- A group is read by its rule from within. -/
theorem callRule_group (token : Token) (opened : c.current.lexeme = parens.opener) :
    callRule rules (token :: left) .group f c =
      read (callRule rules left) (parensRule.loop parens ++ parensRule.close) f c.advance := by
  have first : read (callRule rules left) (expectSymbol .openParen) f c = .ok (f, c.advance) := by
    rw [expectSymbol, expect, read_yes (by simp [parens_opens, opened]), Grammar.read]
  rw [callRule, rules, groupRule, inParens, append_eq_seq, Grammar.read, read_append first]
  rfl

theorem parens_readBy : parens.ReadBy parensRule where
  opens _ _ := parens_opens
  closes _ _ := parens_closes
  stops f c := by
    simp only [parensRule, holds_or, terminator, invalid, symbol, Test.holds]
    cases c.current.lexeme with
    | symbol s => cases s <;> rfl
    | _ => rfl
  nested token left f c opened := callRule_group token opened
  close call f c closed := by
    rw [parensRule, expectSymbol, expect, read_yes (by simp [parens_closes, closed]), Grammar.read]

theorem statements_readBy : statements.ReadBy statementsRule where
  opens f c := by
    simp only [statementsRule, keyword, Test.holds]
    cases c.current.lexeme <;> simp [TokenClass.holds, statements]
  closes f c := by
    simp only [statementsRule, keyword, Test.holds]
    cases c.current.lexeme <;> simp [TokenClass.holds, statements]
  stops f c := by
    simp only [statementsRule, holds_or, invalid, Test.holds]
    cases c.current.lexeme <;> rfl
  nested token left f c opened := rfl
  close call f c closed := rfl

end Block

open Grammar in
/-- Wherever the end of a text is still to come, and rules may be nested once for each token up to
it: a group that starts there is read exactly if the parenthesis that closes it stands before any
semicolon, end of the text and piece of text that is no token. A block of statements is read exactly
if an END behind as many ENDs as CASEs stands before any end of the text and piece of text that is
no token. What has been read then goes up to the first such closer. However the reading comes out,
on the way there have never been more closers than openers. -/
theorem blocks_skipped (c : Cursor) (finishes : c.Finishes) (f : Frame) (left : List Token)
    (enough : c.rest.length < left.length) :
    (c.current.lexeme = .symbol .openParen →
      Block.parens.Skips f c.advance (callRule rules left .group f c)) ∧
    Block.statements.Skips f c (callRule rules left .atomicBody f c) := by
  obtain ⟨token, left, rfl⟩ := List.exists_cons_of_length_pos (Nat.zero_lt_of_lt enough)
  rw [List.length_cons] at enough
  constructor
  · intro opens
    have plain : c.current.lexeme ≠ .finish := by simp [opens]
    have onward := Cursor.advance_shorter (finishes.more plain)
    rw [Block.callRule_group token opens]
    exact Block.parens_readBy.skips (finishes.advance plain) (by omega)
  · exact Block.statements_readBy.skips finishes (Nat.le_of_lt_succ enough)

open Grammar in
/-- A group ends before what follows it, a block of statements with the second END behind a CASE. -/
theorem nested_blocks_skipped :
    ∃ c : Cursor, c.tokens = tokenize .postgres "(a (b)) CASE END END" ∧
      (∃ d, callRule rules c.tokens .group (.opened none c) c = .ok (.opened none c, d) ∧
        d.tokens.map (·.lexeme) = [.keyword .CASE, .keyword .END, .keyword .END, .finish]) ∧
      ∃ d, callRule rules c.tokens .atomicBody (.opened none c) c = .ok (.opened none c, d) ∧
        d.tokens.map (·.lexeme) = [.finish] := by
  have tokens : (Cursor.ofTokens (tokenize .postgres "(a (b)) CASE END END")).tokens =
      tokenize .postgres "(a (b)) CASE END END" := by decide +kernel
  generalize Cursor.ofTokens (tokenize .postgres "(a (b)) CASE END END") = c at tokens
  have finishes : c.Finishes := by
    rw [Cursor.Finishes, tokens]
    exact (tokenize_inOrder _ _).finishes
  have lexemes : c.tokens.map (·.lexeme) = [.symbol .openParen, .word "a", .symbol .openParen,
      .word "b", .symbol .closeParen, .symbol .closeParen, .keyword .CASE, .keyword .END,
      .keyword .END, .finish] := by
    rw [tokens]
    decide +kernel
  obtain ⟨group, block⟩ :=
    blocks_skipped c finishes (.opened none c) c.tokens (Nat.lt_succ_self _)
  obtain ⟨opens, -⟩ := List.cons.inj lexemes
  refine ⟨c, tokens, ?_, ?_⟩
  · have split : c.tokens.map (·.lexeme) = (.symbol .openParen :: [.word "a", .symbol .openParen,
        .word "b", .symbol .closeParen] ++ [.symbol .closeParen]) ++
          .keyword .CASE :: [.keyword .END, .keyword .END, .finish] := lexemes
    obtain ⟨d, ⟨-, -, passes⟩, behind⟩ := Cursor.exists_passes split
    have skipped := ((group opens).ok_iff _ d).mpr
      ⟨rfl, _, by decide +kernel, by decide +kernel, passes⟩
    exact ⟨d, skipped, behind⟩
  · have split : c.tokens.map (·.lexeme) = ([.symbol .openParen, .word "a", .symbol .openParen,
        .word "b", .symbol .closeParen, .symbol .closeParen, .keyword .CASE, .keyword .END] ++
          [.keyword .END]) ++ .finish :: [] := lexemes
    obtain ⟨d, passes, behind⟩ := Cursor.exists_passes split
    have skipped := (block.ok_iff _ d).mpr ⟨rfl, _, by decide +kernel, by decide +kernel, passes⟩
    exact ⟨d, skipped, behind⟩

end SqlAudit
