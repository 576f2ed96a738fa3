import SqlAudit.Proofs.Grammar.Steps
import SqlAudit.Proofs.Grammar.Survey
/-!
Surveys are sound: where an outlook fits a cursor, a reading by a surveyed grammar is made of steps
that keep to what is watched, and the outlook after it fits the cursor it ends at.
-/
namespace SqlAudit

/-- Tokens that are read, up to the end of a text of `size` bytes, and the number of those at their
end that the reading is not followed into. -/
structure Range where
  tokens : List Token
  size : Nat
  beyond : Nat

structure Cursor.Within (r : Range) (c : Cursor) : Prop where
  suffix : c.tokens <:+ r.tokens
  ordered : c.Ordered r.size
  inside : r.beyond ≤ c.rest.length

/-- If the current token is watched, then it stands right after a loose one. -/
def Guard (w : Watch) (r : Range) (c : Cursor) : Prop :=
  c.current.lexeme.outline = w.watched →
    ∃ before : Token, before.lexeme.outline ∈ w.loose ∧ (before :: c.tokens) <:+ r.tokens

/-- The outlook is true of a cursor, in a node opened before the last `m` tokens and a rule entered
before the last `e` ones. -/
structure Fits (w : Watch) (r : Range) (m e : Nat) (o : Outlook) (c : Cursor) : Prop where
  within : c.Within r
  possible : o.possible (some c.current.lexeme.outline) (some c.peek.lexeme.outline) = true
  phrase : ∀ phrases, .phrase phrases ∈ o.known → ∀ f, (Test.phrase phrases).holds f c = true
  guarded : o.guarded = true → Guard w r c
  ready : o.ready = true → c.current.lexeme ≠ .finish
  begun : c.rest.length ≤ m
  moved : o.moved = true → c.rest.length < m
  opened : c.rest.length ≤ e
  entered : o.entered = true → c.rest.length < e

variable {w : Watch} {r : Range} {m e : Nat} {o : Outlook} {c d : Cursor} {f : Frame}

theorem Cursor.Within.advance (within : c.Within r) (inside : r.beyond ≤ c.advance.rest.length) :
    c.advance.Within r :=
  ⟨c.advance_suffix.trans within.suffix, within.ordered.advance, inside⟩

theorem Cursor.Within.after (within : c.Within r) {ok : Cursor → Prop} (path : Path ok c d)
    (inside : r.beyond ≤ d.rest.length) : d.Within r :=
  ⟨path.suffix.trans within.suffix, path.ordered within.ordered, inside⟩

namespace Test

theorem may_plain (test : Test) (current next : Option Lexeme) (verdict : Bool) :
    test.plain.may current next verdict = test.may current next verdict := by
  induction test generalizing verdict with
  | here tokens => cases tokens <;> rfl
  | next tokens => cases tokens <;> rfl
  | both a b first second => cases verdict <;> simp [plain, may, first, second]
  | either a b first second => cases verdict <;> simp [plain, may, first, second]
  | neither a ih => simp [plain, may, ih]
  | _ => rfl

theorem plain_eq_phrase {test : Test} {phrases : Phrases} (same : test.plain = .phrase phrases) :
    test = .phrase phrases := by
  cases test with
  | here tokens => cases tokens <;> cases same
  | next tokens => cases tokens <;> cases same
  | phrase other => exact same
  | _ => cases same

end Test

namespace Outlook

theorem possible_iff {current next : Option Lexeme} :
    o.possible current next = true ↔ ∀ test ∈ o.known, test.may current next true = true := by
  rw [possible, List.all_eq_true]

theorem possible_weaken {current current' next next' : Option Lexeme}
    (here : current' = current ∨ current' = none) (after : next' = next ∨ next' = none)
    (possible : o.possible current next = true) : o.possible current' next' = true := by
  rw [possible_iff] at possible ⊢
  intro test member
  exact Test.may_weaken here after (possible test member)

theorem mem_currents {lexeme : Lexeme} {next : Option Lexeme}
    (possible : o.possible (some lexeme.outline) next = true) :
    some lexeme.outline ∈ o.currents ∨ none ∈ o.currents := by
  unfold currents
  split
  · rename_i outlines found
    obtain ⟨test, member, listed⟩ := List.exists_of_findSome?_eq_some found
    have may := possible_iff.mp possible test member
    exact .inl (List.mem_map_of_mem (Test.mem_outlines listed may))
  · exact .inr (List.mem_singleton.mpr rfl)

end Outlook

namespace Fits

theorem excludes (fits : Fits w r m e o c) {lexeme : Lexeme} (excluded : o.excludes lexeme = true) :
    c.current.lexeme.outline ≠ lexeme := by
  rintro rfl
  have possible := Outlook.possible_weaken (.inl rfl) (.inr rfl) fits.possible
  simp [Outlook.excludes, possible] at excluded

theorem safe (fits : Fits w r m e o c) (safe : o.safe w = true) : Guard w r c := by
  rcases Bool.or_eq_true_iff.mp safe with excluded | guarded
  · intro watched
    exact absurd watched (fits.excludes excluded)
  · exact fits.guarded guarded

theorem live (fits : Fits w r m e o c) (live : o.live = true) : c.rest ≠ [] := by
  intro last
  have finish := fits.within.ordered.finish_iff.mpr last
  rcases Bool.or_eq_true_iff.mp live with excluded | ready
  · exact fits.excludes excluded (by rw [finish]; rfl)
  · exact fits.ready ready finish

theorem feasible (fits : Fits w r m e o c) : o.feasible = true := by
  rw [Outlook.feasible, List.any_eq_true]
  rcases Outlook.mem_currents fits.possible with known | unknown
  · exact ⟨_, known, Outlook.possible_weaken (.inl rfl) (.inr rfl) fits.possible⟩
  · exact ⟨_, unknown, Outlook.possible_weaken (.inr rfl) (.inr rfl) fits.possible⟩

/-- What all outlines of the current token agree on is so at the cursor. -/
theorem of_currents (fits : Fits w r m e o c) {P : Option Lexeme → Bool}
    (every : o.currents.all P = true) : P (some c.current.lexeme.outline) = true ∨ P none = true :=
  (Outlook.mem_currents fits.possible).imp (List.all_eq_true.mp every _)
    (List.all_eq_true.mp every _)

theorem unknown (within : c.Within r) {moved entered : Bool} (begun : c.rest.length ≤ m)
    (isMoved : moved = true → c.rest.length < m) (opened : c.rest.length ≤ e)
    (isEntered : entered = true → c.rest.length < e) :
    Fits w r m e (.unknown moved entered) c :=
  ⟨within, rfl, by simp [Outlook.unknown], by simp [Outlook.unknown], by simp [Outlook.unknown],
    begun, isMoved, opened, isEntered⟩

theorem learn (fits : Fits w r m e o c) {test : Test} (holds : test.holds f c = true) :
    Fits w r m e (o.learn test) c := by
  refine { fits with possible := ?_, phrase := ?_ }
  · have may := test.may_holds f c
    rw [holds, ← Test.may_plain] at may
    simpa [Outlook.possible, Outlook.learn, may] using fits.possible
  · intro phrases member g
    rcases List.mem_cons.mp member with same | known
    · rw [Test.plain_eq_phrase same.symm] at holds
      exact holds
    · exact fits.phrase phrases known g

/-- The node under construction has just been opened. -/
theorem inNode (fits : Fits w r m e o c) :
    Fits w r c.rest.length e { o with moved := false } c :=
  { fits with begun := Nat.le_refl _, moved := by simp }

theorem join_left {a b : Outlook} (fits : Fits w r m e a c) : Fits w r m e (a.join w b) c := by
  refine ⟨fits.within, rfl, by simp [Outlook.join], ?_, ?_, fits.begun, ?_, fits.opened, ?_⟩
  · intro both
    exact fits.safe (Bool.and_eq_true_iff.mp both).1
  · intro both finish
    exact fits.live (Bool.and_eq_true_iff.mp both).1 (fits.within.ordered.finish_iff.mp finish)
  · intro both
    exact fits.moved (Bool.and_eq_true_iff.mp both).1
  · intro both
    exact fits.entered (Bool.and_eq_true_iff.mp both).1

theorem join_right {a b : Outlook} (fits : Fits w r m e b c) : Fits w r m e (a.join w b) c := by
  have swapped : a.join w b = b.join w a := by
    simp only [Outlook.join, Bool.and_comm]
  rw [swapped]
  exact fits.join_left

theorem take (fits : Fits w r m e o c) (allowed : Guard w r c)
    (inside : r.beyond ≤ c.advance.rest.length) : Fits w r m e (o.afterTake w) c.advance := by
  have shorter := Cursor.rest_length_le c.advance_suffix
  have begun := fits.begun
  have opened := fits.opened
  have onward : o.live = true → c.advance.rest.length < c.rest.length :=
    fun live => Cursor.advance_shorter (fits.live live)
  have next : ∀ lexeme : Lexeme, c.peek.lexeme.outline = lexeme →
      ∀ current, (current = some c.current.lexeme.outline ∨ current = none) →
      o.possible current (some lexeme) = true := by
    rintro _ rfl current here
    exact Outlook.possible_weaken here (.inl rfl) fits.possible
  refine ⟨fits.within.advance inside, rfl, by simp [Outlook.afterTake], ?_, ?_,
    shorter.trans begun, ?_, shorter.trans opened, ?_⟩
  · intro guarded watched
    by_cases last : c.rest = []
    · have stays := Cursor.advance_last last
      rw [stays]
      exact allowed (by rwa [(List.cons.inj stays).1] at watched)
    rw [Cursor.advance_current] at watched
    have loose : w.loose.contains c.current.lexeme.outline = true := by
      rcases fits.of_currents guarded with known | unknown
      · simpa [next _ watched _ (.inl rfl), Outlook.isLoose] using known
      · simp [next _ watched _ (.inr rfl), Outlook.isLoose] at unknown
    refine ⟨c.current, List.contains_iff_mem.mp loose, ?_⟩
    rw [← Cursor.tokens_advance last]
    exact fits.within.suffix
  · intro ready finish
    rw [Cursor.advance_current] at finish
    have outline : c.peek.lexeme.outline = .finish := by rw [finish]; rfl
    rcases fits.of_currents ready with known | unknown
    · simp [next _ outline _ (.inl rfl)] at known
    · simp [next _ outline _ (.inr rfl)] at unknown
  · intro moved
    rcases Bool.or_eq_true_iff.mp moved with live | already
    · exact (onward live).trans_le begun
    · exact shorter.trans_lt (fits.moved already)
  · intro entered
    rcases Bool.or_eq_true_iff.mp entered with live | already
    · exact (onward live).trans_le opened
    · exact shorter.trans_lt (fits.entered already)

theorem turn (fits : Fits w r m e o c) (depth : Nat) :
    Fits w r m e o { c with depth := depth } :=
  ⟨⟨fits.within.suffix, fits.within.ordered, fits.within.inside⟩, fits.possible, fits.phrase,
    fits.guarded, fits.ready, fits.begun, fits.moved, fits.opened, fits.entered⟩

/-- A node has been closed that was opened at `c`. -/
theorem closeNode (before : Fits w r m e o c) {inner : Outlook}
    (fits : Fits w r c.rest.length e inner d) (moved : inner.moved = true) :
    Fits w r m e { inner with moved := true, entered := true } d := by
  have node := fits.moved moved
  exact ⟨fits.within, fits.possible, fits.phrase, fits.guarded, fits.ready,
    node.le.trans before.begun, fun _ => node.trans_le before.begun, fits.opened,
    fun _ => node.trans_le before.opened⟩

end Fits

/-- What a reading has to show for itself, unless it went beyond the range: steps up to a cursor
that the outlook fits, or an error about the token it came to. -/
def Lawful (w : Watch) (r : Range) (m e : Nat) (o : Outlook) (f : Frame) (c : Cursor) :
    Reading → Prop
  | .ok (g, d) => r.beyond ≤ d.rest.length → Steps (Guard w r) f c g d ∧ Fits w r m e o d
  | .error (error, d) =>
    r.beyond ≤ d.rest.length → Path (Guard w r) c d ∧ error.span = d.current.span

namespace Lawful

variable {o' : Outlook} {g : Frame} {reading : Reading}

theorem mono (lawful : Lawful w r m e o f c reading)
    (weaker : ∀ d, Fits w r m e o d → Fits w r m e o' d) : Lawful w r m e o' f c reading := by
  match reading, lawful with
  | .ok (g, d), lawful => exact fun inside => (lawful inside).imp id (weaker d)
  | .error (error, d), lawful => exact lawful

/-- A rule has been left that took a token. -/
theorem widen (lawful : Lawful w r c.rest.length c.rest.length (.unknown true true) f c reading)
    (begun : c.rest.length ≤ m) (opened : c.rest.length ≤ e) :
    Lawful w r m e (.unknown true true) f c reading := by
  match reading, lawful with
  | .ok (g, d), lawful =>
      intro inside
      obtain ⟨steps, fits⟩ := lawful inside
      have moved := fits.moved rfl
      refine ⟨steps, .unknown fits.within (by omega) (fun _ => by omega) (by omega) ?_⟩
      intro _
      omega
  | .error (error, d), lawful => exact lawful

/-- Steps are taken first, and the reading goes on from where they end. -/
theorem after (onward : reading.cursor.tokens <:+ d.tokens)
    (steps : r.beyond ≤ d.rest.length → Steps (Guard w r) f c g d)
    (rest : r.beyond ≤ d.rest.length → Lawful w r m e o g d reading) :
    Lawful w r m e o f c reading := by
  have earlier := Cursor.rest_length_le onward
  match reading, earlier, rest with
  | .ok (h, b), earlier, rest =>
      intro inside
      have back := inside.trans earlier
      obtain ⟨more, fits⟩ := rest back inside
      exact ⟨(steps back).trans more, fits⟩
  | .error (error, b), earlier, rest =>
      intro inside
      have back := inside.trans earlier
      obtain ⟨path, span⟩ := rest back inside
      exact ⟨(steps back).path.trans path, span⟩

end Lawful

theorem phrase_path (phrases : Phrases) (matched : List String) (left : List Token) (c : Cursor) :
    Path (Guard w r) c (c.phrase phrases matched left).2 := by
  induction left generalizing matched c with
  | nil => exact .here
  | cons token left ih =>
      rw [Cursor.phrase]
      split
      · rename_i word spelled
        have allowed : Guard w r c := by
          intro watched
          have silent := w.notWord
          rw [← watched] at silent
          cases lexeme : c.current.lexeme <;>
            simp [lexeme, Lexeme.outline, Lexeme.capitals?] at silent spelled
        split
        · exact (Path.take .here allowed).trans (ih _ c.advance)
        · exact .here
      · exact .here

/-- Where a phrase starts, its first word is read. -/
theorem phrase_moves {phrases : Phrases} (ordered : c.Ordered r.size)
    (starts : (Test.phrase phrases).holds f c = true) :
    (c.phrase phrases [] c.tokens).2.rest.length < c.rest.length := by
  rw [Cursor.tokens, Cursor.phrase]
  rw [Test.holds] at starts
  split
  · rename_i word spelled
    simp only [spelled] at starts
    have notFinish : c.current.lexeme ≠ .finish := by
      intro finish
      simp [finish, Lexeme.capitals?] at spelled
    have shorter := Cursor.advance_shorter (ordered.more notFinish)
    have after := Cursor.rest_length_le (c.advance.phrase_suffix phrases ([] ++ [word]) c.rest)
    rw [if_pos (by simpa using starts)]
    exact after.trans_lt shorter
  · rename_i silent
    simp [silent] at starts

namespace Grammar

/-- Each round takes a token, so a loop only ends where its test fails. -/
theorem repeatWhile_sound {test : Test} {step : Frame → Cursor → Reading} {round : Outlook}
    {entered moved isEntered : Bool}
    (onward : ∀ f c, (step f c).cursor.tokens <:+ c.tokens)
    (rounds : ∀ m f c, Fits w r m e ((Outlook.unknown false entered).learn test) c →
      Lawful w r m e round f c (step f c))
    (progress : round.moved = true) (still : entered = true → isEntered = true)
    (left : List Token) (enough : c.rest.length < left.length)
    (fits : Fits w r m e (.unknown moved isEntered) c) :
    Lawful w r m e ((Outlook.unknown moved isEntered).learn test.neither) f c
      (repeatWhile test step left f c) := by
  induction left generalizing f c with
  | nil => exact absurd enough (Nat.not_lt_zero _)
  | cons token left ih =>
      rw [repeatWhile]
      split
      · rename_i holds
        have here : Fits w r c.rest.length e (.unknown false entered) c :=
          .unknown fits.within (Nat.le_refl _) (by simp) fits.opened
            fun so => fits.entered (still so)
        have one := rounds _ f c (here.learn holds)
        split <;> rename_i found <;> rw [found] at one
        · rename_i g d
          apply Lawful.after (repeatWhile_suffix onward left g d) fun inside => (one inside).1
          intro inside
          obtain ⟨steps, after⟩ := one inside
          have moved := after.moved progress
          have begun := fits.begun
          have opened := fits.opened
          rw [List.length_cons] at enough
          apply ih (by omega)
          exact .unknown after.within (by omega) (fun _ => by omega) (by omega) fun _ => by omega
        · exact one
      · rename_i fails
        intro inside
        exact ⟨.done, fits.learn (f := f) (by simpa [Test.holds] using fails)⟩

theorem loop_sound {test : Test} {step : Frame → Cursor → Reading} {round : Outlook}
    (onward : ∀ f c, (step f c).cursor.tokens <:+ c.tokens)
    (rounds : ∀ m f c, Fits w r m e ((Outlook.unknown false o.entered).learn test) c →
      Lawful w r m e round f c (step f c))
    (progress : round.moved = true) (fits : Fits w r m e o c) :
    Lawful w r m e (o.afterLoop test) f c (repeatWhile test step c.tokens f c) := by
  have begun := fits.begun
  have opened := fits.opened
  by_cases holds : test.holds f c = true
  · have here : Fits w r c.rest.length e (.unknown false o.entered) c :=
      .unknown fits.within (Nat.le_refl _) (by simp) opened fits.entered
    have one := rounds _ f c (here.learn holds)
    rw [Cursor.tokens, repeatWhile, if_pos holds]
    split <;> rename_i found <;> rw [found] at one
    · rename_i g d
      apply Lawful.after (repeatWhile_suffix onward c.rest g d) fun inside => (one inside).1
      intro inside
      have after := (one inside).2
      have moved := after.moved progress
      apply repeatWhile_sound onward rounds progress (by simp_all) c.rest moved
      exact .unknown after.within (by omega) (fun _ => by omega) (by omega) fun _ => by omega
    · exact one
  · have refuted : test.neither.holds f c = true := by simpa [Test.holds] using holds
    have none : (o.learn test.neither).feasible = true := (fits.learn refuted).feasible
    rw [Cursor.tokens, repeatWhile, if_neg holds]
    refine fun inside => ⟨.done, Fits.learn ?_ refuted⟩
    simp only [none, Bool.not_true, Bool.or_false]
    exact .unknown fits.within begun fits.moved opened fits.entered

variable {call : Nonterminal → Frame → Cursor → Reading}

/-- Rules that are not closed, called after a token of the calling rule. -/
def CallsSound (w : Watch) (r : Range) (call : Nonterminal → Frame → Cursor → Reading) (e : Nat) :
    Prop :=
  ∀ name f c, w.closed.contains name = false → c.Within r → c.rest.length < e →
    Lawful w r c.rest.length c.rest.length (.unknown true true) f c (call name f c)

/-- Tests that are barred never hold inside the range. -/
def Unbarred (w : Watch) (r : Range) : Prop :=
  ∀ test ∈ w.barred, ∀ f c, c.Within r → test.holds f c = false

/-- A phrase takes a token where one is known to start. -/
theorem phrase_sound {phrases : Phrases} (fits : Fits w r m e o c) :
    Lawful w r m e (.unknown (o.moved || o.known.contains (.phrase phrases))
      (o.entered || o.known.contains (.phrase phrases))) f c (read call (.phrase phrases) f c) := by
  have path := phrase_path (w := w) (r := r) phrases [] c.tokens c
  have shorter := Cursor.rest_length_le path.suffix
  have first : o.known.contains (.phrase phrases) = true →
      (c.phrase phrases [] c.tokens).2.rest.length < c.rest.length := by
    intro known
    exact phrase_moves fits.within.ordered (fits.phrase phrases (List.contains_iff_mem.mp known) f)
  have begun := fits.begun
  have opened := fits.opened
  have after : r.beyond ≤ (c.phrase phrases [] c.tokens).2.rest.length →
      Fits w r m e (.unknown (o.moved || o.known.contains (.phrase phrases))
        (o.entered || o.known.contains (.phrase phrases))) (c.phrase phrases [] c.tokens).2 := by
    intro inside
    apply Fits.unknown (fits.within.after path inside) (by omega) _ (by omega)
    · intro flag
      rcases Bool.or_eq_true_iff.mp flag with already | known
      · exact shorter.trans_lt (fits.entered already)
      · exact (first known).trans_le opened
    · intro flag
      rcases Bool.or_eq_true_iff.mp flag with already | known
      · exact shorter.trans_lt (fits.moved already)
      · exact (first known).trans_le begun
  rw [read]
  split <;> rename_i found <;> rw [found] at path after
  · intro inside
    exact ⟨Steps.of_path path, after inside⟩
  · intro inside
    exact ⟨(Steps.of_path path).trans (.write _), after inside⟩

theorem survey_sound (unbarred : Unbarred w r)
    (onward : ∀ name f c, (call name f c).cursor.tokens <:+ c.tokens)
    (calls : CallsSound w r call e) (a : Grammar) {o' : Outlook}
    (surveyed : survey w a o = some o') (fits : Fits w r m e o c) :
    Lawful w r m e o' f c (read call a f c) := by
  induction a generalizing o o' m f c with
  | nothing =>
      cases surveyed
      intro inside
      refine ⟨.done, { fits with moved := ?_ }⟩
      simpa [fits.feasible] using fits.moved
  | fail expected => exact fun inside => ⟨.here, by simp [SyntaxError.unexpected]⟩
  | take =>
      obtain ⟨safe, rfl⟩ := survey_take surveyed
      intro inside
      exact ⟨.take (fits.safe safe), fits.take (fits.safe safe) inside⟩
  | copy spelling =>
      cases surveyed
      intro inside
      exact ⟨.write _, fits⟩
  | write text =>
      cases surveyed
      intro inside
      exact ⟨.write _, fits⟩
  | gap =>
      cases surveyed
      intro inside
      exact ⟨.write _, fits⟩
  | become kind =>
      obtain ⟨read, rfl⟩ := survey_become surveyed
      intro inside
      exact ⟨.become kind (by simpa using read), fits⟩
  | dissolve =>
      cases surveyed
      intro inside
      exact ⟨.become none (by simp), fits⟩
  | splice =>
      cases surveyed
      intro inside
      exact ⟨.splice, fits⟩
  | echo =>
      cases surveyed
      intro inside
      refine ⟨?_, fits⟩
      rw [Frame.echo]
      split
      · exact .done
      · exact .write _
  | phrase phrases =>
      cases surveyed
      exact phrase_sound fits
  | seq a b first second =>
      obtain ⟨between, left, right⟩ := Option.bind_eq_some_iff.mp surveyed
      have one := first (f := f) left fits
      rw [read]
      split <;> rename_i found <;> rw [found] at one
      · rename_i g d
        exact .after (read_suffix onward b g d) (fun inside => (one inside).1)
          fun inside => second right (one inside).2
      · exact one
  | branch test a b first second =>
      rw [read]
      rcases survey_branch surveyed with ⟨barred, right⟩ | ⟨-, yes, no, left, right, rfl⟩
      · have never := unbarred test (List.contains_iff_mem.mp barred) f c fits.within
        rw [if_neg (by simp [never])]
        exact second right fits
      · split
        · rename_i holds
          exact (first left (fits.learn holds)).mono fun d => Fits.join_left
        · rename_i fails
          have refuted : test.neither.holds f c = true := by simpa [Test.holds] using fails
          exact (second right (fits.learn refuted)).mono fun d => Fits.join_right
  | loop test a ih =>
      obtain ⟨-, round, body, progress, rfl⟩ := survey_loop surveyed
      exact loop_sound (read_suffix onward a) (fun m f c => ih body) progress fits
  | node kind a ih =>
      obtain ⟨inner, body, moved, real, rfl⟩ := survey_node surveyed
      have one := ih (f := .opened kind c) body fits.inNode
      rw [read]
      split <;> rename_i found <;> rw [found] at one
      · intro inside
        obtain ⟨steps, after⟩ := one inside
        exact ⟨.node real steps (after.moved moved), fits.closeNode after moved⟩
      · exact one
  | wrap kind a ih =>
      obtain ⟨inner, body, moved, real, rfl⟩ := survey_node surveyed
      have one := ih (f := (f.wrapLast kind c).1) body fits.inNode
      rw [read]
      split <;> rename_i found <;> rw [found] at one
      · intro inside
        obtain ⟨steps, after⟩ := one inside
        exact ⟨.wrap real steps (after.moved moved), fits.closeNode after moved⟩
      · exact one
  | discard a ih =>
      have one := ih (f := .opened none c) surveyed fits
      rw [read]
      split <;> rename_i found <;> rw [found] at one
      · intro inside
        exact ⟨.discard (one inside).1, (one inside).2⟩
      · exact one
  | deeper a ih =>
      have one := ih (f := f) surveyed (fits.turn (c.depth + 1))
      rw [read]
      dsimp only
      split
      · intro inside
        exact ⟨.turn .here _, rfl⟩
      · split <;> rename_i found <;> rw [found] at one
        · intro inside
          obtain ⟨steps, after⟩ := one inside
          exact ⟨((Steps.turn _).trans steps).trans (.turn _), after.turn _⟩
        · intro inside
          obtain ⟨path, span⟩ := one inside
          exact ⟨(Path.turn .here _).trans path, span⟩
  | call name =>
      obtain ⟨entered, called, rfl⟩ := survey_call surveyed
      have begun := fits.begun
      have opened := fits.opened
      have one := calls name f c called fits.within (fits.entered entered)
      rw [read]
      exact Lawful.widen one begun opened

end Grammar
end SqlAudit
