import SqlAudit.Proofs.Grammar.Derivation
/-!
Readings that are broken off. `Refuses` follows a grammar as `Derives` does, up to where an error
arises: what stands before is derived, and what is open there is left as it is. Every reading of a
surveyed grammar is either derived or refused, and there is but one way for it to go.
-/
namespace SqlAudit

namespace Grammar

/-- By the grammar, a reading from the first cursor breaks off with an error at the second one. -/
inductive Refuses (rules : Nonterminal → Grammar) :
    Grammar → Frame → Cursor → SyntaxError → Cursor → Prop
  | fail {expected : String} {f : Frame} {c : Cursor} :
      Refuses rules (.fail expected) f c (.unexpected expected c.current) c
  | first {a b : Grammar} {f : Frame} {c e : Cursor} {error : SyntaxError}
      (one : Refuses rules a f c error e) : Refuses rules (.seq a b) f c error e
  | second {a b : Grammar} {f g : Frame} {c d e : Cursor} {error : SyntaxError}
      (first : Derives rules a f c g d) (later : Refuses rules b g d error e) :
      Refuses rules (.seq a b) f c error e
  | yes {test : Test} {a b : Grammar} {f : Frame} {c e : Cursor} {error : SyntaxError}
      (holds : test.holds f c = true) (taken : Refuses rules a f c error e) :
      Refuses rules (.branch test a b) f c error e
  | no {test : Test} {a b : Grammar} {f : Frame} {c e : Cursor} {error : SyntaxError}
      (fails : test.holds f c = false) (taken : Refuses rules b f c error e) :
      Refuses rules (.branch test a b) f c error e
  | round {test : Test} {a : Grammar} {f : Frame} {c e : Cursor} {error : SyntaxError}
      (holds : test.holds f c = true) (once : Refuses rules a f c error e) :
      Refuses rules (.loop test a) f c error e
  | again {test : Test} {a : Grammar} {f g : Frame} {c d e : Cursor} {error : SyntaxError}
      (holds : test.holds f c = true) (once : Derives rules a f c g d)
      (later : Refuses rules (.loop test a) g d error e) : Refuses rules (.loop test a) f c error e
  | node {kind : NodeKind} {a : Grammar} {f : Frame} {c e : Cursor} {error : SyntaxError}
      (inner : Refuses rules a (.opened kind c) c error e) :
      Refuses rules (.node kind a) f c error e
  | wrap {kind : NodeKind} {a : Grammar} {f : Frame} {c e : Cursor} {error : SyntaxError}
      (inner : Refuses rules a (f.wrapLast kind c).1 c error e) :
      Refuses rules (.wrap kind a) f c error e
  | discard {a : Grammar} {f : Frame} {c e : Cursor} {error : SyntaxError}
      (inner : Refuses rules a (.opened none c) c error e) : Refuses rules (.discard a) f c error e
  | limit {a : Grammar} {f : Frame} {c : Cursor} (deep : maxDepth ≤ c.depth) :
      Refuses rules (.deeper a) f c ⟨.tooDeep, c.current.span⟩ { c with depth := c.depth + 1 }
  | deeper {a : Grammar} {f : Frame} {c e : Cursor} {error : SyntaxError}
      (shallow : c.depth < maxDepth)
      (inner : Refuses rules a f { c with depth := c.depth + 1 } error e) :
      Refuses rules (.deeper a) f c error e
  | call {name : Nonterminal} {f : Frame} {c e : Cursor} {error : SyntaxError}
      (ruled : Refuses rules (rules name) f c error e) : Refuses rules (.call name) f c error e

variable {w : Watch} {r : Range} {m b : Nat} {o o' : Outlook} {f g g' : Frame}
  {c d d' e e' : Cursor} {a : Grammar} {error error' : SyntaxError} {rules : Nonterminal → Grammar}
  {call : Nonterminal → Frame → Cursor → Reading}

theorem repeatWhile_refuses {test : Test} {step : Frame → Cursor → Reading} {round : Outlook}
    {entered : Bool} (whole : r.beyond = 0)
    (rounds : ∀ f c, Fits w r c.rest.length b ((Outlook.unknown false entered).learn test) c →
      Lawful w r c.rest.length b round f c (step f c))
    (derive : ∀ f c g d, Fits w r c.rest.length b ((Outlook.unknown false entered).learn test) c →
      step f c = .ok (g, d) → Derives rules a f c g d)
    (refuse : ∀ f c, Fits w r c.rest.length b ((Outlook.unknown false entered).learn test) c →
      step f c = .error (error, e) → Refuses rules a f c error e)
    (progress : round.moved = true) (left : List Token)
    (fits : Fits w r c.rest.length b (.unknown false entered) c)
    (failed : repeatWhile test step left f c = .error (error, e)) :
    Refuses rules (.loop test a) f c error e := by
  induction left generalizing f c with
  | nil => cases failed
  | cons token left ih =>
      rw [repeatWhile] at failed
      split at failed
      · rename_i holds
        have here := fits.learn holds
        have lawful := rounds f c here
        split at failed <;> rename_i found <;> rw [found] at lawful
        · rename_i h d
          have later := (lawful (whole ▸ Nat.zero_le _)).2
          have moved := later.moved progress
          have opened := later.opened
          refine .again holds (derive f c h d here found) (ih ?_ failed)
          apply Fits.unknown later.within (Nat.le_refl _) (by simp) opened
          intro so
          have entered := fits.entered so
          omega
        · cases failed
          exact .round holds (refuse f c here found)
      · cases failed

/-- Calls of rules that are not closed are refused if they fail. -/
def CallsRefuse (rules : Nonterminal → Grammar) (w : Watch) (r : Range)
    (call : Nonterminal → Frame → Cursor → Reading) (b : Nat) : Prop :=
  ∀ name f c error e, w.closed.contains name = false → c.Within r → c.rest.length < b →
    call name f c = .error (error, e) → Refuses rules (.call name) f c error e

theorem read_refuses (whole : r.beyond = 0) (unbarred : Unbarred w r)
    (onward : ∀ name f c, (call name f c).cursor.tokens <:+ c.tokens)
    (calls : CallsSound w r call b) (derive : CallsDerive rules w r call b)
    (refuse : CallsRefuse rules w r call b) (a : Grammar) {o' : Outlook}
    (surveyed : survey w a o = some o') (fits : Fits w r m b o c)
    (failed : read call a f c = .error (error, e)) : Refuses rules a f c error e := by
  have inside : ∀ {d : Cursor}, r.beyond ≤ d.rest.length := whole ▸ Nat.zero_le _
  induction a generalizing o o' m f c with
  | fail expected =>
      cases failed
      exact .fail
  | phrase phrases =>
      rw [read] at failed
      split at failed <;> cases failed
  | seq a b first second =>
      obtain ⟨between, left, right⟩ := Option.bind_eq_some_iff.mp surveyed
      have lawful := survey_sound (f := f) unbarred onward calls a left fits
      rw [read] at failed
      split at failed <;> rename_i found
      · rw [found] at lawful
        exact .second (read_derives whole unbarred onward calls derive a left fits found)
          (second right (lawful inside).2 failed)
      · cases failed
        exact .first (first left fits found)
  | branch test a b first second =>
      rw [read] at failed
      rcases survey_branch surveyed with ⟨barred, right⟩ | ⟨-, yes, no, left, right, -⟩
      · have never := unbarred test (List.contains_iff_mem.mp barred) f c fits.within
        rw [if_neg (by simp [never])] at failed
        exact .no never (second right fits failed)
      · split at failed
        · rename_i holds
          exact .yes holds (first left (fits.learn holds) failed)
        · rename_i fails
          have refuted : test.neither.holds f c = true := by simpa [Test.holds] using fails
          exact .no (by simpa using fails) (second right (fits.learn refuted) failed)
  | loop test a ih =>
      obtain ⟨-, round, body, progress, -⟩ := survey_loop surveyed
      have start : Fits w r c.rest.length b (.unknown false o.entered) c :=
        .unknown fits.within (Nat.le_refl _) (by simp) fits.opened fits.entered
      exact repeatWhile_refuses whole (fun f c => survey_sound unbarred onward calls a body)
        (fun f c g d fits => read_derives whole unbarred onward calls derive a body fits)
        (fun f c fits failed => ih body fits failed) progress c.tokens start failed
  | node kind a ih =>
      obtain ⟨inner, body, -⟩ := survey_node surveyed
      rw [read] at failed
      split at failed <;> rename_i found <;> cases failed
      exact .node (ih body fits.inNode found)
  | wrap kind a ih =>
      obtain ⟨inner, body, -⟩ := survey_node surveyed
      rw [read] at failed
      split at failed <;> rename_i found <;> cases failed
      exact .wrap (ih body fits.inNode found)
  | discard a ih =>
      rw [read] at failed
      split at failed <;> rename_i found <;> cases failed
      exact .discard (ih surveyed fits found)
  | deeper a ih =>
      rw [read] at failed
      dsimp only at failed
      split at failed
      · rename_i deep
        cases failed
        exact .limit (Nat.le_of_lt_succ deep)
      · rename_i shallow
        split at failed <;> rename_i found <;> cases failed
        exact .deeper (Nat.lt_of_succ_le (Nat.not_lt.mp shallow))
          (ih surveyed (fits.turn (c.depth + 1)) found)
  | call name =>
      obtain ⟨entered, called, -⟩ := survey_call surveyed
      exact refuse name f c error e called fits.within (fits.entered entered) failed
  | _ => cases failed

/-- Rules that are nested in one another have tokens enough to be nested by. -/
theorem callRule_calls (whole : r.beyond = 0) (unbarred : Unbarred w r)
    (passed : ∀ name, w.closed.contains name = false → passes w (rules name) false = true)
    {left : List Token} (enough : b ≤ left.length) :
    CallsSound w r (callRule rules left) b ∧ CallsDerive rules w r (callRule rules left) b := by
  constructor
  · intro name f c called within deeper
    exact callRule_sound unbarred passed left name f c called within (by omega)
  · intro name f c g d called within deeper ok
    exact callRule_derives whole unbarred passed left name f c g d called within (by omega) ok

theorem callRule_refuses (whole : r.beyond = 0) (unbarred : Unbarred w r)
    (passed : ∀ name, w.closed.contains name = false → passes w (rules name) false = true)
    (left : List Token) (name : Nonterminal) (f : Frame) (c : Cursor) (error : SyntaxError)
    (e : Cursor) (called : w.closed.contains name = false) (within : c.Within r)
    (enough : c.rest.length < left.length)
    (failed : callRule rules left name f c = .error (error, e)) :
    Refuses rules (.call name) f c error e := by
  induction left generalizing name f c error e with
  | nil => exact absurd enough (Nat.not_lt_zero _)
  | cons token left ih =>
      have enough : c.rest.length ≤ left.length := Nat.le_of_lt_succ enough
      have passes := passed name called
      rw [SqlAudit.passes] at passes
      cases surveyed : survey w (rules name) (.unknown false false) with
      | none => simp [surveyed] at passes
      | some outlook =>
          obtain ⟨calls, derive⟩ := callRule_calls whole unbarred passed enough
          have refuse : CallsRefuse rules w r (callRule rules left) c.rest.length := by
            intro name f d error e called within deeper failed
            exact ih name f d error e called within (by omega) failed
          have start : Fits w r c.rest.length c.rest.length (.unknown false false) c :=
            .unknown within (Nat.le_refl _) (by simp) (Nat.le_refl _) (by simp)
          exact .call (read_refuses whole unbarred (callRule_suffix rules left) calls derive refuse
            (rules name) surveyed start failed)

/-- Every reading that fails is refused. -/
theorem run_refuses (whole : r.beyond = 0) (unbarred : Unbarred w r)
    (passed : ∀ name, w.closed.contains name = false → passes w (rules name) false = true)
    (passes : passes w a true = true) (within : c.Within r)
    (failed : a.run rules f c = .error (error, e)) : Refuses rules a f c error e := by
  rw [SqlAudit.passes] at passes
  cases surveyed : survey w a (.unknown false true) with
  | none => simp [surveyed] at passes
  | some outlook =>
      obtain ⟨calls, derive⟩ := callRule_calls whole unbarred passed (Nat.le_refl c.tokens.length)
      have refuse : CallsRefuse rules w r (callRule rules c.tokens) c.tokens.length := by
        intro name f d error e called within deeper failed
        exact callRule_refuses whole unbarred passed c.tokens name f d error e called within deeper
          failed
      have start : Fits w r c.rest.length c.tokens.length (.unknown false true) c :=
        .unknown within (Nat.le_refl _) (by simp) (Nat.le_succ _) fun _ => Nat.lt_succ_self _
      exact read_refuses whole unbarred (callRule_suffix rules c.tokens) calls derive refuse a
        surveyed start failed

theorem Changes.unique (changes : Changes a f c g d) (other : Changes a f c g' d') :
    g = g' ∧ d = d' := by
  cases changes <;> cases other
  case phrase.phrase words one words' other =>
    rw [one] at other
    cases other
    exact ⟨rfl, rfl⟩
  all_goals exact ⟨rfl, rfl⟩

theorem Derives.unique (derives : Derives rules a f c g d) (other : Derives rules a f c g' d') :
    g = g' ∧ d = d' := by
  induction derives generalizing g' d' with
  | change changes =>
      cases other with
      | change changes' => exact changes.unique changes'
      | _ => cases changes
  | seq first second left right =>
      cases other with
      | change changes => cases changes
      | seq first' second' =>
          obtain ⟨rfl, rfl⟩ := left first'
          exact right second'
  | yes holds taken ih =>
      cases other with
      | change changes => cases changes
      | yes _ taken' => exact ih taken'
      | no fails _ => simp [holds] at fails
  | no fails taken ih =>
      cases other with
      | change changes => cases changes
      | yes holds _ => simp [fails] at holds
      | no _ taken' => exact ih taken'
  | stop fails =>
      cases other with
      | change changes => cases changes
      | stop _ => exact ⟨rfl, rfl⟩
      | round holds _ _ => simp [fails] at holds
  | round holds once again left right =>
      cases other with
      | change changes => cases changes
      | stop fails => simp [holds] at fails
      | round _ once' again' =>
          obtain ⟨rfl, rfl⟩ := left once'
          exact right again'
  | node real inner moved ih =>
      cases other with
      | change changes => cases changes
      | node _ inner' _ =>
          obtain ⟨rfl, rfl⟩ := ih inner'
          exact ⟨rfl, rfl⟩
  | wrap real inner moved ih =>
      cases other with
      | change changes => cases changes
      | wrap _ inner' _ =>
          obtain ⟨rfl, rfl⟩ := ih inner'
          exact ⟨rfl, rfl⟩
  | discard inner ih =>
      cases other with
      | change changes => cases changes
      | discard inner' =>
          obtain ⟨-, rfl⟩ := ih inner'
          exact ⟨rfl, rfl⟩
  | deeper shallow inner ih =>
      cases other with
      | change changes => cases changes
      | deeper _ inner' =>
          obtain ⟨rfl, rfl⟩ := ih inner'
          exact ⟨rfl, rfl⟩
  | call ruled moved ih =>
      cases other with
      | change changes => cases changes
      | call ruled' _ => exact ih ruled'

/-- What is derived is not refused. -/
theorem Refuses.not_derives (refuses : Refuses rules a f c error e) :
    ¬ Derives rules a f c g d := by
  intro derives
  induction refuses generalizing g d with
  | fail =>
      cases derives with
      | change changes => cases changes
  | first one ih =>
      obtain ⟨_, _, first, -⟩ := derives.of_seq
      exact ih first
  | second first later ih =>
      obtain ⟨_, _, first', second⟩ := derives.of_seq
      obtain ⟨rfl, rfl⟩ := first.unique first'
      exact ih second
  | yes holds taken ih =>
      rcases derives.of_branch with ⟨-, taken'⟩ | ⟨fails, -⟩
      · exact ih taken'
      · simp [holds] at fails
  | no fails taken ih =>
      rcases derives.of_branch with ⟨holds, -⟩ | ⟨-, taken'⟩
      · simp [fails] at holds
      · exact ih taken'
  | round holds once ih =>
      cases derives with
      | change changes => cases changes
      | stop fails => simp [holds] at fails
      | round _ once' _ => exact ih once'
  | again holds once later ih =>
      cases derives with
      | change changes => cases changes
      | stop fails => simp [holds] at fails
      | round _ once' again' =>
          obtain ⟨rfl, rfl⟩ := once.unique once'
          exact ih again'
  | node inner ih =>
      cases derives with
      | change changes => cases changes
      | node _ inner' _ => exact ih inner'
  | wrap inner ih =>
      cases derives with
      | change changes => cases changes
      | wrap _ inner' _ => exact ih inner'
  | discard inner ih =>
      cases derives with
      | change changes => cases changes
      | discard inner' => exact ih inner'
  | limit deep =>
      cases derives with
      | change changes => cases changes
      | deeper shallow _ => omega
  | deeper shallow inner ih =>
      cases derives with
      | change changes => cases changes
      | deeper _ inner' => exact ih inner'
  | call ruled ih =>
      cases derives with
      | change changes => cases changes
      | call ruled' _ => exact ih ruled'

theorem Refuses.unique (refuses : Refuses rules a f c error e)
    (other : Refuses rules a f c error' e') : error = error' ∧ e = e' := by
  induction refuses generalizing error' e' with
  | fail =>
      cases other
      exact ⟨rfl, rfl⟩
  | first one ih =>
      cases other with
      | first one' => exact ih one'
      | second first' _ => exact absurd first' one.not_derives
  | second first later ih =>
      cases other with
      | first one' => exact absurd first one'.not_derives
      | second first' later' =>
          obtain ⟨rfl, rfl⟩ := first.unique first'
          exact ih later'
  | yes holds taken ih =>
      cases other with
      | yes _ taken' => exact ih taken'
      | no fails _ => simp [holds] at fails
  | no fails taken ih =>
      cases other with
      | yes holds _ => simp [fails] at holds
      | no _ taken' => exact ih taken'
  | round holds once ih =>
      cases other with
      | round _ once' => exact ih once'
      | again _ once' _ => exact absurd once' once.not_derives
  | again holds once later ih =>
      cases other with
      | round _ once' => exact absurd once once'.not_derives
      | again _ once' later' =>
          obtain ⟨rfl, rfl⟩ := once.unique once'
          exact ih later'
  | node inner ih =>
      cases other with
      | node inner' => exact ih inner'
  | wrap inner ih =>
      cases other with
      | wrap inner' => exact ih inner'
  | discard inner ih =>
      cases other with
      | discard inner' => exact ih inner'
  | limit deep =>
      cases other with
      | limit => exact ⟨rfl, rfl⟩
      | deeper shallow _ => omega
  | deeper shallow inner ih =>
      cases other with
      | limit deep => omega
      | deeper _ inner' => exact ih inner'
  | call ruled ih =>
      cases other with
      | call ruled' => exact ih ruled'

end Grammar
end SqlAudit
