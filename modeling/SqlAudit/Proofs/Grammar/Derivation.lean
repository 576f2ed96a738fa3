import SqlAudit.Proofs.Grammar.Rules
/-!
Readings that come to an end, without their bounds. `Derives` follows a grammar step by step and
calls its rules by name; nothing in it counts tokens. Every reading of a surveyed grammar is derived
so, and its derivation keeps what the survey found out: nodes and calls take at least one token, and
a loop only ends where its test fails.
-/
namespace SqlAudit

namespace Grammar

/-- What a grammar without parts does to a frame and a cursor. -/
inductive Changes : Grammar → Frame → Cursor → Frame → Cursor → Prop
  | nothing {f : Frame} {c : Cursor} : Changes .nothing f c f c
  | take {f : Frame} {c : Cursor} : Changes .take f c f c.advance
  | copy {f : Frame} {c : Cursor} (spelling : Spelling) :
      Changes (.copy spelling) f c (f.write (spelling.of c.current.lexeme)) c
  | write {f : Frame} {c : Cursor} (text : String) : Changes (.write text) f c (f.write text) c
  | gap {f : Frame} {c : Cursor} : Changes .gap f c f.gap c
  | phrase {f : Frame} {c d : Cursor} {phrases : Phrases} {words : List String}
      (spoken : c.phrase phrases [] c.tokens = (words, d)) :
      Changes (.phrase phrases) f c
        (if words = [] then f else f.gap.write (" ".intercalate words)) d
  | become {f : Frame} {c : Cursor} {kind : NodeKind} (real : kind ≠ .unparsed) :
      Changes (.become kind) f c { f with kind := kind } c
  | dissolve {f : Frame} {c : Cursor} : Changes .dissolve f c { f with kind := none } c
  | splice {f : Frame} {c : Cursor} : Changes .splice f c f.splice c
  | echo {f : Frame} {c : Cursor} : Changes .echo f c f.echo c

/-- By the grammar, the first frame and cursor become the second ones. -/
inductive Derives (rules : Nonterminal → Grammar) :
    Grammar → Frame → Cursor → Frame → Cursor → Prop
  | change {a : Grammar} {f g : Frame} {c d : Cursor} (changes : Changes a f c g d) :
      Derives rules a f c g d
  | seq {a b : Grammar} {f g h : Frame} {c d e : Cursor} (first : Derives rules a f c g d)
      (second : Derives rules b g d h e) : Derives rules (.seq a b) f c h e
  | yes {test : Test} {a b : Grammar} {f g : Frame} {c d : Cursor}
      (holds : test.holds f c = true) (taken : Derives rules a f c g d) :
      Derives rules (.branch test a b) f c g d
  | no {test : Test} {a b : Grammar} {f g : Frame} {c d : Cursor}
      (fails : test.holds f c = false) (taken : Derives rules b f c g d) :
      Derives rules (.branch test a b) f c g d
  | stop {test : Test} {a : Grammar} {f : Frame} {c : Cursor} (fails : test.holds f c = false) :
      Derives rules (.loop test a) f c f c
  | round {test : Test} {a : Grammar} {f g h : Frame} {c d e : Cursor}
      (holds : test.holds f c = true) (once : Derives rules a f c g d)
      (again : Derives rules (.loop test a) g d h e) : Derives rules (.loop test a) f c h e
  | node {kind : NodeKind} {a : Grammar} {f g : Frame} {c d : Cursor} (real : kind ≠ .unparsed)
      (inner : Derives rules a (.opened kind c) c g d)
      (moved : d.rest.length < c.rest.length) : Derives rules (.node kind a) f c (f.close g d) d
  | wrap {kind : NodeKind} {a : Grammar} {f g : Frame} {c d : Cursor} (real : kind ≠ .unparsed)
      (inner : Derives rules a (f.wrapLast kind c).1 c g d)
      (moved : d.rest.length < c.rest.length) :
      Derives rules (.wrap kind a) f c ((f.wrapLast kind c).2.close g d) d
  | discard {a : Grammar} {f g : Frame} {c d : Cursor}
      (inner : Derives rules a (.opened none c) c g d) : Derives rules (.discard a) f c f d
  | deeper {a : Grammar} {f g : Frame} {c d : Cursor} (shallow : c.depth < maxDepth)
      (inner : Derives rules a f { c with depth := c.depth + 1 } g d) :
      Derives rules (.deeper a) f c g { d with depth := d.depth - 1 }
  | call {name : Nonterminal} {f g : Frame} {c d : Cursor}
      (ruled : Derives rules (rules name) f c g d) (moved : d.rest.length < c.rest.length) :
      Derives rules (.call name) f c g d

variable {w : Watch} {r : Range} {m e : Nat} {o : Outlook} {f g : Frame} {c d : Cursor}
  {rules : Nonterminal → Grammar} {call : Nonterminal → Frame → Cursor → Reading}

theorem Changes.steps {a : Grammar} (changes : Changes a f c g d) :
    Steps (fun _ => True) f c g d := by
  cases changes with
  | nothing => exact .done
  | take => exact .take trivial
  | copy spelling => exact .write _
  | write text => exact .write _
  | gap => exact .write _
  | phrase spoken =>
      rename_i phrases words
      have path := (phrase_path (w := .lexical) (r := ⟨[], 0, 0⟩) phrases [] c.tokens c).mono
        fun _ _ => trivial
      rw [spoken] at path
      split
      · exact .of_path path
      · exact (Steps.of_path path).trans (.write _)
  | become real => exact .become _ (by simpa using real)
  | dissolve => exact .become none (by simp)
  | splice => exact .splice
  | echo =>
      rw [Frame.echo]
      split
      · exact .done
      · exact .write _

theorem Derives.steps {a : Grammar} (derives : Derives rules a f c g d) :
    Steps (fun _ => True) f c g d := by
  induction derives with
  | change changes => exact changes.steps
  | seq first second left right => exact left.trans right
  | yes holds taken ih => exact ih
  | no fails taken ih => exact ih
  | stop fails => exact .done
  | round holds once again left right => exact left.trans right
  | node real inner moved ih => exact .node real ih moved
  | wrap real inner moved ih => exact .wrap real ih moved
  | discard inner ih => exact .discard ih
  | deeper shallow inner ih => exact ((Steps.turn _).trans ih).trans (.turn _)
  | call ruled moved ih => exact ih

/-- A phrase is read without nesting. -/
theorem phrase_depth (phrases : Phrases) (matched : List String) (left : List Token) (c : Cursor) :
    (c.phrase phrases matched left).2.depth = c.depth := by
  induction left generalizing matched c with
  | nil => rfl
  | cons token left ih =>
      rw [Cursor.phrase]
      split
      · split
        · rw [ih, Cursor.advance_depth]
        · rfl
      · rfl

theorem Changes.depth {a : Grammar} (changes : Changes a f c g d) : d.depth = c.depth := by
  cases changes with
  | take => exact Cursor.advance_depth _
  | phrase spoken =>
      rename_i phrases words
      have same := phrase_depth phrases [] c.tokens c
      rwa [spoken] at same
  | _ => rfl

/-- Whatever is entered on the way is left again. -/
theorem Derives.depth {a : Grammar} (derives : Derives rules a f c g d) : d.depth = c.depth := by
  induction derives with
  | change changes => exact changes.depth
  | seq first second left right => exact right.trans left
  | yes holds taken ih => exact ih
  | no fails taken ih => exact ih
  | stop fails => rfl
  | round holds once again left right => exact right.trans left
  | node real inner moved ih => exact ih
  | wrap real inner moved ih => exact ih
  | discard inner ih => exact ih
  | deeper shallow inner ih =>
      show _ - 1 = _
      rw [ih, Nat.add_sub_cancel]
  | call ruled moved ih => exact ih

theorem Derives.of_seq {a b : Grammar} (derives : Derives rules (a ++ b) f c g d) :
    ∃ h e, Derives rules a f c h e ∧ Derives rules b h e g d := by
  cases derives with
  | change changes => cases changes
  | seq first second => exact ⟨_, _, first, second⟩

theorem Derives.of_branch {test : Test} {a b : Grammar}
    (derives : Derives rules (.branch test a b) f c g d) :
    (test.holds f c = true ∧ Derives rules a f c g d) ∨
      (test.holds f c = false ∧ Derives rules b f c g d) := by
  cases derives with
  | change changes => cases changes
  | yes holds taken => exact .inl ⟨holds, taken⟩
  | no fails taken => exact .inr ⟨fails, taken⟩

theorem Derives.of_takeAs {spelling : Spelling} (derives : Derives rules (takeAs spelling) f c g d) :
    g = f.write (spelling.of c.current.lexeme) ∧ d = c.advance := by
  obtain ⟨h, e, copied, taken⟩ := derives.of_seq
  cases copied with
  | change copies =>
      cases copies
      cases taken with
      | change takes =>
          cases takes
          exact ⟨rfl, rfl⟩

/-- A loop that takes a token in each round is derived round by round. -/
theorem repeatWhile_derives {test : Test} {a : Grammar} {step : Frame → Cursor → Reading}
    {round : Outlook} {entered : Bool} (whole : r.beyond = 0)
    (rounds : ∀ f c, Fits w r c.rest.length e ((Outlook.unknown false entered).learn test) c →
      Lawful w r c.rest.length e round f c (step f c))
    (progress : round.moved = true)
    (derive : ∀ f c g d, Fits w r c.rest.length e ((Outlook.unknown false entered).learn test) c →
      step f c = .ok (g, d) → Derives rules a f c g d)
    (left : List Token) (enough : c.rest.length < left.length)
    (fits : Fits w r c.rest.length e (.unknown false entered) c)
    (ok : repeatWhile test step left f c = .ok (g, d)) : Derives rules (.loop test a) f c g d := by
  induction left generalizing f c with
  | nil => exact absurd enough (Nat.not_lt_zero _)
  | cons token left ih =>
      rw [repeatWhile] at ok
      split at ok
      · rename_i holds
        have here := fits.learn holds
        have lawful := rounds f c here
        split at ok <;> rename_i found <;> rw [found] at lawful
        · rename_i h b
          have later := (lawful (whole ▸ Nat.zero_le _)).2
          have moved := later.moved progress
          have opened := later.opened
          rw [List.length_cons] at enough
          refine .round holds (derive f c h b here found) (ih (by omega) ?_ ok)
          apply Fits.unknown later.within (Nat.le_refl _) (by simp) opened
          intro so
          have entered := fits.entered so
          omega
        · cases ok
      · rename_i fails
        cases ok
        exact .stop (by simpa using fails)

/-- Calls of rules that are not closed are derived, after a token of the calling rule. -/
def CallsDerive (rules : Nonterminal → Grammar) (w : Watch) (r : Range)
    (call : Nonterminal → Frame → Cursor → Reading) (e : Nat) : Prop :=
  ∀ name f c g d, w.closed.contains name = false → c.Within r → c.rest.length < e →
    call name f c = .ok (g, d) → Derives rules (.call name) f c g d

theorem read_derives (whole : r.beyond = 0) (unbarred : Unbarred w r)
    (onward : ∀ name f c, (call name f c).cursor.tokens <:+ c.tokens)
    (calls : CallsSound w r call e) (derive : CallsDerive rules w r call e) (a : Grammar)
    {o' : Outlook} (surveyed : survey w a o = some o') (fits : Fits w r m e o c)
    (ok : read call a f c = .ok (g, d)) : Derives rules a f c g d := by
  have inside : ∀ {b : Cursor}, r.beyond ≤ b.rest.length := whole ▸ Nat.zero_le _
  induction a generalizing o o' m f c g d with
  | nothing => cases ok; exact .change .nothing
  | fail expected => cases ok
  | take => cases ok; exact .change .take
  | copy spelling => cases ok; exact .change (.copy spelling)
  | write text => cases ok; exact .change (.write text)
  | gap => cases ok; exact .change .gap
  | become kind =>
      cases ok
      exact .change (.become (survey_become surveyed).1)
  | dissolve => cases ok; exact .change .dissolve
  | splice => cases ok; exact .change .splice
  | echo => cases ok; exact .change .echo
  | phrase phrases =>
      rw [read] at ok
      split at ok <;> rename_i spoken <;> cases ok
      · exact .change (.phrase spoken)
      · rename_i words nonempty
        have spelled := Changes.phrase (f := f) spoken
        rw [if_neg nonempty] at spelled
        exact .change spelled
  | seq a b first second =>
      obtain ⟨between, left, right⟩ := Option.bind_eq_some_iff.mp surveyed
      have lawful := survey_sound (f := f) unbarred onward calls a left fits
      rw [read] at ok
      split at ok <;> rename_i found <;> rw [found] at lawful
      · exact .seq (first left fits found) (second right (lawful inside).2 ok)
      · cases ok
  | branch test a b first second =>
      rw [read] at ok
      rcases survey_branch surveyed with ⟨barred, right⟩ | ⟨-, yes, no, left, right, -⟩
      · have never := unbarred test (List.contains_iff_mem.mp barred) f c fits.within
        rw [if_neg (by simp [never])] at ok
        exact .no never (second right fits ok)
      · split at ok
        · rename_i holds
          exact .yes holds (first left (fits.learn holds) ok)
        · rename_i fails
          have refuted : test.neither.holds f c = true := by simpa [Test.holds] using fails
          exact .no (by simpa using fails) (second right (fits.learn refuted) ok)
  | loop test a ih =>
      obtain ⟨-, round, body, progress, -⟩ := survey_loop surveyed
      have start : Fits w r c.rest.length e (.unknown false o.entered) c :=
        .unknown fits.within (Nat.le_refl _) (by simp) fits.opened fits.entered
      exact repeatWhile_derives whole (fun f c => survey_sound unbarred onward calls a body)
        progress (fun f c g d fits ok => ih body fits ok) c.tokens (Nat.lt_succ_self _) start ok
  | node kind a ih =>
      obtain ⟨inner, body, moved, real, -⟩ := survey_node surveyed
      have lawful := survey_sound (f := .opened kind c) unbarred onward calls a body fits.inNode
      rw [read] at ok
      split at ok <;> rename_i found <;> rw [found] at lawful <;> cases ok
      exact .node real (ih body fits.inNode found) ((lawful inside).2.moved moved)
  | wrap kind a ih =>
      obtain ⟨inner, body, moved, real, -⟩ := survey_node surveyed
      have lawful := survey_sound (f := (f.wrapLast kind c).1) unbarred onward calls a body
        fits.inNode
      rw [read] at ok
      split at ok <;> rename_i found <;> rw [found] at lawful <;> cases ok
      exact .wrap real (ih body fits.inNode found) ((lawful inside).2.moved moved)
  | discard a ih =>
      rw [read] at ok
      split at ok <;> rename_i found <;> cases ok
      exact .discard (ih surveyed fits found)
  | deeper a ih =>
      rw [read] at ok
      dsimp only at ok
      split at ok
      · cases ok
      · rename_i shallow
        split at ok <;> rename_i found <;> cases ok
        exact .deeper (Nat.lt_of_succ_le (Nat.not_lt.mp shallow))
          (ih surveyed (fits.turn (c.depth + 1)) found)
  | call name =>
      obtain ⟨entered, called, -⟩ := survey_call surveyed
      exact derive name f c g d called fits.within (fits.entered entered) ok

theorem callRule_derives (whole : r.beyond = 0) (unbarred : Unbarred w r)
    (passed : ∀ name, w.closed.contains name = false → passes w (rules name) false = true)
    (left : List Token) (name : Nonterminal) (f : Frame) (c : Cursor) (g : Frame) (d : Cursor)
    (called : w.closed.contains name = false) (within : c.Within r)
    (enough : c.rest.length < left.length) (ok : callRule rules left name f c = .ok (g, d)) :
    Derives rules (.call name) f c g d := by
  induction left generalizing name f c g d with
  | nil => exact absurd enough (Nat.not_lt_zero _)
  | cons token left ih =>
      have lawful := callRule_sound unbarred passed (token :: left) name f c called within enough
      rw [List.length_cons] at enough
      have passes := passed name called
      rw [SqlAudit.passes] at passes
      cases surveyed : survey w (rules name) (.unknown false false) with
      | none => simp [surveyed] at passes
      | some outlook =>
          have calls : CallsSound w r (callRule rules left) c.rest.length := by
            intro name f b called within deeper
            exact callRule_sound unbarred passed left name f b called within (by omega)
          have derive : CallsDerive rules w r (callRule rules left) c.rest.length := by
            intro name f b g d called within deeper ok
            exact ih name f b g d called within (by omega) ok
          have start : Fits w r c.rest.length c.rest.length (.unknown false false) c :=
            .unknown within (Nat.le_refl _) (by simp) (Nat.le_refl _) (by simp)
          rw [ok] at lawful
          refine .call ?_ ((lawful (whole ▸ Nat.zero_le _)).2.moved rfl)
          exact read_derives whole unbarred (callRule_suffix rules left) calls derive (rules name)
            surveyed start ok

/-- Every reading that comes to an end is derived. -/
theorem run_derives (whole : r.beyond = 0) (unbarred : Unbarred w r)
    (passed : ∀ name, w.closed.contains name = false → passes w (rules name) false = true)
    {a : Grammar} (passes : passes w a true = true) (within : c.Within r)
    (ok : a.run rules f c = .ok (g, d)) : Derives rules a f c g d := by
  rw [SqlAudit.passes] at passes
  cases surveyed : survey w a (.unknown false true) with
  | none => simp [surveyed] at passes
  | some outlook =>
      have calls : CallsSound w r (callRule rules c.tokens) (c.rest.length + 1) := by
        intro name f b called within deeper
        exact callRule_sound unbarred passed c.tokens name f b called within deeper
      have derive : CallsDerive rules w r (callRule rules c.tokens) (c.rest.length + 1) := by
        intro name f b g d called within deeper ok
        exact callRule_derives whole unbarred passed c.tokens name f b g d called within deeper ok
      have start : Fits w r c.rest.length (c.rest.length + 1) (.unknown false true) c :=
        .unknown within (Nat.le_refl _) (by simp) (Nat.le_succ _) fun _ => Nat.lt_succ_self _
      exact read_derives whole unbarred (callRule_suffix rules c.tokens) calls derive a surveyed
        start ok

end Grammar
end SqlAudit
