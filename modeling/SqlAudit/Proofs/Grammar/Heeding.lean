import SqlAudit.Proofs.Grammar.Recasing
/-!
A grammar that heeds the case of names reads the same from tokens that differ in it. What is known
of a place holds of the first reading, and of the second one because the two are alike.
-/
namespace SqlAudit

variable {mark : Option (Option String)} {n n' : Notice} {f g : Frame} {c d : Cursor}

/-- What is noticed is true of a frame and a cursor, in a node with this mark. -/
structure Heeded (mark : Option (Option String)) (n : Notice) (f : Frame) (c : Cursor) :
    Prop where
  possible : n.outlook.possible (some c.current.lexeme.outline) (some c.peek.lexeme.outline) = true
  names : ∀ names, n.names = some names →
    ∀ name, c.current.lexeme.outline = .word name → name ∈ names
  mark : ∀ own, mark = some own → f.mark? = own
  last : ∀ own, n.last = some own → ∀ node ∈ f.parts.head?, node.kind.mark? = own
  dissolves : n.dissolves = false → f.kind.isSome
  marked : n.marked = true →
    ∃ own text, f.mark? = some own ∧ f.value = some text ∧
      (Lexer.splitAt own.toList text.toList).isSome

theorem Test.lastKind?_sound {test : Test} {kind : NodeKind} (told : test.lastKind? = some kind)
    (holds : test.holds f c = true) : ∀ node ∈ f.parts.head?, node.kind = kind := by
  induction test with
  | lastIs other =>
      cases told
      intro node member
      rw [Option.mem_def] at member
      rw [Test.holds, member] at holds
      simpa using holds
  | both a b first second =>
      rw [Test.holds, Bool.and_eq_true] at holds
      rcases Option.or_eq_some_iff.mp told with left | ⟨-, right⟩
      · exact first left holds.1
      · exact second right holds.2
  | _ => cases told

namespace Notice

theorem bound_sound (heeded : Heeded mark n f c) {names : List String}
    (bound : n.bound = some names) {name : String} (here : c.current.lexeme.outline = .word name) : name ∈ names := by
  obtain ⟨all, chosen, rfl⟩ := Option.map_eq_some_iff.mp bound
  refine List.mem_filter.mpr ⟨?_, ?_⟩
  · refine Test.mem_of_or chosen (fun listed known => heeded.names listed known name here) ?_
    intro listed found
    obtain ⟨test, member, listed⟩ := List.exists_of_findSome?_eq_some found
    have may := Outlook.possible_iff.mp heeded.possible test member
    exact Test.names?_sound listed (by simp) may (by simp [here])
  · have possible := Outlook.possible_weaken (.inl rfl) (.inr rfl) heeded.possible
    rwa [here] at possible

theorem silent_sound (heeded : Heeded mark n f c) (silent : n.silent = true) (text : String) :
    c.current.lexeme ≠ .word text := by
  intro word
  have member := bound_sound heeded (beq_iff_eq.mp silent) (by rw [word]; rfl)
  cases member

theorem ahead_sound (heeded : Heeded mark n f c) {guess : Option Lexeme} {names : List String}
    (listed : n.ahead guess = some names)
    (guessed : guess = some c.current.lexeme.outline ∨ guess = none) {name : String}
    (next : c.peek.lexeme.outline = .word name) : name ∈ names := by
  obtain ⟨all, found, rfl⟩ := Option.map_eq_some_iff.mp listed
  have possible := Outlook.possible_weaken guessed (.inl rfl) heeded.possible
  rw [next] at possible
  refine List.mem_filter.mpr ⟨?_, possible⟩
  obtain ⟨test, member, listed⟩ := List.exists_of_findSome?_eq_some found
  exact Test.names?_sound listed (fun _ => rfl) (Outlook.possible_iff.mp possible test member)
    (by simp)

end Notice

namespace Heeded

theorem forget (heeded : Heeded mark n f c) (d : Cursor) : Heeded mark n.forget f d :=
  ⟨rfl, nofun, heeded.mark, heeded.last, heeded.dissolves, heeded.marked⟩

theorem take (heeded : Heeded mark n f c) : Heeded mark n.afterTake f c.advance := by
  refine ⟨rfl, fun names known name here => ?_, heeded.mark, heeded.last, heeded.dissolves,
    heeded.marked⟩
  rw [Cursor.advance_current] at here
  rw [Notice.afterTake, Bool.cond_eq_ite] at known
  dsimp only at known
  split at known
  · rename_i all
    cases known
    have among (guess : Option Lexeme) (member : guess ∈ n.outlook.currents)
        (guessed : guess = some c.current.lexeme.outline ∨ guess = none) :
        name ∈ n.currents.flatMap fun current => (n.ahead current).getD [] := by
      have possible := Outlook.possible_weaken guessed (.inr rfl) heeded.possible
      have listed : guess ∈ n.currents := List.mem_filter.mpr ⟨member, possible⟩
      obtain ⟨names, known⟩ := Option.isSome_iff_exists.mp (List.all_eq_true.mp all guess listed)
      refine List.mem_flatMap.mpr ⟨guess, listed, ?_⟩
      rw [known]
      exact Notice.ahead_sound heeded known guessed here
    exact (Outlook.mem_currents heeded.possible).elim (among _ · (.inl rfl)) (among _ · (.inr rfl))
  · cases known

theorem learn {test : Test} (heeded : Heeded mark n f c) (holds : test.holds f c = true) :
    Heeded mark (n.learn test) f c := by
  refine ⟨?_, heeded.names, heeded.mark, fun own known => ?_, heeded.dissolves, heeded.marked⟩
  · have may := test.may_holds f c
    rw [holds] at may
    refine Outlook.possible_iff.mpr fun other member => ?_
    rcases List.mem_cons.mp member with rfl | known
    · exact may
    · exact Outlook.possible_iff.mp heeded.possible other known
  · cases told : test.lastKind? with
    | none =>
        rw [Notice.learn, told] at known
        exact heeded.last own known
    | some kind =>
        rw [Notice.learn, told] at known
        cases known
        intro node member
        exact congrArg NodeKind.mark? (test.lastKind?_sound told holds node member)

theorem join_left {a b : Notice} (heeded : Heeded mark a f c) : Heeded mark (a.join b) f c := by
  refine ⟨rfl, fun names known name here => ?_, heeded.mark, fun own known => ?_, fun keeps => ?_,
    fun both => heeded.marked (Bool.and_eq_true_iff.mp both).1⟩
  · obtain ⟨first, left, rest⟩ := Option.bind_eq_some_iff.mp known
    obtain ⟨second, right, rfl⟩ := Option.map_eq_some_iff.mp rest
    exact List.mem_append.mpr (.inl (Notice.bound_sound heeded left here))
  · rw [Notice.join, Bool.cond_eq_ite] at known
    split at known
    · exact heeded.last own known
    · cases known
  · exact heeded.dissolves (Bool.or_eq_false_iff.mp keeps).1

theorem join_right {a b : Notice} (heeded : Heeded mark b f c) : Heeded mark (a.join b) f c := by
  refine ⟨rfl, fun names known name here => ?_, heeded.mark, fun own known => ?_, fun keeps => ?_,
    fun both => heeded.marked (Bool.and_eq_true_iff.mp both).2⟩
  · obtain ⟨first, left, rest⟩ := Option.bind_eq_some_iff.mp known
    obtain ⟨second, right, rfl⟩ := Option.map_eq_some_iff.mp rest
    exact List.mem_append.mpr (.inr (Notice.bound_sound heeded right here))
  · rw [Notice.join, Bool.cond_eq_ite] at known
    split at known
    · rename_i same
      rw [beq_iff_eq.mp same] at known
      exact heeded.last own known
    · cases known
  · exact heeded.dissolves (Bool.or_eq_false_iff.mp keeps).2

/-- The value has become longer. -/
theorem value (heeded : Heeded mark n f c) {value : Option String}
    (longer : ∀ text, f.value = some text → ∃ more, value = some (text ++ more)) :
    Heeded mark n { f with value := value } c := by
  refine ⟨heeded.possible, heeded.names, heeded.mark, heeded.last, heeded.dissolves, ?_⟩
  intro marked
  obtain ⟨own, text, isMark, known, inside⟩ := heeded.marked marked
  obtain ⟨more, here⟩ := longer text known
  obtain ⟨split, found⟩ := Option.isSome_iff_exists.mp inside
  refine ⟨own, _, isMark, here, ?_⟩
  rw [String.toList_append, Lexer.splitAt_append _ found]
  rfl

theorem write (heeded : Heeded mark n f c) (text : String) : Heeded mark n (f.write text) c :=
  heeded.value fun before known => ⟨text, by rw [known]; rfl⟩

theorem gap (heeded : Heeded mark n f c) : Heeded mark n f.gap c :=
  heeded.value fun before known => ⟨" ", by rw [known]; rfl⟩

/-- Where the mark itself is written, the value has it. -/
theorem writeMark (heeded : Heeded mark n f c) {own : Option String} (isMark : mark = some own)
    (text : String) :
    Heeded mark { n with marked := n.marked || own == some text } (f.write text) c := by
  have written := heeded.write text
  refine { written with marked := fun marked => ?_ }
  rcases Bool.or_eq_true_iff.mp marked with already | now
  · exact written.marked already
  · refine ⟨text, f.value.getD "" ++ text, (heeded.mark own isMark).trans (beq_iff_eq.mp now), rfl,
      ?_⟩
    have found := Lexer.splitAt_isSome text.toList (f.value.getD "").toList []
    rwa [List.append_nil, ← String.toList_append] at found

theorem turn (heeded : Heeded mark n f c) (depth : Nat) :
    Heeded mark n f { c with depth := depth } :=
  ⟨heeded.possible, heeded.names, heeded.mark, heeded.last, heeded.dissolves, heeded.marked⟩

/-- A node without a mark turns out to be of another kind without a mark, or to dissolve. -/
theorem become (heeded : Heeded (some none) n f c) {kind : Option NodeKind} {dissolves : Bool}
    (plain : kind.bind NodeKind.mark? = none) (isNode : dissolves = false → kind.isSome) :
    Heeded (some none) { n with dissolves := dissolves } { f with kind := kind } c := by
  refine ⟨heeded.possible, heeded.names, ?_, heeded.last, isNode, fun marked => ?_⟩
  · rintro own ⟨⟩
    exact plain
  · obtain ⟨own, text, isMark, -⟩ := heeded.marked marked
    rw [heeded.mark none rfl] at isMark
    cases isMark

theorem splice (heeded : Heeded mark n f c) :
    Heeded mark { n with last := none, marked := false } f.splice c := by
  refine ⟨heeded.possible, heeded.names, fun own known => ?_, by simp, fun keeps => ?_, by simp⟩
  · rw [Frame.mark?, Frame.splice_kind]
    exact heeded.mark own known
  · rw [Frame.splice_kind]
    exact heeded.dissolves keeps

theorem echo (heeded : Heeded mark n f c) : Heeded mark n f.echo c := by
  rw [Frame.echo]
  split
  · exact heeded
  · exact heeded.write _

/-- A rule has been read into the frame. -/
theorem called (heeded : Heeded mark n f c) (same : g.kind = f.kind ∧ g.value = f.value)
    (last : (∀ node ∈ f.parts.head?, node.kind.mark? = none) →
      ∀ node ∈ g.parts.head?, node.kind.mark? = none) :
    Heeded mark { n.forget with last := bif n.last == some none then n.last else none } g d := by
  have isMark : g.mark? = f.mark? := by rw [Frame.mark?, Frame.mark?, same.1]
  refine ⟨rfl, by rintro _ ⟨⟩, fun own known => isMark.trans (heeded.mark own known),
    fun own known => ?_, fun keeps => same.1 ▸ heeded.dissolves keeps, fun marked => ?_⟩
  · rw [Bool.cond_eq_ite] at known
    split at known
    · rename_i plain
      rw [beq_iff_eq.mp plain] at known
      cases known
      exact last (heeded.last none (beq_iff_eq.mp plain))
    · cases known
  · rw [isMark, same.2]
    exact heeded.marked marked

/-- Another frame at the same place. -/
theorem at_frame (heeded : Heeded mark n f c) {last : Option (Option String)} {dissolves : Bool}
    {mark' : Option (Option String)} {g : Frame} (isMark : ∀ own, mark' = some own → g.mark? = own)
    (isLast : ∀ own, last = some own → ∀ node ∈ g.parts.head?, node.kind.mark? = own)
    (isNode : dissolves = false → g.kind.isSome) :
    Heeded mark' { n with last := last, dissolves := dissolves, marked := false } g c :=
  ⟨heeded.possible, heeded.names, isMark, isLast, isNode, by simp⟩

theorem opened (heeded : Heeded mark n f c) (kind : NodeKind) :
    Heeded (some kind.mark?) (n.opened (some none)) (.opened kind c) c :=
  heeded.at_frame (by rintro own ⟨⟩; rfl) (by rintro _ _ _ ⟨⟩) fun _ => rfl

theorem wrapLast (heeded : Heeded mark n f c) (kind : NodeKind) :
    Heeded (some kind.mark?) (n.opened n.last) (f.wrapLast kind c).1 c := by
  have last := heeded.last
  rw [Frame.wrapLast]
  cases parts : f.parts with
  | nil => exact heeded.at_frame (by rintro own ⟨⟩; rfl) (by rintro _ _ _ ⟨⟩) fun _ => rfl
  | cons node others =>
      rw [parts] at last
      refine heeded.at_frame (by rintro own ⟨⟩; rfl) (fun own known => ?_) fun _ => rfl
      intro first member
      cases member
      exact last own known node rfl

/-- A node has been read into the frame, or only its parts. -/
theorem closed {kind : NodeKind} {before : Option (Option String)} {inner : Notice} {h : Frame}
    (heeded : Heeded mark n f c) (own : Heeded (some kind.mark?) inner g d)
    (same : h.kind = f.kind ∧ h.value = f.value)
    (last : ∀ own, before = some own → ∀ node ∈ h.parts.head?, node.kind.mark? = own) :
    Heeded mark (n.closed kind before inner) (h.close g d) d := by
  have frame : (h.close g d).mark? = f.mark? := by
    rw [Frame.mark?, Frame.mark?, Frame.close_kind, same.1]
  refine ⟨own.possible, own.names, fun mark known => frame.trans (heeded.mark mark known),
    fun mark known => ?_, fun keeps => ?_, fun marked => ?_⟩
  · rw [Notice.closed, Bool.cond_eq_ite] at known
    split at known
    · rename_i told
      cases known
      rw [Frame.close]
      split
      · rename_i kind' isNode
        intro node member
        cases member
        have isMark := own.mark _ rfl
        rwa [Frame.mark?, isNode] at isMark
      · rename_i dissolved
        rcases Bool.or_eq_true_iff.mp told with keeps | both
        · have isNode := own.dissolves (by simpa using keeps)
          rw [dissolved] at isNode
          cases isNode
        · obtain ⟨inside, outside⟩ := Bool.and_eq_true_iff.mp both
          intro node member
          rw [List.head?_append, Option.mem_def, Option.or_eq_some_iff] at member
          rcases member with here | ⟨-, there⟩
          · exact own.last _ (beq_iff_eq.mp inside) node here
          · exact last _ (beq_iff_eq.mp outside) node there
    · cases known
  · rw [Frame.close_kind, same.1]
    exact heeded.dissolves keeps
  · obtain ⟨mark, text, isMark, known, inside⟩ := heeded.marked marked
    exact ⟨mark, text, frame.trans isMark, by rw [Frame.close_value, same.2, known], inside⟩

end Heeded

theorem heed_branch {test : Test} {a b : Grammar}
    (heeds : heed mark (.branch test a b) n = some n') : (test.asksValue = true → mark = some none) ∧ ∃ yes no, heed mark a (n.learn test) = some yes ∧
      heed mark b (n.learn test.neither) = some no ∧ n' = yes.join no := by
  rw [heed, Bool.cond_eq_ite] at heeds
  split at heeds
  · cases heeds
  · rename_i plain
    obtain ⟨yes, left, rest⟩ := Option.bind_eq_some_iff.mp heeds
    obtain ⟨no, right, rfl⟩ := Option.map_eq_some_iff.mp rest
    exact ⟨fun asks => by simpa [asks] using plain, yes, no, left, right, rfl⟩

/-- Each round leaves what was known before the loop. -/
theorem heed_loop {test : Test} {a : Grammar} (heeds : heed mark (.loop test a) n = some n') :
    (test.asksValue = true → mark = some none) ∧ ∃ last round,
      (∀ own, last = some own → n.last = some own) ∧
      heed mark a (n.round test last) = some round ∧ n.keeps round = true ∧
      (∀ own, last = some own → round.last = some own) ∧ n' = { n.forget with last := last } := by
  have rounds (last : Option (Option String))
      (some : ((heed mark a (n.round test last)).any fun round =>
        n.keeps round && (last == none || round.last == last)) = true) :
      ∃ round, heed mark a (n.round test last) = .some round ∧ n.keeps round = true ∧
        (∀ own, last = .some own → round.last = .some own) := by
    obtain ⟨round, body, both⟩ := Option.any_eq_true .. |>.mp some
    obtain ⟨keeps, either⟩ := Bool.and_eq_true_iff.mp both
    refine ⟨round, body, keeps, ?_⟩
    rintro own rfl
    simpa using either
  rw [heed, Bool.cond_eq_ite] at heeds
  split at heeds
  · cases heeds
  · rename_i plain
    refine ⟨fun asks => by simpa [asks] using plain, ?_⟩
    rw [Bool.cond_eq_ite] at heeds
    split at heeds
    · rename_i both
      cases heeds
      obtain ⟨start, some⟩ := Bool.and_eq_true_iff.mp both
      obtain ⟨round, body, keeps, after⟩ := rounds _ some
      exact ⟨_, round, fun own known => known ▸ beq_iff_eq.mp start, body, keeps, after, rfl⟩
    · rw [Bool.cond_eq_ite] at heeds
      split at heeds
      · rename_i some
        cases heeds
        obtain ⟨round, body, keeps, after⟩ := rounds _ some
        exact ⟨none, round, by simp, body, keeps, after, rfl⟩
      · cases heeds

/-- What the rules read alike: the node that is being read keeps its kind and its value, and its
last part has no mark if it had none. -/
def CallsRecased (call call' : Nonterminal → Frame → Cursor → Reading) : Prop :=
  ∀ name f f' c c' g d, f.Alike f' → c.Recased c' → call name f c = .ok (g, d) →
    ∃ g' d', call' name f' c' = .ok (g', d') ∧ g.Alike g' ∧ d.Recased d' ∧
      g.kind = f.kind ∧ g.value = f.value ∧
      ((∀ node ∈ f.parts.head?, node.kind.mark? = none) →
        ∀ node ∈ g.parts.head?, node.kind.mark? = none)

namespace Grammar

variable {call call' : Nonterminal → Frame → Cursor → Reading}

/-- The two loops make the same rounds. -/
theorem repeatWhile_recased {test : Test} {step step' : Frame → Cursor → Reading} {round : Notice}
    {last : Option (Option String)} (plain : test.asksValue = true → mark = some none)
    (rounds : ∀ f f' c c' g d, Heeded mark (n.round test last) f c → f.Alike f' → c.Recased c' →
      step f c = .ok (g, d) → ∃ g' d', step' f' c' = .ok (g', d') ∧ g.Alike g' ∧ d.Recased d' ∧
        Heeded mark round g d ∧ (mark = none → g.kind = f.kind ∧ g.value = f.value))
    (keeps : n.keeps round = true) (after : ∀ own, last = some own → round.last = some own)
    (left left' : List Token) (same : left.length = left'.length) {f' : Frame} {c' : Cursor}
    (heeded : Heeded mark { n.forget with last := last } f c) (alike : f.Alike f')
    (cursor : c.Recased c') (ok : repeatWhile test step left f c = .ok (g, d)) :
    ∃ g' d', repeatWhile test step' left' f' c' = .ok (g', d') ∧ g.Alike g' ∧ d.Recased d' ∧
      Heeded mark { n.forget with last := last } g d ∧
      (mark = none → g.kind = f.kind ∧ g.value = f.value) := by
  induction left generalizing left' f f' c c' with
  | nil =>
      obtain rfl := List.length_eq_zero_iff.mp same.symm
      cases ok
      exact ⟨f', c', rfl, alike, cursor, heeded, fun _ => ⟨rfl, rfl⟩⟩
  | cons token left ih =>
      obtain ⟨token', left', rfl⟩ := List.exists_cons_of_length_eq_add_one same.symm
      have verdict := test.holds_alike alike cursor
        fun asks => heeded.mark none (plain asks)
      rw [repeatWhile] at ok
      rw [repeatWhile, verdict]
      split at ok
      · rename_i holds
        rw [if_pos holds]
        have may := test.may_holds f c
        rw [holds, ← Test.may_plain] at may
        have here : Heeded mark (n.round test last) f c :=
          ⟨Outlook.possible_iff.mpr (by simpa [Notice.outlook, Notice.round] using may), by rintro _ ⟨⟩,
            heeded.mark, heeded.last, heeded.dissolves, heeded.marked⟩
        split at ok
        · rename_i h b found
          obtain ⟨h', b', read, alike, cursor, body, kept⟩ :=
            rounds f f' c c' h b here alike cursor found
          rw [Notice.keeps, Bool.and_eq_true, Bool.or_eq_true, Bool.or_eq_true] at keeps
          have again : Heeded mark { n.forget with last := last } h b := by
            refine ⟨rfl, by rintro _ ⟨⟩, body.mark, fun own known => body.last own (after own known),
              fun stays => ?_, fun marked => ?_⟩
            · exact body.dissolves (keeps.1.elim (by simp) fun may => by
                rw [show n.dissolves = false from stays] at may
                cases may)
            · exact body.marked (keeps.2.elim id fun never => by
                rw [show n.marked = true from marked] at never
                cases never)
          obtain ⟨g', d', reads, alike, cursor, heeded, kept'⟩ :=
            ih left' (by simpa using same) again alike cursor ok
          refine ⟨g', d', by rw [read]; exact reads, alike, cursor, heeded, fun rule => ?_⟩
          exact ⟨(kept' rule).1.trans (kept rule).1, (kept' rule).2.trans (kept rule).2⟩
        · cases ok
      · rename_i fails
        cases ok
        rw [if_neg fails]
        exact ⟨f', c', rfl, alike, cursor, heeded, fun _ => ⟨rfl, rfl⟩⟩

theorem read_recased (calls : CallsRecased call call') (a : Grammar) {f' : Frame} {c' : Cursor}
    (heeds : heed mark a n = some n') (heeded : Heeded mark n f c) (alike : f.Alike f')
    (cursor : c.Recased c') (ok : read call a f c = .ok (g, d)) :
    ∃ g' d', read call' a f' c' = .ok (g', d') ∧ g.Alike g' ∧ d.Recased d' ∧
      Heeded mark n' g d ∧ (mark = none → g.kind = f.kind ∧ g.value = f.value) := by
  induction a generalizing mark n n' f f' c c' g d with
  | nothing =>
      cases ok
      cases heeds
      exact ⟨f', c', rfl, alike, cursor, heeded, fun _ => ⟨rfl, rfl⟩⟩
  | fail expected => cases ok
  | take =>
      cases ok
      cases heeds
      exact ⟨f', _, rfl, alike, cursor.advance, heeded.take, fun _ => ⟨rfl, rfl⟩⟩
  | copy spelling =>
      cases ok
      rw [heed, Bool.cond_eq_ite] at heeds
      split at heeds <;> cases heeds
      rename_i both
      obtain ⟨known, either⟩ := Bool.and_eq_true_iff.mp both
      obtain ⟨own, rfl⟩ := Option.isSome_iff_exists.mp known
      have lexeme := cursor.current.lexeme
      refine ⟨_, c', rfl, alike.write ?_, cursor, heeded.write _, by simp⟩
      rw [Bool.or_eq_true, Bool.or_eq_true] at either
      rcases either with (folds | marked) | silent
      · exact .inl (lexeme.spelling_eq folds)
      · exact .inr ⟨lexeme.capitals_spelling spelling, heeded.marked marked⟩
      · exact .inl (congrArg _ (lexeme.eq_of_silent (Notice.silent_sound heeded silent)))
  | write text =>
      cases ok
      obtain ⟨own, rfl, rfl⟩ := Option.map_eq_some_iff.mp heeds
      exact ⟨_, c', rfl, alike.write (.inl rfl), cursor, heeded.writeMark rfl text, by simp⟩
  | gap =>
      cases ok
      obtain ⟨own, rfl, rfl⟩ := Option.map_eq_some_iff.mp heeds
      exact ⟨_, c', rfl, alike.gap, cursor, heeded.gap, by simp⟩
  | phrase phrases =>
      obtain ⟨own, rfl, rfl⟩ := Option.map_eq_some_iff.mp heeds
      obtain ⟨words, next⟩ := cursor.phrase phrases [] cursor.length
      rw [read] at ok ⊢
      cases one : c.phrase phrases [] c.tokens with
      | mk spoken b =>
          cases two : c'.phrase phrases [] c'.tokens with
          | mk spoken' b' =>
              rw [one, two] at words next
              rw [one] at ok
              dsimp only at words next
              subst words
              cases spoken' with
              | nil =>
                  cases ok
                  exact ⟨f', b', rfl, alike, next, heeded.forget _, by simp⟩
              | cons word others =>
                  cases ok
                  exact ⟨_, b', rfl, alike.gap.write (.inl rfl), next,
                    (heeded.gap.write _).forget _, by simp⟩
  | seq a b first second =>
      obtain ⟨between, left, right⟩ := Option.bind_eq_some_iff.mp heeds
      rw [read] at ok
      split at ok
      · rename_i h b found
        obtain ⟨h', b', read', alike, cursor, heeded, same⟩ := first left heeded alike cursor found
        obtain ⟨g', d', read'', alike, cursor, heeded, same'⟩ := second right heeded alike cursor ok
        refine ⟨g', d', by rw [read, read']; exact read'', alike, cursor, heeded, fun rule => ?_⟩
        exact ⟨(same' rule).1.trans (same rule).1, (same' rule).2.trans (same rule).2⟩
      · cases ok
  | branch test a b first second =>
      obtain ⟨plain, yes, no, left, right, rfl⟩ := heed_branch heeds
      have verdict := test.holds_alike alike cursor
        fun asks => heeded.mark none (plain asks)
      rw [read] at ok
      rw [read, verdict]
      split at ok
      · rename_i holds
        rw [if_pos holds]
        obtain ⟨g', d', read, alike, cursor, heeded, same⟩ :=
          first left (heeded.learn holds) alike cursor ok
        exact ⟨g', d', read, alike, cursor, heeded.join_left, same⟩
      · rename_i fails
        have refuted : test.neither.holds f c = true := by simpa [Test.holds] using fails
        rw [if_neg fails]
        obtain ⟨g', d', read, alike, cursor, heeded, same⟩ :=
          second right (heeded.learn refuted) alike cursor ok
        exact ⟨g', d', read, alike, cursor, heeded.join_right, same⟩
  | loop test a ih =>
      obtain ⟨plain, last, round, start, body, keeps, after, rfl⟩ := heed_loop heeds
      have before : Heeded mark { n.forget with last := last } f c :=
        { heeded.forget c with last := fun own known => heeded.last own (start own known) }
      exact repeatWhile_recased plain (fun f f' c c' g d => ih body) keeps after c.tokens
        c'.tokens cursor.length before alike cursor ok
  | node kind a ih =>
      obtain ⟨inner, body, rfl⟩ := Option.map_eq_some_iff.mp heeds
      rw [read] at ok
      split at ok <;> rename_i found <;> cases ok
      obtain ⟨h', d', read', inside, cursor', own, -⟩ :=
        ih body (heeded.opened kind) (.opened (some kind) cursor) cursor found
      refine ⟨_, d', by rw [read, read'], alike.close inside cursor', cursor',
        heeded.closed own ⟨rfl, rfl⟩ heeded.last, fun _ => ⟨Frame.close_kind .., ?_⟩⟩
      exact Frame.close_value ..
  | wrap kind a ih =>
      obtain ⟨inner, body, rfl⟩ := Option.map_eq_some_iff.mp heeds
      rw [read] at ok
      split at ok <;> rename_i found <;> cases ok
      obtain ⟨within, outside⟩ := alike.wrapLast kind cursor
      obtain ⟨h', d', read', inside, cursor', own, -⟩ :=
        ih body (heeded.wrapLast kind) within cursor found
      have same : (f.wrapLast kind c).2.kind = f.kind ∧ (f.wrapLast kind c).2.value = f.value := by
        rw [Frame.wrapLast]
        cases f.parts <;> exact ⟨rfl, rfl⟩
      refine ⟨_, d', by rw [read, read'], outside.close inside cursor', cursor',
        heeded.closed own same (by simp), fun _ => ?_⟩
      rw [Frame.close_kind, Frame.close_value]
      exact same
  | become kind =>
      cases ok
      rw [heed, Bool.cond_eq_ite] at heeds
      split at heeds <;> cases heeds
      rename_i both
      rw [Bool.and_eq_true, beq_iff_eq, beq_iff_eq] at both
      obtain ⟨rfl, plain⟩ := both
      exact ⟨_, c', rfl, alike.become (heeded.mark none rfl) (some kind), cursor,
        heeded.become plain fun _ => rfl, by simp⟩
  | dissolve =>
      cases ok
      rw [heed, Bool.cond_eq_ite] at heeds
      split at heeds <;> cases heeds
      rename_i known
      obtain rfl := beq_iff_eq.mp known
      exact ⟨_, c', rfl, alike.become (heeded.mark none rfl) none, cursor, heeded.become rfl (by simp),
        by simp⟩
  | splice =>
      cases ok
      rw [heed, Bool.cond_eq_ite] at heeds
      split at heeds <;> cases heeds
      rename_i both
      obtain ⟨known, either⟩ := Bool.and_eq_true_iff.mp both
      obtain ⟨own, rfl⟩ := Option.isSome_iff_exists.mp known
      refine ⟨_, c', rfl, alike.splice fun node member => ?_, cursor, heeded.splice, by simp⟩
      rcases Bool.or_eq_true_iff.mp either with plain | same
      · exact .inl (heeded.last none (beq_iff_eq.mp plain) node member)
      · rw [heeded.mark own rfl]
        exact .inr (heeded.last own (beq_iff_eq.mp same) node member)
  | echo =>
      cases ok
      rw [heed, Bool.cond_eq_ite] at heeds
      split at heeds <;> cases heeds
      rename_i both
      obtain ⟨known, plain⟩ := Bool.and_eq_true_iff.mp both
      obtain ⟨own, rfl⟩ := Option.isSome_iff_exists.mp known
      exact ⟨_, c', rfl, alike.echo (heeded.last none (beq_iff_eq.mp plain)), cursor, heeded.echo,
        by simp⟩
  | discard a ih =>
      obtain ⟨inner, body, rfl⟩ := Option.map_eq_some_iff.mp heeds
      rw [read] at ok
      split at ok <;> rename_i found <;> cases ok
      have start : Heeded (some none)
          { n with last := some none, dissolves := true, marked := false } (.opened none c) c :=
        heeded.at_frame (by rintro own ⟨⟩; rfl) (by rintro _ _ _ ⟨⟩) (by simp)
      obtain ⟨h', d', read', -, cursor', own, -⟩ :=
        ih body start (.opened none cursor) cursor found
      refine ⟨f', d', by rw [read, read'], alike, cursor', ?_, fun _ => ⟨rfl, rfl⟩⟩
      exact ⟨own.possible, own.names, heeded.mark, heeded.last, heeded.dissolves, heeded.marked⟩
  | deeper a ih =>
      rw [read] at ok
      rw [read, cursor.depth]
      dsimp only at ok ⊢
      split at ok
      · cases ok
      · rename_i shallow
        rw [if_neg shallow]
        split at ok <;> rename_i found <;> cases ok
        obtain ⟨g', d', read', alike, cursor', heeded, same⟩ :=
          ih heeds (heeded.turn (c.depth + 1)) alike (cursor.turn (c.depth + 1)) found
        refine ⟨g', _, by rw [read'], alike, ?_, heeded.turn _, same⟩
        rw [cursor'.depth]
        exact cursor'.turn _
  | call name =>
      cases heeds
      obtain ⟨g', d', read', alike', cursor', kind, value, last⟩ :=
        calls name f f' c c' g d alike cursor ok
      exact ⟨g', d', read', alike', cursor', heeded.called ⟨kind, value⟩ last,
        fun _ => ⟨kind, value⟩⟩

/-- Rules that heed the case of names read alike, nested equally deep. -/
theorem callRule_recased {rules : Nonterminal → Grammar} (heeds : ∀ name, (rules name).heeds = true)
    {left left' : List Token} (same : left.length = left'.length) :
    CallsRecased (callRule rules left) (callRule rules left') := by
  induction left generalizing left' with
  | nil => exact fun name f f' c c' g d alike cursor ok => by cases ok
  | cons token left ih =>
      obtain ⟨token', left', rfl⟩ := List.exists_cons_of_length_eq_add_one same.symm
      have calls : CallsRecased (callRule rules left) (callRule rules left') :=
        ih (by simpa using same)
      intro name f f' c c' g d alike cursor ok
      obtain ⟨some, clean⟩ := Bool.and_eq_true_iff.mp (heeds name)
      have start (last : Option (Option String))
          (known : ∀ own, last = .some own → ∀ node ∈ f.parts.head?, node.kind.mark? = own) :
          Heeded none ⟨[], none, last, true, false⟩ f c :=
        ⟨rfl, by simp, by simp, known, by simp, by simp⟩
      obtain ⟨after, heeded⟩ := Option.isSome_iff_exists.mp some
      obtain ⟨g', d', read', alike', cursor', -, kept⟩ :=
        read_recased calls (rules name) heeded (start none (by simp)) alike cursor ok
      refine ⟨g', d', read', alike', cursor', (kept rfl).1, (kept rfl).2, fun last => ?_⟩
      obtain ⟨after, heeded, plain⟩ := (Option.any_eq_true ..).mp clean
      obtain ⟨-, -, -, -, -, own, -⟩ := read_recased calls (rules name) heeded
        (start (.some none) (by rintro own ⟨⟩; exact last)) alike cursor ok
      exact own.last none (beq_iff_eq.mp plain)

theorem run_recased {rules : Nonterminal → Grammar} (heeds : ∀ name, (rules name).heeds = true)
    {a : Grammar} (heeded : heed (some none) a ⟨[], none, some none, true, false⟩ = some n)
    {c' : Cursor} (cursor : c.Recased c') (ok : a.run rules (.opened none c) c = .ok (g, d)) :
    ∃ g' d', a.run rules (.opened none c') c' = .ok (g', d') ∧ g.Alike g' ∧ d.Recased d' := by
  have start : Heeded (some none) ⟨[], none, some none, true, false⟩ (.opened none c) c :=
    ⟨rfl, by simp, by rintro own ⟨⟩; rfl, by rintro _ _ _ ⟨⟩, by simp, by simp⟩
  obtain ⟨g', d', read', alike, cursor', -⟩ := read_recased (callRule_recased heeds cursor.length) a
    heeded start (.opened none cursor) cursor ok
  exact ⟨g', d', read', alike, cursor'⟩

end Grammar
end SqlAudit
