import SqlAudit.Proofs.Grammar.Movement
/-!
What a reading can do, one change after another, whatever grammar it follows. `Path` keeps only the
places the cursor goes through, `Steps` also how the frame is filled on the way. Both record that
`ok` holds wherever a token is taken, and a node is only closed after at least one token more than
it was opened with. Of the kind of a region that could not be read no node ever is.
-/
namespace SqlAudit

inductive Path (ok : Cursor → Prop) (c : Cursor) : Cursor → Prop
  | here : Path ok c c
  | take {d : Cursor} (before : Path ok c d) (allowed : ok d) : Path ok c d.advance
  | turn {d : Cursor} (before : Path ok c d) (depth : Nat) : Path ok c { d with depth := depth }

inductive Steps (ok : Cursor → Prop) : Frame → Cursor → Frame → Cursor → Prop
  | done {f : Frame} {c : Cursor} : Steps ok f c f c
  | take {f : Frame} {c : Cursor} (allowed : ok c) : Steps ok f c f c.advance
  | turn {f : Frame} {c : Cursor} (depth : Nat) : Steps ok f c f { c with depth := depth }
  | write {f : Frame} {c : Cursor} (value : Option String) :
      Steps ok f c { f with value := value } c
  | become {f : Frame} {c : Cursor} (kind : Option NodeKind) (read : kind ≠ some .unparsed) :
      Steps ok f c { f with kind := kind } c
  | splice {f : Frame} {c : Cursor} : Steps ok f c f.splice c
  | node {f g : Frame} {c d : Cursor} {kind : NodeKind} (read : kind ≠ .unparsed)
      (inner : Steps ok (.opened kind c) c g d) (moved : d.rest.length < c.rest.length) :
      Steps ok f c (f.close g d) d
  | wrap {f g : Frame} {c d : Cursor} {kind : NodeKind} (read : kind ≠ .unparsed)
      (inner : Steps ok (f.wrapLast kind c).1 c g d) (moved : d.rest.length < c.rest.length) :
      Steps ok f c ((f.wrapLast kind c).2.close g d) d
  | discard {f g : Frame} {c d : Cursor} (inner : Steps ok (.opened none c) c g d) :
      Steps ok f c f d
  | trans {f g h : Frame} {c d e : Cursor} (first : Steps ok f c g d) (second : Steps ok g d h e) :
      Steps ok f c h e

variable {ok : Cursor → Prop} {c d e : Cursor} {f g : Frame} {size : Nat}

namespace Path

theorem mono {ok' : Cursor → Prop} (weaker : ∀ b, ok b → ok' b) (path : Path ok c d) :
    Path ok' c d := by
  induction path with
  | here => exact .here
  | take before allowed ih => exact .take ih (weaker _ allowed)
  | turn before depth ih => exact .turn ih depth

theorem trans (first : Path ok c d) (second : Path ok d e) : Path ok c e := by
  induction second with
  | here => exact first
  | take before allowed ih => exact .take ih allowed
  | turn before depth ih => exact .turn ih depth

theorem suffix (path : Path ok c d) : d.tokens <:+ c.tokens := by
  induction path with
  | here => exact List.suffix_refl _
  | take before allowed ih => exact (Cursor.advance_suffix _).trans ih
  | turn before depth ih => exact ih

theorem ordered (path : Path ok c d) (start : c.Ordered size) : d.Ordered size := by
  induction path with
  | here => exact start
  | take before allowed ih => exact ih.advance
  | turn before depth ih => exact ih

/-- The token before a cursor was there already, or has been taken on the way. -/
theorem previous_cases (path : Path ok c d) (start : c.Ordered size) :
    (d.tokens = c.tokens ∧ d.previous = c.previous) ∨
      (c.current.span.start ≤ d.previous.start ∧ c.current.span.stop ≤ d.previous.stop) := by
  induction path with
  | here => exact .inl ⟨rfl, rfl⟩
  | @take d before allowed ih =>
      right
      rw [Cursor.advance_previous]
      have there := before.ordered start
      rcases ih with ⟨same, _⟩ | ⟨first, last⟩
      · have current : d.current = c.current := by injection same
        simp [current]
      · have after := there.previous_stop_le
        have nonempty := there.current_span
        have begins := start.current_span
        omega
  | turn before depth ih => exact ih

/-- The token before a cursor is one of those that were ahead, unless nothing was taken. -/
theorem previous_mem (path : Path ok c d) :
    d.previous = c.previous ∨ ∃ token ∈ c.tokens, d.previous = token.span := by
  induction path with
  | here => exact .inl rfl
  | @take d before allowed ih =>
      refine .inr ⟨d.current, before.suffix.mem (.head _), ?_⟩
      rw [Cursor.advance_previous]
  | turn before depth ih => exact ih

/-- Past the first token, that token lies before the cursor. -/
theorem previous_stop_le (path : Path ok c d) (start : c.Ordered size)
    (moved : d.rest.length < c.rest.length) : c.current.span.stop ≤ d.previous.stop := by
  rcases path.previous_cases start with ⟨same, _⟩ | ⟨_, last⟩
  · have rest : d.rest = c.rest := by injection same
    rw [rest] at moved
    omega
  · exact last

theorem previous_mono (path : Path ok c d) (start : c.Ordered size) :
    c.previous.stop ≤ d.previous.stop := by
  rcases path.previous_cases start with ⟨_, same⟩ | ⟨_, last⟩
  · rw [same]
  · have before := start.previous_stop_le
    have nonempty := start.current_span
    omega

theorem current_mono (path : Path ok c d) (start : c.Ordered size) :
    c.current.span.start ≤ d.current.span.start := by
  have after := (path.ordered start).previous_stop_le
  have nonempty := start.current_span
  rcases path.previous_cases start with ⟨same, _⟩ | ⟨_, last⟩
  · have current : d.current = c.current := by injection same
    rw [current]
  · omega

/-- The tokens passed on the way lie between the start of the first one and the last one's end. -/
theorem passed (path : Path ok c d) (start : c.Ordered size) {front : List Token}
    (split : c.tokens = front ++ d.tokens) :
    ∀ token ∈ front,
      c.current.span.start ≤ token.span.start ∧ token.span.stop ≤ d.previous.stop := by
  induction path generalizing front with
  | here =>
      have none : front = [] := by simpa using split
      simp [none]
  | @take d before allowed ih =>
      have there := before.ordered start
      have after := there.previous_stop_le
      have nonempty := there.current_span
      have later := before.current_mono start
      rw [Cursor.advance_previous]
      intro token member
      by_cases last : d.rest = []
      · rw [Cursor.advance_last last] at split
        have bounds := ih split token member
        omega
      · obtain ⟨earlier, whole⟩ := before.suffix
        rw [← whole, Cursor.tokens_advance last, ← List.singleton_append,
          ← List.append_assoc] at split
        have same := List.append_cancel_right split
        subst same
        rcases List.mem_append.mp member with old | now
        · have bounds := ih whole.symm token old
          omega
        · rw [List.mem_singleton.mp now]
          exact ⟨later, Nat.le_refl _⟩
  | turn before depth ih => exact ih split

/-- Every token between two cursors was taken where `ok` held. -/
theorem taken (path : Path ok c d) {front back : List Token} {token : Token}
    (between : c.tokens = front ++ token :: back) (passed : d.tokens.length ≤ back.length) :
    ∃ b, Path ok c b ∧ ok b ∧ b.tokens = token :: back := by
  induction path with
  | here =>
      have lengths := congrArg List.length between
      simp only [List.length_append, List.length_cons] at lengths
      omega
  | @take d before allowed ih =>
      by_cases earlier : d.tokens.length ≤ back.length
      · exact ih earlier
      · refine ⟨d, before, allowed, ?_⟩
        have inside := before.suffix
        rw [between] at inside
        have close : d.tokens.length ≤ back.length + 1 := by
          have step := Cursor.advance_rest d
          have lengths := congrArg List.length step
          rw [List.length_tail] at lengths
          rw [Cursor.length_tokens] at passed ⊢
          omega
        have same : d.tokens.length = (token :: back).length := by
          rw [List.length_cons]
          omega
        have later := List.suffix_of_suffix_length_le inside (List.suffix_append ..) same.le
        exact later.eq_of_length same
  | turn before depth ih => exact ih passed

end Path

namespace Steps

theorem path (steps : Steps ok f c g d) : Path ok c d := by
  induction steps with
  | done => exact .here
  | take allowed => exact .take .here allowed
  | turn depth => exact .turn .here depth
  | write value => exact .here
  | become kind read => exact .here
  | splice => exact .here
  | node read inner moved ih => exact ih
  | wrap read inner moved ih => exact ih
  | discard inner ih => exact ih
  | trans first second left right => exact left.trans right

/-- Moving on without touching the frame. -/
theorem of_path (path : Path ok c d) : Steps ok f c f d := by
  induction path with
  | here => exact .done
  | take before allowed ih => exact ih.trans (.take allowed)
  | turn before depth ih => exact ih.trans (.turn depth)

theorem start_eq (steps : Steps ok f c g d) : g.start = f.start := by
  induction steps with
  | @splice f c => cases parts : f.parts <;> simp [Frame.splice, parts]
  | @node f g c d kind read inner moved ih =>
      cases kinds : g.kind <;> simp [Frame.close, Frame.push, kinds]
  | @wrap f g c d kind read inner moved ih =>
      cases parts : f.parts <;> cases kinds : g.kind <;>
        simp [Frame.close, Frame.push, Frame.wrapLast, kinds, parts]
  | trans first second left right => exact right.trans left
  | _ => rfl

end Steps
end SqlAudit
