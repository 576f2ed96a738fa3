import SqlAudit.Proofs.Grammar.Steps
import SqlAudit.Proofs.Tree.Every
/-!
Frames stay in the order of the text. The parts of a frame form a row that begins where the frame
does and ends where the last token taken ends, and every step of a reading keeps it so; nodes are
therefore nested when they are closed. As each takes a token, none of them is empty.
-/
namespace SqlAudit

open Node (Row row_append row_concat row_widen nested_iff_row)

structure Frame.Fitted (f : Frame) (c : Cursor) : Prop where
  begins : f.start ≤ c.current.span.start
  row : Row f.start (max c.previous.stop f.start) f.parts.reverse

variable {ok : Cursor → Prop} {f g : Frame} {c d : Cursor} {size : Nat}

theorem fitted_opened (kind : Option NodeKind) (c : Cursor) : (Frame.opened kind c).Fitted c :=
  ⟨Nat.le_refl _, Nat.le_max_right ..⟩

/-- A frame that is left alone while the cursor moves on. -/
theorem fitted_path (path : Path ok c d) (ordered : c.Ordered size) (fitted : f.Fitted c) :
    f.Fitted d := by
  have later := path.current_mono ordered
  have passed := path.previous_mono ordered
  have begins := fitted.begins
  exact ⟨begins.trans later, row_widen (Nat.le_refl _) (by omega) fitted.row⟩

/-- The inner frame starts after the parts of the outer one, and a token has been taken for it. -/
theorem fitted_close (begins : f.start ≤ d.current.span.start)
    (before : Row f.start g.start f.parts.reverse) (inner : g.Fitted d)
    (taken : g.start ≤ d.previous.stop) : (f.close g d).Fitted d := by
  have stop : max d.previous.stop g.start = d.previous.stop := Nat.max_eq_left taken
  have row := inner.row
  rw [stop] at row
  unfold Frame.close
  split
  · refine ⟨begins, ?_⟩
    simp only [Frame.push, List.reverse_cons, stop]
    exact row_concat.mpr ⟨before, (nested_iff_row _).mpr row, Nat.le_max_left ..⟩
  · refine ⟨begins, ?_⟩
    rw [List.reverse_append]
    exact row_append.mpr ⟨g.start, before, row_widen (Nat.le_refl _) (Nat.le_max_left ..) row⟩

theorem fitted_splice (fitted : f.Fitted c) : f.splice.Fitted c := by
  unfold Frame.splice
  split
  · exact fitted
  · rename_i node parts same
    have row := fitted.row
    rw [same, List.reverse_cons, row_concat] at row
    obtain ⟨before, nested, upper⟩ := row
    refine ⟨fitted.begins, ?_⟩
    rw [List.reverse_append, List.reverse_reverse]
    have inner := row_widen (Nat.le_refl _) upper ((nested_iff_row node).mp nested)
    exact row_append.mpr ⟨_, before, inner⟩

/-- What a wrapping node needs: its own frame is fitted, and what is left of the outer frame ends
where it starts. -/
theorem fitted_wrapLast (kind : NodeKind) (ordered : c.Ordered size) (fitted : f.Fitted c) :
    (f.wrapLast kind c).1.Fitted c ∧
      Row f.start (f.wrapLast kind c).1.start (f.wrapLast kind c).2.parts.reverse := by
  have after := ordered.previous_stop_le
  have begins := fitted.begins
  have row := fitted.row
  unfold Frame.wrapLast
  split
  · rename_i none
    exact ⟨fitted_opened _ c, row_widen (Nat.le_refl _) (Nat.max_le.mpr ⟨after, begins⟩) row⟩
  · rename_i node parts same
    rw [same, List.reverse_cons, row_concat] at row
    obtain ⟨before, nested, upper⟩ := row
    have lower := Node.row_bounds before
    have ordered := Node.nested_ordered nested
    refine ⟨⟨?_, ?_⟩, before⟩
    · show node.span.start ≤ c.current.span.start
      omega
    · show Row node.span.start (max c.previous.stop node.span.start) [node]
      exact ⟨Nat.le_refl _, nested, by simp only [Row]; omega⟩

theorem steps_fitted (steps : Steps ok f c g d) (ordered : c.Ordered size) (fitted : f.Fitted c) :
    g.Fitted d := by
  induction steps with
  | done => exact fitted
  | take allowed => exact fitted_path (Path.take .here allowed) ordered fitted
  | turn depth => exact ⟨fitted.begins, fitted.row⟩
  | write value => exact ⟨fitted.begins, fitted.row⟩
  | become kind read => exact ⟨fitted.begins, fitted.row⟩
  | splice => exact fitted_splice fitted
  | @node f g c d kind read inner moved ih =>
      have path := inner.path
      have passed := path.previous_stop_le ordered moved
      have later := path.current_mono ordered
      have begins := fitted.begins
      have token := ordered.current_span
      have start : g.start = c.current.span.start := inner.start_eq
      refine fitted_close (by omega) ?_ (ih ordered (fitted_opened _ c)) (by omega)
      have after := ordered.previous_stop_le
      exact row_widen (Nat.le_refl _) (by omega) fitted.row
  | @wrap f g c d kind read inner moved ih =>
      obtain ⟨own, before⟩ := fitted_wrapLast kind ordered fitted
      have path := inner.path
      have passed := path.previous_stop_le ordered moved
      have later := path.current_mono ordered
      have token := ordered.current_span
      have outer : (f.wrapLast kind c).2.start = f.start := by
        unfold Frame.wrapLast
        split <;> rfl
      have begins := fitted.begins
      have ownBegins := own.begins
      have start := inner.start_eq
      refine fitted_close (by omega) ?_ (ih ordered own) (by omega)
      rwa [outer, start]
  | discard inner ih => exact fitted_path inner.path ordered fitted
  | trans first second left right => exact right (first.path.ordered ordered) (left ordered fitted)

@[simp] theorem Frame.close_kind (f g : Frame) (d : Cursor) : (f.close g d).kind = f.kind := by
  unfold close
  split <;> rfl

@[simp] theorem Frame.close_start (f g : Frame) (d : Cursor) : (f.close g d).start = f.start := by
  unfold close
  split <;> rfl

@[simp] theorem Frame.close_value (f g : Frame) (d : Cursor) : (f.close g d).value = f.value := by
  unfold close
  split <;> rfl

@[simp] theorem Frame.splice_kind (f : Frame) : f.splice.kind = f.kind := by
  cases parts : f.parts <;> simp [splice, parts]

theorem Frame.echo_eq (f : Frame) : ∃ value, f.echo = { f with value := value } := by
  obtain ⟨kind, start, value, parts⟩ := f
  cases parts with
  | nil => exact ⟨value, rfl⟩
  | cons node below => exact ⟨_, rfl⟩

/-- `P` holds of the parts of a frame and of all nodes below them. -/
def Frame.All (P : Node → Prop) (f : Frame) : Prop := ∀ node ∈ f.parts, node.Every P

variable {P : Node → Prop}

theorem all_opened (P : Node → Prop) (kind : Option NodeKind) (c : Cursor) :
    (Frame.opened kind c).All P := by
  simp [Frame.All, Frame.opened]

theorem all_close (outer : f.All P) (inner : g.All P)
    (closed : ∀ kind, g.kind = some kind →
      P ⟨kind, ⟨g.start, max d.previous.stop g.start⟩, g.value, g.parts.reverse⟩) :
    (f.close g d).All P := by
  unfold Frame.close
  split
  · rename_i kind same
    intro node member
    rcases List.mem_cons.mp member with rfl | member
    · refine Node.every_iff.mpr ⟨closed kind same, ?_⟩
      exact fun child below => inner child (List.mem_reverse.mp below)
    · exact outer node member
  · intro node member
    exact (List.mem_append.mp member).elim (inner node) (outer node)

theorem all_splice (all : f.All P) : f.splice.All P := by
  unfold Frame.splice
  split
  · exact all
  · rename_i node parts same
    rw [Frame.All, same] at all
    intro child member
    rcases List.mem_append.mp member with below | other
    · exact (Node.every_iff.mp (all node (.head _))).2 child (List.mem_reverse.mp below)
    · exact all child (.tail _ other)

theorem all_wrapLast (kind : NodeKind) (c : Cursor) (all : f.All P) :
    (f.wrapLast kind c).1.All P ∧ (f.wrapLast kind c).2.All P := by
  unfold Frame.wrapLast
  split
  · exact ⟨all_opened P _ c, all⟩
  · rename_i node parts same
    rw [Frame.All, same] at all
    refine ⟨?_, fun n member => all n (.tail _ member)⟩
    intro n member
    rw [List.mem_singleton.mp member]
    exact all node (.head _)

/-- Where a token has been taken since, the text of a node goes on past its start. -/
theorem start_lt_previous (path : Path ok c d) (ordered : c.Ordered size)
    (moved : d.rest.length < c.rest.length) : c.current.span.start < d.previous.stop := by
  have more : c.rest ≠ [] := by
    rintro last
    rw [last] at moved
    exact Nat.not_lt_zero _ moved
  have notFinish := fun finish => more (ordered.finish_iff.mp finish)
  exact (ordered.current_nonempty notFinish).trans_le (path.previous_stop_le ordered moved)

theorem steps_solid (steps : Steps ok f c g d) (ordered : c.Ordered size) (fitted : f.Fitted c)
    (solid : f.All Node.Solid) : g.All Node.Solid := by
  induction steps with
  | splice => exact all_splice solid
  | @node f g c d kind read inner moved ih =>
      have taken := start_lt_previous inner.path ordered moved
      have start : g.start = c.current.span.start := inner.start_eq
      apply all_close solid (ih ordered (fitted_opened _ c) (all_opened _ _ c))
      intro kind same
      exact (start ▸ taken).trans_le (Nat.le_max_left ..)
  | @wrap f g c d kind read inner moved ih =>
      obtain ⟨own, -⟩ := fitted_wrapLast kind ordered fitted
      obtain ⟨first, left⟩ := all_wrapLast kind c solid
      have taken := start_lt_previous inner.path ordered moved
      have begins := own.begins
      have start := inner.start_eq
      apply all_close left (ih ordered own first)
      intro kind same
      exact (start ▸ begins.trans_lt taken).trans_le (Nat.le_max_left ..)
  | trans first second left right =>
      have between := steps_fitted first ordered fitted
      exact right (first.path.ordered ordered) between (left ordered fitted solid)
  | _ => exact solid

end SqlAudit
