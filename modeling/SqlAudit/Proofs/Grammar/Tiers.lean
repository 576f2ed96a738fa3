import SqlAudit.Proofs.Grammar.Outcomes
import SqlAudit.Proofs.Tree.Distinct
/-!
Nodes that span the same text. A node can take no token beyond those of its only part, as a list of
one item does; kinds have tiers, and a node is always of a higher tier than a part that spans all of
it. The analysis keeps the tier of the parts that reach from the start of a frame to its end so far.
-/
namespace SqlAudit

namespace Tiers

/-- Nothing has been read, or parts that reach from the start to the last token are of some tier at
most. -/
def domain : Domain (Option Nat) where
  start := none
  around _ := some 0
  take reach := some (reach.getD 0)
  node reach kind inner :=
    if inner.getD 0 < kind.tier then some (if reach.isNone then some kind.tier else some 0)
    else none
  wrap _ kind inner := if inner.getD 0 < kind.tier then some (some kind.tier) else none
  join reach inner := some (if reach.isNone then inner else some 0)
  splice reach := reach.map fun tier => some (tier - 1)
  enter reach := reach
  leave reach := reach
  merge
    | some a, some b => some (some (max a b))
    | none, none => some none
    | _, _ => none

/-- Nothing has been read since `o`. -/
structure Fresh (o : Cursor) (start : Nat) (parts : List Node) (c : Cursor) : Prop where
  empty : parts = []
  here : start = c.current.span.start
  previous : o.previous = c.previous

/-- Something has been read, or the text is at its end. -/
structure Begun (tier : Nat) (o : Cursor) (start : Nat) (parts : List Node) (c : Cursor) :
    Prop where
  past : start < c.current.span.start ∨ c.rest = []
  tiered : ∀ node ∈ parts, node.Every Node.Tiered
  reach : o.previous.stop < c.previous.stop →
    ∀ node ∈ parts, node.span = ⟨start, c.previous.stop⟩ → node.kind.tier ≤ tier

def Says : Option Nat → Cursor → Nat → List Node → Cursor → Prop
  | none => Fresh
  | some tier => Begun tier

variable {size tier : Nat} {o c d : Cursor} {f g : Frame} {last : Node} {parts : List Node}
  {start : Nat} {kind : NodeKind} {reach : Option Nat}

theorem Says.tiered (said : Says reach o start parts c) :
    ∀ node ∈ parts, node.Every Node.Tiered := by
  cases reach with
  | none => simp [said.empty]
  | some tier => exact Begun.tiered said

/-- How deeply the reading is nested makes no difference. -/
theorem Says.turn (said : Says reach o start parts c) (depth : Nat) :
    Says reach o start parts { c with depth := depth } := by
  cases reach with
  | none => exact ⟨said.empty, said.here, said.previous⟩
  | some tier =>
      have begun : Begun tier o start parts c := said
      show Begun tier o start parts { c with depth := depth }
      exact ⟨begun.past, begun.tiered, begun.reach⟩

theorem Begun.mono {more : Nat} (begun : Begun tier o start parts c) (le : tier ≤ more) :
    Begun more o start parts c :=
  ⟨begun.past, begun.tiered, fun opened node member same =>
    (begun.reach opened node member same).trans le⟩

theorem Begun.pass (begun : Begun tier o f.start f.parts c) (placed : f.Placed size c)
    (path : Path (fun _ => True) c d) : Begun tier o f.start f.parts d := by
  have later := path.current_mono placed.ordered
  have shorter := Cursor.rest_length_le path.suffix
  have passed := path.previous_mono placed.ordered
  refine ⟨?_, begun.tiered, ?_⟩
  · rcases begun.past with past | last
    · exact .inl (past.trans_le later)
    · rw [last] at shorter
      exact .inr (List.eq_nil_of_length_eq_zero (Nat.le_zero.mp shorter))
  · intro opened node member same
    have stop : node.span.stop = d.previous.stop := by rw [same]
    have bounds := placed.part_bounds node member
    have still : d.previous.stop = c.previous.stop := by omega
    rw [still] at opened same
    exact begun.reach opened node member same

/-- Once a token has been passed, the frame starts before the cursor. -/
theorem Fresh.begin (fresh : Fresh o f.start f.parts c) (placed : f.Placed size c)
    (path : Path (fun _ => True) c d) (passed : c.current.span.stop ≤ d.previous.stop) :
    Begun 0 o f.start f.parts d := by
  have shorter := Cursor.rest_length_le path.suffix
  have after := (path.ordered placed.ordered).previous_stop_le
  refine ⟨?_, by simp [fresh.empty], by simp [fresh.empty]⟩
  by_cases last : c.rest = []
  · rw [last] at shorter
    exact .inr (List.eq_nil_of_length_eq_zero (Nat.le_zero.mp shorter))
  · have nonempty := placed.ordered.current_nonempty fun finish =>
      last (placed.ordered.finish_iff.mp finish)
    have here := fresh.here
    exact .inl (by omega)

/-- The node that a frame becomes is tiered, as none of its parts reaches through it but those of
lower tiers. -/
theorem tiered_closed {inner : Option Nat} (ordered : c.Ordered size) (onward : Onward c d)
    (begins : g.start < d.previous.stop) (within : Says inner c g.start g.parts d)
    (lower : inner.getD 0 < kind.tier) : (g.closed kind d).Every Node.Tiered := by
  have taken := start_lt_previous onward.path ordered onward.moved
  have before := ordered.previous_stop_le
  have below : ∀ child ∈ g.parts.reverse, child.Every Node.Tiered :=
    fun child member => within.tiered child (List.mem_reverse.mp member)
  refine Node.every_iff.mpr ⟨?_, below⟩
  intro child member same
  have part : child ∈ g.parts := List.mem_reverse.mp member
  cases inner with
  | none => simp [within.empty] at part
  | some tier =>
      have reaches : child.span = ⟨g.start, d.previous.stop⟩ := by
        rw [same, Frame.closed, Nat.max_eq_left begins.le]
      exact (Begun.reach within (by omega) child part reaches).trans_lt lower

/-- No part that was there before reaches through to where more has been read since. -/
theorem reach_moved (placed : f.Placed size c) (onward : Onward c d) {node : Node}
    (member : node ∈ f.parts) : node.span ≠ ⟨f.start, d.previous.stop⟩ := by
  intro same
  have taken := start_lt_previous onward.path placed.ordered onward.moved
  have before := placed.ordered.previous_stop_le
  have bounds := placed.part_bounds node member
  have stop : node.span.stop = d.previous.stop := by rw [same]
  omega

/-- Nor does one that starts later than the frame. -/
theorem reach_later (begun : Begun tier o f.start f.parts c) (onward : Onward c d) {node : Node}
    (begins : c.current.span.start ≤ node.span.start) :
    node.span ≠ ⟨f.start, d.previous.stop⟩ := by
  intro same
  have start : node.span.start = f.start := by rw [same]
  rcases begun.past with past | last
  · omega
  · have moved := onward.moved
    rw [last] at moved
    exact Nat.not_lt_zero _ moved

theorem Says.around (placed : f.Placed size c) (filled : f.parts = last :: parts)
    (said : Says reach o f.start f.parts c) : Begun 0 c last.span.start [last] c := by
  have bounds := placed.part_bounds _ (Frame.Placed.last_mem filled)
  have after := placed.ordered.previous_stop_le
  refine ⟨.inl (by omega), ?_, fun moved => absurd moved (Nat.lt_irrefl _)⟩
  intro node member
  rw [List.mem_singleton.mp member]
  exact said.tiered _ (Frame.Placed.last_mem filled)

theorem Says.take (placed : f.Placed size c) (said : Says reach o f.start f.parts c) :
    Says (domain.take reach) o f.start f.parts c.advance := by
  have step : Path (fun _ => True) c c.advance := .take .here trivial
  cases reach with
  | none => exact Fresh.begin said placed step (by rw [Cursor.advance_previous])
  | some tier => exact Begun.pass said placed step

theorem Says.pass (placed : f.Placed size c) (said : Says reach o f.start f.parts c)
    (path : Path (fun _ => True) c d) :
    Says reach o f.start f.parts d ∨ Says (domain.take reach) o f.start f.parts d := by
  cases reach with
  | none =>
      rcases path.previous_cases placed.ordered with ⟨tokens, previous⟩ | ⟨-, passed⟩
      · have current : d.current = c.current := by injection tokens
        exact .inl ⟨said.empty, current ▸ said.here, previous ▸ said.previous⟩
      · exact .inr (Fresh.begin said placed path passed)
  | some tier => exact .inl (Begun.pass said placed path)

variable {inner after : Option Nat}

theorem lower_of_node (closes : domain.node reach kind inner = some after) :
    inner.getD 0 < kind.tier ∧ after = if reach.isNone then some kind.tier else some 0 := by
  simp only [domain] at closes
  split at closes
  · exact ⟨‹_›, (Option.some.inj closes).symm⟩
  · cases closes

/-- The first node of a frame can reach through it; a later one starts after the frame does. -/
theorem Says.node (placed : f.Placed size c) (said : Says reach o f.start f.parts c)
    (onward : Onward c d) (own : g.Placed size d) (begins : g.start = c.current.span.start)
    (within : Says inner c g.start g.parts d)
    (closes : domain.node reach kind inner = some after) :
    Says after o f.start (g.closed kind d :: f.parts) d := by
  have taken := start_lt_previous onward.path placed.ordered onward.moved
  have next := own.ordered.previous_stop_le
  obtain ⟨lower, rfl⟩ := lower_of_node closes
  have node := tiered_closed placed.ordered onward (begins ▸ taken) within lower
  have tiered : ∀ part ∈ g.closed kind d :: f.parts, part.Every Node.Tiered :=
    List.forall_mem_cons.mpr ⟨node, said.tiered⟩
  cases reach with
  | none =>
      refine ⟨.inl ?_, tiered, ?_⟩
      · have here := said.here
        omega
      · intro _ part member _
        rw [said.empty] at member
        rw [List.mem_singleton.mp member]
        exact Nat.le_refl _
  | some tier =>
      refine ⟨(Begun.pass said placed onward.path).past, tiered, ?_⟩
      intro _ part member same
      rcases List.mem_cons.mp member with rfl | member
      · exact absurd same (reach_later said onward begins.ge)
      · exact absurd same (reach_moved placed onward member)

theorem Says.wrap (placed : f.Placed size c) (filled : f.parts = last :: parts)
    (said : Says reach o f.start f.parts c) (onward : Onward c d) (own : g.Placed size d)
    (begins : g.start = last.span.start) (within : Says inner c g.start g.parts d)
    (closes : domain.wrap reach kind inner = some after) :
    Says after o f.start (g.closed kind d :: parts) d := by
  have taken := start_lt_previous onward.path placed.ordered onward.moved
  have next := own.ordered.previous_stop_le
  have before := placed.ordered.previous_stop_le
  have bounds := placed.part_bounds _ (Frame.Placed.last_mem filled)
  have others : ∀ part ∈ parts, part ∈ f.parts := by
    intro part member
    rw [filled]
    exact .tail _ member
  have kept : ∀ part ∈ parts, part.Every Node.Tiered :=
    fun part member => said.tiered part (others part member)
  simp only [domain] at closes
  split at closes
  · rename_i lower
    cases closes
    have node := tiered_closed placed.ordered onward (by omega) within lower
    refine ⟨.inl (by omega), ?_, ?_⟩
    · exact List.forall_mem_cons.mpr ⟨node, kept⟩
    · intro _ part member same
      rcases List.mem_cons.mp member with rfl | member
      · exact Nat.le_refl _
      · exact absurd same (reach_moved placed onward (others part member))
  · cases closes

/-- More parts start where the frame does if it is fresh, and else cannot reach through it. -/
theorem Says.join (placed : f.Placed size c) (said : Says reach o f.start f.parts c)
    (onward : Onward c d) (own : g.Placed size d) (begins : g.start = c.current.span.start)
    (within : Says inner c g.start g.parts d) (joins : domain.join reach inner = some after) :
    Says after o f.start (g.parts ++ f.parts) d := by
  cases joins
  cases reach with
  | none =>
      have empty := said.empty
      have here := said.here
      have previous := said.previous
      rw [empty, List.append_nil]
      cases inner with
      | none =>
          have start : f.start = g.start := here.trans begins.symm
          exact ⟨within.empty, start.trans within.here, previous.trans within.previous⟩
      | some tier =>
          have begun : Begun tier c g.start g.parts d := within
          rw [here, ← begins]
          exact ⟨begun.past, begun.tiered, fun opened => begun.reach (previous ▸ opened)⟩
  | some tier =>
      refine ⟨(Begun.pass said placed onward.path).past, ?_, ?_⟩
      · intro part member
        exact (List.mem_append.mp member).elim (within.tiered part) (Begun.tiered said part)
      · intro _ part member same
        rcases List.mem_append.mp member with member | member
        · have bounds := own.part_bounds part member
          exact absurd same (reach_later said onward (by omega))
        · exact absurd same (reach_moved placed onward member)

/-- The children of the last node are of lower tiers if one of them spans all of it. -/
theorem Says.splice (placed : f.Placed size c) (filled : f.parts = last :: parts)
    (said : Says reach o f.start f.parts c) (leaves : domain.splice reach = some after) :
    Says after o f.start (last.children.reverse ++ parts) c := by
  obtain ⟨tier, rfl, rfl⟩ := Option.map_eq_some_iff.mp leaves
  have begun : Begun tier o f.start f.parts c := said
  have member := Frame.Placed.last_mem filled
  have bounds := placed.part_bounds last member
  obtain ⟨nested, earlier⟩ := placed.before_last filled
  obtain ⟨tiered, below⟩ := Node.every_iff.mp (begun.tiered last member)
  refine ⟨begun.past, ?_, ?_⟩
  · intro part inside
    rcases List.mem_append.mp inside with child | other
    · exact below part (List.mem_reverse.mp child)
    · exact begun.tiered part (by rw [filled]; exact .tail _ other)
  · intro opened part inside same
    have first : part.span.start = f.start := by rw [same]
    have stop : part.span.stop = c.previous.stop := by rw [same]
    rcases List.mem_append.mp inside with child | other
    · have child : part ∈ last.children := List.mem_reverse.mp child
      obtain ⟨-, lower, upper⟩ := Node.row_mem ((Node.nested_iff_row last).mp nested) part child
      have whole : last.span = part.span := by
        cases span : last.span
        cases here : part.span
        simp only [span, here] at *
        congr 1 <;> omega
      have less := tiered part child whole.symm
      have most := begun.reach opened last member (whole.trans same)
      omega
    · have ends := earlier part other
      omega

theorem Says.merge {other both : Option Nat} (merges : domain.merge reach other = some both)
    (said : Says reach o start parts c ∨ Says other o start parts c) :
    Says both o start parts c := by
  cases reach with
  | none =>
      cases other with
      | none =>
          cases merges
          exact said.elim id id
      | some n => cases merges
  | some m =>
      cases other with
      | none => cases merges
      | some n =>
          cases merges
          rcases said with left | right
          · exact Begun.mono left (Nat.le_max_left m n)
          · exact Begun.mono right (Nat.le_max_right m n)

theorem lawful (size : Nat) : domain.Lawful size Says where
  start _ := ⟨rfl, rfl, rfl⟩
  around placed filled said := said.around placed filled
  take placed said := said.take placed
  pass placed said path _ := said.pass placed path
  node placed said onward own begins within closes :=
    said.node placed onward own begins within closes
  wrap placed filled said onward own begins within closes :=
    said.wrap placed filled onward own begins within closes
  join placed said onward own begins within joins :=
    said.join placed onward own begins within joins
  splice placed filled said leaves := said.splice placed filled leaves
  enter _ said := said.turn _
  leave _ _ said := said.turn _
  merge merges said := Says.merge merges said

open Grammar in
/-- What rules leave in a frame without parts. -/
def summary : Nonterminal → Sketch (Option Nat)
  | .joinedTable => ⟨none, true, some 3⟩
  | .expression _ | .query | .createStatement => ⟨none, true, some 2⟩
  | .group | .atomicBody => ⟨none, false, some 0⟩

end Tiers

namespace Grammar

theorem tiers_summarized : Summarized Tiers.domain Tiers.summary rules :=
  summarized_rules (fun _ => rfl) (by decide +kernel)

theorem statement_outcomes : (outcomes Tiers.domain Tiers.summary statement none
    (.opening Tiers.domain)).any (fun all => all.all fun s => s.value.any (· ≤ 2)) = true := by
  decide +kernel

/-- Statements are tiered, and of the second tier at most if they span all that was read. -/
theorem derives_tiered (ordered : c.Ordered size) (shallow : c.depth ≤ maxDepth)
    (moved : d.rest.length < c.rest.length)
    (derives : Derives rules statement (.opened none c) c g d) : ∀ node ∈ g.parts,
      node.Every Node.Tiered ∧
        (node.span = ⟨c.current.span.start, d.previous.stop⟩ → node.kind.tier ≤ 2) := by
  obtain ⟨all, found, low⟩ := (Option.any_eq_true ..).mp statement_outcomes
  obtain ⟨s, member, describes⟩ :=
    derives_describes (Tiers.lawful size) tiers_summarized found ordered shallow derives
  obtain ⟨tier, reach, bound⟩ := (Option.any_eq_true ..).mp (List.all_eq_true.mp low s member)
  have taken := start_lt_previous (derives.onward moved).path ordered moved
  have before := ordered.previous_stop_le
  have said : Tiers.Says s.value c g.start g.parts d := describes.said
  rw [reach, describes.place] at said
  intro node inside
  refine ⟨describes.said.tiered node inside, fun same => ?_⟩
  exact (Tiers.Begun.reach said (by omega) node inside same).trans (of_decide_eq_true bound)

end Grammar
end SqlAudit
