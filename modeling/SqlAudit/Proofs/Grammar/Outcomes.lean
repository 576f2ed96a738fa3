import SqlAudit.Proofs.Grammar.Analysis
/-!
The outcomes of an analysis are all that there can be. Each change of a reading keeps the frame
described by one of the sketches; frames stay in the order of the text on the way, and a rule that
is called fills its part of the caller's frame as it would fill a frame of its own.
-/
namespace SqlAudit

variable {f g : Frame} {c d : Cursor} {size : Nat} {last : Node} {parts : List Node}

theorem Grammar.Derives.onward {rules : Nonterminal → Grammar} {a : Grammar}
    (derives : Derives rules a f c g d) (moved : d.rest.length < c.rest.length) : Onward c d :=
  ⟨derives.steps.path, moved, derives.depth⟩

namespace Frame

theorem close_onto (start : Nat) (below : List Node) (f g : Frame) (d : Cursor) :
    (f.onto start below).close g d = (f.close g d).onto start below := by
  unfold close
  split
  · rfl
  · simp [onto]

theorem onto_self {start : Nat} (same : f.start = start) : f.onto start [] = f := by
  simp [onto, ← same]

theorem wrapLast_onto (start : Nat) (below : List Node) (kind : NodeKind) (c : Cursor)
    (filled : f.parts = last :: parts) :
    (f.onto start below).wrapLast kind c =
      (⟨some kind, last.span.start, none, [last]⟩, { f with parts := parts }.onto start below) := by
  simp [wrapLast, onto, filled]

theorem splice_eq (filled : f.parts = last :: parts) :
    f.splice =
      { f with value := last.value.or f.value, parts := last.children.reverse ++ parts } := by
  simp [splice, filled]

theorem splice_onto (start : Nat) (below : List Node) (filled : f.parts = last :: parts) :
    (f.onto start below).splice = f.splice.onto start below := by
  simp [splice, onto, filled]

theorem close_some {kind : NodeKind} (isNode : g.kind = some kind) (f : Frame) (d : Cursor) :
    f.close g d = f.push (g.closed kind d) := by
  simp [close, isNode, closed]

theorem close_none (dissolved : g.kind = none) (f : Frame) (d : Cursor) :
    f.close g d = { f with parts := g.parts ++ f.parts } := by
  simp [close, dissolved]

namespace Placed

theorem empty (ordered : c.Ordered size) (shallow : c.depth ≤ maxDepth) (kind : Option NodeKind)
    (value : Option String) : Placed size ⟨kind, c.current.span.start, value, []⟩ c :=
  ⟨ordered, ⟨Nat.le_refl _, Nat.le_max_right ..⟩, by simp [All], shallow⟩

theorem path (placed : f.Placed size c) (path : Path (fun _ => True) c d)
    (level : d.depth = c.depth) : f.Placed size d :=
  ⟨path.ordered placed.ordered, fitted_path path placed.ordered placed.fitted, placed.solid,
    level ▸ placed.shallow⟩

theorem write (placed : f.Placed size c) (value : Option String) :
    Placed size { f with value := value } c :=
  ⟨placed.ordered, ⟨placed.fitted.begins, placed.fitted.row⟩, placed.solid, placed.shallow⟩

theorem become (placed : f.Placed size c) (kind : Option NodeKind) :
    Placed size { f with kind := kind } c :=
  ⟨placed.ordered, ⟨placed.fitted.begins, placed.fitted.row⟩, placed.solid, placed.shallow⟩

theorem turn (placed : f.Placed size c) {depth : Nat} (shallow : depth ≤ maxDepth) :
    f.Placed size { c with depth := depth } :=
  ⟨placed.ordered, ⟨placed.fitted.begins, placed.fitted.row⟩, placed.solid, shallow⟩

theorem splice (placed : f.Placed size c) : f.splice.Placed size c :=
  ⟨placed.ordered, fitted_splice placed.fitted, all_splice placed.solid, placed.shallow⟩

/-- Each part of a frame spans something between its start and the last token that was taken. -/
theorem part_bounds (placed : f.Placed size c) : ∀ node ∈ f.parts,
    f.start ≤ node.span.start ∧ node.span.start < node.span.stop ∧
      node.span.stop ≤ c.previous.stop := by
  intro node member
  obtain ⟨-, lower, upper⟩ :=
    Node.row_mem placed.fitted.row node (List.mem_reverse.mpr member)
  have solid : node.Solid := (placed.solid node member).here
  rw [Node.Solid] at solid
  exact ⟨lower, solid, by omega⟩

theorem last_mem (filled : f.parts = last :: parts) : last ∈ f.parts := by
  rw [filled]
  exact .head _

/-- The parts before the last one end where it starts at the latest. -/
theorem before_last (placed : f.Placed size c) (filled : f.parts = last :: parts) :
    last.Nested ∧ ∀ node ∈ parts, node.span.stop ≤ last.span.start := by
  have row := placed.fitted.row
  rw [filled, List.reverse_cons, Node.row_concat] at row
  refine ⟨row.2.1, ?_⟩
  intro node member
  exact (Node.row_mem row.1 node (List.mem_reverse.mpr member)).2.2

/-- The frame of a node around the last one. -/
theorem around (placed : f.Placed size c) (filled : f.parts = last :: parts) (kind : NodeKind) :
    Placed size ⟨some kind, last.span.start, none, [last]⟩ c := by
  have own := (fitted_wrapLast kind placed.ordered placed.fitted).1
  rw [wrapLast, filled] at own
  refine ⟨placed.ordered, own, ?_, placed.shallow⟩
  intro node member
  rw [List.mem_singleton.mp member]
  exact placed.solid last (by rw [filled]; exact .head _)

theorem close (placed : f.Placed size c) (onward : Onward c d) (inner : g.Placed size d)
    (begins : g.start = c.current.span.start) : (f.close g d).Placed size d := by
  have taken := start_lt_previous onward.path placed.ordered onward.moved
  have later := onward.path.current_mono placed.ordered
  have after := placed.ordered.previous_stop_le
  have start := placed.fitted.begins
  refine ⟨inner.ordered, fitted_close (by omega) ?_ inner.fitted (by omega), ?_, inner.shallow⟩
  · exact Node.row_widen (Nat.le_refl _) (by omega) placed.fitted.row
  · apply all_close placed.solid inner.solid
    intro kind same
    exact (begins ▸ taken).trans_le (Nat.le_max_left ..)

theorem wrap (placed : f.Placed size c) (filled : f.parts = last :: parts) (onward : Onward c d)
    (inner : g.Placed size d) (begins : g.start = last.span.start) :
    ({ f with parts := parts }.close g d).Placed size d := by
  have taken := start_lt_previous onward.path placed.ordered onward.moved
  have later := onward.path.current_mono placed.ordered
  have after := placed.ordered.previous_stop_le
  have start := placed.fitted.begins
  have bounds := placed.part_bounds last (last_mem filled)
  have row := placed.fitted.row
  have solid := placed.solid
  rw [filled, List.reverse_cons, Node.row_concat] at row
  rw [All, filled] at solid
  refine ⟨inner.ordered, ?_, ?_, inner.shallow⟩
  · exact fitted_close (start.trans later) (begins ▸ row.1) inner.fitted (by omega)
  · apply all_close (fun node member => solid node (.tail _ member)) inner.solid
    intro kind same
    show g.start < max d.previous.stop g.start
    omega

end Placed

end Frame

variable {α : Type} {dom : Domain α} {Says : α → Cursor → Nat → List Node → Cursor → Prop}
  {site : Site} {s t after : Sketch α}

namespace Sketch.Describes

theorem write (own : s.Describes size Says site f c) (value : Option String) :
    s.Describes size Says site { f with value := value } c :=
  ⟨own.kind, own.place, own.filled, own.placed.write value, own.said⟩

theorem become (own : s.Describes size Says site f c) (kind : Option NodeKind) :
    Sketch.Describes { s with kind := some kind } size Says site { f with kind := kind } c :=
  ⟨rfl, own.place, own.filled, own.placed.become kind, own.said⟩

theorem take (lawful : dom.Lawful size Says) (own : s.Describes size Says site f c) :
    Sketch.Describes { s with value := dom.take s.value } size Says site f c.advance :=
  ⟨own.kind, own.place, own.filled,
    own.placed.path (.take .here trivial) (Cursor.advance_depth c), lawful.take own.placed own.said⟩

/-- Tokens that are passed, if any, leave the parts alone. -/
theorem pass (lawful : dom.Lawful size Says) (own : s.Describes size Says site f c)
    (path : Path (fun _ => True) c d) (level : d.depth = c.depth) :
    s.Describes size Says site f d ∨
      Sketch.Describes { s with value := dom.take s.value } size Says site f d := by
  have placed := own.placed.path path level
  rcases lawful.pass own.placed own.said path level with same | taken
  · exact .inl ⟨own.kind, own.place, own.filled, placed, same⟩
  · exact .inr ⟨own.kind, own.place, own.filled, placed, taken⟩

/-- A frame without parts, at the place of its kind. -/
theorem opening (lawful : dom.Lawful size Says) (ordered : c.Ordered size)
    (shallow : c.depth ≤ maxDepth) (kind : Option NodeKind) (value : Option String) (start : Nat)
    (below : List Node) :
    (Sketch.opening dom).Describes size Says ⟨kind, c.current.span.start, c, start, below⟩
      ⟨kind, c.current.span.start, value, []⟩ c :=
  ⟨rfl, rfl, nofun, .empty ordered shallow kind value, lawful.start shallow⟩

theorem exists_last (own : s.Describes size Says site f c) (filled : s.filled = true) :
    ∃ last parts, f.parts = last :: parts :=
  List.exists_cons_of_ne_nil (own.filled filled)

theorem close (lawful : dom.Lawful size Says) (own : s.Describes size Says site f c)
    (onward : Onward c d) {kind : Option NodeKind} {start : Nat} {below : List Node}
    (inner : t.Describes size Says ⟨kind, c.current.span.start, c, start, below⟩ g d)
    (closes : s.close dom kind t = some after) :
    after.Describes size Says site (f.close g d) d := by
  have placed := own.placed.close onward inner.placed inner.place
  have kinds := inner.kind
  rw [Sketch.close] at closes
  cases same : t.kind.getD kind with
  | some closed =>
      rw [same] at closes kinds
      obtain ⟨value, node, rfl⟩ := Option.map_eq_some_iff.mp closes
      rw [Frame.close_some kinds] at placed ⊢
      have said := lawful.node own.placed own.said onward inner.placed inner.place inner.said node
      exact ⟨own.kind, own.place, fun _ => List.cons_ne_nil _ _, placed, said⟩
  | none =>
      rw [same] at closes kinds
      obtain ⟨value, joined, rfl⟩ := Option.map_eq_some_iff.mp closes
      rw [Frame.close_none kinds] at placed ⊢
      refine ⟨own.kind, own.place, ?_, placed, ?_⟩
      · intro filled
        rw [Bool.or_eq_true] at filled
        rcases filled with first | second
        · exact List.append_ne_nil_of_right_ne_nil _ (own.filled first)
        · exact List.append_ne_nil_of_left_ne_nil (inner.filled second) _
      · exact lawful.join own.placed own.said onward inner.placed inner.place inner.said joined

theorem enclose (lawful : dom.Lawful size Says) (own : s.Describes size Says site f c)
    (filled : f.parts = last :: parts) (onward : Onward c d) {kind : NodeKind} {start : Nat}
    {below : List Node}
    (inner : t.Describes size Says ⟨some kind, last.span.start, c, start, below⟩ g d)
    (closes : s.enclose dom kind t = some after) :
    after.Describes size Says site ({ f with parts := parts }.close g d) d := by
  have placed := own.placed.wrap filled onward inner.placed inner.place
  have kinds := inner.kind
  rw [Sketch.enclose] at closes
  cases same : t.kind.getD (some kind) with
  | some closed =>
      rw [same] at closes kinds
      obtain ⟨value, node, rfl⟩ := Option.map_eq_some_iff.mp closes
      rw [Frame.close_some kinds] at placed ⊢
      have said := lawful.wrap own.placed filled own.said onward inner.placed inner.place
        inner.said node
      exact ⟨own.kind, own.place, fun _ => List.cons_ne_nil _ _, placed, said⟩
  | none =>
      rw [same] at closes
      cases closes

theorem splice (lawful : dom.Lawful size Says) (own : s.Describes size Says site f c)
    (filled : f.parts = last :: parts) {value : α} (leaves : dom.splice s.value = some value) :
    Sketch.Describes ⟨s.kind, false, value⟩ size Says site f.splice c := by
  have placed := own.placed.splice
  have said := lawful.splice own.placed filled own.said leaves
  rw [Frame.splice_eq filled] at placed ⊢
  exact ⟨own.kind, own.place, nofun, placed, said⟩

theorem enter (lawful : dom.Lawful size Says) (own : s.Describes size Says site f c)
    (shallow : c.depth < maxDepth) :
    Sketch.Describes { s with value := dom.enter s.value } size Says site f
      { c with depth := c.depth + 1 } :=
  ⟨own.kind, own.place, own.filled, own.placed.turn shallow, lawful.enter shallow own.said⟩

theorem leave (lawful : dom.Lawful size Says) (own : s.Describes size Says site f c)
    (entered : 0 < c.depth) :
    Sketch.Describes { s with value := dom.leave s.value } size Says site f
      { c with depth := c.depth - 1 } :=
  ⟨own.kind, own.place, own.filled, own.placed.turn ((Nat.sub_le ..).trans own.placed.shallow),
    lawful.leave entered own.placed.shallow own.said⟩

/-- What is read by a rule for its caller is read as for a frame of its own. -/
theorem call (lawful : dom.Lawful size Says) (own : s.Describes size Says site f c)
    (onward : Onward c d) (unkinded : t.kind = none) {start : Nat} {below : List Node}
    (inner : t.Describes size Says ⟨f.kind, c.current.span.start, c, start, below⟩ g d)
    (closes : s.close dom none t = some after) :
    after.Describes size Says site { g with start := f.start, parts := g.parts ++ f.parts } d := by
  have loose : t.Describes size Says ⟨none, c.current.span.start, c, start, below⟩
      { g with kind := none } d :=
    ⟨by rw [unkinded]; rfl, inner.place, inner.filled, inner.placed.become none, inner.said⟩
  have closed := (own.close lawful onward loose closes).write g.value
  have kind := inner.kind
  rw [unkinded] at kind
  rw [Frame.close_none rfl] at closed
  have same : g.kind = f.kind := kind
  rw [same]
  exact closed

end Sketch.Describes

namespace Grammar

open Sketch

variable {summary : Nonterminal → Sketch α} {rules : Nonterminal → Grammar}

theorem loop_cases {test : Test} {a : Grammar} (derives : Derives rules (.loop test a) f c g d) :
    (test.holds f c = false ∧ g = f ∧ d = c) ∨ test.holds f c = true := by
  cases derives with
  | change changes => cases changes
  | stop fails => exact .inl ⟨fails, rfl, rfl⟩
  | round holds once again => exact .inr holds

theorem holds_write {all : List (Sketch α)} (holds : site.Holds size Says all f c)
    (value : Option String) : site.Holds size Says all { f with value := value } c := by
  obtain ⟨s, member, own, rfl, describes⟩ := holds
  exact ⟨s, member, { own with value := value }, rfl, describes.write value⟩

theorem holds_pass (lawful : dom.Lawful size Says) (holds : site.Holds size Says [s] f c)
    (path : Path (fun _ => True) c d) (level : d.depth = c.depth) :
    site.Holds size Says (unite dom [s] [{ s with value := dom.take s.value }]) f d := by
  obtain ⟨own, same, describes⟩ := Site.holds_singleton.mp holds
  apply holds_unite lawful
  rw [Site.holds_singleton, Site.holds_singleton]
  exact (describes.pass lawful path level).imp (fun still => ⟨own, same, still⟩)
    fun taken => ⟨own, same, taken⟩

variable [DecidableEq α]

/-- Rules fill a frame without parts as their summaries say. -/
structure Summarized (dom : Domain α) (summary : Nonterminal → Sketch α)
    (rules : Nonterminal → Grammar) : Prop where
  keeps : ∀ name, keepsTo dom summary (rules name) (summary name) = true
  unkinded : ∀ name, (summary name).kind = none

/-- What a change does to a frame it does to the part of it that is described. -/
theorem change_sound (lawful : dom.Lawful size Says) {a : Grammar} (changes : Changes a f c g d)
    {sure : Option Test} {all : List (Sketch α)} (found : outcomes dom summary a sure s = some all)
    (holds : site.Holds size Says [s] f c) : site.Holds size Says all g d := by
  have path := changes.steps.path
  have level := changes.depth
  obtain ⟨own, same, describes⟩ := Site.holds_singleton.mp holds
  cases changes with
  | nothing =>
      cases found
      exact holds
  | take =>
      cases found
      exact Site.holds_singleton.mpr ⟨own, same, describes.take lawful⟩
  | copy spelling =>
      cases found
      exact holds_write holds _
  | write text =>
      cases found
      exact holds_write holds _
  | gap =>
      cases found
      exact holds_write holds _
  | phrase spoken =>
      cases found
      have passed := holds_pass lawful holds path level
      split
      · exact passed
      · exact holds_write passed _
  | become real =>
      cases found
      subst same
      exact Site.holds_singleton.mpr ⟨_, rfl, describes.become _⟩
  | dissolve =>
      cases found
      subst same
      exact Site.holds_singleton.mpr ⟨_, rfl, describes.become none⟩
  | splice =>
      rw [outcomes, Bool.cond_eq_ite] at found
      split at found
      · rename_i filled
        obtain ⟨value, leaves, rfl⟩ := Option.map_eq_some_iff.mp found
        obtain ⟨last, parts, last'⟩ := describes.exists_last filled
        rw [same, Frame.splice_onto _ _ last']
        exact Site.holds_singleton.mpr ⟨_, rfl, describes.splice lawful last' leaves⟩
      · cases found
  | echo =>
      cases found
      rw [Frame.echo]
      split
      · exact holds
      · exact holds_write holds _

variable (size dom Says summary) in
/-- By a grammar, the second frame and cursor are reached as the outcomes say. -/
def Sound (a : Grammar) (f : Frame) (c : Cursor) (g : Frame) (d : Cursor) : Prop :=
  ∀ site sure s all, outcomes dom summary a sure s = some all →
    (∀ test, sure = some test → test.holds f c = true) →
    Site.Holds size Says site [s] f c → Site.Holds size Says site all g d

variable (size dom Says summary) in
/-- By a loop, they are reached within sketches to which no round adds anything. -/
def Settled (test : Test) (a : Grammar) (f : Frame) (c : Cursor) (g : Frame) (d : Cursor) : Prop :=
  ∀ site all next, through dom (outcomes dom summary a (some test)) all = some next →
    (∀ f c, Site.Holds size Says site next f c → Site.Holds size Says site all f c) →
    Site.Holds size Says site all f c →
    Site.Holds size Says site all g d ∧
      (test.holds f c = true → Site.Holds size Says site next g d)

variable {a b : Grammar} {h : Frame} {e : Cursor} {test : Test}

theorem Settled.sound (lawful : dom.Lawful size Says)
    (settled : Settled size dom Says summary test a f c g d) :
    Sound size dom Says summary (.loop test a) f c g d := by
  intro site sure s all found surely holds
  obtain ⟨last, ran, rest⟩ := Option.bind_eq_some_iff.mp found
  obtain ⟨kept, next, stepped, closed⟩ := rounds_closed lawful ran
  obtain ⟨stays, once⟩ := settled site last next stepped (closed site) (kept site f c holds)
  rw [Bool.cond_eq_ite] at rest
  split at rest
  · rename_i same
    rw [stepped] at rest
    cases rest
    exact once (surely test (by simpa using same))
  · cases rest
    exact stays

theorem Settled.round (lawful : dom.Lawful size Says)
    (once : Sound size dom Says summary a f c g d) (holds : test.holds f c = true)
    (again : Derives rules (.loop test a) g d h e)
    (settled : Settled size dom Says summary test a g d h e) :
    Settled size dom Says summary test a f c h e := by
  intro site all next stepped closed here
  obtain ⟨s, member, single⟩ := here.single
  obtain ⟨after, step, joins⟩ := through_step lawful stepped member
  have surely : ∀ other, some test = some other → other.holds f c = true := by
    rintro other same
    cases same
    exact holds
  have reached := joins site g d (once site (some test) s after step surely single)
  obtain ⟨stays, later⟩ := settled site all next stepped closed (closed g d reached)
  refine ⟨stays, fun _ => ?_⟩
  rcases loop_cases again with ⟨-, rfl, rfl⟩ | more
  · exact reached
  · exact later more

theorem Sound.seq (lawful : dom.Lawful size Says) (first : Sound size dom Says summary a f c g d)
    (second : Sound size dom Says summary b g d h e) :
    Sound size dom Says summary (.seq a b) f c h e := by
  intro site sure s all found surely holds
  obtain ⟨mid, left, right⟩ := Option.bind_eq_some_iff.mp found
  obtain ⟨t, member, single⟩ := (first site sure s mid left surely holds).single
  obtain ⟨after, step, joins⟩ := through_step lawful right member
  exact joins site h e (second site none t after step nofun single)

theorem Sound.node (lawful : dom.Lawful size Says) {kind : NodeKind} (onward : Onward c d)
    (inner : Sound size dom Says summary a (.opened kind c) c g d) :
    Sound size dom Says summary (.node kind a) f c (f.close g d) d := by
  intro site sure s all found _ holds
  obtain ⟨own, rfl, describes⟩ := Site.holds_singleton.mp holds
  obtain ⟨mid, body, closes⟩ := Option.bind_eq_some_iff.mp found
  have opened := Sketch.Describes.opening lawful describes.placed.ordered
    describes.placed.shallow (some kind) none c.current.span.start []
  obtain ⟨t, member, g, rfl, filled⟩ := inner _ none _ mid body nofun
    (Site.holds_singleton.mpr ⟨.opened kind c, rfl, opened⟩)
  obtain ⟨after, step, joins⟩ := through_step lawful closes member
  obtain ⟨u, closed, rfl⟩ := Option.map_eq_some_iff.mp step
  apply joins
  rw [Frame.onto_self filled.place, Frame.close_onto]
  exact Site.holds_singleton.mpr ⟨_, rfl, describes.close lawful onward filled closed⟩

theorem Sound.wrap (lawful : dom.Lawful size Says) {kind : NodeKind} (onward : Onward c d)
    (inner : Sound size dom Says summary a (f.wrapLast kind c).1 c g d) :
    Sound size dom Says summary (.wrap kind a) f c ((f.wrapLast kind c).2.close g d) d := by
  intro site sure s all found _ holds
  obtain ⟨own, rfl, describes⟩ := Site.holds_singleton.mp holds
  rw [outcomes, Bool.cond_eq_ite] at found
  split at found
  · rename_i surely
    obtain ⟨last, parts, same⟩ := describes.exists_last surely
    obtain ⟨mid, body, closes⟩ := Option.bind_eq_some_iff.mp found
    rw [Frame.wrapLast_onto _ _ _ _ same] at inner ⊢
    have around : Sketch.Describes ⟨none, true, dom.around s.value⟩ size Says
        ⟨some kind, last.span.start, c, last.span.start, []⟩
        ⟨some kind, last.span.start, none, [last]⟩ c :=
      ⟨rfl, rfl, fun _ => List.cons_ne_nil _ _, describes.placed.around same kind,
        lawful.around describes.placed same describes.said⟩
    obtain ⟨t, member, g, rfl, filled⟩ := inner _ none _ mid body nofun
      (Site.holds_singleton.mpr ⟨_, rfl, around⟩)
    obtain ⟨after, step, joins⟩ := through_step lawful closes member
    obtain ⟨u, closed, rfl⟩ := Option.map_eq_some_iff.mp step
    apply joins
    rw [Frame.onto_self filled.place, Frame.close_onto]
    exact Site.holds_singleton.mpr ⟨_, rfl, describes.enclose lawful same onward filled closed⟩
  · cases found

theorem Sound.deeper (lawful : dom.Lawful size Says) (shallow : c.depth < maxDepth)
    (level : d.depth = c.depth + 1)
    (inner : Sound size dom Says summary a f { c with depth := c.depth + 1 } g d) :
    Sound size dom Says summary (.deeper a) f c g { d with depth := d.depth - 1 } := by
  intro site sure s all found _ holds
  obtain ⟨own, same, describes⟩ := Site.holds_singleton.mp holds
  obtain ⟨mid, body, rfl⟩ := Option.map_eq_some_iff.mp found
  obtain ⟨t, member, own', same', after⟩ := inner site none _ mid body nofun
    (Site.holds_singleton.mpr ⟨own, same, describes.enter lawful shallow⟩)
  exact ⟨_, List.mem_map_of_mem member, own', same', after.leave lawful (by omega)⟩

theorem Sound.call (lawful : dom.Lawful size Says) (summarized : Summarized dom summary rules)
    {name : Nonterminal} (onward : Onward c d)
    (ruled : Sound size dom Says summary (rules name) f c g d) :
    Sound size dom Says summary (.call name) f c g d := by
  intro site sure s all found _ holds
  obtain ⟨own, rfl, describes⟩ := Site.holds_singleton.mp holds
  obtain ⟨u, closed, rfl⟩ := Option.map_eq_some_iff.mp found
  obtain ⟨after, body, within⟩ := (Option.any_eq_true ..).mp (summarized.keeps name)
  have opened := Sketch.Describes.opening lawful describes.placed.ordered
    describes.placed.shallow own.kind own.value site.start (own.parts ++ site.below)
  obtain ⟨t, member, g, rfl, filled⟩ := ruled _ none _ after body nofun
    (Site.holds_singleton.mpr ⟨_, by simp [Frame.onto], opened⟩)
  have kept := describes_within lawful (List.all_eq_true.mp within t member) filled
  have called := describes.call lawful onward (summarized.unkinded name) kept closed
  exact Site.holds_singleton.mpr ⟨_, by simp [Frame.onto], called⟩

/-- Whatever is derived by a grammar, its outcomes describe. -/
theorem derives_sound (lawful : dom.Lawful size Says) (summarized : Summarized dom summary rules)
    (derives : Derives rules a f c g d) :
    Sound size dom Says summary a f c g d ∧
      ∀ test b, a = .loop test b → Settled size dom Says summary test b f c g d := by
  induction derives with
  | change changes =>
      refine ⟨fun site sure s all found _ holds => ?_, ?_⟩
      · exact change_sound lawful changes found holds
      · rintro test b rfl
        cases changes
  | seq first second left right => exact ⟨left.1.seq lawful right.1, nofun⟩
  | yes holds taken ih =>
      refine ⟨fun site sure s all found _ here => ?_, nofun⟩
      obtain ⟨yes, left, rest⟩ := Option.bind_eq_some_iff.mp found
      obtain ⟨no, right, rfl⟩ := Option.map_eq_some_iff.mp rest
      refine holds_unite lawful (.inl (ih.1 site (some _) s yes left ?_ here))
      rintro test same
      cases same
      exact holds
  | no fails taken ih =>
      refine ⟨fun site sure s all found _ here => ?_, nofun⟩
      obtain ⟨yes, left, rest⟩ := Option.bind_eq_some_iff.mp found
      obtain ⟨no, right, rfl⟩ := Option.map_eq_some_iff.mp rest
      exact holds_unite lawful (.inr (ih.1 site none s no right nofun here))
  | @stop test a f c fails =>
      have settled : Settled size dom Says summary test a f c f c := by
        intro site all next _ _ here
        exact ⟨here, fun holds => by simp [fails] at holds⟩
      refine ⟨settled.sound lawful, ?_⟩
      rintro _ _ ⟨⟩
      exact settled
  | @round test a f g h c d e holds once again left right =>
      have settled := (right.2 test a rfl).round lawful left.1 holds again
      refine ⟨settled.sound lawful, ?_⟩
      rintro _ _ ⟨⟩
      exact settled
  | node real inner moved ih => exact ⟨ih.1.node lawful (inner.onward moved), nofun⟩
  | wrap real inner moved ih => exact ⟨ih.1.wrap lawful (inner.onward moved), nofun⟩
  | discard inner ih =>
      refine ⟨fun site sure s all found _ here => ?_, nofun⟩
      cases found
      exact holds_pass lawful here inner.steps.path inner.depth
  | deeper shallow inner ih => exact ⟨ih.1.deeper lawful shallow inner.depth, nofun⟩
  | call ruled moved ih => exact ⟨ih.1.call lawful summarized (ruled.onward moved), nofun⟩

/-- What is read into an empty frame is described by one of the outcomes. -/
theorem derives_describes (lawful : dom.Lawful size Says)
    (summarized : Summarized dom summary rules) {all : List (Sketch α)}
    (found : outcomes dom summary a none (.opening dom) = some all) (ordered : c.Ordered size)
    (shallow : c.depth ≤ maxDepth) (derives : Derives rules a (.opened none c) c g d) :
    ∃ s ∈ all, s.Describes size Says
      ⟨none, c.current.span.start, c, c.current.span.start, []⟩ g d := by
  have opened := Sketch.Describes.opening lawful ordered shallow none none
    c.current.span.start []
  have start : Site.Holds size Says ⟨none, c.current.span.start, c, c.current.span.start, []⟩
      [.opening dom] (.opened none c) c :=
    ⟨_, .head _, _, (Frame.onto_self rfl).symm, opened⟩
  obtain ⟨s, member, own, rfl, describes⟩ :=
    (derives_sound lawful summarized derives).1 _ none _ all found nofun start
  refine ⟨s, member, ?_⟩
  rwa [Frame.onto_self describes.place]

/-- The power of an expression makes no difference to what it leaves. -/
theorem keepsTo_expressionFrom (dom : Domain α) (summary : Nonterminal → Sketch α) (power : Nat)
    (s : Sketch α) :
    keepsTo dom summary (expressionFrom power) s = keepsTo dom summary (expressionFrom 0) s := rfl

/-- The rules of the language, one expression among them, keep to their summaries. -/
def checkRules (dom : Domain α) (summary : Nonterminal → Sketch α) : Bool :=
  [.expression 0, .query, .joinedTable, .createStatement, .group, .atomicBody].all fun name =>
    (summary name).kind.isNone && keepsTo dom summary (Grammar.rules name) (summary name)

theorem summarized_rules (same : ∀ power, summary (.expression power) = summary (.expression 0))
    (checked : checkRules dom summary = true) : Summarized dom summary Grammar.rules := by
  simp only [checkRules, List.all_cons, List.all_nil, Bool.and_true, Bool.and_eq_true,
    Option.isNone_iff_eq_none] at checked
  constructor
  · intro name
    cases name with
    | expression power =>
        rw [Grammar.rules, keepsTo_expressionFrom, same]
        exact checked.1.2
    | query => exact checked.2.1.2
    | joinedTable => exact checked.2.2.1.2
    | createStatement => exact checked.2.2.2.1.2
    | group => exact checked.2.2.2.2.1.2
    | atomicBody => exact checked.2.2.2.2.2.2
  · intro name
    cases name with
    | expression power =>
        rw [same]
        exact checked.1.1
    | query => exact checked.2.1.1
    | joinedTable => exact checked.2.2.1.1
    | createStatement => exact checked.2.2.2.1.1
    | group => exact checked.2.2.2.2.1.1
    | atomicBody => exact checked.2.2.2.2.2.1

end Grammar
end SqlAudit
