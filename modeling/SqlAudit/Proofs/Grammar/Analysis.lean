import SqlAudit.Proofs.Grammar.Derivation
import SqlAudit.Proofs.Grammar.Nesting
/-!
Analyses of a grammar. A domain says what is kept of the parts of a frame and how a reading changes
it; `outcomes` follows a grammar with it, both ways at every branch, round a loop until nothing new
comes up, and by a summary where a rule is called. If the domain keeps to what it says and every
rule to its summary, whatever is derived by the grammar is described by one of the outcomes.
-/
namespace SqlAudit

variable {α : Type}

/-- What an analysis keeps of the parts of a frame, and how a reading changes it. Where there is no
answer, the grammar is refused. -/
structure Domain (α : Type) where
  /-- There are no parts. -/
  start : α
  /-- The last node alone, in the frame of a node around it. -/
  around : α → α
  /-- After a token. -/
  take : α → α
  /-- After a node of this kind, whose own parts are as the last value says. -/
  node : α → NodeKind → α → Option α
  /-- After such a node around the last one. -/
  wrap : α → NodeKind → α → Option α
  /-- After more parts, which are as the last value says. -/
  join : α → α → Option α
  /-- After the last node has left its parts. -/
  splice : α → Option α
  /-- One level deeper, and back. -/
  enter : α → α
  leave : α → α
  /-- What is true on either of two ways. -/
  merge : α → α → Option α

/-- What is known of a frame: its kind if that has changed, whether it surely has parts, and the
value of the domain. -/
structure Sketch (α : Type) where
  kind : Option (Option NodeKind)
  filled : Bool
  value : α
  deriving DecidableEq

namespace Sketch

/-- The sketch of a frame that a grammar starts with. -/
def opening (dom : Domain α) : Sketch α := ⟨none, false, dom.start⟩

/-- After what the inner sketch describes: a node, unless it has no kind. -/
def close (dom : Domain α) (kind : Option NodeKind) (s inner : Sketch α) : Option (Sketch α) :=
  match inner.kind.getD kind with
  | some kind => (dom.node s.value kind inner.value).map fun value => ⟨s.kind, true, value⟩
  | none => (dom.join s.value inner.value).map fun value =>
    ⟨s.kind, s.filled || inner.filled, value⟩

/-- After a node around the last one. -/
def enclose (dom : Domain α) (kind : NodeKind) (s inner : Sketch α) : Option (Sketch α) :=
  match inner.kind.getD (some kind) with
  | some kind => (dom.wrap s.value kind inner.value).map fun value => ⟨s.kind, true, value⟩
  | none => none

def merge (dom : Domain α) (s t : Sketch α) : Option (Sketch α) :=
  bif s.kind == t.kind then
    (dom.merge s.value t.value).map fun value => ⟨s.kind, s.filled && t.filled, value⟩
  else none

/-- One more sketch, merged with another one where that is possible. -/
def insert (dom : Domain α) (s : Sketch α) : List (Sketch α) → List (Sketch α)
  | [] => [s]
  | t :: rest =>
    match s.merge dom t with
    | some both => both :: rest
    | none => t :: s.insert dom rest

def unite (dom : Domain α) (first second : List (Sketch α)) : List (Sketch α) :=
  first.foldr (insert dom) second

/-- A step after any of these sketches. -/
def through (dom : Domain α) (step : Sketch α → Option (List (Sketch α))) :
    List (Sketch α) → Option (List (Sketch α))
  | [] => some []
  | s :: rest => (step s).bind fun first => (through dom step rest).map (unite dom first)

variable [DecidableEq α]

/-- All that the first sketch describes the second one does, too. -/
def within (dom : Domain α) (s t : Sketch α) : Bool := s.merge dom t == some t

/-- The sketches that steps from these ones lead to, in as many rounds as it takes. -/
def rounds (dom : Domain α) (step : Sketch α → Option (List (Sketch α))) :
    Nat → List (Sketch α) → Option (List (Sketch α))
  | 0, _ => none
  | n + 1, all => (through dom step all).bind fun next =>
    bif next.all fun s => all.any (s.within dom) then some all
    else rounds dom step n (unite dom next all)

end Sketch

namespace Grammar

open Sketch

variable [DecidableEq α]

/-- How a loop settles down: no value of a domain takes longer than this to come up. -/
def maxRounds : Nat := 8

/-- The sketches after a grammar, from the one before it; none if the domain refuses. Where a test
is given, it holds here: a loop that runs by it does so once at least. -/
def outcomes (dom : Domain α) (summary : Nonterminal → Sketch α) :
    Grammar → Option Test → Sketch α → Option (List (Sketch α))
  | .nothing, _, s | .copy _, _, s | .write _, _, s | .gap, _, s | .echo, _, s => some [s]
  | .fail _, _, _ => some []
  | .take, _, s => some [{ s with value := dom.take s.value }]
  | .phrase _, _, s | .discard _, _, s =>
    some (unite dom [s] [{ s with value := dom.take s.value }])
  | .seq a b, sure, s =>
    (outcomes dom summary a sure s).bind (through dom (outcomes dom summary b none))
  | .branch test a b, _, s =>
    (outcomes dom summary a (some test) s).bind fun yes =>
      (outcomes dom summary b none s).map (unite dom yes)
  | .loop test a, sure, s =>
    (rounds dom (outcomes dom summary a (some test)) maxRounds [s]).bind fun all =>
      bif sure == some test then through dom (outcomes dom summary a (some test)) all
      else some all
  | .node kind a, _, s =>
    (outcomes dom summary a none (opening dom)).bind
      (through dom fun inner => (s.close dom (some kind) inner).map ([·]))
  | .wrap kind a, _, s =>
    bif s.filled then
      (outcomes dom summary a none ⟨none, true, dom.around s.value⟩).bind
        (through dom fun inner => (s.enclose dom kind inner).map ([·]))
    else none
  | .become kind, _, s => some [{ s with kind := some (some kind) }]
  | .dissolve, _, s => some [{ s with kind := some none }]
  | .splice, _, s =>
    bif s.filled then (dom.splice s.value).map fun value => [⟨s.kind, false, value⟩] else none
  | .deeper a, _, s =>
    (outcomes dom summary a none { s with value := dom.enter s.value }).map fun after =>
      after.map fun s => { s with value := dom.leave s.value }
  | .call name, _, s => (s.close dom none (summary name)).map ([·])

/-- What is read by the grammar into a frame without parts is as the sketch says. -/
def keepsTo (dom : Domain α) (summary : Nonterminal → Sketch α) (a : Grammar) (s : Sketch α) :
    Bool :=
  (outcomes dom summary a none (opening dom)).any fun after => after.all (·.within dom s)

end Grammar

namespace Frame

/-- The frame as the latest part of one that starts elsewhere and has other parts below. -/
def onto (start : Nat) (below : List Node) (f : Frame) : Frame :=
  { f with start := start, parts := f.parts ++ below }

/-- The node that a frame of this kind becomes at a cursor. -/
def closed (kind : NodeKind) (c : Cursor) (f : Frame) : Node :=
  ⟨kind, ⟨f.start, max c.previous.stop f.start⟩, f.value, f.parts.reverse⟩

/-- A frame among the tokens of a text of `size` bytes. -/
structure Placed (size : Nat) (f : Frame) (c : Cursor) : Prop where
  ordered : c.Ordered size
  fitted : f.Fitted c
  solid : f.All Node.Solid
  shallow : c.depth ≤ maxDepth

end Frame

theorem Grammar.Changes.all {P : Node → Prop} {a : Grammar} {f g : Frame} {c d : Cursor}
    (changes : Changes a f c g d) (all : f.All P) : g.All P := by
  cases changes with
  | splice => exact all_splice all
  | phrase spoken => split <;> exact all
  | echo =>
      obtain ⟨value, same⟩ := f.echo_eq
      rw [same]
      exact all
  | _ => exact all

/-- From one cursor to another a token is taken, and what is entered is left. -/
structure Onward (c d : Cursor) : Prop where
  path : Path (fun _ => True) c d
  moved : d.rest.length < c.rest.length
  level : d.depth = c.depth

/-- The values of a domain say something of the parts of a frame that starts at a place and has been
read from one cursor up to another, and say it truly after every change. -/
structure Domain.Lawful (dom : Domain α) (size : Nat)
    (Says : α → Cursor → Nat → List Node → Cursor → Prop) : Prop where
  start {c : Cursor} (shallow : c.depth ≤ maxDepth) :
    Says dom.start c c.current.span.start [] c
  around {a : α} {o c : Cursor} {f : Frame} {last : Node} {parts : List Node}
    (placed : f.Placed size c) (filled : f.parts = last :: parts)
    (said : Says a o f.start f.parts c) : Says (dom.around a) c last.span.start [last] c
  take {a : α} {o c : Cursor} {f : Frame} (placed : f.Placed size c)
    (said : Says a o f.start f.parts c) : Says (dom.take a) o f.start f.parts c.advance
  pass {a : α} {o c d : Cursor} {f : Frame} (placed : f.Placed size c)
    (said : Says a o f.start f.parts c) (path : Path (fun _ => True) c d)
    (level : d.depth = c.depth) :
    Says a o f.start f.parts d ∨ Says (dom.take a) o f.start f.parts d
  node {a b after : α} {o c d : Cursor} {f g : Frame} {kind : NodeKind}
    (placed : f.Placed size c) (said : Says a o f.start f.parts c) (onward : Onward c d)
    (inner : g.Placed size d) (begins : g.start = c.current.span.start)
    (within : Says b c g.start g.parts d) (closes : dom.node a kind b = some after) :
    Says after o f.start (g.closed kind d :: f.parts) d
  wrap {a b after : α} {o c d : Cursor} {f g : Frame} {kind : NodeKind} {last : Node}
    {parts : List Node} (placed : f.Placed size c) (filled : f.parts = last :: parts)
    (said : Says a o f.start f.parts c) (onward : Onward c d) (inner : g.Placed size d)
    (begins : g.start = last.span.start) (within : Says b c g.start g.parts d)
    (closes : dom.wrap a kind b = some after) :
    Says after o f.start (g.closed kind d :: parts) d
  join {a b after : α} {o c d : Cursor} {f g : Frame} (placed : f.Placed size c)
    (said : Says a o f.start f.parts c) (onward : Onward c d) (inner : g.Placed size d)
    (begins : g.start = c.current.span.start) (within : Says b c g.start g.parts d)
    (joins : dom.join a b = some after) : Says after o f.start (g.parts ++ f.parts) d
  splice {a after : α} {o c : Cursor} {f : Frame} {last : Node} {parts : List Node}
    (placed : f.Placed size c) (filled : f.parts = last :: parts)
    (said : Says a o f.start f.parts c) (leaves : dom.splice a = some after) :
    Says after o f.start (last.children.reverse ++ parts) c
  enter {a : α} {o c : Cursor} {start : Nat} {parts : List Node} (shallow : c.depth < maxDepth)
    (said : Says a o start parts c) :
    Says (dom.enter a) o start parts { c with depth := c.depth + 1 }
  leave {a : α} {o c : Cursor} {start : Nat} {parts : List Node} (entered : 0 < c.depth)
    (shallow : c.depth ≤ maxDepth) (said : Says a o start parts c) :
    Says (dom.leave a) o start parts { c with depth := c.depth - 1 }
  merge {a b both : α} {o c : Cursor} {start : Nat} {parts : List Node}
    (merges : dom.merge a b = some both)
    (said : Says a o start parts c ∨ Says b o start parts c) : Says both o start parts c

/-- Where parts are read to: into a frame that was of this kind and starts at `place`, from one
cursor on, as the latest parts of a frame that starts at `start` and has others below. -/
structure Site where
  kind : Option NodeKind
  place : Nat
  since : Cursor
  start : Nat
  below : List Node

/-- What a sketch says of a frame is true. -/
structure Sketch.Describes (s : Sketch α) (size : Nat)
    (Says : α → Cursor → Nat → List Node → Cursor → Prop) (site : Site) (f : Frame) (c : Cursor) :
    Prop where
  kind : f.kind = s.kind.getD site.kind
  place : f.start = site.place
  filled : s.filled = true → f.parts ≠ []
  placed : f.Placed size c
  said : Says s.value site.since f.start f.parts c

/-- One of the sketches describes the frame, as far as it was read at this site. -/
def Site.Holds (size : Nat) (Says : α → Cursor → Nat → List Node → Cursor → Prop) (site : Site)
    (all : List (Sketch α)) (f : Frame) (c : Cursor) : Prop :=
  ∃ s ∈ all, ∃ own, f = Frame.onto site.start site.below own ∧ s.Describes size Says site own c

variable {dom : Domain α} {summary : Nonterminal → Sketch α} {size : Nat}
  {Says : α → Cursor → Nat → List Node → Cursor → Prop} {site : Site} {f g : Frame}
  {c d : Cursor} {s t : Sketch α} {all first second next : List (Sketch α)}

namespace Site

theorem holds_singleton : site.Holds size Says [s] f c ↔
    ∃ own, f = Frame.onto site.start site.below own ∧ s.Describes size Says site own c := by
  simp [Holds]

theorem Holds.mono (holds : site.Holds size Says first f c) (subset : first ⊆ second) :
    site.Holds size Says second f c := by
  obtain ⟨s, member, own⟩ := holds
  exact ⟨s, subset member, own⟩

/-- Of the sketches one alone holds already. -/
theorem Holds.single (holds : site.Holds size Says all f c) :
    ∃ s ∈ all, site.Holds size Says [s] f c := by
  obtain ⟨s, member, own⟩ := holds
  exact ⟨s, member, s, .head _, own⟩

end Site

namespace Sketch

theorem describes_merge (lawful : dom.Lawful size Says) {both : Sketch α}
    (merges : s.merge dom t = some both)
    (describes : s.Describes size Says site f c ∨ t.Describes size Says site f c) :
    both.Describes size Says site f c := by
  rw [merge, Bool.cond_eq_ite] at merges
  split at merges
  · rename_i same
    obtain ⟨value, merged, rfl⟩ := Option.map_eq_some_iff.mp merges
    have kinds : s.kind = t.kind := by simpa using same
    rcases describes with left | right
    · refine ⟨left.kind, left.place, ?_, left.placed, lawful.merge merged (.inl left.said)⟩
      exact fun filled => left.filled (Bool.and_eq_true_iff.mp filled).1
    · refine ⟨kinds ▸ right.kind, right.place, ?_, right.placed,
        lawful.merge merged (.inr right.said)⟩
      exact fun filled => right.filled (Bool.and_eq_true_iff.mp filled).2
  · cases merges

theorem holds_insert (lawful : dom.Lawful size Says)
    (holds : site.Holds size Says (s :: all) f c) :
    site.Holds size Says (s.insert dom all) f c := by
  induction all with
  | nil => exact holds
  | cons t rest ih =>
      rw [insert]
      obtain ⟨u, member, own, same, describes⟩ := holds
      split
      · rename_i both merges
        rcases List.mem_cons.mp member with rfl | member
        · exact ⟨both, .head _, own, same, describes_merge lawful merges (.inl describes)⟩
        · rcases List.mem_cons.mp member with rfl | member
          · exact ⟨both, .head _, own, same, describes_merge lawful merges (.inr describes)⟩
          · exact ⟨u, .tail _ member, own, same, describes⟩
      · rcases List.mem_cons.mp member with rfl | member
        · exact (ih ⟨u, .head _, own, same, describes⟩).mono (List.subset_cons_self ..)
        · rcases List.mem_cons.mp member with rfl | member
          · exact ⟨u, .head _, own, same, describes⟩
          · exact (ih ⟨u, .tail _ member, own, same, describes⟩).mono (List.subset_cons_self ..)

theorem holds_unite (lawful : dom.Lawful size Says)
    (holds : site.Holds size Says first f c ∨ site.Holds size Says second f c) :
    site.Holds size Says (unite dom first second) f c := by
  induction first with
  | nil =>
      rcases holds with ⟨s, member, -⟩ | holds
      · cases member
      · exact holds
  | cons s rest ih =>
      apply holds_insert lawful
      rcases holds with ⟨t, member, own⟩ | holds
      · rcases List.mem_cons.mp member with rfl | member
        · exact ⟨t, .head _, own⟩
        · exact (ih (.inl ⟨t, member, own⟩)).mono (List.subset_cons_self ..)
      · exact (ih (.inr holds)).mono (List.subset_cons_self ..)

/-- What holds after the step from one sketch holds after the step from all of them. -/
theorem through_step (lawful : dom.Lawful size Says)
    {step : Sketch α → Option (List (Sketch α))} (stepped : through dom step all = some next)
    (member : s ∈ all) :
    ∃ after, step s = some after ∧ ∀ site f c, Site.Holds size Says site after f c →
      Site.Holds size Says site next f c := by
  induction all generalizing next with
  | nil => cases member
  | cons t rest ih =>
      obtain ⟨here, taken, later⟩ := Option.bind_eq_some_iff.mp stepped
      obtain ⟨others, passed, rfl⟩ := Option.map_eq_some_iff.mp later
      rcases List.mem_cons.mp member with rfl | member
      · exact ⟨here, taken, fun site f c holds => holds_unite lawful (.inl holds)⟩
      · obtain ⟨after, step, holds⟩ := ih passed member
        refine ⟨after, step, fun site f c inside => ?_⟩
        exact holds_unite lawful (.inr (holds site f c inside))

variable [DecidableEq α]

theorem describes_within (lawful : dom.Lawful size Says) (within : s.within dom t = true)
    (describes : s.Describes size Says site f c) : t.Describes size Says site f c :=
  describes_merge lawful (by simpa [Sketch.within] using within) (.inl describes)

/-- Rounds keep what they started from, and another one adds nothing. -/
theorem rounds_closed (lawful : dom.Lawful size Says)
    {step : Sketch α → Option (List (Sketch α))} {n : Nat} {last : List (Sketch α)}
    (ran : rounds dom step n all = some last) :
    (∀ site f c, Site.Holds size Says site all f c → Site.Holds size Says site last f c) ∧
      ∃ next, through dom step last = some next ∧
        ∀ site f c, Site.Holds size Says site next f c → Site.Holds size Says site last f c := by
  induction n generalizing all with
  | zero => cases ran
  | succ n ih =>
      obtain ⟨next, stepped, later⟩ := Option.bind_eq_some_iff.mp ran
      rw [Bool.cond_eq_ite] at later
      split at later
      · rename_i closed
        cases later
        refine ⟨fun site f c holds => holds, next, stepped, ?_⟩
        rintro site f c ⟨s, member, own, same, describes⟩
        obtain ⟨t, listed, within⟩ := List.any_eq_true.mp (List.all_eq_true.mp closed s member)
        exact ⟨t, listed, own, same, describes_within lawful within describes⟩
      · obtain ⟨kept, closed⟩ := ih later
        exact ⟨fun site f c holds => kept site f c (holds_unite lawful (.inr holds)), closed⟩

end Sketch
end SqlAudit
