import SqlAudit.Proofs.Grammar.Outcomes
import SqlAudit.Proofs.Tree.Weight
/-!
How much statements weigh. The analysis keeps limits for the weights of the parts of a frame and of
the children of its last part. Limits grow with the levels of nesting that are left, so those of
something read one level deeper are lower outside.
-/
namespace SqlAudit

/-- What statements, queries in WITH clauses and lists of statements in schemas weigh, and by how
much a level of nesting that is left raises the limits. -/
structure Scale where
  statement : Int
  cte : Int
  schema : Int
  step : Nat

def Scale.of (scale : Scale) (kind : NodeKind) : Int :=
  (if kind.category = .statement then scale.statement else 0) +
    (if kind = .cte then scale.cte else 0) + if kind = .schemaElements then scale.schema else 0

/-- Limits for the last part of a frame, for those before it, and for the children of the last one
if there is one that is known. -/
structure Limits where
  last : Int
  rest : Int
  below : Option Int
  deriving DecidableEq

namespace Limits

def all (a : Limits) : Int := max a.last a.rest

/-- A limit for both where there is one for each. -/
def both : Option Int → Option Int → Option Int
  | some a, some b => some (max a b)
  | _, _ => none

def shift (levels : Int) (a : Limits) : Limits :=
  ⟨a.last + levels, a.rest + levels, a.below.map (· + levels)⟩

/-- With a node as the last part whose own parts keep these limits. -/
def node (scale : Scale) (rest : Int) (kind : NodeKind) (inner : Limits) : Limits :=
  ⟨scale.of kind + max 0 inner.all, rest, some inner.all⟩

def merge (a b : Limits) : Limits := ⟨max a.last b.last, max a.rest b.rest, both a.below b.below⟩

/-- After more parts, or none. -/
def join (a inner : Limits) : Limits :=
  ⟨max a.last inner.last, max a.all inner.rest, both a.below inner.below⟩

/-- Any limit holds where there are no parts; the one to start with is lower than all that come
up. -/
def domain (scale : Scale) : Domain Limits where
  start := ⟨-4, -4, some (-4)⟩
  around a := { a with rest := -4 }
  take a := a
  node a kind inner := some (node scale a.all kind inner)
  wrap a kind inner := some (node scale a.rest kind inner)
  join a inner := some (a.join inner)
  splice a := a.below.map fun limit => ⟨max a.rest limit, max a.rest limit, none⟩
  enter := shift scale.step
  leave := shift (-scale.step)
  merge a b := some (a.merge b)

variable {scale : Scale} {size start : Nat} {limit more : Int} {a b : Limits} {o c d : Cursor}
  {f g : Frame} {nodes parts : List Node} {last : Node} {kind : NodeKind}

/-- What the levels that are left raise the limits by. -/
def room (scale : Scale) (c : Cursor) : Nat := scale.step * (maxDepth - c.depth)

theorem room_level (scale : Scale) (level : d.depth = c.depth) : room scale d = room scale c := by
  rw [room, room, level]

theorem room_deeper (scale : Scale) (shallow : c.depth < maxDepth) :
    room scale { c with depth := c.depth + 1 } + scale.step = room scale c := by
  have left : maxDepth - c.depth = maxDepth - (c.depth + 1) + 1 := by omega
  rw [room, room, left, Nat.mul_succ]

theorem room_back (scale : Scale) (entered : 0 < c.depth) (shallow : c.depth ≤ maxDepth) :
    room scale { c with depth := c.depth - 1 } = room scale c + scale.step := by
  have left : maxDepth - (c.depth - 1) = maxDepth - c.depth + 1 := by omega
  rw [room, room, left, Nat.mul_succ]

/-- All these nodes keep a limit. -/
def Keep (scale : Scale) (limit : Int) (c : Cursor) (nodes : List Node) : Prop :=
  ∀ node ∈ nodes, node.weight scale.of ≤ limit + room scale c

theorem Keep.mono (keep : Keep scale limit c nodes)
    (le : limit + room scale c ≤ more + room scale d) : Keep scale more d nodes :=
  fun node member => (keep node member).trans le

theorem Keep.le (keep : Keep scale limit c nodes) (le : limit ≤ more) : Keep scale more c nodes :=
  keep.mono (Int.add_le_add_right le _)

theorem Keep.heaviest (keep : Keep scale limit c nodes) :
    Node.heaviest scale.of nodes ≤ max 0 limit + room scale c := by
  refine Node.heaviest_le_iff.mpr ⟨by omega, fun node member => ?_⟩
  have light := keep node member
  omega

structure Says (scale : Scale) (a : Limits) (_since : Cursor) (_start : Nat) (parts : List Node)
    (c : Cursor) : Prop where
  last : Keep scale a.last c (parts.take 1)
  rest : Keep scale a.rest c parts.tail
  below : ∀ limit, a.below = some limit → ∀ last ∈ parts.head?, Keep scale limit c last.children

theorem Says.all (said : Says scale a o start parts c) : Keep scale a.all c parts := by
  intro node member
  rw [Limits.all]
  cases parts with
  | nil => cases member
  | cons last parts =>
      rcases List.mem_cons.mp member with rfl | member
      · have light := said.last node (.head _)
        omega
      · have light := said.rest node member
        omega

theorem Says.level (said : Says scale a o start parts c) (level : d.depth = c.depth) :
    Says scale a o start parts d := by
  have same := room_level scale level
  refine ⟨said.last.mono (by omega), said.rest.mono (by omega), ?_⟩
  intro limit known last first
  exact (said.below limit known last first).mono (by omega)

/-- Limits that are shifted as the room is are the same ones. -/
theorem Says.shift (said : Says scale a o start parts c) {levels : Int}
    (same : (room scale d : Int) + levels = room scale c) :
    Says scale (a.shift levels) o start parts d := by
  have moved : ∀ limit : Int, limit + room scale c ≤ limit + levels + room scale d := by omega
  refine ⟨said.last.mono (moved _), said.rest.mono (moved _), ?_⟩
  intro limit known last first
  obtain ⟨inner, before, rfl⟩ := Option.map_eq_some_iff.mp known
  exact (said.below inner before last first).mono (moved _)

theorem both_some {first second : Option Int} (known : both first second = some limit) :
    ∃ m n, first = some m ∧ second = some n ∧ limit = max m n := by
  cases first <;> cases second <;> simp_all [both]

theorem Says.merge
    (said : Says scale a o start parts c ∨ Says scale b o start parts c) :
    Says scale (a.merge b) o start parts c := by
  rcases said with left | right
  · refine ⟨left.last.le (Int.le_max_left ..), left.rest.le (Int.le_max_left ..), ?_⟩
    intro limit known last first
    obtain ⟨m, n, here, -, rfl⟩ := both_some known
    exact (left.below m here last first).le (Int.le_max_left ..)
  · refine ⟨right.last.le (Int.le_max_right ..), right.rest.le (Int.le_max_right ..), ?_⟩
    intro limit known last first
    obtain ⟨m, n, -, here, rfl⟩ := both_some known
    exact (right.below n here last first).le (Int.le_max_right ..)

/-- A node weighs what its parts do and something for its kind. -/
theorem Says.node (others : Keep scale limit d parts) (within : Says scale b c g.start g.parts d) :
    Says scale (node scale limit kind b) o start (g.closed kind d :: parts) d := by
  have inside : Keep scale b.all d g.parts.reverse :=
    fun node member => within.all node (List.mem_reverse.mp member)
  refine ⟨?_, others, ?_⟩
  · intro node member
    rw [List.mem_singleton.mp member, Node.weight_eq]
    have heaviest := inside.heaviest
    simp only [Limits.node, Frame.closed]
    omega
  · rintro limit known last first
    cases known
    cases first
    exact inside

theorem Says.join (before : Says scale a o start parts d)
    (within : Says scale b c g.start g.parts d) :
    Says scale (a.join b) o start (g.parts ++ parts) d := by
  cases own : g.parts with
  | nil =>
      have rest := before.rest.le (Int.le_max_right a.last a.rest)
      refine ⟨before.last.le (Int.le_max_left ..), rest.le (Int.le_max_left ..), ?_⟩
      intro limit known last first
      obtain ⟨m, n, here, -, rfl⟩ := both_some known
      exact (before.below m here last first).le (Int.le_max_left ..)
  | cons latest others =>
      obtain ⟨light, rest, below⟩ := within
      rw [own] at light rest below
      have inner := rest.le (Int.le_max_right a.all b.rest)
      have outer := before.all.le (Int.le_max_left a.all b.rest)
      refine ⟨light.le (Int.le_max_right ..), ?_, ?_⟩
      · intro node member
        exact (List.mem_append.mp member).elim (inner node) (outer node)
      · intro limit known last first
        obtain ⟨m, n, -, here, rfl⟩ := both_some known
        exact (below n here last first).le (Int.le_max_right ..)

/-- The children of the last part are among the parts then, and none of them is known to be last. -/
theorem Says.splice (said : Says scale a o start (last :: parts) c) (known : a.below = some limit) :
    Says scale ⟨max a.rest limit, max a.rest limit, none⟩ o start
      (last.children.reverse ++ parts) c := by
  have every : Keep scale (max a.rest limit) c (last.children.reverse ++ parts) := by
    intro node member
    rcases List.mem_append.mp member with child | other
    · have inside := said.below limit known last rfl
      exact inside.le (Int.le_max_right ..) node (List.mem_reverse.mp child)
    · exact said.rest.le (Int.le_max_left ..) node other
  constructor
  · exact fun node member => every node (List.mem_of_mem_take member)
  · exact fun node member => every node (List.mem_of_mem_tail member)
  · simp

theorem lawful (scale : Scale) (size : Nat) : (domain scale).Lawful size (Says scale) where
  start shallow := ⟨by simp [Keep], by simp [Keep], by simp⟩
  around {a o c f last parts} placed filled said := by
    obtain ⟨own, -, below⟩ := said
    rw [filled] at own below
    exact ⟨own, by simp [Keep], below⟩
  take placed said := said.level (Cursor.advance_depth _)
  pass placed said path level := .inl (said.level level)
  node placed said onward own begins within closes := by
    cases closes
    exact .node (said.level onward.level).all within
  wrap placed filled said onward own begins within closes := by
    cases closes
    have others := (said.level onward.level).rest
    rw [filled] at others
    exact .node others within
  join placed said onward own begins within joins := by
    cases joins
    exact .join (said.level onward.level) within
  splice placed filled said leaves := by
    obtain ⟨limit, known, rfl⟩ := Option.map_eq_some_iff.mp leaves
    rw [filled] at said
    exact said.splice known
  enter shallow said := said.shift (by have same := room_deeper scale shallow; omega)
  leave entered shallow said :=
    said.shift (by have same := room_back scale entered shallow; omega)
  merge merges said := by
    cases merges
    exact .merge said

end Limits

namespace Grammar

open Limits (room)

variable {scale : Scale} {summary : Nonterminal → Sketch Limits} {limit : Int} {size : Nat}
  {f g : Frame} {c d : Cursor}

/-- By these summaries of the rules, statements keep a limit. -/
structure Weighed (scale : Scale) (summary : Nonterminal → Sketch Limits) (limit : Int) :
    Prop where
  summarized : Summarized (Limits.domain scale) summary rules
  light : (outcomes (Limits.domain scale) summary statement none
    (.opening (Limits.domain scale))).any (fun all => all.all fun s => s.value.all ≤ limit) = true

theorem Weighed.derives (weighed : Weighed scale summary limit) (ordered : c.Ordered size)
    (shallow : c.depth ≤ maxDepth) (derives : Derives rules statement (.opened none c) c g d) :
    ∀ node ∈ g.parts, node.weight scale.of ≤ limit + room scale c := by
  obtain ⟨all, found, light⟩ := (Option.any_eq_true ..).mp weighed.light
  obtain ⟨s, member, describes⟩ :=
    derives_describes (Limits.lawful scale size) weighed.summarized found ordered shallow derives
  have bound := of_decide_eq_true (List.all_eq_true.mp light s member)
  have level := Limits.room_level scale derives.depth
  intro node inside
  have keeps := describes.said.all node inside
  omega

end Grammar

namespace Scale

/-- Statements count. Those that a level is not entered for count against the node that they stand
in instead, and each level that is left makes up for two. -/
def nesting : Scale := ⟨1, -2, -1, 2⟩

open Grammar in
def nestingSummary : Nonterminal → Sketch Limits
  | .expression _ => ⟨none, true, -1, -4, none⟩
  | .query => ⟨none, true, 1, -4, some 0⟩
  | .joinedTable => ⟨none, true, 1, -4, some 1⟩
  | .createStatement => ⟨none, true, 2, -4, none⟩
  | .group | .atomicBody => ⟨none, false, -4, -4, some (-4)⟩

/-- What holds statements without entering a level counts, against the statements around it. -/
def holders : Scale := ⟨-1, 1, 1, 0⟩

open Grammar in
def holdersSummary : Nonterminal → Sketch Limits
  | .expression _ => ⟨none, true, 0, -4, none⟩
  | .query => ⟨none, true, 0, -4, some 1⟩
  | .joinedTable => ⟨none, true, 0, -4, some 0⟩
  | .createStatement => ⟨none, true, 0, -4, none⟩
  | .group | .atomicBody => ⟨none, false, -4, -4, some (-4)⟩

/-- Statements alone count. -/
def tally : Scale := ⟨1, 0, 0, 0⟩

theorem nesting_weighed : Grammar.Weighed nesting nestingSummary 2 :=
  ⟨Grammar.summarized_rules (fun _ => rfl) (by decide +kernel), by decide +kernel⟩

theorem holders_weighed : Grammar.Weighed holders holdersSummary 0 :=
  ⟨Grammar.summarized_rules (fun _ => rfl) (by decide +kernel), by decide +kernel⟩

end Scale
end SqlAudit
