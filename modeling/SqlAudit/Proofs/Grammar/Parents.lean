import SqlAudit.Proofs.Grammar.Outcomes
/-!
What stands below what. One analysis follows the nodes of a kind to the nodes that they become
children of, and refuses a grammar where those are not of the kinds allowed; another one refuses a
grammar where a node of one kind could have nodes of certain others anywhere below it.
-/
namespace SqlAudit

namespace Node

/-- It has a child of the kind only if it is itself of one of these kinds. -/
def MayHold (part : NodeKind) (holders : List NodeKind) (node : Node) : Prop :=
  ∀ child ∈ node.children, child.kind = part → node.kind ∈ holders

/-- If it is of this kind, nothing below it is of those. -/
def Spares (kind : NodeKind) (kinds : List NodeKind) (node : Node) : Prop :=
  node.kind = kind → ∀ child ∈ node.children, child.Every (·.kind ∉ kinds)

end Node

variable {size start : Nat} {o c d : Cursor} {f g : Frame} {nodes parts : List Node} {last : Node}
  {kind part own : NodeKind} {holders kinds : List NodeKind}

/-- Where nodes of a kind may be: the last part of a frame, the parts before it, and the children
of the last part. -/
structure Kinship where
  last : Bool
  rest : Bool
  below : Bool
  deriving DecidableEq

namespace Kinship

variable {a b after : Kinship} {rest : Bool}

def any (a : Kinship) : Bool := a.last || a.rest

/-- After a node whose own parts are as the last value says, with others before it. -/
def close (part : NodeKind) (holders : List NodeKind) (rest : Bool) (kind : NodeKind)
    (inner : Kinship) : Option Kinship :=
  if inner.any && !holders.contains kind then none else some ⟨kind == part, rest, inner.any⟩

def merge (a b : Kinship) : Kinship := ⟨a.last || b.last, a.rest || b.rest, a.below || b.below⟩

/-- Children that come to stand among the parts must be known not to be of the kind; of their own
children nothing is known. -/
def domain (part : NodeKind) (holders : List NodeKind) : Domain Kinship where
  start := ⟨false, false, false⟩
  around a := { a with rest := false }
  take a := a
  node a := close part holders a.any
  wrap a := close part holders a.rest
  join a inner := some ⟨a.last || inner.last, a.any || inner.rest, a.below || inner.below⟩
  splice a := if a.below then none else some ⟨a.rest, a.rest, true⟩
  enter a := a
  leave a := a
  merge a b := some (a.merge b)

structure Says (part : NodeKind) (holders : List NodeKind) (a : Kinship) (_since : Cursor)
    (_start : Nat) (parts : List Node) (_c : Cursor) : Prop where
  every : ∀ node ∈ parts, node.Every (Node.MayHold part holders)
  last : a.last = false → ∀ node ∈ parts.head?, node.kind ≠ part
  rest : a.rest = false → ∀ node ∈ parts.tail, node.kind ≠ part
  below : a.below = false → ∀ last ∈ parts.head?, ∀ child ∈ last.children, child.kind ≠ part

theorem Says.moved (said : Says part holders a o start parts c) :
    Says part holders a o start parts d := ⟨said.every, said.last, said.rest, said.below⟩

theorem Says.all (said : Says part holders a o start parts c) (none : a.any = false) :
    ∀ node ∈ parts, node.kind ≠ part := by
  obtain ⟨last, rest⟩ := Bool.or_eq_false_iff.mp none
  cases parts with
  | nil => simp
  | cons node parts =>
      exact List.forall_mem_cons.mpr ⟨said.last last node rfl, said.rest rest⟩

theorem Says.close (every : ∀ node ∈ parts, node.Every (Node.MayHold part holders))
    (others : rest = false → ∀ node ∈ parts, node.kind ≠ part)
    (within : Says part holders b c g.start g.parts d)
    (closes : close part holders rest kind b = some after) :
    Says part holders after o start (g.closed kind d :: parts) d := by
  rw [Kinship.close] at closes
  split at closes
  · cases closes
  · rename_i allowed
    cases closes
    have inside : ∀ child ∈ (g.closed kind d).children, child ∈ g.parts :=
      fun child member => List.mem_reverse.mp member
    have holds : (g.closed kind d).MayHold part holders := by
      intro child member same
      by_contra other
      have none : b.any = false := by
        by_contra some
        exact allowed (by simp_all [Frame.closed])
      exact within.all none child (inside child member) same
    refine ⟨?_, ?_, others, ?_⟩
    · refine List.forall_mem_cons.mpr ⟨Node.every_iff.mpr ⟨holds, ?_⟩, every⟩
      exact fun child member => within.every child (inside child member)
    · rintro other _ ⟨⟩
      exact beq_eq_false_iff_ne.mp other
    · rintro none _ ⟨⟩ child member
      exact within.all none child (inside child member)

theorem Says.join (before : Says part holders a o start parts d)
    (within : Says part holders b c g.start g.parts d) :
    Says part holders ⟨a.last || b.last, a.any || b.rest, a.below || b.below⟩ o start
      (g.parts ++ parts) d := by
  have every : ∀ node ∈ g.parts ++ parts, node.Every (Node.MayHold part holders) :=
    fun node member => (List.mem_append.mp member).elim (within.every node) (before.every node)
  cases own : g.parts with
  | nil =>
      rw [own] at every
      refine ⟨every, ?_, ?_, ?_⟩
      · exact fun last => before.last (Bool.or_eq_false_iff.mp last).1
      · intro rest node member
        exact before.all (Bool.or_eq_false_iff.mp rest).1 node (List.mem_of_mem_tail member)
      · exact fun below => before.below (Bool.or_eq_false_iff.mp below).1
  | cons latest others =>
      obtain ⟨-, last, rest, below⟩ := within
      rw [own] at every last rest below
      refine ⟨every, ?_, ?_, ?_⟩
      · exact fun none => last (Bool.or_eq_false_iff.mp none).2
      · intro none node member
        obtain ⟨outer, inner⟩ := Bool.or_eq_false_iff.mp none
        exact (List.mem_append.mp member).elim (rest inner node) (before.all outer node)
      · exact fun none => below (Bool.or_eq_false_iff.mp none).2

theorem Says.splice (said : Says part holders a o start (last :: parts) c)
    (below : a.below = false) :
    Says part holders ⟨a.rest, a.rest, true⟩ o start (last.children.reverse ++ parts) c := by
  have others (none : a.rest = false) :
      ∀ node ∈ last.children.reverse ++ parts, node.kind ≠ part := by
    intro node member
    rcases List.mem_append.mp member with child | other
    · exact said.below below last rfl node (List.mem_reverse.mp child)
    · exact said.rest none node other
  refine ⟨?_, ?_, ?_, nofun⟩
  · intro node member
    rcases List.mem_append.mp member with child | other
    · have inside := (Node.every_iff.mp (said.every last (.head _))).2
      exact inside node (List.mem_reverse.mp child)
    · exact said.every node (.tail _ other)
  · exact fun none node member => others none node (List.mem_of_mem_head? member)
  · exact fun none node member => others none node (List.mem_of_mem_tail member)

theorem Says.merge
    (said : Says part holders a o start parts c ∨ Says part holders b o start parts c) :
    Says part holders (a.merge b) o start parts c := by
  rcases said with said | said
  · exact ⟨said.every, fun none => said.last (Bool.or_eq_false_iff.mp none).1,
      fun none => said.rest (Bool.or_eq_false_iff.mp none).1,
      fun none => said.below (Bool.or_eq_false_iff.mp none).1⟩
  · exact ⟨said.every, fun none => said.last (Bool.or_eq_false_iff.mp none).2,
      fun none => said.rest (Bool.or_eq_false_iff.mp none).2,
      fun none => said.below (Bool.or_eq_false_iff.mp none).2⟩

theorem lawful (part : NodeKind) (holders : List NodeKind) (size : Nat) :
    (domain part holders).Lawful size (Says part holders) where
  start _ := ⟨by simp, by simp, by simp, by simp⟩
  around {a o c f last parts} placed filled said := by
    rw [filled] at said
    exact ⟨by simpa using said.every last (.head _), said.last, by simp, said.below⟩
  take placed said := said.moved
  pass placed said path level := .inl said.moved
  node placed said onward own begins within closes := .close said.every said.all within closes
  wrap placed filled said onward own begins within closes := by
    rw [filled] at said
    exact .close (fun node member => said.every node (.tail _ member)) said.rest within closes
  join placed said onward own begins within joins := by
    cases joins
    exact .join said.moved within
  splice {a after o c f last parts} placed filled said leaves := by
    rw [filled] at said
    simp only [domain] at leaves
    split at leaves
    · cases leaves
    · rename_i below
      cases leaves
      exact said.splice (Bool.eq_false_iff.mpr below)
  enter shallow said := said.moved
  leave entered shallow said := said.moved
  merge merges said := by
    cases merges
    exact .merge said

end Kinship

namespace Contents

variable {a b after : Bool}

/-- After a node: whether nodes of these kinds may be among the parts or below them. -/
def close (kind : NodeKind) (kinds : List NodeKind) (a : Bool) (own : NodeKind) (inner : Bool) :
    Option Bool :=
  if own = kind ∧ inner = true then none else some (a || inner || kinds.contains own)

def domain (kind : NodeKind) (kinds : List NodeKind) : Domain Bool where
  start := false
  around a := a
  take a := a
  node := close kind kinds
  wrap := close kind kinds
  join a inner := some (a || inner)
  splice a := some a
  enter a := a
  leave a := a
  merge a b := some (a || b)

structure Says (kind : NodeKind) (kinds : List NodeKind) (a : Bool) (_since : Cursor)
    (_start : Nat) (parts : List Node) (_c : Cursor) : Prop where
  every : ∀ node ∈ parts, node.Every (Node.Spares kind kinds)
  free : a = false → ∀ node ∈ parts, node.Every (·.kind ∉ kinds)

theorem Says.subset {since : Cursor} {place : Nat} (said : Says kind kinds a o start parts c)
    (subset : nodes ⊆ parts) : Says kind kinds a since place nodes d :=
  ⟨fun node member => said.every node (subset member),
    fun none node member => said.free none node (subset member)⟩

theorem Says.join (said : Says kind kinds a o start parts c)
    (within : Says kind kinds b o start nodes c) :
    Says kind kinds (a || b) o start (nodes ++ parts) c := by
  constructor
  · exact fun node member =>
      (List.mem_append.mp member).elim (within.every node) (said.every node)
  · intro none node member
    obtain ⟨outer, inner⟩ := Bool.or_eq_false_iff.mp none
    exact (List.mem_append.mp member).elim (within.free inner node) (said.free outer node)

theorem Says.close (said : Says kind kinds a o start parts c)
    (within : Says kind kinds b c g.start g.parts d)
    (closes : close kind kinds a own b = some after) :
    Says kind kinds after o start (g.closed own d :: parts) d := by
  rw [Contents.close] at closes
  split at closes
  · cases closes
  · rename_i allowed
    cases closes
    have inside : ∀ child ∈ (g.closed own d).children, child ∈ g.parts :=
      fun child member => List.mem_reverse.mp member
    have spares : (g.closed own d).Spares kind kinds := by
      intro same child member
      have none : b = false := Bool.eq_false_iff.mpr fun some => allowed ⟨same, some⟩
      exact within.free none child (inside child member)
    constructor
    · refine List.forall_mem_cons.mpr ⟨Node.every_iff.mpr ⟨spares, ?_⟩, said.every⟩
      exact fun child member => within.every child (inside child member)
    · intro none
      obtain ⟨before, here⟩ := Bool.or_eq_false_iff.mp none
      obtain ⟨outer, inner⟩ := Bool.or_eq_false_iff.mp before
      have other : own ∉ kinds := by simpa using here
      refine List.forall_mem_cons.mpr ⟨Node.every_iff.mpr ⟨other, ?_⟩, said.free outer⟩
      exact fun child member => within.free inner child (inside child member)

theorem Says.splice (said : Says kind kinds a o start (last :: parts) c) :
    Says kind kinds a o start (last.children.reverse ++ parts) c := by
  constructor
  · intro node member
    rcases List.mem_append.mp member with child | other
    · have inside := (Node.every_iff.mp (said.every last (.head _))).2
      exact inside node (List.mem_reverse.mp child)
    · exact said.every node (.tail _ other)
  · intro none node member
    rcases List.mem_append.mp member with child | other
    · have inside := (Node.every_iff.mp (said.free none last (.head _))).2
      exact inside node (List.mem_reverse.mp child)
    · exact said.free none node (.tail _ other)

theorem lawful (kind : NodeKind) (kinds : List NodeKind) (size : Nat) :
    (domain kind kinds).Lawful size (Says kind kinds) where
  start _ := ⟨by simp, by simp⟩
  around {a o c f last parts} placed filled said := by
    rw [filled] at said
    exact said.subset (List.cons_subset_cons last (List.nil_subset parts))
  take placed said := said.subset (List.Subset.refl _)
  pass placed said path level := .inl (said.subset (List.Subset.refl _))
  node placed said onward own begins within closes := said.close within closes
  wrap placed filled said onward own begins within closes := by
    rw [filled] at said
    exact (said.subset (List.subset_cons_self ..)).close within closes
  join placed said onward own begins within joins := by
    cases joins
    exact (said.subset (List.Subset.refl _)).join (within.subset (List.Subset.refl _))
  splice {a after o c f last parts} placed filled said leaves := by
    cases leaves
    rw [filled] at said
    exact said.splice
  enter shallow said := said.subset (List.Subset.refl _)
  leave entered shallow said := said.subset (List.Subset.refl _)
  merge merges said := by
    cases merges
    rcases said with said | said
    · exact ⟨said.every, fun none => said.free (Bool.or_eq_false_iff.mp none).1⟩
    · exact ⟨said.every, fun none => said.free (Bool.or_eq_false_iff.mp none).2⟩

end Contents

namespace Grammar

/-- What is stored or indexed by a method of its own; a table is not defined with any of it. -/
def storedKinds : List NodeKind := [.createTable, .createIndex, .createView]

/-- Where a method may be named. -/
def methodHolders : List NodeKind := storedKinds ++ [.tableConstraint]

def methodSummary : Nonterminal → Sketch Kinship
  | .joinedTable | .expression _ | .query => ⟨none, true, ⟨false, false, false⟩⟩
  | .createStatement => ⟨none, true, ⟨false, false, true⟩⟩
  | .group | .atomicBody => ⟨none, false, ⟨false, false, false⟩⟩

def creationSummary : Nonterminal → Sketch Bool
  | .joinedTable | .expression _ | .query => ⟨none, true, false⟩
  | .createStatement => ⟨none, true, true⟩
  | .group | .atomicBody => ⟨none, false, false⟩

theorem methods_summarized :
    Summarized (Kinship.domain .accessMethod methodHolders) methodSummary rules :=
  summarized_rules (fun _ => rfl) (by decide +kernel)

theorem creations_summarized :
    Summarized (Contents.domain .createTable storedKinds) creationSummary rules :=
  summarized_rules (fun _ => rfl) (by decide +kernel)

theorem method_outcomes : (outcomes (Kinship.domain .accessMethod methodHolders) methodSummary
    statement none (.opening (Kinship.domain .accessMethod methodHolders))).any
      (fun all => all.all fun s => !s.value.any) = true := by
  decide +kernel

theorem creation_outcomes : (outcomes (Contents.domain .createTable storedKinds)
    creationSummary statement none
      (.opening (Contents.domain .createTable storedKinds))).isSome = true := by
  decide +kernel

/-- A statement is no method, and methods stand below what is stored or indexed by them. -/
theorem derives_methods (ordered : c.Ordered size) (shallow : c.depth ≤ maxDepth)
    (derives : Derives rules statement (.opened none c) c g d) : ∀ node ∈ g.parts,
      node.kind ≠ .accessMethod ∧ node.Every (Node.MayHold .accessMethod methodHolders) := by
  obtain ⟨all, found, free⟩ := (Option.any_eq_true ..).mp method_outcomes
  obtain ⟨s, member, describes⟩ :=
    derives_describes (Kinship.lawful ..) methods_summarized found ordered shallow derives
  have none : s.value.any = false := by simpa using List.all_eq_true.mp free s member
  exact fun node inside => ⟨describes.said.all none node inside, describes.said.every node inside⟩

theorem derives_creations (ordered : c.Ordered size) (shallow : c.depth ≤ maxDepth)
    (derives : Derives rules statement (.opened none c) c g d) :
    ∀ node ∈ g.parts, node.Every (Node.Spares .createTable storedKinds) := by
  obtain ⟨all, found⟩ := Option.isSome_iff_exists.mp creation_outcomes
  obtain ⟨s, -, describes⟩ :=
    derives_describes (Contents.lawful ..) creations_summarized found ordered shallow derives
  exact describes.said.every

end Grammar
end SqlAudit
