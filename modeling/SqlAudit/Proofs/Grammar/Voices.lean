import SqlAudit.Proofs.Grammar.Outcomes
import SqlAudit.Proofs.Grammar.Phrases
/-!
What values are made of. The analysis follows a grammar with the kind of the frame that is read, the
pieces of its value, and those of the values of the actions among its parts, as far as they are
known. Where a node is closed that keeps the words of a phrase, its value has to be known. What is
known of a frame stays true as its value grows, as the cursor moves on and as nodes are closed.
-/
namespace SqlAudit

/-- A piece of a value: a text, one of some words, or what is read as a phrase of a table. -/
inductive Piece where
  | text (text : String)
  | word (among : List String)
  | phrase (phrases : Phrases)
  deriving DecidableEq

/-- What is known of a frame. -/
structure Voice where
  kind : Option (Option NodeKind)
  value : Option (Option (List Piece))
  /-- Each action among the parts has one of these values. -/
  actions : Option (List (List Piece))
  deriving DecidableEq

namespace Voice

/-- Kinds of nodes that keep the words of a phrase. -/
def speaking : List NodeKind := [.otherStatement, .drop, .privilegeTarget, .alterAction]

/-- A frame that has just been opened. -/
def opened (kind : NodeKind) : Voice :=
  ⟨some (some kind), bif speaking.contains kind then some none else none, some []⟩

/-- Nothing is known. -/
def anything : Voice := ⟨none, none, none⟩

def add (piece : Piece) (v : Voice) : Voice :=
  { v with value := v.value.map fun pieces => some (pieces.getD [] ++ [piece]) }

def gap (v : Voice) : Voice :=
  { v with value := v.value.map fun pieces => pieces.map (· ++ [.text " "]) }

def speak (phrases : Phrases) (v : Voice) : Voice := v.gap.add (.phrase phrases)

/-- The value is not followed. -/
def mute (v : Voice) : Voice := { v with value := none }

/-- The parts are not followed. -/
def anyParts (v : Voice) : Voice := { v with actions := none }

/-- The values of actions among the parts that the frame of a node leaves. -/
def heard (inner : Voice) : Option (List (List Piece)) :=
  match inner.kind with
  | some (some kind) =>
    if kind = .alterAction then inner.value.bind fun pieces => pieces.map ([·]) else some []
  | _ => none

/-- The values of the actions that each of these leaves, besides those there are. -/
def heardOf (actions : Option (List (List Piece))) : List Voice → Option (List (List Piece))
  | [] => actions
  | inner :: rest => inner.heard.bind fun first => (heardOf actions rest).map (first ++ ·)

/-- After a node that one of these describes. -/
def close (v : Voice) (inner : List Voice) : Voice := { v with actions := heardOf v.actions inner }

/-- A node that keeps the words of a phrase is made of them. -/
def approved (v : Voice) : Bool :=
  match v.kind with
  | some (some .otherStatement) =>
    match v.value with
    | some (some [.word among]) => among.all fun word => word.toList.all (· != ' ')
    | value =>
      value == some (some [.text "CREATE", .text " ", .phrase Grammar.createdObjects]) ||
        value == some (some [.text "ALTER", .text " ", .phrase Grammar.alteredObjects])
  | some (some .drop) => v.value == some (some [.phrase Grammar.droppedObjects])
  | some (some .privilegeTarget) =>
    v.value == some (some [.text "TABLE"]) ||
      v.value == some (some [.phrase Grammar.privilegeTargets])
  | some (some .alterIndex) =>
    v.actions.any fun all => all.all (· == [.phrase Grammar.indexActions])
  | some _ => true
  | none => false

/-- A step after any of these voices. -/
def follow (step : Voice → Option (List Voice)) : List Voice → Option (List Voice)
  | [] => some []
  | v :: rest => (step v).bind fun first => (follow step rest).map (first ∪ ·)

end Voice

namespace Test

/-- The words that the current token is one of if the test holds. -/
def spellings? : Test → Option (List String)
  | .here (.words spellings) => some spellings
  | .here (.keywords ks) => some (ks.map (·.text))
  | .either a b => a.spellings?.bind fun first => b.spellings?.map (first ++ ·)
  | _ => none

/-- If the test holds, a phrase of the table starts here. -/
def starts (phrases : Phrases) : Test → Bool
  | .phrase others => others == phrases
  | _ => false

end Test

namespace Grammar

open Voice

/-- The kind of the frame stays as it is, and if asked for, its value does. -/
def spares (value : Bool) : Grammar → Bool
  | .copy _ | .write _ | .gap | .phrase _ | .splice | .echo => !value
  | .become _ | .dissolve => false
  | .seq a b | .branch _ a b => a.spares value && b.spares value
  | .loop _ a | .deeper a => a.spares value
  | _ => true

/-- Takes no token, whatever it does to the frame. -/
def stays : Grammar → Bool
  | .nothing | .copy _ | .write _ | .gap | .become _ => true
  | _ => false

/-- What is known in every round of a loop. -/
def always (a : Grammar) (v : Voice) : Voice :=
  bif a.spares true then v.anyParts else v.anyParts.mute

/-- What is known after a grammar, from what is known before it; none if it is refused. Where a test
is given, it has been passed here. -/
def voices : Grammar → Option Test → Voice → Option (List Voice)
  | .nothing, _, v | .take, _, v | .discard _, _, v => some [v]
  | .fail _, _, _ => some []
  | .copy spelling, sure, v =>
    match bif spelling == .capitals then sure.bind Test.spellings? else none with
    | some among => some [v.add (.word among)]
    | none => some [v.mute]
  | .write text, _, v => some [v.add (.text text)]
  | .gap, _, v => some [v.gap]
  | .phrase phrases, sure, v =>
    bif sure.any (·.starts phrases) then some [v.speak phrases] else some [v, v.speak phrases]
  | .seq a b, sure, v =>
    (voices a sure v).bind (follow (voices b (bif a.stays then sure else none)))
  | .branch test a b, _, v =>
    (voices a (some test) v).bind fun yes => (voices b none v).map (yes ∪ ·)
  | .loop test a, _, v =>
    bif a.spares false then (voices a (some test) (a.always v)).map fun _ => [a.always v]
    else none
  | .node kind a, sure, v =>
    (voices a sure (opened kind)).bind fun inner =>
      bif inner.all approved then some [v.close inner] else none
  | .wrap kind a, _, v =>
    (voices a none (opened kind).anyParts).bind fun inner =>
      bif inner.all approved then some [v.close inner] else none
  | .become kind, _, v => some [{ v with kind := some (some kind) }]
  | .dissolve, _, v => some [{ v with kind := some none }]
  | .splice, _, v => some [v.anyParts.mute]
  | .echo, _, v => some [v.mute]
  | .deeper a, _, v => voices a none v
  | .call _, _, v => some [v.anyParts]

end Grammar

/-- The piece says this text, for some place among the tokens within a span. -/
def Piece.Says (tokens : List Token) (place : Span) : Piece → String → Prop
  | .text own, said => said = own
  | .word among, said => said ∈ among
  | .phrase phrases, said => ∃ c : Cursor, c.Speaks tokens place phrases ∧
      said = " ".intercalate (c.spoken phrases)

/-- The pieces say this text one after another. -/
def Say (tokens : List Token) (place : Span) : List Piece → String → Prop
  | [], said => said = ""
  | piece :: rest, said => ∃ first second,
      piece.Says tokens place first ∧ Say tokens place rest second ∧ said = first ++ second

/-- There is a value where there are pieces, and they say it. -/
def SayValue (tokens : List Token) (place : Span) : Option (List Piece) → Option String → Prop
  | some pieces, some said => Say tokens place pieces said
  | none, none => True
  | _, _ => False

/-- What is known of a frame is true, at a place between its start and the cursor. -/
structure Voice.Describes (v : Voice) (tokens : List Token) (f : Frame) (c : Cursor) : Prop where
  kind : ∀ kind, v.kind = some kind → f.kind = kind
  value : ∀ pieces, v.value = some pieces →
    SayValue tokens ⟨f.start, c.previous.stop⟩ pieces f.value
  actions : ∀ all, v.actions = some all → ∀ node ∈ f.parts, node.kind = .alterAction →
    ∃ pieces ∈ all, SayValue tokens node.span (some pieces) node.value

variable {tokens : List Token} {place wide : Span} {v w : Voice} {f g : Frame} {c d : Cursor}

theorem Say.mono {pieces : List Piece} {said : String} (say : Say tokens place pieces said)
    (starts : wide.start ≤ place.start) (stops : place.stop ≤ wide.stop) :
    Say tokens wide pieces said := by
  induction pieces generalizing said with
  | nil => exact say
  | cons piece pieces ih =>
      obtain ⟨first, second, here, rest, same⟩ := say
      refine ⟨first, second, ?_, ih rest, same⟩
      cases piece with
      | text own => exact here
      | word among => exact here
      | phrase phrases =>
          obtain ⟨c, speaks, own⟩ := here
          exact ⟨c, speaks.mono starts stops, own⟩

theorem SayValue.mono {pieces : Option (List Piece)} {value : Option String}
    (told : SayValue tokens place pieces value) (starts : wide.start ≤ place.start)
    (stops : place.stop ≤ wide.stop) : SayValue tokens wide pieces value := by
  cases pieces <;> cases value <;> first | exact told | exact Say.mono told starts stops

theorem Say.add {pieces : List Piece} {piece : Piece} {said more : String}
    (first : Say tokens place pieces said) (last : piece.Says tokens place more) :
    Say tokens place (pieces ++ [piece]) (said ++ more) := by
  induction pieces generalizing said with
  | nil =>
      rw [Say] at first
      exact ⟨more, "", last, rfl, by simp [first]⟩
  | cons next pieces ih =>
      obtain ⟨front, back, here, rest, rfl⟩ := first
      exact ⟨front, back ++ more, here, ih rest, String.append_assoc ..⟩

namespace Voice.Describes

theorem anything (f : Frame) (c : Cursor) : Voice.anything.Describes tokens f c :=
  ⟨nofun, nofun, nofun⟩

/-- Where the parts are not followed, nothing is to be shown of them. -/
theorem of_value (kind : ∀ kind, v.kind = some kind → f.kind = kind)
    (value : ∀ pieces, v.value = some pieces →
      SayValue tokens ⟨f.start, c.previous.stop⟩ pieces f.value) :
    v.anyParts.Describes tokens f c :=
  ⟨kind, value, nofun⟩

theorem of_kind (kind : ∀ kind, v.kind = some kind → f.kind = kind) :
    v.anyParts.mute.Describes tokens f c :=
  ⟨kind, nofun, nofun⟩

theorem onward (describes : v.Describes tokens f c) (later : c.previous.stop ≤ d.previous.stop) :
    v.Describes tokens f d :=
  ⟨describes.kind, fun pieces known => (describes.value pieces known).mono (Nat.le_refl _) later,
    describes.actions⟩

theorem opened_silent (kind : NodeKind) (tokens : List Token) (place : Span) :
    ∀ pieces, (Voice.opened kind).value = some pieces → SayValue tokens place pieces none := by
  intro pieces known
  rw [Voice.opened] at known
  cases speaks : speaking.contains kind <;> rw [speaks] at known <;> cases known
  trivial

theorem opened (kind : NodeKind) (c : Cursor) :
    (Voice.opened kind).Describes tokens (.opened (some kind) c) c :=
  ⟨fun _ same => Option.some.inj same, opened_silent kind tokens _, fun _ _ _ => nofun⟩

theorem mute (describes : v.Describes tokens f c) (value : Option String) :
    v.mute.Describes tokens { f with value := value } c :=
  ⟨describes.kind, nofun, describes.actions⟩

theorem anyParts (describes : v.Describes tokens f c) (parts : List Node) :
    v.anyParts.Describes tokens { f with parts := parts } c :=
  of_value describes.kind describes.value

theorem add {piece : Piece} {said : String} (describes : v.Describes tokens f c)
    (here : piece.Says tokens ⟨f.start, c.previous.stop⟩ said) :
    (v.add piece).Describes tokens (f.write said) c := by
  refine ⟨describes.kind, fun pieces known => ?_, describes.actions⟩
  obtain ⟨before, was, rfl⟩ := Option.map_eq_some_iff.mp known
  have value := describes.value before was
  rw [Frame.write]
  cases before with
  | none =>
      cases same : f.value with
      | none =>
          have empty : Say tokens ⟨f.start, c.previous.stop⟩ [] "" := rfl
          exact empty.add here
      | some text => simp [same, SayValue] at value
  | some pieces =>
      cases same : f.value with
      | none => simp [same, SayValue] at value
      | some text =>
          rw [same] at value
          exact Say.add value here

theorem gap (describes : v.Describes tokens f c) : v.gap.Describes tokens f.gap c := by
  refine ⟨describes.kind, fun pieces known => ?_, describes.actions⟩
  obtain ⟨before, was, rfl⟩ := Option.map_eq_some_iff.mp known
  have value := describes.value before was
  rw [Frame.gap]
  cases before with
  | none =>
      cases same : f.value with
      | none => trivial
      | some text => simp [same, SayValue] at value
  | some pieces =>
      cases same : f.value with
      | none => simp [same, SayValue] at value
      | some text =>
          rw [same] at value
          exact Say.add value (show Piece.Says tokens _ (.text " ") " " from rfl)

theorem speak {phrases : Phrases} (describes : v.Describes tokens f d)
    (speaks : c.Speaks tokens ⟨f.start, d.previous.stop⟩ phrases) :
    (v.speak phrases).Describes tokens (f.gap.write (" ".intercalate (c.spoken phrases))) d :=
  describes.gap.add ⟨c, speaks, rfl⟩

end Voice.Describes

namespace Voice

theorem heardOf_eq_some {before : Option (List (List Piece))} {inner : List Voice}
    {all : List (List Piece)} (heard : heardOf before inner = some all) :
    (∃ own, before = some own ∧ own ⊆ all) ∧
      ∀ w ∈ inner, ∃ own, w.heard = some own ∧ own ⊆ all := by
  induction inner generalizing all with
  | nil => exact ⟨⟨all, heard, List.Subset.refl _⟩, by simp⟩
  | cons first rest ih =>
      obtain ⟨own, here, later⟩ := Option.bind_eq_some_iff.mp heard
      obtain ⟨others, known, rfl⟩ := Option.map_eq_some_iff.mp later
      obtain ⟨⟨start, same, within⟩, each⟩ := ih known
      refine ⟨⟨start, same, List.Subset.trans within (List.subset_append_right ..)⟩, ?_⟩
      intro w member
      obtain rfl | member := List.mem_cons.mp member
      · exact ⟨own, here, List.subset_append_left ..⟩
      · obtain ⟨own, here, within⟩ := each w member
        exact ⟨own, here, List.Subset.trans within (List.subset_append_right ..)⟩

/-- What is heard of the action that a frame becomes is true, and the frame becomes a node. -/
theorem heard_sound {own : List (List Piece)} (heard : w.heard = some own)
    (describes : w.Describes tokens g d) :
    ∃ kind, g.kind = some kind ∧ (kind = .alterAction →
      ∃ pieces ∈ own, SayValue tokens ⟨g.start, d.previous.stop⟩ (some pieces) g.value) := by
  rw [Voice.heard] at heard
  split at heard
  · rename_i kind known
    refine ⟨kind, describes.kind _ known, fun same => ?_⟩
    rw [if_pos same] at heard
    obtain ⟨value, found, mapped⟩ := Option.bind_eq_some_iff.mp heard
    obtain ⟨pieces, rfl, rfl⟩ := Option.map_eq_some_iff.mp mapped
    exact ⟨pieces, .head _, describes.value _ found⟩
  · cases heard

theorem Describes.close {inner : List Voice} (describes : v.Describes tokens f d)
    (member : w ∈ inner) (own : w.Describes tokens g d) :
    (v.close inner).Describes tokens (f.close g d) d := by
  refine ⟨fun kind known => ?_, fun pieces known => ?_, fun all heard node inside isAction => ?_⟩
  · rw [Frame.close_kind]
    exact describes.kind kind known
  · rw [Frame.close_value, Frame.close_start]
    exact describes.value pieces known
  · obtain ⟨⟨before, same, within⟩, each⟩ := heardOf_eq_some heard
    obtain ⟨said, here, included⟩ := each w member
    obtain ⟨kind, isNode, action⟩ := heard_sound here own
    rw [Frame.close_some isNode] at inside
    obtain rfl | earlier := List.mem_cons.mp inside
    · obtain ⟨pieces, known, told⟩ := action isAction
      exact ⟨pieces, included known, told.mono (Nat.le_refl _) (Nat.le_max_left ..)⟩
    · obtain ⟨pieces, known, told⟩ := describes.actions before same node earlier isAction
      exact ⟨pieces, within known, told⟩

end Voice

end SqlAudit
