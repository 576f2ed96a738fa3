import SqlAudit.Proofs.Grammar.Phrased
import SqlAudit.Proofs.Script.Regions
/-!
Phrases in scripts. Wherever a statement, a drop, the target of a privilege or an action on an index
is named by the words of a phrase, these are the longest run at some place within its node that
starts a phrase of its table. Nothing makes sure that the run is a whole phrase.
-/
namespace SqlAudit

namespace Script

variable {size : Nat} {c d : Cursor} {node : Node} {tokens : List Token}

theorem Statement.phrased (read : Statement size c node d) (ordered : c.Ordered size)
    (inside : c.tokens <:+ tokens) : node.Every (Node.Phrased tokens) := by
  apply read.of_derives
  intro g derives
  exact Grammar.derives_phrased (c := { c with depth := 0 }) ordered inside rfl derives

/-- Only routine options get another value, and these keep no phrase. -/
theorem nameOptions_value (text : List Char) (other : node.kind ≠ .routineOption) :
    (nameOptions text node).value = node.value := by
  cases node
  exact if_neg other

theorem nameOptions_phrased (text : List Char) (phrased : node.Phrased tokens) :
    (nameOptions text node).Phrased tokens := by
  have kept (kind : NodeKind) (other : kind ≠ .routineOption)
      (same : (nameOptions text node).kind = kind) :
      node.kind = kind ∧ (nameOptions text node).value = node.value := by
    rw [nameOptions_kind] at same
    exact ⟨same, nameOptions_value text (same ▸ other)⟩
  have span := nameOptions_span text node
  constructor
  case created =>
      intro same kind value
      obtain ⟨was, keeps⟩ := kept _ (by decide) same
      exact span ▸ phrased.created was kind (keeps ▸ value)
  case altered =>
      intro same kind value
      obtain ⟨was, keeps⟩ := kept _ (by decide) same
      exact span ▸ phrased.altered was kind (keeps ▸ value)
  case dropped =>
      intro same
      obtain ⟨was, keeps⟩ := kept _ (by decide) same
      exact span ▸ keeps ▸ phrased.dropped was
  case target =>
      intro same
      obtain ⟨was, keeps⟩ := kept _ (by decide) same
      exact span ▸ keeps ▸ phrased.target was
  case actions =>
      intro same child member action
      rw [nameOptions_children] at member
      obtain ⟨original, inside, rfl⟩ := List.mem_map.mp member
      rw [nameOptions_kind] at same action
      rw [nameOptions_value text (by simp [action]), nameOptions_span]
      exact phrased.actions same original inside action

theorem phrased_of_kind (silent : node.kind = .script ∨ node.kind = .unparsed) :
    node.Phrased tokens := by
  constructor <;> intro same <;> simp [same] at silent

theorem read_phrased (d : Dialect) (text : String) :
    (read d text).root.Every (Node.Phrased (tokenize d text)) := by
  refine Node.every_iff.mpr ⟨phrased_of_kind (.inl rfl), fun node member => ?_⟩
  rcases read_statement d text node member with
    ⟨span, value, rfl⟩ | ⟨original, c, e, rfl, later, start, read⟩
  · exact ⟨phrased_of_kind (.inr rfl), trivial⟩
  · exact every_nameOptions text.toList (fun _ => nameOptions_phrased _) original
      (read.phrased start later)

end Script

/-- The longest run of words that starts a phrase is read, wherever a phrase of a table is read. It
is a whole phrase, and the longest there, just if the run is a phrase; what the nodes of a tree keep
are such runs, and they are phrases of their tables just if the runs are. -/
theorem phrases_begun (d : Dialect) (text : String) :
    (∀ (phrases : Phrases) (c : Cursor), c.tokens <:+ tokenize d text → ∃ run e,
      c.phrase phrases [] c.tokens = (run, e) ∧ IsRun phrases [] c.tokens run e.tokens ∧
      (IsWhole phrases c.tokens run e.tokens ↔ run = [] ∨ run ∈ phrases)) ∧
    ∀ path node, (Script.read d text).root.at? path = some node →
      node.Phrased (tokenize d text) := by
  refine ⟨fun phrases c inside => ?_, fun path node reached => ?_⟩
  · have last : (c.tokens.getLast c.tokens_ne_nil).lexeme = .finish := by
      have whole := (tokenize_inOrder d text).split_last.1
      rw [inside.getLast c.tokens_ne_nil, List.getLast_congr _ (by simp) whole,
        List.getLast_concat]
    have isRun := c.spoken_run last phrases
    exact ⟨c.spoken phrases, _, rfl, isRun, isRun.whole_iff⟩
  · exact ((Script.read_phrased d text).at? reached).here

/-- A drop of the kind FOREIGN is read without an error. -/
theorem drop_foreign_read :
    let script := Script.read .postgres "DROP FOREIGN x"
    script.isComplete = true ∧ ∃ path node, script.root.at? path = some node ∧
      node.kind = .drop ∧ node.value = some "FOREIGN" ∧
      "FOREIGN" ∉ Grammar.droppedObjects.texts := by
  refine ⟨by decide +kernel, [0], _, rfl, ?_⟩
  decide +kernel

end SqlAudit
