import SqlAudit.Proofs.Script.Reads
import SqlAudit.Proofs.Tree.Weight
/-!
The tree of a script is nested: its statements form a row over the whole text, whatever could be
read of them, and giving the options of routines their text moves no node.
-/
namespace SqlAudit

open Node (Row row_widen row_bounds nested_iff_row)

namespace Script

variable {size : Nat} {c d : Cursor} {nodes : List Node} {errors : List SyntaxError}
  {of : NodeKind → Int}

/-- A region is passed over from its first token to the terminator it ends at. -/
theorem Region.passes {b : Cursor} {error : SyntaxError} {node : Node}
    (read : Region size c error b node d) : Path (fun _ => True) c d :=
  (read.path.mono fun _ _ => trivial).trans (read.skip.mono fun _ _ => trivial)

theorem Statement.passes {node : Node} (read : Statement size c node d) :
    Path (fun _ => True) c d :=
  read.path.mono fun _ _ => trivial

theorem row_cons {node : Node} (ordered : c.Ordered size) (path : Path (fun _ => True) c d)
    (span : node.span = ⟨c.current.span.start, d.previous.stop⟩) (nested : node.Nested)
    (rest : Row d.current.span.start size nodes) :
    Row c.current.span.start size (node :: nodes) := by
  have next := (path.ordered ordered).previous_stop_le
  refine ⟨by rw [span], nested, ?_⟩
  rw [span]
  exact row_widen next (Nat.le_refl _) rest

theorem reads_row (reads : Reads size c nodes errors) (ordered : c.Ordered size) :
    Row c.current.span.start size nodes := by
  induction reads with
  | finish last =>
      have bounds := InOrder.head ordered
      exact bounds.2.1.trans bounds.2.2
  | @semicolon c nodes errors here rest ih =>
      have step : Path (fun _ => True) c c.advance := .take .here trivial
      exact row_widen (step.current_mono ordered) (Nat.le_refl _) (ih ordered.advance)
  | statement starts read ends rest ih =>
      have row := ih (read.path.ordered ordered)
      exact row_cons ordered read.passes read.span read.nested row
  | @region c b d error node nodes errors starts read ends rest ih =>
      have path := read.passes
      have row := ih (path.ordered ordered)
      have passed := path.previous_stop_le ordered read.moved
      have token := ordered.current_span
      refine row_cons ordered path (by rw [read.region]; rfl) ?_ row
      rw [read.region, nested_iff_row]
      exact token.trans passed

mutual

theorem nameOptions_nested (text : List Char) :
    ∀ node : Node, node.Nested → (nameOptions text node).Nested
  | ⟨_, _, _, children⟩, nested => nameOptionsOfList_row text children nested

theorem nameOptionsOfList_row (text : List Char) {lo hi : Nat} :
    ∀ nodes : List Node, Row lo hi nodes → Row lo hi (nameOptionsOfList text nodes)
  | [], row => row
  | ⟨_, _, _, _⟩ :: nodes, ⟨starts, nested, rest⟩ =>
    ⟨starts, nameOptions_nested text _ nested, nameOptionsOfList_row text nodes rest⟩

end

theorem nameOptions_span (text : List Char) (node : Node) :
    (nameOptions text node).span = node.span := by
  cases node
  rfl

theorem nameOptions_kind (text : List Char) (node : Node) :
    (nameOptions text node).kind = node.kind := by
  cases node
  rfl

theorem nameOptionsOfList_eq_map (text : List Char) (nodes : List Node) :
    nameOptionsOfList text nodes = nodes.map (nameOptions text) := by
  induction nodes with
  | nil => rfl
  | cons node nodes ih => rw [nameOptionsOfList, ih, List.map_cons]

theorem nameOptions_children (text : List Char) (node : Node) :
    (nameOptions text node).children = node.children.map (nameOptions text) := by
  cases node
  exact nameOptionsOfList_eq_map text _

mutual

theorem weight_nameOptions (text : List Char) :
    ∀ node : Node, (nameOptions text node).weight of = node.weight of
  | ⟨kind, _, _, children⟩ => congrArg (of kind + ·) (heaviest_nameOptionsOfList text children)

theorem heaviest_nameOptionsOfList (text : List Char) :
    ∀ nodes : List Node, Node.heaviest of (nameOptionsOfList text nodes) = Node.heaviest of nodes
  | [] => rfl
  | node :: nodes => by
    rw [nameOptionsOfList, Node.heaviest, Node.heaviest, weight_nameOptions text node,
      heaviest_nameOptionsOfList text nodes]

end

theorem read_children (d : Dialect) (text : String) :
    (read d text).root.children =
      (ofTokens text.utf8ByteSize (tokenize d text)).root.children.map (nameOptions text.toList) :=
  nameOptions_children text.toList _

theorem ofTokens_ordered {tokens : List Token} (ordered : InOrder 0 size tokens) :
    (Cursor.ofTokens tokens).Ordered size := by
  cases ordered with
  | finish after => exact .finish after
  | token after nonempty more rest => exact .token after nonempty more rest

theorem tokens_ofTokens {tokens : List Token} (some : tokens ≠ []) :
    (Cursor.ofTokens tokens).tokens = tokens := by
  cases tokens with
  | nil => exact absurd rfl some
  | cons token rest => rfl

/-- The statements of a text, with the cursor before its first token. -/
theorem tokenize_reads (d : Dialect) (text : String) :
    let script := ofTokens text.utf8ByteSize (tokenize d text)
    (Cursor.ofTokens (tokenize d text)).Ordered text.utf8ByteSize ∧
      Reads text.utf8ByteSize (.ofTokens (tokenize d text)) script.root.children script.errors := by
  have tokens := tokenize_inOrder d text
  have ordered := ofTokens_ordered tokens
  refine ⟨ordered, statements_reads ((tokenize d text).length + 1) _ ordered ?_⟩
  cases same : tokenize d text with
  | nil =>
      rw [same] at tokens
      cases tokens
  | cons token rest =>
      simp only [Cursor.ofTokens, List.length_cons]
      omega

theorem read_nested (d : Dialect) (text : String) : (read d text).root.Nested := by
  obtain ⟨ordered, reads⟩ := tokenize_reads d text
  have row := reads_row reads ordered
  exact nameOptions_nested text.toList _ (row_widen (Nat.zero_le _) (Nat.le_refl _) row)

end Script
end SqlAudit
