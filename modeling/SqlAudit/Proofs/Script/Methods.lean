import SqlAudit.Proofs.Grammar.Parents
import SqlAudit.Proofs.Script.Regions
import SqlAudit.Proofs.Tree.Ancestors
/-!
Methods by which something is stored or indexed. Within a table one of its own is named right below
it; any other one there is that of an index which a constraint of the table is checked by.
-/
namespace SqlAudit

namespace Script

open Grammar (methodHolders storedKinds)

variable {size : Nat} {c d : Cursor} {node parent : Node} {dialect : Dialect} {text : String}
  {path : List Nat} {i : Nat}

theorem nameOptions_mayHold {part : NodeKind} {holders : List NodeKind} (text : List Char)
    (holds : node.MayHold part holders) : (nameOptions text node).MayHold part holders := by
  intro child member same
  rw [nameOptions_children] at member
  obtain ⟨original, inside, rfl⟩ := List.mem_map.mp member
  rw [nameOptions_kind] at same ⊢
  exact holds original inside same

theorem nameOptions_spares {kind : NodeKind} {kinds : List NodeKind} (text : List Char)
    (spares : node.Spares kind kinds) : (nameOptions text node).Spares kind kinds := by
  intro same child member
  rw [nameOptions_kind] at same
  rw [nameOptions_children] at member
  obtain ⟨original, inside, rfl⟩ := List.mem_map.mp member
  refine every_nameOptions text ?_ original (spares same original inside)
  intro part other
  rwa [nameOptions_kind]

theorem read_methods (d : Dialect) (text : String) :
    (read d text).root.Every (Node.MayHold .accessMethod methodHolders) := by
  have statements : ∀ node ∈ (read d text).root.children,
      node.kind ≠ .accessMethod ∧ node.Every (Node.MayHold .accessMethod methodHolders) := by
    intro node member
    rcases read_statement d text node member with
      ⟨span, value, rfl⟩ | ⟨original, c, e, rfl, -, start, read⟩
    · exact ⟨nofun, nofun, trivial⟩
    · obtain ⟨other, every⟩ := read.of_derives fun g derives =>
        Grammar.derives_methods (c := { c with depth := 0 }) start (Nat.zero_le _) derives
      rw [nameOptions_kind]
      exact ⟨other, every_nameOptions text.toList (fun _ => nameOptions_mayHold _) original every⟩
  refine Node.every_iff.mpr ⟨?_, fun node member => (statements node member).2⟩
  exact fun node member same => absurd same (statements node member).1

theorem read_creations (d : Dialect) (text : String) :
    (read d text).root.Every (Node.Spares .createTable storedKinds) := by
  refine Node.every_iff.mpr ⟨nofun, fun node member => ?_⟩
  rcases read_statement d text node member with
    ⟨span, value, rfl⟩ | ⟨original, c, e, rfl, -, start, read⟩
  · exact ⟨nofun, trivial⟩
  · have every := read.of_derives fun g derives =>
      Grammar.derives_creations (c := { c with depth := 0 }) start (Nat.zero_le _) derives
    exact every_nameOptions text.toList (fun _ => nameOptions_spares _) original every

/-- What an access method is of, where it stands in a table. -/
theorem method_within_table (reached : (read dialect text).root.at? path = some parent)
    (child : parent.children[i]? = some node) (method : node.kind = .accessMethod) :
    (∃ table ∈ (read dialect text).root.ancestors (path ++ [i]), table.kind = .createTable) ↔
      parent.kind = .createTable ∨ parent.kind = .tableConstraint ∧
        ∃ table ∈ (read dialect text).root.ancestors path, table.kind = .createTable := by
  have way : (read dialect text).root.ancestors (path ++ [i]) =
      (read dialect text).root.ancestors path ++ [parent] := by
    rw [Node.ancestors_append reached, Node.ancestors, child]
    rfl
  rw [way]
  constructor
  · rintro ⟨table, around, kind⟩
    rcases List.mem_append.mp around with above | here
    · have holder := ((read_methods dialect text).at? reached).here node
        (List.mem_of_getElem? child) method
      obtain ⟨first, second, more, rfl, there⟩ := (Node.mem_ancestors_iff reached).mp above
      have spares := ((read_creations dialect text).at? there).here kind
      have other : parent.kind ∉ storedKinds := by
        obtain ⟨k, second, rfl⟩ := List.exists_cons_of_ne_nil more
        rw [Node.at?_append, there] at reached
        obtain ⟨next, found, reached⟩ := Node.at?_cons.mp reached
        exact ((spares next (List.mem_of_getElem? found)).at? reached).here
      have constraint := (List.mem_append.mp holder).resolve_left other
      exact .inr ⟨List.mem_singleton.mp constraint, table, above, kind⟩
    · cases List.mem_singleton.mp here
      exact .inl kind
  · rintro (own | ⟨-, table, above, kind⟩)
    · exact ⟨parent, by simp, own⟩
    · exact ⟨table, List.mem_append_left _ above, kind⟩

end Script
end SqlAudit
