import SqlAudit.Grammar.Expression
import SqlAudit.Tree.Node
/-!
Formulas of operands and infix operators. A row of operands and operators can be grouped in one way
only so that tighter operators stand below looser ones and those of one level group to the left.
-/
namespace SqlAudit

namespace Grammar

/-- Words that are no column where an operand can stand. -/
def operandWords : List String := ["ARRAY", "SYMMETRIC"]

end Grammar

namespace Lexeme

/-- A column without a qualifier, or a number. -/
def IsOperand : Lexeme → Prop
  | .word text => Text.capitals text ∉ Grammar.operandWords
  | .number _ => True
  | _ => False

/-- An operator of one token that stands between two operands. -/
def IsBinary : Lexeme → Prop
  | .symbol s => s.infixPower?.isSome
  | .operator _ => True
  | .keyword k => k ∈ [.OR, .AND, .LIKE, .ILIKE]
  | _ => False

instance : DecidablePred IsOperand
  | .word text => inferInstanceAs (Decidable (Text.capitals text ∉ Grammar.operandWords))
  | .number _ => isTrue trivial
  | .string _ | .bits _ | .quoted _ | .keyword _ | .parameter _ | .symbol _ | .operator _
  | .finish | .invalid _ => isFalse id

instance : DecidablePred IsBinary
  | .symbol s => inferInstanceAs (Decidable (s.infixPower?.isSome = true))
  | .operator _ => isTrue trivial
  | .keyword k => inferInstanceAs (Decidable (k ∈ [Keyword.OR, .AND, .LIKE, .ILIKE]))
  | .number _ | .string _ | .bits _ | .word _ | .quoted _ | .parameter _ | .finish
  | .invalid _ => isFalse id

end Lexeme

def Operand : Type := { lexeme : Lexeme // lexeme.IsOperand }

def Operator : Type := { lexeme : Lexeme // lexeme.IsBinary }

namespace Operand

/-- The node of an operand, without its place. -/
def node (a : Operand) : Node :=
  match a.val with
  | .word text => .leaf .columnRef ⟨0, 0⟩ (Text.lowercase text)
  | lexeme => .leaf .literal ⟨0, 0⟩ lexeme.text

theorem node_children (a : Operand) : a.node.children = [] := by
  unfold node
  split <;> rfl

end Operand

namespace Operator

theorem infixPower_isSome (op : Operator) : op.val.infixPower?.isSome := by
  obtain ⟨lexeme, binary⟩ := op
  cases lexeme with
  | symbol s => exact binary
  | operator text => rfl
  | keyword k =>
      have member : k ∈ [Keyword.OR, .AND, .LIKE, .ILIKE] := binary
      simp only [List.mem_cons, List.not_mem_nil, or_false] at member
      obtain rfl | rfl | rfl | rfl := member <;> rfl
  | _ => exact binary.elim

def power (op : Operator) : Nat := op.val.infixPower?.get op.infixPower_isSome

theorem infixPower_eq (op : Operator) : op.val.infixPower? = some op.power :=
  (Option.some_get op.infixPower_isSome).symm

end Operator

/-- The power of BETWEEN. -/
def Binding.comparison : Nat := 5

/-- The words before the lower bound of a range. -/
def betweenWords (denied : Bool) : List Lexeme :=
  if denied then [.keyword .NOT, .keyword .BETWEEN] else [.keyword .BETWEEN]

/-- Operands under the operators that join them. A range has its lower bound between BETWEEN and
AND, which are one operator together. -/
inductive Formula where
  | operand (a : Operand)
  | binary (left : Formula) (op : Operator) (right : Formula)
  | between (left : Formula) (denied : Bool) (low right : Formula)

namespace Formula

/-- The formula read from left to right. -/
def lexemes : Formula → List Lexeme
  | operand a => [a.val]
  | binary left op right => left.lexemes ++ op.val :: right.lexemes
  | between left denied low right =>
    left.lexemes ++ betweenWords denied ++ low.lexemes ++ .keyword .AND :: right.lexemes

/-- The powers of the operators from left to right, without those in the lower bound of a range. -/
def powers : Formula → List Nat
  | operand _ => []
  | binary left op right => left.powers ++ op.power :: right.powers
  | between left _ _ right => left.powers ++ Binding.comparison :: right.powers

/-- The operators on the left of an operator bind at least as tightly as it does, those on its right
more tightly. -/
def Grouped : Formula → Prop
  | operand _ => True
  | binary left op right =>
    left.Grouped ∧ right.Grouped ∧
      (∀ power ∈ left.powers, op.power ≤ power) ∧ ∀ power ∈ right.powers, op.power < power
  | between left _ low right =>
    left.Grouped ∧ low.Grouped ∧ right.Grouped ∧
      (∀ power ∈ left.powers, Binding.comparison ≤ power) ∧
      (∀ power ∈ low.powers, Binding.comparison < power) ∧
      ∀ power ∈ right.powers, Binding.comparison < power

instance decidableGrouped : (t : Formula) → Decidable t.Grouped
  | operand _ => isTrue trivial
  | binary left op right =>
    have := decidableGrouped left
    have := decidableGrouped right
    inferInstanceAs (Decidable (left.Grouped ∧ right.Grouped ∧
      (∀ power ∈ left.powers, op.power ≤ power) ∧ ∀ power ∈ right.powers, op.power < power))
  | between left _ low right =>
    have := decidableGrouped left
    have := decidableGrouped low
    have := decidableGrouped right
    inferInstanceAs (Decidable (left.Grouped ∧ low.Grouped ∧ right.Grouped ∧
      (∀ power ∈ left.powers, Binding.comparison ≤ power) ∧
      (∀ power ∈ low.powers, Binding.comparison < power) ∧
      ∀ power ∈ right.powers, Binding.comparison < power))

/-- The tree of a formula, without its places. -/
def node : Formula → Node
  | operand a => a.node
  | binary left op right =>
    ⟨.binaryExpr, ⟨0, 0⟩, some op.val.describe, [left.node, right.node]⟩
  | between left denied low right =>
    ⟨.between, ⟨0, 0⟩, some (if denied then "NOT BETWEEN" else "BETWEEN"),
      [left.node, low.node, right.node]⟩

end Formula

/-- Operands and operators in turn, none of a power below the first one given. Ranges count as
comparisons, and what stands in their lower bounds binds more tightly than these. -/
inductive IsSequence : Nat → List Lexeme → Prop
  | operand {power : Nat} (a : Operand) : IsSequence power [a.val]
  | binary {power : Nat} {lexemes : List Lexeme} (before : IsSequence power lexemes)
      (op : Operator) (tight : power ≤ op.power) (a : Operand) :
      IsSequence power (lexemes ++ [op.val, a.val])
  | between {power : Nat} {lexemes low : List Lexeme} (before : IsSequence power lexemes)
      (tight : power ≤ Binding.comparison) (denied : Bool)
      (bound : IsSequence (Binding.comparison + 1) low) (a : Operand) :
      IsSequence power (lexemes ++ betweenWords denied ++ low ++ [.keyword .AND, a.val])

namespace Formula

/-! A further operator takes the operands to its left that are not bound more tightly. -/

/-- Puts an operator of this power at the right end; `make` gives it its left operand. -/
def graft (power : Nat) (make : Formula → Formula) : Formula → Formula
  | operand a => make (operand a)
  | binary left op right =>
    if power ≤ op.power then make (binary left op right)
    else binary left op (graft power make right)
  | between left denied low right =>
    if power ≤ Binding.comparison then make (between left denied low right)
    else between left denied low (graft power make right)

/-- An operator of this power with all but its left operand; its tokens are `tail`. -/
structure Joins (power : Nat) (tail : List Lexeme) (make : Formula → Formula) : Prop where
  lexemes : ∀ left, (make left).lexemes = left.lexemes ++ tail
  powers : ∀ left, (make left).powers = left.powers ++ [power]
  grouped : ∀ left, left.Grouped → (∀ q ∈ left.powers, power ≤ q) → (make left).Grouped

variable {power : Nat} {tail : List Lexeme} {make : Formula → Formula} {t u : Formula}

theorem joins_binary (op : Operator) (a : Operand) :
    Joins op.power [op.val, a.val] fun left => binary left op (operand a) where
  lexemes left := rfl
  powers left := rfl
  grouped left grouped tight := ⟨grouped, trivial, tight, by simp [Formula.powers]⟩

theorem joins_between (denied : Bool) {low : Formula} (grouped : low.Grouped)
    (above : ∀ q ∈ low.powers, Binding.comparison < q) (a : Operand) :
    Joins Binding.comparison (betweenWords denied ++ low.lexemes ++ [.keyword .AND, a.val])
      fun left => between left denied low (operand a) where
  lexemes left := by simp [Formula.lexemes]
  powers left := rfl
  grouped left leftGrouped tight :=
    ⟨leftGrouped, grouped, trivial, tight, above, by simp [Formula.powers]⟩

namespace Joins

theorem lexemes_graft (joins : Joins power tail make) (t : Formula) :
    (graft power make t).lexemes = t.lexemes ++ tail := by
  fun_induction graft power make t with
  | case1 | case2 | case4 => exact joins.lexemes _
  | case3 left op right _ ih => simp [Formula.lexemes, ih]
  | case5 left denied low right _ ih => simp [Formula.lexemes, ih]

theorem powers_graft (joins : Joins power tail make) (t : Formula) :
    (graft power make t).powers = t.powers ++ [power] := by
  fun_induction graft power make t with
  | case1 | case2 | case4 => exact joins.powers _
  | case3 left op right _ ih => simp [Formula.powers, ih]
  | case5 left denied low right _ ih => simp [Formula.powers, ih]

/-- The topmost of grouped operators binds least tightly. -/
theorem least_of_top {top : Nat} {before after : List Nat} (loose : power ≤ top)
    (first : ∀ q ∈ before, top ≤ q) (second : ∀ q ∈ after, top < q) :
    ∀ q ∈ before ++ top :: after, power ≤ q := by
  intro q member
  obtain member | member := List.mem_append.mp member
  · exact Nat.le_trans loose (first q member)
  · obtain rfl | member := List.mem_cons.mp member
    · exact loose
    · exact Nat.le_trans loose (Nat.le_of_lt (second q member))

/-- Where the operator takes the whole formula, all operators in this bind as tightly as the topmost
one; where it takes less, it binds more tightly than that one. -/
theorem grouped_graft (joins : Joins power tail make) (grouped : t.Grouped) :
    (graft power make t).Grouped := by
  fun_induction graft power make t with
  | case1 a => exact joins.grouped _ grouped (by simp [Formula.powers])
  | case2 left op right loose =>
      obtain ⟨-, -, before, after⟩ := id grouped
      exact joins.grouped _ grouped (least_of_top loose before after)
  | case3 left op right tight ih =>
      obtain ⟨leftGrouped, rightGrouped, before, after⟩ := grouped
      refine ⟨leftGrouped, ih rightGrouped, before, fun q member => ?_⟩
      rw [joins.powers_graft, List.mem_append, List.mem_singleton] at member
      obtain member | rfl := member
      · exact after q member
      · exact Nat.lt_of_not_le tight
  | case4 left denied low right loose =>
      obtain ⟨-, -, -, before, -, after⟩ := id grouped
      exact joins.grouped _ grouped (least_of_top loose before after)
  | case5 left denied low right tight ih =>
      obtain ⟨leftGrouped, lowGrouped, rightGrouped, before, within, after⟩ := grouped
      refine ⟨leftGrouped, lowGrouped, ih rightGrouped, before, within, fun q member => ?_⟩
      rw [joins.powers_graft, List.mem_append, List.mem_singleton] at member
      obtain member | rfl := member
      · exact after q member
      · exact Nat.lt_of_not_le tight

end Joins

/-- Every sequence of operands and operators can be grouped. -/
theorem exists_grouped {lexemes : List Lexeme} (sequence : IsSequence power lexemes) :
    ∃ t : Formula, t.Grouped ∧ t.lexemes = lexemes ∧ ∀ q ∈ t.powers, power ≤ q := by
  induction sequence with
  | operand a => exact ⟨operand a, trivial, rfl, by simp [powers]⟩
  | binary before op tight a ih =>
      obtain ⟨t, grouped, rfl, above⟩ := ih
      have joins := joins_binary op a
      refine ⟨_, joins.grouped_graft grouped, joins.lexemes_graft t, ?_⟩
      simpa [joins.powers_graft, or_imp, forall_and, tight] using above
  | between before tight denied bound a ih ihLow =>
      obtain ⟨t, grouped, rfl, above⟩ := ih
      obtain ⟨low, lowGrouped, rfl, aboveLow⟩ := ihLow
      have joins := joins_between denied lowGrouped aboveLow a
      refine ⟨_, joins.grouped_graft grouped, ?_, ?_⟩
      · simp [joins.lexemes_graft]
      · simpa [joins.powers_graft, or_imp, forall_and, tight] using above

/-! The tree of a formula and its tokens tell the formula. -/

theorem denied_eq {left low right left' low' right' : Formula} {denied denied' : Bool}
    (same : (between left denied low right).node = (between left' denied' low' right').node) :
    denied = denied' := by
  have words := congrArg Node.value same
  revert words
  cases denied <;> cases denied' <;> simp [node]

theorem length_eq_of_node (same : t.node = u.node) : t.lexemes.length = u.lexemes.length := by
  have parts := congrArg Node.children same
  induction t generalizing u with
  | operand a =>
      cases u with
      | operand b => rfl
      | binary | between => simp [node, Operand.node_children] at parts
  | binary left op right ihLeft ihRight =>
      cases u with
      | operand | between => simp [node, Operand.node_children] at parts
      | binary left' op' right' =>
          simp only [node, List.cons.injEq, and_true] at parts
          have first := ihLeft parts.1 (congrArg Node.children parts.1)
          have second := ihRight parts.2 (congrArg Node.children parts.2)
          simp [lexemes, first, second]
  | between left denied low right ihLeft ihLow ihRight =>
      cases u with
      | operand | binary => simp [node, Operand.node_children] at parts
      | between left' denied' low' right' =>
          simp only [node, List.cons.injEq, and_true] at parts
          obtain ⟨atLeft, atLow, atRight⟩ := parts
          have first := ihLeft atLeft (congrArg Node.children atLeft)
          have second := ihLow atLow (congrArg Node.children atLow)
          have third := ihRight atRight (congrArg Node.children atRight)
          simp [lexemes, denied_eq same, first, second, third]

theorem eq_of_node (same : t.node = u.node) (tokens : t.lexemes = u.lexemes) : t = u := by
  have parts := congrArg Node.children same
  induction t generalizing u with
  | operand a =>
      cases u with
      | operand b =>
          simp only [lexemes, List.cons.injEq, and_true] at tokens
          rw [Subtype.ext tokens]
      | binary | between => simp [node, Operand.node_children] at parts
  | binary left op right ihLeft ihRight =>
      cases u with
      | operand | between => simp [node, Operand.node_children] at parts
      | binary left' op' right' =>
          simp only [node, List.cons.injEq, and_true] at parts
          obtain ⟨atLeft, atRight⟩ := parts
          obtain ⟨first, others⟩ := List.append_inj tokens (length_eq_of_node atLeft)
          obtain ⟨operator, second⟩ := List.cons.inj others
          rw [ihLeft atLeft first (congrArg Node.children atLeft), Subtype.ext operator,
            ihRight atRight second (congrArg Node.children atRight)]
  | between left denied low right ihLeft ihLow ihRight =>
      cases u with
      | operand | binary => simp [node, Operand.node_children] at parts
      | between left' denied' low' right' =>
          simp only [node, List.cons.injEq, and_true] at parts
          obtain ⟨atLeft, atLow, atRight⟩ := parts
          obtain rfl := denied_eq same
          simp only [lexemes, List.append_assoc] at tokens
          obtain ⟨first, others⟩ := List.append_inj tokens (length_eq_of_node atLeft)
          have others := List.append_cancel_left others
          obtain ⟨second, others⟩ := List.append_inj others (length_eq_of_node atLow)
          obtain ⟨-, third⟩ := List.cons.inj others
          rw [ihLeft atLeft first (congrArg Node.children atLeft),
            ihLow atLow second (congrArg Node.children atLow),
            ihRight atRight third (congrArg Node.children atRight)]

end Formula
end SqlAudit
