import SqlAudit.Proofs.Grammar.Refusal
/-!
How deep a reading is at each place that it comes to. A level is entered for each expression and
each query around the place, and left again behind it, so what was read before the place does not
count: the depth there is the depth at the start and the levels entered. What is refused as too deep
is where the levels that are left come to an end.
-/
namespace SqlAudit

namespace Grammar

/-- By the first grammar, a reading from the first cursor comes to the second grammar at the second
one, so many levels further in. -/
inductive Meets (rules : Nonterminal → Grammar) :
    Grammar → Frame → Cursor → Nat → Grammar → Frame → Cursor → Prop
  | here {a : Grammar} {f : Frame} {c : Cursor} : Meets rules a f c 0 a f c
  | first {a b t : Grammar} {f g : Frame} {c d : Cursor} {n : Nat}
      (one : Meets rules a f c n t g d) : Meets rules (.seq a b) f c n t g d
  | second {a b t : Grammar} {f g h : Frame} {c d e : Cursor} {n : Nat}
      (first : Derives rules a f c g d) (later : Meets rules b g d n t h e) :
      Meets rules (.seq a b) f c n t h e
  | yes {test : Test} {a b t : Grammar} {f g : Frame} {c d : Cursor} {n : Nat}
      (holds : test.holds f c = true) (taken : Meets rules a f c n t g d) :
      Meets rules (.branch test a b) f c n t g d
  | no {test : Test} {a b t : Grammar} {f g : Frame} {c d : Cursor} {n : Nat}
      (fails : test.holds f c = false) (taken : Meets rules b f c n t g d) :
      Meets rules (.branch test a b) f c n t g d
  | round {test : Test} {a t : Grammar} {f g : Frame} {c d : Cursor} {n : Nat}
      (holds : test.holds f c = true) (once : Meets rules a f c n t g d) :
      Meets rules (.loop test a) f c n t g d
  | again {test : Test} {a t : Grammar} {f g h : Frame} {c d e : Cursor} {n : Nat}
      (holds : test.holds f c = true) (once : Derives rules a f c g d)
      (later : Meets rules (.loop test a) g d n t h e) : Meets rules (.loop test a) f c n t h e
  | node {kind : NodeKind} {a t : Grammar} {f g : Frame} {c d : Cursor} {n : Nat}
      (inner : Meets rules a (.opened kind c) c n t g d) : Meets rules (.node kind a) f c n t g d
  | wrap {kind : NodeKind} {a t : Grammar} {f g : Frame} {c d : Cursor} {n : Nat}
      (inner : Meets rules a (f.wrapLast kind c).1 c n t g d) :
      Meets rules (.wrap kind a) f c n t g d
  | discard {a t : Grammar} {f g : Frame} {c d : Cursor} {n : Nat}
      (inner : Meets rules a (.opened none c) c n t g d) : Meets rules (.discard a) f c n t g d
  | deeper {a t : Grammar} {f g : Frame} {c d : Cursor} {n : Nat} (shallow : c.depth < maxDepth)
      (inner : Meets rules a f { c with depth := c.depth + 1 } n t g d) :
      Meets rules (.deeper a) f c (n + 1) t g d
  | call {name : Nonterminal} {t : Grammar} {f g : Frame} {c d : Cursor} {n : Nat}
      (ruled : Meets rules (rules name) f c n t g d) : Meets rules (.call name) f c n t g d

variable {rules : Nonterminal → Grammar} {a b : Grammar} {f g : Frame} {c d e : Cursor} {n : Nat}
  {error : SyntaxError}

/-- What is derived on the way leaves the depth as it was, so only what is open counts. -/
theorem Meets.depth (meets : Meets rules a f c n b g d) :
    d.depth = c.depth + n ∧ (n = 0 ∨ d.depth ≤ maxDepth) := by
  induction meets with
  | here => exact ⟨rfl, .inl rfl⟩
  | second first later ih => rwa [first.depth] at ih
  | again holds once later ih => rwa [once.depth] at ih
  | deeper shallow inner ih =>
      obtain ⟨level, limit⟩ := ih
      dsimp only at level
      omega
  | first one ih => exact ih
  | yes holds taken ih => exact ih
  | no fails taken ih => exact ih
  | round holds once ih => exact ih
  | node inner ih => exact ih
  | wrap inner ih => exact ih
  | discard inner ih => exact ih
  | call ruled ih => exact ih

/-- An error at a place that a reading comes to breaks all of it off. -/
theorem Meets.refuses (meets : Meets rules a f c n b g d) (refuses : Refuses rules b g d error e) :
    Refuses rules a f c error e := by
  induction meets with
  | here => exact refuses
  | first one ih => exact .first (ih refuses)
  | second first later ih => exact .second first (ih refuses)
  | yes holds taken ih => exact .yes holds (ih refuses)
  | no fails taken ih => exact .no fails (ih refuses)
  | round holds once ih => exact .round holds (ih refuses)
  | again holds once later ih => exact .again holds once (ih refuses)
  | node inner ih => exact .node (ih refuses)
  | wrap inner ih => exact .wrap (ih refuses)
  | discard inner ih => exact .discard (ih refuses)
  | deeper shallow inner ih => exact .deeper shallow (ih refuses)
  | call ruled ih => exact .call (ih refuses)

/-- A reading comes to an expression or a query where no level is left, which is its error. -/
def RunsOut (rules : Nonterminal → Grammar) (a : Grammar) (f : Frame) (c : Cursor)
    (error : SyntaxError) (e : Cursor) : Prop :=
  ∃ n b g d, Meets rules a f c n (.deeper b) g d ∧ maxDepth ≤ d.depth ∧
    error = ⟨.tooDeep, d.current.span⟩ ∧ e = { d with depth := d.depth + 1 }

theorem RunsOut.around (out : RunsOut rules b g d error e) (levels : Nat)
    (onward : ∀ {n t h k}, Meets rules b g d n t h k → Meets rules a f c (n + levels) t h k) :
    RunsOut rules a f c error e := by
  obtain ⟨n, t, h, k, meets, place⟩ := out
  exact ⟨n + levels, t, h, k, onward meets, place⟩

end Grammar
end SqlAudit
