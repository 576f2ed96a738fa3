import Mathlib.Data.List.Infix
import SqlAudit.Rule.Basic
/-!
Templates of messages, piece by piece. A placeholder starts with a brace that it does not hold
again, so no two of them overlap: a template falls into placeholders and plain characters in one way
only, and the occurrences of one placeholder, found from left to right, are its pieces.
-/
namespace SqlAudit

/-- What a message can leave to be filled in. -/
inductive Placeholder where
  | value
  | kind
  | detail
  deriving DecidableEq, Repr

namespace Placeholder

def all : List Placeholder := [value, kind, detail]

def label : Placeholder → List Char
  | value => ['v', 'a', 'l', 'u', 'e']
  | kind => ['k', 'i', 'n', 'd']
  | detail => ['d', 'e', 't', 'a', 'i', 'l']

/-- The label in braces. -/
def spelling (p : Placeholder) : List Char := '\x7b' :: (p.label ++ ['\x7d'])

/-- The placeholder that a text starts with. -/
def opening? (text : List Char) : Option Placeholder :=
  all.find? fun p => p.spelling.isPrefixOf text

variable {p q : Placeholder} {text : List Char}

theorem spelling_ne_nil : p.spelling ≠ [] := by simp [spelling]

theorem eq_of_start (short : p.spelling <+: q.spelling) : p = q := by
  revert short
  cases p <;> cases q <;> decide

theorem eq_of_starts (first : p.spelling <+: text) (second : q.spelling <+: text) : p = q := by
  rcases List.prefix_or_prefix_of_prefix first second with short | short
  · exact eq_of_start short
  · exact (eq_of_start short).symm

theorem opening?_eq_some_iff : opening? text = some p ↔ p.spelling <+: text := by
  constructor
  · intro found
    simpa using List.find?_some found
  · intro starts
    cases found : opening? text with
    | none =>
        have member : p ∈ all := by cases p <;> decide
        have absent := List.find?_eq_none.mp found p member
        simp [starts] at absent
    | some q =>
        have other : q.spelling <+: text := by simpa using List.find?_some found
        rw [eq_of_starts starts other]

theorem opening?_eq_none_iff : opening? text = none ↔ ∀ p : Placeholder, ¬ p.spelling <+: text := by
  rw [Option.eq_none_iff_forall_ne_some]
  simp only [ne_eq, opening?_eq_some_iff]

/-- After its first character a placeholder has no opening brace. -/
theorem brace_not_mem {front back : List Char} (split : p.spelling = front ++ back)
    (inside : front ≠ []) : '\x7b' ∉ back := by
  have tail : '\x7b' ∉ p.label ++ ['\x7d'] := by cases p <;> decide
  cases front with
  | nil => exact absurd rfl inside
  | cons c front =>
      have rest : p.label ++ ['\x7d'] = front ++ back := (List.cons.inj split).2
      intro member
      exact tail (rest ▸ List.mem_append_right front member)

/-- Whatever is left of a placeholder has its closing brace. -/
theorem brace_mem {front back : List Char} (split : p.spelling = front ++ back)
    (some : back ≠ []) : '\x7d' ∈ back := by
  have last := congrArg List.getLast? split
  rw [List.getLast?_append_of_ne_nil _ some, spelling, ← List.cons_append,
    List.getLast?_concat] at last
  exact List.mem_of_getLast? last.symm

end Placeholder

/-- A part of a template. -/
inductive TemplatePiece where
  | plain (c : Char)
  | place (p : Placeholder)
  deriving DecidableEq, Repr

namespace TemplatePiece

def text : TemplatePiece → List Char
  | plain c => [c]
  | place p => p.spelling

/-- The pieces of a text from left to right; `skip` characters of a placeholder are still to be
passed. -/
def after (skip : Nat) : List Char → List TemplatePiece
  | [] => []
  | c :: rest =>
    match skip with
    | skip + 1 => after skip rest
    | 0 =>
      match Placeholder.opening? (c :: rest) with
      | some p => place p :: after (p.spelling.length - 1) rest
      | none => plain c :: after 0 rest

def all (text : List Char) : List TemplatePiece := after 0 text

theorem after_eq_drop (skip : Nat) (text : List Char) : after skip text = all (text.drop skip) := by
  induction text generalizing skip with
  | nil => simp [all, after]
  | cons c rest ih =>
      cases skip with
      | zero => rfl
      | succ skip => exact ih skip

@[simp] theorem all_nil : all [] = [] := rfl

@[simp] theorem all_place (p : Placeholder) (rest : List Char) :
    all (p.spelling ++ rest) = place p :: all rest := by
  have starts : Placeholder.opening? (p.spelling ++ rest) = some p :=
    Placeholder.opening?_eq_some_iff.mpr (List.prefix_append ..)
  rw [Placeholder.spelling, List.cons_append] at starts ⊢
  rw [all, after, starts]
  simp only [after_eq_drop, Placeholder.spelling, List.length_cons, Nat.add_sub_cancel,
    List.drop_left]

theorem all_plain {c : Char} {rest : List Char}
    (plainly : ∀ p : Placeholder, ¬ p.spelling <+: c :: rest) :
    all (c :: rest) = plain c :: all rest := by
  rw [all, after, Placeholder.opening?_eq_none_iff.mpr plainly]
  rfl

/-- A text is empty, or starts with a placeholder, or with a character that starts none. -/
theorem induct {motive : List Char → Prop} (nil : motive [])
    (place : ∀ (p : Placeholder) rest, motive rest → motive (p.spelling ++ rest))
    (plain : ∀ c rest, (∀ p : Placeholder, ¬ p.spelling <+: c :: rest) → motive rest →
      motive (c :: rest)) (text : List Char) : motive text := by
  induction size : text.length using Nat.strongRecOn generalizing text with
  | ind n ih =>
      cases text with
      | nil => exact nil
      | cons c rest =>
          rw [List.length_cons] at size
          cases opens : Placeholder.opening? (c :: rest) with
          | none =>
              exact plain c rest (Placeholder.opening?_eq_none_iff.mp opens)
                (ih rest.length (by omega) rest rfl)
          | some p =>
              obtain ⟨later, split⟩ := Placeholder.opening?_eq_some_iff.mp opens
              have shorter := congrArg List.length split
              rw [List.length_append, List.length_cons] at shorter
              have pos := List.length_pos_iff.mpr (Placeholder.spelling_ne_nil (p := p))
              rw [← split]
              exact place p later (ih later.length (by omega) later rfl)

/-- Written out again, the pieces are the text. -/
theorem flatMap_text (t : List Char) : (all t).flatMap text = t := by
  induction t using induct with
  | nil => rfl
  | place p rest ih => rw [all_place, List.flatMap_cons, ih, text]
  | plain c rest plainly ih => rw [all_plain plainly, List.flatMap_cons, ih, text, List.cons_append,
      List.nil_append]

/-- No placeholder that starts before this text ends in it. -/
def Apart (t : List Char) : Prop :=
  ∀ (p : Placeholder) front back, p.spelling = front ++ back → front ≠ [] → back ≠ [] → ¬ back <+: t

/-- A placeholder that starts a text starts its first part, or reaches into the second one. -/
theorem prefix_append_cases {p second : List Char} (first : List Char)
    (starts : p <+: first ++ second) :
    p <+: first ∨ ∃ back, p = first ++ back ∧ back ≠ [] ∧ back <+: second := by
  rcases List.prefix_or_prefix_of_prefix starts (List.prefix_append first second)
    with within | reaches
  · exact .inl within
  · obtain ⟨back, rfl⟩ := reaches
    by_cases empty : back = []
    · exact .inl (by simp [empty])
    · exact .inr ⟨back, rfl, empty, (List.prefix_append_right_inj first).mp starts⟩

theorem Apart.all_append {second : List Char} (apart : Apart second) (first : List Char) :
    all (first ++ second) = all first ++ all second := by
  induction first using induct with
  | nil => rfl
  | place p rest ih => rw [List.append_assoc, all_place, all_place, ih, List.cons_append]
  | plain c rest plainly ih =>
      have still : ∀ p : Placeholder, ¬ p.spelling <+: c :: (rest ++ second) := by
        intro p starts
        rcases prefix_append_cases (c :: rest) starts with within | ⟨back, split, some, reaches⟩
        · exact plainly p within
        · exact apart p (c :: rest) back split (by simp) some reaches
      rw [List.cons_append, all_plain still, all_plain plainly, ih, List.cons_append]

theorem apart_place (p : Placeholder) (rest : List Char) : Apart (p.spelling ++ rest) := by
  intro q front back split inside some reaches
  have none := Placeholder.brace_not_mem split inside
  cases back with
  | nil => exact some rfl
  | cons c back =>
      have brace : c = '\x7b' := (List.cons_prefix_cons.mp reaches).1
      simp [brace] at none

/-- A text that neither holds a brace nor lies in a placeholder. -/
structure Inert (t : List Char) : Prop where
  opening : '\x7b' ∉ t
  closing : '\x7d' ∉ t
  outside : ∀ p : Placeholder, ¬ t <:+: p.spelling

theorem Inert.apart {t : List Char} (inert : Inert t) (rest : List Char) : Apart (t ++ rest) := by
  intro p front back split inside some reaches
  rcases prefix_append_cases t reaches with within | ⟨later, rfl, -, -⟩
  · exact inert.closing (within.subset (Placeholder.brace_mem split some))
  · exact inert.outside p ⟨front, later, by rw [split, List.append_assoc]⟩

/-- Without an opening brace there is no placeholder. -/
theorem all_append_of_not_mem {t : List Char} (none : '\x7b' ∉ t) (rest : List Char) :
    all (t ++ rest) = t.map plain ++ all rest := by
  induction t with
  | nil => rfl
  | cons c t ih =>
      rw [List.mem_cons, not_or] at none
      have plainly : ∀ p : Placeholder, ¬ p.spelling <+: c :: (t ++ rest) := by
        intro p starts
        exact none.1 (List.cons_prefix_cons.mp starts).1
      rw [List.cons_append, all_plain plainly, ih none.2, List.map_cons, List.cons_append]

/-- A piece with placeholders filled in. -/
def fill (fills : Placeholder → List Char) : TemplatePiece → List Char
  | plain c => [c]
  | place p => fills p

variable {fills : Placeholder → List Char}

/-- Filled in so that nothing reaches from before into what is filled in, a template gets no further
placeholder: what would be the rest of one has been it before. -/
theorem prefix_of_filled (apart : ∀ p rest, Apart (fills p ++ rest)) {p : Placeholder}
    {front back t : List Char} (split : p.spelling = front ++ back) (inside : front ≠ [])
    (reaches : back <+: (all t).flatMap (fill fills)) : back <+: t := by
  induction t using induct generalizing front back with
  | nil => exact reaches
  | place q rest ih =>
      by_cases empty : back = []
      · rw [empty]
        exact List.nil_prefix
      · rw [all_place, List.flatMap_cons] at reaches
        exact absurd reaches (apart q _ p front back split inside empty)
  | plain c rest plainly ih =>
      cases back with
      | nil => exact List.nil_prefix
      | cons b back =>
          rw [all_plain plainly, List.flatMap_cons] at reaches
          obtain ⟨rfl, later⟩ := List.cons_prefix_cons.mp reaches
          have goes : p.spelling = (front ++ [b]) ++ back := by rw [split, List.append_assoc]; rfl
          exact List.cons_prefix_cons.mpr ⟨rfl, ih goes (by simp) later⟩

/-- The pieces of a template that is filled in so are those of what it is filled with. -/
theorem all_filled {pieces : Placeholder → List TemplatePiece}
    (apart : ∀ p rest, Apart (fills p ++ rest))
    (each : ∀ p rest, all (fills p ++ rest) = pieces p ++ all rest) (t : List Char) :
    all ((all t).flatMap (fill fills)) = (all t).flatMap fun piece =>
      match piece with
      | plain c => [plain c]
      | place p => pieces p := by
  induction t using induct with
  | nil => rfl
  | place p rest ih =>
      rw [all_place, List.flatMap_cons, List.flatMap_cons, ← ih]
      exact each p _
  | plain c rest plainly ih =>
      have still : ∀ p : Placeholder, ¬ p.spelling <+: c :: (all rest).flatMap (fill fills) := by
        intro p starts
        obtain ⟨rfl, reaches⟩ := List.cons_prefix_cons.mp starts
        have split : p.spelling = ['\x7b'] ++ (p.label ++ ['\x7d']) := rfl
        have within : p.label ++ ['\x7d'] <+: rest :=
          prefix_of_filled apart split (by simp) reaches
        exact plainly p (List.cons_prefix_cons.mpr ⟨rfl, within⟩)
      rw [all_plain plainly, List.flatMap_cons, List.flatMap_cons, ← ih]
      exact all_plain still

end TemplatePiece
end SqlAudit
