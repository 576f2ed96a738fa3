import SqlAudit.Proofs.Catalog.Index
import SqlAudit.Proofs.Rule.Template
import SqlAudit.Script
/-!
Messages as they are rendered, against one pass over their template. Filling in the placeholders one
after the other comes to filling in the value first, and then the kind and the detail at once in
what that gives: a detail is copied as it is, but a value is read as template once more. The two
differ exactly where a value brings in a placeholder or completes one.
-/
namespace SqlAudit

namespace Text

variable {word value : List Char}

theorem substituteFrom_skip (skip : Nat) (text : List Char) :
    substituteFrom word value skip text = substituteFrom word value 0 (text.drop skip) := by
  induction text generalizing skip with
  | nil => simp [substituteFrom]
  | cons c rest ih =>
      cases skip with
      | zero => rfl
      | succ skip => exact ih skip

theorem substituteFrom_word (some : word ≠ []) (rest : List Char) :
    substituteFrom word value 0 (word ++ rest) = value ++ substituteFrom word value 0 rest := by
  cases word with
  | nil => exact absurd rfl some
  | cons c word =>
      have starts : (c :: word).isPrefixOf (c :: (word ++ rest)) = true := by
        simp [List.isPrefixOf_iff_prefix]
      rw [List.cons_append, substituteFrom, if_pos starts, substituteFrom_skip, List.length_cons,
        Nat.add_sub_cancel, List.drop_left]

theorem substituteFrom_cons {c : Char} {rest : List Char} (other : ¬ word <+: c :: rest) :
    substituteFrom word value 0 (c :: rest) = c :: substituteFrom word value 0 rest := by
  rw [substituteFrom, if_neg (by rwa [List.isPrefixOf_iff_prefix])]

/-- Where the word does not start it is not replaced. -/
theorem substituteFrom_append {first : Char} {word : List Char} {text : List Char}
    (none : first ∉ text) (rest : List Char) :
    substituteFrom (first :: word) value 0 (text ++ rest) =
      text ++ substituteFrom (first :: word) value 0 rest := by
  induction text with
  | nil => rfl
  | cons c text ih =>
      rw [List.mem_cons, not_or] at none
      have other : ¬ first :: word <+: c :: (text ++ rest) := by
        intro starts
        exact none.1 (List.cons_prefix_cons.mp starts).1
      rw [List.cons_append, substituteFrom_cons other, ih none.2, List.cons_append]

theorem substituteFrom_of_not_mem {first : Char} {word text : List Char} (none : first ∉ text) :
    substituteFrom (first :: word) value 0 text = text := by
  have copied : substituteFrom (first :: word) value 0 (text ++ []) = _ :=
    substituteFrom_append none []
  simpa [substituteFrom] using copied

end Text

namespace TemplatePiece

variable {value kind detail : List Char}

/-- One placeholder is filled in, the others are left. -/
def only (p : Placeholder) (text : List Char) (q : Placeholder) : List Char :=
  if q = p then text else q.spelling

/-- The kind and the detail are filled in. -/
def later (kind detail : List Char) : Placeholder → List Char
  | .value => Placeholder.value.spelling
  | .kind => kind
  | .detail => detail

/-- All placeholders are filled in. -/
def every (value kind detail : List Char) : Placeholder → List Char
  | .value => value
  | .kind => kind
  | .detail => detail

/-- The occurrences that are replaced are the pieces of that placeholder. -/
theorem substituteFrom_eq (p : Placeholder) (text t : List Char) :
    Text.substituteFrom p.spelling text 0 t = (all t).flatMap (fill (only p text)) := by
  induction t using induct with
  | nil => rfl
  | place q rest ih =>
      rw [all_place, List.flatMap_cons, ← ih, fill, only]
      by_cases same : q = p
      · rw [if_pos same, same, Text.substituteFrom_word Placeholder.spelling_ne_nil]
      · rw [if_neg same]
        have missing : ¬ p.spelling <+: q.spelling ++ rest := by
          intro starts
          exact same (Placeholder.eq_of_starts (List.prefix_append ..) starts)
        have closed : '\x7b' ∉ q.label ++ ['\x7d'] :=
          Placeholder.brace_not_mem (show q.spelling = ['\x7b'] ++ _ from rfl) (by simp)
        rw [Placeholder.spelling.eq_def q, List.cons_append] at missing ⊢
        rw [Text.substituteFrom_cons missing, Placeholder.spelling.eq_def p,
          Text.substituteFrom_append closed, List.cons_append]
  | plain c rest plainly ih =>
      rw [all_plain plainly, List.flatMap_cons, ← ih, Text.substituteFrom_cons (plainly p)]
      rfl

/-- The kind first and then the detail is both at once, as no kind lies in a placeholder. -/
theorem later_eq (inert : Inert kind) (detail t : List Char) :
    (all ((all t).flatMap (fill (only .kind kind)))).flatMap (fill (only .detail detail)) =
      (all t).flatMap (fill (later kind detail)) := by
  have apart : ∀ p rest, Apart (only .kind kind p ++ rest) := by
    intro p rest
    rw [only]
    split
    · exact inert.apart rest
    · exact apart_place p rest
  have each : ∀ p rest, all (only .kind kind p ++ rest) =
      (if p = .kind then kind.map plain else [place p]) ++ all rest := by
    intro p rest
    rw [only]
    split
    · exact all_append_of_not_mem inert.opening rest
    · exact all_place p rest
  have copied : (kind.map plain).flatMap (fill (only .detail detail)) = kind := by
    rw [List.flatMap_map]
    exact List.flatMap_singleton' kind
  rw [all_filled apart each, List.flatMap_assoc]
  congr 1
  funext piece
  cases piece with
  | plain c => rfl
  | place p => cases p <;> simp [copied, fill, only, later]

/-- The piece is left when the value is filled in. -/
def isLater : TemplatePiece → Bool
  | plain _ => false
  | place p => p ≠ .value

/-- The placeholders of a text for its kind and its detail. -/
def countLater (t : List Char) : Nat := (all t).countP isLater

theorem fill_of_not_later {piece : TemplatePiece} (now : isLater piece = false) :
    fill (later kind detail) piece = piece.text := by
  cases piece with
  | plain c => rfl
  | place p => cases p <;> simp_all [isLater, fill, later, text]

theorem filled_of_none {t : List Char} (none : countLater t = 0) :
    (all t).flatMap (fill (later kind detail)) = t := by
  have now := List.countP_eq_zero.mp none
  calc (all t).flatMap (fill (later kind detail))
      = (all t).flatMap text :=
        List.flatMap_congr fun piece member => fill_of_not_later (by simpa using now piece member)
    _ = t := flatMap_text t

/-- A placeholder is read as one wherever it stands. -/
theorem all_around (p : Placeholder) (before rest : List Char) :
    all (before ++ (p.spelling ++ rest)) = all before ++ place p :: all rest := by
  rw [(apart_place p rest).all_append, all_place]

theorem countLater_around {p : Placeholder} (other : p ≠ .value) (before rest : List Char) :
    countLater (before ++ (p.spelling ++ rest)) = countLater before + (countLater rest + 1) := by
  rw [countLater, all_around, List.countP_append,
    List.countP_cons_of_pos (by simp [isLater, other])]
  rfl

variable (value kind detail) in
/-- Filling in the value takes no other placeholder away. Where it makes no further one, all can be
filled in at once; `before` is text that comes of plain characters and values. -/
theorem countLater_filled (pieces : List TemplatePiece) (before : List Char) :
    pieces.countP isLater ≤ countLater (before ++ pieces.flatMap (fill (only .value value))) ∧
    (countLater (before ++ pieces.flatMap (fill (only .value value))) = pieces.countP isLater →
      (all (before ++ pieces.flatMap (fill (only .value value)))).flatMap
          (fill (later kind detail)) =
        before ++ pieces.flatMap (fill (every value kind detail))) := by
  induction pieces generalizing before with
  | nil =>
      refine ⟨Nat.zero_le _, fun none => ?_⟩
      rw [List.flatMap_nil, List.append_nil] at none ⊢
      rw [List.flatMap_nil, List.append_nil]
      exact filled_of_none none
  | cons piece pieces ih =>
      cases piece with
      | plain c =>
          have grown := ih (before ++ [c])
          simpa [fill, isLater] using grown
      | place p =>
          by_cases first : p = .value
          · have grown := ih (before ++ value)
            simpa [first, fill, only, every, isLater] using grown
          · obtain ⟨least, once⟩ := ih []
            rw [List.nil_append] at least once
            have kept : fill (only .value value) (place p) = p.spelling := by
              simp [fill, only, first]
            have counted : isLater (place p) = true := by simp [isLater, first]
            have same : later kind detail p = every value kind detail p := by
              cases p with
              | value => exact absurd rfl first
              | kind | detail => rfl
            rw [List.flatMap_cons, kept, countLater_around first, all_around,
              List.countP_cons_of_pos counted]
            refine ⟨by omega, fun exactly => ?_⟩
            have none : countLater before = 0 := by omega
            rw [List.flatMap_append, filled_of_none none, List.flatMap_cons, List.flatMap_cons,
              once (by omega), List.nil_append, fill, fill, same]

/-- Pieces filled in without the braces of placeholders for kind and detail, against pieces filled
in with them. -/
theorem count_brace {f g : TemplatePiece → List Char} {pieces : List TemplatePiece}
    (each : ∀ piece ∈ pieces, (f piece).count '\x7b' + (if isLater piece then 1 else 0) =
      (g piece).count '\x7b') :
    (pieces.flatMap f).count '\x7b' + pieces.countP isLater =
      (pieces.flatMap g).count '\x7b' := by
  induction pieces with
  | nil => rfl
  | cons piece pieces ih =>
      obtain ⟨here, others⟩ := List.forall_mem_cons.mp each
      have rest := ih others
      rw [List.flatMap_cons, List.flatMap_cons, List.count_append, List.count_append,
        List.countP_cons]
      omega

theorem count_brace_later (kindClosed : '\x7b' ∉ kind) (detailClosed : '\x7b' ∉ detail)
    (t : List Char) : ((all t).flatMap (fill (later kind detail))).count '\x7b' + countLater t =
      t.count '\x7b' := by
  have each : ∀ piece ∈ all t, (fill (later kind detail) piece).count '\x7b' +
      (if isLater piece then 1 else 0) = piece.text.count '\x7b' := by
    intro piece _
    cases piece with
    | plain c => rfl
    | place p =>
        cases p with
        | value => rfl
        | kind => exact congrArg (· + 1) (List.count_eq_zero.mpr kindClosed)
        | detail => exact congrArg (· + 1) (List.count_eq_zero.mpr detailClosed)
  rw [countLater, count_brace each, flatMap_text]

variable (value) in
theorem count_brace_every (kindClosed : '\x7b' ∉ kind) (detailClosed : '\x7b' ∉ detail)
    (pieces : List TemplatePiece) : (pieces.flatMap (fill (every value kind detail))).count '\x7b' +
      pieces.countP isLater = (pieces.flatMap (fill (only .value value))).count '\x7b' := by
  apply count_brace
  intro piece _
  cases piece with
  | plain c => rfl
  | place p =>
      cases p with
      | value => rfl
      | kind => exact congrArg (· + 1) (List.count_eq_zero.mpr kindClosed)
      | detail => exact congrArg (· + 1) (List.count_eq_zero.mpr detailClosed)

/-- Values and plain characters without opening braces make no further placeholder. -/
theorem countLater_of_not_mem {pieces : List TemplatePiece} (tidy : plain '\x7b' ∉ pieces)
    (closed : '\x7b' ∉ value) :
    countLater (pieces.flatMap (fill (only .value value))) = pieces.countP isLater := by
  have least := (countLater_filled value [] [] pieces []).1
  have none : '\x7b' ∉ [] := List.not_mem_nil
  have most := count_brace_later none none (pieces.flatMap (fill (only .value value)))
  have each : ∀ piece ∈ pieces, ([] : List Char).count '\x7b' + (if isLater piece then 1 else 0) =
      (fill (only .value value) piece).count '\x7b' := by
    intro piece member
    cases piece with
    | plain c =>
        have other : c ≠ '\x7b' := by
          rintro rfl
          exact tidy member
        simp [fill, isLater, other]
    | place p =>
        cases p with
        | value => exact (List.count_eq_zero.mpr closed).symm
        | kind | detail => rfl
  have braces := count_brace (f := fun _ => []) each
  have empty : pieces.flatMap (fun _ => ([] : List Char)) = [] := by simp
  rw [empty, List.count_nil] at braces
  rw [List.nil_append] at least
  omega

end TemplatePiece

namespace Rule

open TemplatePiece

/-- One pass over a template from left to right, which replaces each placeholder and copies all
else. -/
def onePass (message : String) (value : Option String) (kind : NodeKind)
    (detail : Option String) : String :=
  String.ofList ((all message.toList).flatMap
    (fill (every (value.getD "").toList kind.name.toList (detail.getD "").toList)))

/-- A template with its values filled in. -/
def valued (message : String) (value : Option String) : String :=
  String.ofList ((all message.toList).flatMap (fill (only .value (value.getD "").toList)))

theorem toList_valued (message : String) (value : Option String) : (valued message value).toList =
    (all message.toList).flatMap (fill (only .value (value.getD "").toList)) :=
  String.toList_ofList

/-- One pass over a template that leaves the placeholders for values. -/
def laterPass (message : String) (kind : NodeKind) (detail : Option String) : String :=
  String.ofList ((all message.toList).flatMap
    (fill (later kind.name.toList (detail.getD "").toList)))

/-- Filling in the value brings in no placeholder for the kind or the detail, and completes none. -/
def Settled (message : String) (value : Option String) : Prop :=
  countLater (valued message value).toList = countLater message.toList

instance (message : String) (value : Option String) : Decidable (Settled message value) :=
  inferInstanceAs (Decidable (_ = _))

theorem kind_inert (kind : NodeKind) : Inert kind.name.toList := by
  have inert : ∀ kind ∈ NodeKind.all, '\x7b' ∉ kind.name.toList ∧ '\x7d' ∉ kind.name.toList ∧
      ∀ p ∈ Placeholder.all, ¬ kind.name.toList <:+: p.spelling := by
    decide +kernel
  obtain ⟨opening, closing, outside⟩ := inert kind (List.mem_of_getElem? kind.all_rank)
  exact ⟨opening, closing, fun p => outside p (by cases p <;> decide)⟩

/-- A message without placeholders says the same of every node. -/
theorem render_plain {message : String} (plain : '\x7b' ∉ message.toList) (value : Option String)
    (kind : NodeKind) (detail : Option String) : render message value kind detail = message := by
  have kept : ∀ word value, word.toList.head? = some '\x7b' →
      Text.substitute word value message = message := by
    intro word value opens
    obtain ⟨rest, spelled⟩ := List.head?_eq_some_iff.mp opens
    rw [Text.substitute, spelled, Text.substituteFrom_of_not_mem plain, String.ofList_toList]
  rw [render, kept _ _ rfl, kept _ _ rfl, kept _ _ rfl]

theorem render_eq_laterPass (message : String) (value : Option String) (kind : NodeKind)
    (detail : Option String) :
    render message value kind detail = laterPass (valued message value) kind detail := by
  have first : "\x7bvalue\x7d".toList = Placeholder.value.spelling := rfl
  have second : "\x7bkind\x7d".toList = Placeholder.kind.spelling := rfl
  have third : "\x7bdetail\x7d".toList = Placeholder.detail.spelling := rfl
  simp only [render, laterPass, valued, Text.substitute, first, second, third, substituteFrom_eq,
    String.toList_ofList, later_eq (kind_inert kind)]

/-- A message is its template with the value filled in and then, in one pass, the kind and the
detail. That is one pass over the template if the value brings in no placeholder and completes none,
as where it has no opening brace and the template none but those of its placeholders; and where the
detail has none either, or is missing, it is one pass only then. -/
theorem render_onePass (message : String) (value : Option String) (kind : NodeKind)
    (detail : Option String) :
    render message value kind detail = laterPass (valued message value) kind detail ∧
    (Settled message value → render message value kind detail = onePass message value kind detail) ∧
    ('\x7b' ∉ (detail.getD "").toList →
      (render message value kind detail = onePass message value kind detail ↔
        Settled message value)) ∧
    (plain '\x7b' ∉ all message.toList → '\x7b' ∉ (value.getD "").toList →
      Settled message value) := by
  have once : Settled message value →
      render message value kind detail = onePass message value kind detail := by
    intro settled
    have exactly := (countLater_filled (value.getD "").toList kind.name.toList
      (detail.getD "").toList (all message.toList) []).2
    rw [Settled, toList_valued] at settled
    rw [render_eq_laterPass, laterPass, toList_valued, onePass]
    exact congrArg String.ofList (exactly settled)
  refine ⟨render_eq_laterPass .., once, ?_, ?_⟩
  · intro closed
    refine ⟨fun same => ?_, once⟩
    rw [render_eq_laterPass, laterPass, onePass, String.ofList_inj] at same
    have inert := kind_inert kind
    have before := count_brace_later inert.opening closed (valued message value).toList
    have after := count_brace_every (value.getD "").toList inert.opening closed
      (all message.toList)
    rw [same] at before
    rw [← toList_valued] at after
    rw [Settled, countLater.eq_def message.toList]
    omega
  · intro tidy closed
    rw [Settled, toList_valued]
    exact countLater_of_not_mem tidy closed

/-- Within braces of its own, a value that is no placeholder is copied. -/
theorem bracketed_rendered :
    Settled "\x7b\x7bvalue\x7d\x7d is a \x7bkind\x7d\x7bdetail\x7d" (some "t") ∧
    render "\x7b\x7bvalue\x7d\x7d is a \x7bkind\x7d\x7bdetail\x7d" (some "t") .createTable
        (some ": \x7bvalue\x7d") =
      onePass "\x7b\x7bvalue\x7d\x7d is a \x7bkind\x7d\x7bdetail\x7d" (some "t") .createTable
        (some ": \x7bvalue\x7d") ∧
    onePass "\x7b\x7bvalue\x7d\x7d is a \x7bkind\x7d\x7bdetail\x7d" (some "t") .createTable
        (some ": \x7bvalue\x7d") = "\x7bt\x7d is a create_table: \x7bvalue\x7d" := by
  have settled : Settled "\x7b\x7bvalue\x7d\x7d is a \x7bkind\x7d\x7bdetail\x7d" (some "t") := by
    decide +kernel
  exact ⟨settled, (render_onePass _ _ _ _).2.1 settled, by decide +kernel⟩

/-- The name of an extension that is written like a placeholder does not come to stand in a message
on it. -/
theorem value_expanded : ∃ statement ∈
      (Script.read .postgres "CREATE EXTENSION \"\x7bkind\x7d\"").root.children,
    statement.kind = .createExtension ∧ statement.value = some "\x7bkind\x7d" ∧
    render "Extension \x7bvalue\x7d is not supported" statement.value statement.kind none =
      "Extension create_extension is not supported" ∧
    onePass "Extension \x7bvalue\x7d is not supported" statement.value statement.kind none =
      "Extension \x7bkind\x7d is not supported" := by
  decide +kernel

end Rule
end SqlAudit
