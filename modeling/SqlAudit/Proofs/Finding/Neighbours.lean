import SqlAudit.Proofs.Finding.Order
/-!
What aggregation leaves of the findings of all rules but one. A finding is dropped if it repeats the
one before it, so it is kept if one of the rule left out comes between the two. Nothing else of that
rule counts: two results agree on the other rules exactly if findings of that rule come between the
same neighbours, and these can only differ in severity.
-/
namespace SqlAudit

namespace Finding

variable {r : String} {a b f : Finding} {found : List Finding}

/-- The finding is not one of the rule `r`. -/
def notOf (r : String) (finding : Finding) : Bool := finding.ruleId != r

/-- A finding of the rule `r` comes after `a` and before `b`. -/
def parts (r : String) (found : List Finding) (a b : Finding) : Bool :=
  found.any fun finding =>
    finding.ruleId == r && (a.order finding).isLT && (finding.order b).isLT

theorem parts_iff : parts r found a b ↔
    ∃ finding ∈ found, finding.ruleId = r ∧ a.order finding = .lt ∧ finding.order b = .lt := by
  simp [parts, Ordering.isLT_iff_eq_lt, and_assoc]

theorem parts_lt (apart : parts r found a b) : a.order b = .lt := by
  obtain ⟨finding, -, -, after, before⟩ := parts_iff.mp apart
  exact Std.TransCmp.lt_trans after before

theorem parts_severity (same : b.repeats a) (other : notOf r a) (apart : parts r found a b) :
    a.severity ≠ b.severity := by
  intro severity
  obtain ⟨finding, -, rule, after, before⟩ := parts_iff.mp apart
  have between := rule_between same severity after before
  simp [notOf, ← between, rule] at other

theorem parts_perm {found' : List Finding} (perm : found.Perm found') :
    parts r found a b = parts r found' a b := by
  rw [Bool.eq_iff_iff, parts_iff, parts_iff]
  simp only [perm.mem_iff]

/-- A finding that does not come after `a` does not part it from another one. -/
theorem parts_cons (before : (f.order a).isLE) : parts r (f :: found) a b = parts r found a b := by
  have late : (a.order f).isLT = false := by
    rw [← Std.OrientedCmp.isGT_eq_isLT]
    cases compared : f.order a <;> simp_all
  simp [parts, late]

/-- The findings after `before` without those that repeat the one before them, unless they are kept
`apart` from it. -/
def keepAfter (apart : Finding → Finding → Bool) (before : Finding) : List Finding → List Finding
  | [] => []
  | finding :: findings =>
    if finding.repeats before && !apart before finding then keepAfter apart finding findings
    else finding :: keepAfter apart finding findings

def keep (apart : Finding → Finding → Bool) : List Finding → List Finding
  | [] => []
  | finding :: findings => finding :: keepAfter apart finding findings

variable {apart apart' : Finding → Finding → Bool} {findings : List Finding}

theorem keepAfter_congr (same : ∀ c ∈ a :: findings, ∀ d, apart c d = apart' c d) :
    keepAfter apart a findings = keepAfter apart' a findings := by
  induction findings generalizing a with
  | nil => rfl
  | cons finding findings ih =>
      have rest := @ih finding fun c member => same c (.tail _ member)
      rw [keepAfter, keepAfter, same a (.head _), rest]

theorem keep_congr (same : ∀ c ∈ findings, ∀ d, apart c d = apart' c d) :
    keep apart findings = keep apart' findings := by
  cases findings with
  | nil => rfl
  | cons finding findings => rw [keep, keep, keepAfter_congr same]

theorem keepAfter_eq_keep (all : ∀ f ∈ findings, apart a f) :
    keepAfter apart a findings = keep apart findings := by
  cases findings with
  | nil => rfl
  | cons finding findings => simp [keepAfter, keep, all finding (.head _)]

theorem parts_head (ascending : Ascending (f :: found)) : parts r (f :: found) a f = false := by
  rw [← Bool.not_eq_true, parts_iff]
  rintro ⟨finding, member, -, -, before⟩
  exact Std.OrientedCmp.not_lt_of_isLE (ascending.least finding member) before

/-- A finding of the rule parts any two others that it stands between. -/
theorem parts_of_mem (ascending : Ascending (a :: f :: found)) (other : notOf r a)
    (rule : ¬ notOf r f) (member : b ∈ found) (other' : notOf r b) :
    parts r (f :: found) a b = true := by
  have name : f.ruleId = r := by simpa [notOf] using rule
  have before : (a.order f).isLE := (List.pairwise_cons.mp ascending).1 f (.head _)
  have after : (f.order b).isLE :=
    (List.pairwise_cons.mp (List.pairwise_cons.mp ascending).2).1 b member
  rw [parts_iff]
  refine ⟨f, .head _, name, ?_, ?_⟩
  · apply order_lt_of_rule_ne before
    rw [name]
    simpa [notOf] using other
  · apply order_lt_of_rule_ne after
    rw [name]
    exact Ne.symm (by simpa [notOf] using other')

/-- After a finding of another rule those stay that repeat it unless one of the rule parts them;
after one of the rule itself the next one stays in any case. -/
theorem filter_dropRepeatsAfter_parts (ascending : Ascending (a :: findings)) :
    (notOf r a → (dropRepeatsAfter a findings).filter (notOf r) =
      keepAfter (parts r findings) a (findings.filter (notOf r))) ∧
    (¬ notOf r a → (dropRepeatsAfter a findings).filter (notOf r) =
      keep (parts r findings) (findings.filter (notOf r))) := by
  induction findings generalizing a with
  | nil => exact ⟨fun _ => rfl, fun _ => rfl⟩
  | cons x findings ih =>
      have rest : Ascending (x :: findings) := (List.pairwise_cons.mp ascending).2
      have least : ∀ c ∈ findings.filter (notOf r), (x.order c).isLE := by
        intro c member
        exact (List.pairwise_cons.mp rest).1 c (List.mem_filter.mp member).1
      have onward : keep (parts r (x :: findings)) (findings.filter (notOf r)) =
          keep (parts r findings) (findings.filter (notOf r)) := by
        apply keep_congr
        intro c member d
        exact parts_cons (least c member)
      have onwardAfter : keepAfter (parts r (x :: findings)) x (findings.filter (notOf r)) =
          keepAfter (parts r findings) x (findings.filter (notOf r)) := by
        apply keepAfter_congr
        intro c member d
        rcases List.mem_cons.mp member with rfl | later
        · exact parts_cons Std.ReflCmp.isLE_rfl
        · exact parts_cons (least c later)
      rw [dropRepeatsAfter]
      by_cases same : x.repeats a = true
      · have rule : notOf r x = notOf r a := by rw [notOf, notOf, (repeats_iff.mp same).1]
        rw [if_pos same, dropRepeatsAfter_congr (repeats_symm same)]
        constructor
        · intro other
          rw [List.filter_cons_of_pos (rule ▸ other), keepAfter, same, parts_head rest,
            if_pos (by rfl), onwardAfter]
          exact (ih rest).1 (rule ▸ other)
        · intro none
          rw [List.filter_cons_of_neg (rule ▸ none), onward]
          exact (ih rest).2 (rule ▸ none)
      · rw [if_neg same]
        by_cases other : notOf r x = true
        · rw [List.filter_cons_of_pos other, List.filter_cons_of_pos other, (ih rest).1 other]
          constructor
          · intro _
            rw [keepAfter, if_neg (by simp [same]), onwardAfter]
          · intro _
            rw [keep, onwardAfter]
        · rw [List.filter_cons_of_neg other, List.filter_cons_of_neg other, (ih rest).2 other]
          constructor
          · intro before
            rw [keepAfter_eq_keep, onward]
            intro f member
            obtain ⟨inside, other'⟩ := List.mem_filter.mp member
            exact parts_of_mem ascending before other inside other'
          · intro _
            rw [onward]

theorem filter_dropRepeats_parts (ascending : Ascending findings) :
    (dropRepeats findings).filter (notOf r) =
      keep (parts r findings) (findings.filter (notOf r)) := by
  cases findings with
  | nil => rfl
  | cons x findings =>
      have onward : keep (parts r (x :: findings)) ((x :: findings).filter (notOf r)) =
          keep (parts r findings) ((x :: findings).filter (notOf r)) := by
        apply keep_congr
        intro c member d
        exact parts_cons (ascending.least c (List.mem_filter.mp member).1)
      rw [onward, dropRepeats]
      by_cases other : notOf r x = true
      · rw [List.filter_cons_of_pos other, List.filter_cons_of_pos other, keep,
          (filter_dropRepeatsAfter_parts ascending).1 other]
      · rw [List.filter_cons_of_neg other, List.filter_cons_of_neg other,
          (filter_dropRepeatsAfter_parts ascending).2 other]

/-- What a result holds of the other rules. -/
theorem filter_aggregate_parts (r : String) (found : List Finding) :
    (aggregate found).filter (notOf r) = keep (parts r found) (sort (found.filter (notOf r))) := by
  have perm : parts r (sort found) = parts r found :=
    funext fun a => funext fun b => parts_perm (sort_perm found)
  rw [aggregate, ← sort, filter_dropRepeats_parts (sort_ascending found), filter_sort, perm]

/-- A finding that is kept after another one comes after it in the order. -/
theorem keepAfter_lt (strict : ∀ {a b}, apart a b → a.order b = .lt)
    (ascending : Ascending (a :: findings)) :
    ∀ f ∈ keepAfter apart a findings, a.order f = .lt := by
  induction findings generalizing a with
  | nil => simp [keepAfter]
  | cons x findings ih =>
      intro f member
      have before : (a.order x).isLE := (List.pairwise_cons.mp ascending).1 x (.head _)
      have rest : Ascending (x :: findings) := (List.pairwise_cons.mp ascending).2
      rw [keepAfter] at member
      split at member
      · exact Std.TransCmp.lt_of_isLE_of_lt before (ih rest f member)
      · rename_i kept
        rcases List.mem_cons.mp member with rfl | later
        · by_cases same : f.repeats a = true
          · exact strict (by simpa [same] using kept)
          · exact order_lt_of_apart before (by simpa using same)
        · exact Std.TransCmp.lt_of_isLE_of_lt before (ih rest f later)

theorem keepAfter_irrefl (strict : ∀ {a b}, apart a b → a.order b = .lt)
    (ascending : Ascending (a :: findings)) : a ∉ keepAfter apart a findings := by
  intro member
  have less := keepAfter_lt strict ascending a member
  have equal : a.order a = .eq := Std.ReflCmp.compare_self
  rw [equal] at less
  cases less

/-- The same findings are kept exactly if the same neighbours that repeat each other are parted. -/
theorem keepAfter_eq_iff (strict : ∀ {a b}, apart a b → a.order b = .lt)
    (strict' : ∀ {a b}, apart' a b → a.order b = .lt) (ascending : Ascending (a :: findings)) :
    keepAfter apart a findings = keepAfter apart' a findings ↔
      ∀ c d, [c, d] <:+: a :: findings → d.repeats c → apart c d = apart' c d := by
  induction findings generalizing a with
  | nil =>
      constructor
      · intro _ c d inside
        have := inside.length_le
        simp at this
      · exact fun _ => rfl
  | cons x findings ih =>
      have rest : Ascending (x :: findings) := (List.pairwise_cons.mp ascending).2
      have first : (∀ c d, [c, d] <:+: a :: x :: findings → d.repeats c → apart c d = apart' c d) ↔
          (x.repeats a → apart a x = apart' a x) ∧
            ∀ c d, [c, d] <:+: x :: findings → d.repeats c → apart c d = apart' c d := by
        constructor
        · intro all
          refine ⟨all a x ⟨[], findings, rfl⟩, fun c d inside => all c d ?_⟩
          exact List.infix_cons inside
        · rintro ⟨here, later⟩ c d inside same
          rcases List.infix_cons_iff.mp inside with front | inside
          · simp only [List.cons_prefix_cons] at front
            obtain ⟨rfl, rfl, -⟩ := front
            exact here same
          · exact later c d inside same
      rw [first, ← ih rest, keepAfter, keepAfter]
      cases same : x.repeats a with
      | false => simp
      | true =>
          -- a finding that only one of the two keeps would come after itself
          have never := keepAfter_irrefl strict rest
          have never' := keepAfter_irrefl strict' rest
          cases one : apart a x <;> cases other : apart' a x
          · simp
          · simp only [Bool.not_false, Bool.not_true, Bool.and_true, Bool.and_false, if_true]
            constructor
            · intro equal
              exact absurd (equal ▸ .head _) never
            · intro both
              exact absurd (both.1 trivial) (by simp)
          · simp only [Bool.not_false, Bool.not_true, Bool.and_true, Bool.and_false, if_true]
            constructor
            · intro equal
              exact absurd (equal ▸ .head _) never'
            · intro both
              exact absurd (both.1 trivial) (by simp)
          · simp

theorem keep_eq_iff (strict : ∀ {a b}, apart a b → a.order b = .lt)
    (strict' : ∀ {a b}, apart' a b → a.order b = .lt) (ascending : Ascending findings) :
    keep apart findings = keep apart' findings ↔
      ∀ c d, [c, d] <:+: findings → d.repeats c → apart c d = apart' c d := by
  cases findings with
  | nil => simp [keep]
  | cons x findings =>
      rw [keep, keep, List.cons_inj_right]
      exact keepAfter_eq_iff strict strict' ascending

/-- Two results hold the same of the other rules exactly if findings of the rule come in both
between the same two neighbours that repeat each other but differ in severity. -/
theorem filter_aggregate_eq_iff {found' : List Finding}
    (same : found.filter (notOf r) = found'.filter (notOf r)) :
    (aggregate found).filter (notOf r) = (aggregate found').filter (notOf r) ↔
      ∀ a b, [a, b] <:+: sort (found.filter (notOf r)) → b.repeats a → a.severity ≠ b.severity →
        parts r found a b = parts r found' a b := by
  rw [filter_aggregate_parts, filter_aggregate_parts, ← same,
    keep_eq_iff parts_lt parts_lt (sort_ascending _)]
  constructor
  · exact fun all a b neighbours repeated _ => all a b neighbours repeated
  · intro all a b neighbours repeated
    by_cases severity : a.severity = b.severity
    · have listed : a ∈ sort (found.filter (notOf r)) := neighbours.subset (.head _)
      have other : notOf r a := (List.mem_filter.mp ((sort_perm _).mem_iff.mp listed)).2
      have none : ∀ found, parts r found a b = false := by
        intro found
        rw [← Bool.not_eq_true]
        exact fun parted => parts_severity repeated other parted severity
      rw [none, none]
    · exact all a b neighbours repeated severity

end Finding
end SqlAudit
