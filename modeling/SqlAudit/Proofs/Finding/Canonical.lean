import Mathlib.Data.List.Sort
import SqlAudit.Proofs.Finding.Runs
/-!
What a result says. Of findings that repeat each other the first one, which is as severe as any, is
always kept. It is the only one as long as nothing else comes between them; then a result can be put
together from those of parts. Which findings a result holds, and in which order, never depends on
the order of what was found or on how often it was.
-/
namespace SqlAudit

namespace Finding

variable {a b f : Finding} {findings found found' : List Finding}

/-- Whatever comes between two findings that repeat each other repeats them. -/
def Gathered (findings : List Finding) : Prop :=
  ∀ a ∈ findings, ∀ b ∈ findings, ∀ c ∈ findings, b.repeats a →
    a.order c = .lt → c.order b = .lt → c.repeats a

theorem Gathered.subset (gathered : Gathered found) (inside : found' ⊆ found) :
    Gathered found' := by
  intro a first b last c between
  exact gathered a (inside first) b (inside last) c (inside between)

theorem gathered_of_severity (severity : ∀ a ∈ findings, ∀ b ∈ findings, b.repeats a →
    a.severity = b.severity) : Gathered findings := by
  intro a first b last c _ same after before
  apply repeats_between same (severity a first b last same)
  · rw [after]; rfl
  · rw [before]; rfl

/-- The first of all findings that repeat a given one is kept. -/
theorem exists_first (member : f ∈ findings) :
    ∃ kept ∈ aggregate findings, kept.repeats f = true ∧
      ∀ other ∈ findings, other.repeats f → (kept.order other).isLE := by
  have ascending : Ascending ((sort findings).filter fun other => other.repeats f) :=
    (sort_ascending findings).filter _
  have listed : ∀ other, other ∈ (sort findings).filter (fun other => other.repeats f) ↔
      other ∈ findings ∧ other.repeats f = true := by
    intro other
    rw [List.mem_filter, (sort_perm findings).mem_iff]
  generalize (sort findings).filter _ = alike at ascending listed
  cases alike with
  | nil => cases (listed f).mpr ⟨member, repeats_refl f⟩
  | cons first rest =>
      obtain ⟨inside, repeated⟩ := (listed first).mp (.head _)
      obtain ⟨kept, among, stands⟩ := exists_standsFor inside
      refine ⟨kept, among, repeats_trans (repeats_symm (stands.repeats inside)) repeated, ?_⟩
      intro other present again
      apply order_trans stands.before
      exact ascending.least other ((listed other).mpr ⟨present, again⟩)

/-- If a finding is kept that repeats one before it, it is because of its severity. -/
theorem rank_lt_of_leads (leads : Leads findings b) (inside : a ∈ findings)
    (before : a.order b = .lt) (same : b.repeats a) : a.severity.rank < b.severity.rank := by
  obtain ⟨c, _, after, upto, apart⟩ := leads a inside before same
  apply Nat.lt_of_le_of_ne (rank_le_of_isLE (by rw [before]; rfl))
  intro rank
  have repeated := repeats_between same (Severity.rank_injective rank) (by rw [after]; rfl)
    (by rw [upto]; rfl)
  rw [apart] at repeated
  cases repeated

theorem Gathered.first_of_leads (gathered : Gathered findings) (member : f ∈ findings)
    (leads : Leads findings f) (inside : a ∈ findings) (same : f.repeats a) :
    (f.order a).isLE := by
  by_contra later
  have before := order_lt_of_not_isLE later
  obtain ⟨c, among, after, upto, apart⟩ := leads a inside before same
  have repeated := gathered a inside f member c among same after upto
  rw [apart] at repeated
  cases repeated

instance : Std.Symm fun a b : Finding => b.repeats a = false where
  symm a b apart := by rwa [repeats_comm]

/-- No finding of a result repeats another one exactly if nothing else comes between those that
do. -/
theorem aggregate_apart_iff :
    (aggregate findings).Pairwise (fun a b => b.repeats a = false) ↔ Gathered findings := by
  constructor
  · intro apart a first b last c between same after before
    obtain ⟨k, kept, stands⟩ := exists_standsFor first
    obtain ⟨k', kept', stands'⟩ := exists_standsFor last
    have alike : k'.repeats k = true := by
      apply repeats_trans (repeats_symm (stands'.repeats last))
      exact repeats_trans same (stands.repeats first)
    have equal : k = k' := by
      by_contra other
      have distinct := apart.forall kept kept' other
      rw [alike] at distinct
      cases distinct
    subst equal
    have upto : (k.order c).isLE := order_trans stands.before (by rw [after]; rfl)
    have repeated := stands'.unbroken c between upto (by rw [before]; rfl)
    exact repeats_trans repeated (repeats_symm (stands.repeats first))
  · intro gathered
    apply (aggregate_strict findings).imp_of_mem
    intro a b kept kept' before
    rw [← Bool.not_eq_true]
    intro same
    have first := gathered.first_of_leads (mem_of_aggregate kept') (leads_of_mem kept')
      (mem_of_aggregate kept) same
    exact Std.OrientedCmp.not_lt_of_isLE first before

/-- Of findings that repeat each other a result holds one that is as severe as any of them. It may
hold more, each less severe than the one before, but only if others come between them. -/
theorem aggregate_duplicates (findings : List Finding) :
    (∀ f ∈ findings, ∃ kept ∈ aggregate findings, kept ∈ findings ∧ kept.repeats f ∧
      ∀ other ∈ findings, other.repeats f → kept.severity.rank ≤ other.severity.rank) ∧
    ((aggregate findings).Pairwise fun a b =>
      b.repeats a → a.severity.rank < b.severity.rank) ∧
    ((aggregate findings).Pairwise (fun a b => ¬ b.repeats a) ↔ Gathered findings) := by
  refine ⟨?_, ?_, ?_⟩
  · intro f member
    obtain ⟨kept, among, same, least⟩ := exists_first member
    refine ⟨kept, among, mem_of_aggregate among, same, ?_⟩
    intro other present again
    exact rank_le_of_isLE (least other present again)
  · apply (aggregate_strict findings).imp_of_mem
    intro a b kept kept' before same
    exact rank_lt_of_leads (leads_of_mem kept') (mem_of_aggregate kept) before same
  · simp only [Bool.not_eq_true, aggregate_apart_iff]

/-- Two findings of one rule about one place, both kept for the one that comes between them. -/
theorem aggregate_keeps_repeat : ∃ findings : List Finding,
    findings = [⟨"a", .blocker, "", ⟨1, 1⟩, ⟨0, 3⟩, "u"⟩, ⟨"b", .blocker, "", ⟨1, 6⟩, ⟨5, 8⟩, "u"⟩,
      ⟨"a", .warning, "", ⟨1, 1⟩, ⟨0, 3⟩, "u"⟩] ∧
    aggregate findings = findings ∧
    ¬ (aggregate findings).Pairwise fun a b => ¬ b.repeats a := by
  refine ⟨_, rfl, ?_⟩
  rw [aggregate_eq_insertionSort]
  decide +kernel

theorem mem_aggregate_gathered (located : Located findings) (gathered : Gathered findings) :
    f ∈ aggregate findings ↔
      f ∈ findings ∧ ∀ a ∈ findings, f.repeats a → (f.order a).isLE := by
  rw [mem_aggregate_iff located]
  apply and_congr_right
  intro member
  constructor
  · intro leads a inside same
    exact gathered.first_of_leads member leads inside same
  · intro first a inside before same
    exact absurd before (Std.OrientedCmp.not_lt_of_isLE (first a inside same))

theorem Located.subset (located : Located found) (inside : found' ⊆ found) : Located found' := by
  intro a first b last
  exact located a (inside first) b (inside last)

theorem located_of_lines (lines : String → LineIndex)
    (placed : ∀ f ∈ findings, f.position = (lines f.unitId).position f.span.start) :
    Located findings := by
  intro a first b last unit start
  rw [placed a first, placed b last, unit, start]

instance : Std.Antisymm fun a b : Finding => a.order b = .lt where
  antisymm _ _ first second := absurd first (Std.OrientedCmp.not_lt_of_lt second)

instance : Std.Irrefl fun a b : Finding => a.order b = .lt where
  irrefl _ before := Std.OrientedCmp.not_lt_of_lt before before

/-- Results that hold the same findings are the same. -/
theorem aggregate_ext (same : ∀ f, f ∈ aggregate found ↔ f ∈ aggregate found') :
    aggregate found = aggregate found' :=
  (aggregate_strict found).eq_of_mem_iff (aggregate_strict found') same

theorem Leads.congr (same : ∀ f, f ∈ found ↔ f ∈ found') : Leads found f ↔ Leads found' f := by
  simp only [Leads, same]

theorem aggregate_eq_of_mem_iff (located : Located found) (same : ∀ f, f ∈ found ↔ f ∈ found') :
    aggregate found = aggregate found' := by
  have located' : Located found' := located.subset fun f member => (same f).mpr member
  apply aggregate_ext
  intro f
  rw [mem_aggregate_iff located, mem_aggregate_iff located', same, Leads.congr same]

theorem dropRepeatsAfter_of_chain
    (chain : (a :: findings).IsChain fun a b => b.repeats a = false) :
    dropRepeatsAfter a findings = findings := by
  induction findings generalizing a with
  | nil => rfl
  | cons finding findings ih =>
      obtain ⟨apart, rest⟩ := List.isChain_cons_cons.mp chain
      rw [dropRepeatsAfter, apart, if_neg (by simp), ih rest]

theorem aggregate_idem (findings : List Finding) :
    aggregate (aggregate findings) = aggregate findings := by
  have chain := aggregate_chain findings
  have ascending := aggregate_ascending findings
  generalize aggregate findings = result at chain ascending
  rw [aggregate, List.mergeSort_of_pairwise ascending]
  cases result with
  | nil => rfl
  | cons first rest => rw [dropRepeats, dropRepeatsAfter_of_chain chain]

/-- A result is that of the results of parts. -/
theorem aggregate_append (located : Located (found ++ found'))
    (gathered : Gathered (found ++ found')) :
    aggregate (found ++ found') = aggregate (aggregate found ++ aggregate found') := by
  have front : found ⊆ found ++ found' := List.subset_append_left _ _
  have back : found' ⊆ found ++ found' := List.subset_append_right _ _
  have inside : aggregate found ++ aggregate found' ⊆ found ++ found' := by
    apply List.append_subset.mpr
    exact ⟨fun f kept => front (mem_of_aggregate kept), fun f kept => back (mem_of_aggregate kept)⟩
  apply aggregate_ext
  intro f
  rw [mem_aggregate_gathered located gathered,
    mem_aggregate_gathered (located.subset inside) (gathered.subset inside)]
  constructor
  · rintro ⟨member, first⟩
    refine ⟨?_, fun a kept => first a (inside kept)⟩
    rcases List.mem_append.mp member with early | late
    · apply List.mem_append_left
      rw [mem_aggregate_gathered (located.subset front) (gathered.subset front)]
      exact ⟨early, fun a present => first a (front present)⟩
    · apply List.mem_append_right
      rw [mem_aggregate_gathered (located.subset back) (gathered.subset back)]
      exact ⟨late, fun a present => first a (back present)⟩
  · rintro ⟨kept, first⟩
    refine ⟨inside kept, fun a member same => ?_⟩
    have least : ∃ k ∈ aggregate found ++ aggregate found', k.repeats a = true ∧
        (k.order a).isLE := by
      rcases List.mem_append.mp member with early | late
      · obtain ⟨k, listed, again, least⟩ := exists_first early
        exact ⟨k, List.mem_append_left _ listed, again, least a early (repeats_refl a)⟩
      · obtain ⟨k, listed, again, least⟩ := exists_first late
        exact ⟨k, List.mem_append_right _ listed, again, least a late (repeats_refl a)⟩
    obtain ⟨k, listed, again, before⟩ := least
    exact order_trans (first k listed (repeats_trans same (repeats_symm again))) before

theorem order_fields (before : a.order b = .lt) :
    a.severity.rank < b.severity.rank ∨ a.severity = b.severity ∧
      (a.span.start < b.span.start ∨ a.span.start = b.span.start ∧ a.ruleId ≤ b.ruleId) := by
  simp only [order, Ordering.then_eq_lt, Nat.compare_eq_lt, Std.compare_eq_iff_eq] at before
  rcases before with rank | ⟨rank, start | ⟨start, rule | ⟨rule, -⟩⟩⟩
  · exact .inl rank
  · exact .inr ⟨Severity.rank_injective rank, .inl start⟩
  · have less : a.ruleId < b.ruleId := compareOfLessAndEq_eq_lt.mp rule
    exact .inr ⟨Severity.rank_injective rank, .inr ⟨start, Std.le_of_lt less⟩⟩
  · exact .inr ⟨Severity.rank_injective rank, .inr ⟨start, Std.le_of_eq rule⟩⟩

/-- A result is canonical: it depends only on which findings there are, and what it says of them is
all there is to say, by severity, place and rule. -/
theorem aggregate_canonical (found found' : List Finding) (located : Located (found ++ found')) :
    ((∀ f, f ∈ found ↔ f ∈ found') → aggregate found = aggregate found') ∧
    aggregate (aggregate found) = aggregate found ∧
    ((aggregate (found ++ found')).Pairwise (fun a b => ¬ b.repeats a) →
      aggregate (found ++ found') = aggregate (aggregate found ++ aggregate found')) ∧
    ((aggregate found).Pairwise fun a b =>
      a.severity.rank < b.severity.rank ∨ a.severity = b.severity ∧
        (a.span.start < b.span.start ∨ a.span.start = b.span.start ∧ a.ruleId ≤ b.ruleId)) ∧
    (∀ f ∈ aggregate found, f ∈ found) ∧
    ∀ f ∈ found, ∃ kept ∈ aggregate found, kept.repeats f ∧
      kept.severity.rank ≤ f.severity.rank := by
  refine ⟨?_, aggregate_idem found, ?_, ?_, fun f => mem_of_aggregate, ?_⟩
  · exact aggregate_eq_of_mem_iff (located.subset (List.subset_append_left _ _))
  · intro apart
    simp only [Bool.not_eq_true] at apart
    exact aggregate_append located (aggregate_apart_iff.mp apart)
  · exact (aggregate_strict found).imp order_fields
  · intro f member
    obtain ⟨kept, among, same, least⟩ := exists_first member
    exact ⟨kept, among, same, rank_le_of_isLE (least f member (repeats_refl f))⟩

theorem aggregate_canonical_repeated : ∃ x y : Finding,
    x = ⟨"a", .blocker, "", ⟨1, 1⟩, ⟨0, 3⟩, "u"⟩ ∧ y = ⟨"b", .warning, "", ⟨1, 6⟩, ⟨5, 8⟩, "u"⟩ ∧
    Located ([x, y, x] ++ [y, x]) ∧ aggregate [x, y, x] = aggregate [y, x] ∧
    aggregate ([x, y, x] ++ [y, x]) = aggregate (aggregate [x, y, x] ++ aggregate [y, x]) := by
  refine ⟨_, _, rfl, rfl, ?_⟩
  have located := @located_of_lines [
    ⟨"a", .blocker, "", ⟨1, 1⟩, ⟨0, 3⟩, "u"⟩, ⟨"b", .warning, "", ⟨1, 6⟩, ⟨5, 8⟩, "u"⟩,
    ⟨"a", .blocker, "", ⟨1, 1⟩, ⟨0, 3⟩, "u"⟩, ⟨"b", .warning, "", ⟨1, 6⟩, ⟨5, 8⟩, "u"⟩,
    ⟨"a", .blocker, "", ⟨1, 1⟩, ⟨0, 3⟩, "u"⟩] (fun _ => .ofText "0123456789") (by decide +kernel)
  obtain ⟨ext, -, append, -⟩ := aggregate_canonical [_, _, _] [_, _] located
  refine ⟨located, ext (by simp), append ?_⟩
  rw [aggregate_eq_insertionSort]
  decide +kernel

/-- Of a finding and a less severe one that repeats it only the first is kept, unless another one
comes between them. So the severity of the second is lost, and a third finding found elsewhere makes
a difference to the two. -/
theorem aggregate_drops_severity : ∃ x y z : Finding,
    x = ⟨"a", .blocker, "", ⟨1, 1⟩, ⟨0, 3⟩, "u"⟩ ∧ y = ⟨"a", .warning, "", ⟨1, 1⟩, ⟨0, 3⟩, "u"⟩ ∧
    z = ⟨"b", .blocker, "", ⟨1, 6⟩, ⟨5, 8⟩, "u"⟩ ∧ Located ([x, y] ++ [z]) ∧
    (¬ ∃ kept ∈ aggregate [x, y], kept.repeats y ∧ kept.severity = y.severity) ∧
    aggregate ([x, y] ++ [z]) ≠ aggregate (aggregate [x, y] ++ aggregate [z]) := by
  refine ⟨_, _, _, rfl, rfl, rfl, ?_, ?_⟩
  · exact located_of_lines (fun _ => .ofText "0123456789") (by decide +kernel)
  · simp only [aggregate_eq_insertionSort]
    decide +kernel

end Finding
end SqlAudit
