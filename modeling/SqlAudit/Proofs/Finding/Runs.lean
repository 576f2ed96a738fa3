import Mathlib.Data.List.Chain
import SqlAudit.Proofs.Finding.Order
/-!
Runs of findings that repeat each other. Among the findings in their order aggregation keeps the
first one of every run. So what it keeps comes strictly one after another, every finding has one
that stands for it, with nothing else in between, and whether a finding is kept depends only on
which findings there are.
-/
namespace SqlAudit

namespace Finding

variable {a b c f kept : Finding} {findings : List Finding}

/-- The finding repeats `kept`, and so does all that comes between the two. -/
structure StandsFor (findings : List Finding) (kept f : Finding) : Prop where
  before : (kept.order f).isLE
  unbroken : ∀ c ∈ findings, (kept.order c).isLE → (c.order f).isLE → c.repeats kept

/-- Whatever comes before the finding and is repeated by it, something else comes in between. -/
def Leads (findings : List Finding) (f : Finding) : Prop :=
  ∀ a ∈ findings, a.order f = .lt → f.repeats a →
    ∃ c ∈ findings, a.order c = .lt ∧ c.order f = .lt ∧ c.repeats a = false

theorem StandsFor.repeats (stands : StandsFor findings kept f) (member : f ∈ findings) :
    f.repeats kept = true :=
  stands.unbroken f member stands.before Std.ReflCmp.isLE_rfl

/-- One more finding is of no matter if it only comes after the one that stands for `f` where the
two are tied. -/
theorem StandsFor.cons (stands : StandsFor findings kept f) (before : (c.order kept).isLE) :
    StandsFor (c :: findings) kept f := by
  refine ⟨stands.before, fun other member after earlier => ?_⟩
  rcases List.mem_cons.mp member with rfl | inside
  · exact repeats_of_tied after before
  · exact stands.unbroken other inside after earlier

theorem dropRepeatsAfter_chain (kept : Finding) (findings : List Finding) :
    (kept :: dropRepeatsAfter kept findings).IsChain fun a b => b.repeats a = false := by
  induction findings generalizing kept with
  | nil => exact .singleton kept
  | cons finding findings ih =>
      rw [dropRepeatsAfter]
      split
      · exact ih kept
      · rename_i apart
        exact .cons_cons (by simpa using apart) (ih finding)

theorem aggregate_chain (findings : List Finding) :
    (aggregate findings).IsChain fun a b => b.repeats a = false := by
  rw [aggregate]
  cases findings.mergeSort _ with
  | nil => exact .nil
  | cons finding rest => exact dropRepeatsAfter_chain finding rest

theorem aggregate_ascending (findings : List Finding) : Ascending (aggregate findings) := by
  have ascending := sort_ascending findings
  rw [sort] at ascending
  rw [aggregate]
  cases sorted : findings.mergeSort _ with
  | nil => exact .nil
  | cons finding rest =>
      rw [sorted] at ascending
      exact ascending.sublist ((dropRepeatsAfter_sublist finding rest).cons_cons finding)

/-- Neighbours that are kept do not repeat each other, so they are not equal in the order. -/
theorem aggregate_strict (findings : List Finding) :
    (aggregate findings).Pairwise fun a b => a.order b = .lt := by
  have chain := aggregate_chain findings
  have ascending := aggregate_ascending findings
  generalize aggregate findings = result at chain ascending
  induction result with
  | nil => exact .nil
  | cons first rest ih =>
      have later := ih (List.isChain_cons.mp chain).2 ascending.tail
      refine .cons (fun f member => ?_) later
      cases rest with
      | nil => cases member
      | cons next rest =>
          have before : first.order next = .lt := by
            apply order_lt_of_apart
            · exact ascending.least next (.tail _ (.head _))
            · exact (List.isChain_cons_cons.mp chain).1
          apply Std.TransCmp.lt_of_lt_of_isLE before
          exact Ascending.least ascending.tail f member

theorem standsFor_self (findings : List Finding) (f : Finding) : StandsFor findings f f := by
  exact ⟨Std.ReflCmp.isLE_rfl, fun c _ after before => repeats_of_tied after before⟩

theorem exists_standsFor_after (ascending : Ascending (kept :: findings))
    (member : f ∈ kept :: findings) :
    ∃ k ∈ kept :: dropRepeatsAfter kept findings, StandsFor (kept :: findings) k f := by
  induction findings generalizing kept with
  | nil =>
      obtain rfl := List.mem_singleton.mp member
      exact ⟨f, .head _, standsFor_self _ f⟩
  | cons x findings ih =>
      rcases List.mem_cons.mp member with rfl | later
      · exact ⟨f, .head _, standsFor_self _ f⟩
      obtain ⟨k, inside, stands⟩ := ih ascending.tail later
      have listed := ((dropRepeatsAfter_sublist x findings).cons_cons x).mem inside
      have outer := stands.cons (ascending.least k (.tail _ listed))
      rw [dropRepeatsAfter]
      split
      · rename_i same
        rw [dropRepeatsAfter_congr (repeats_symm same)]
        rcases List.mem_cons.mp inside with rfl | dropped
        · -- the run of the finding that is dropped is that of the one kept before it
          refine ⟨kept, .head _, ascending.least f (.tail _ later), fun c among _ before => ?_⟩
          rcases List.mem_cons.mp among with rfl | among
          · exact repeats_refl c
          · have after := Ascending.least ascending.tail c among
            exact repeats_trans (stands.unbroken c among after before) same
        · exact ⟨k, .tail _ dropped, outer⟩
      · exact ⟨k, .tail _ inside, outer⟩

/-- Every finding has one in the result that stands for it. -/
theorem exists_standsFor (member : f ∈ findings) :
    ∃ k ∈ aggregate findings, StandsFor findings k f := by
  have perm := sort_perm findings
  have ascending := sort_ascending findings
  have among := perm.mem_iff.mpr member
  rw [aggregate, ← sort]
  generalize sort findings = sorted at perm ascending among
  cases sorted with
  | nil => cases among
  | cons first rest =>
      obtain ⟨k, inside, stands⟩ := exists_standsFor_after ascending among
      refine ⟨k, inside, stands.before, fun c listed => ?_⟩
      exact stands.unbroken c (perm.mem_iff.mpr listed)

/-- Between two findings that are kept, or at the later one, a finding comes that does not repeat
the earlier one. -/
theorem exists_next {k : Finding} (listed : k ∈ aggregate findings)
    (member : f ∈ aggregate findings) (first : k.order f = .lt) :
    ∃ n ∈ aggregate findings, k.order n = .lt ∧ (n.order f).isLE ∧ n.repeats k = false := by
  have chain := aggregate_chain findings
  have strict := aggregate_strict findings
  obtain ⟨front, back, split⟩ := List.append_of_mem listed
  rw [split] at member chain strict ⊢
  have after := List.pairwise_append.mp strict
  rcases List.mem_append.mp member with early | late
  · exact absurd first (Std.OrientedCmp.not_lt_of_lt (after.2.2 f early k (.head _)))
  rcases List.mem_cons.mp late with rfl | late
  · exact absurd first (Std.OrientedCmp.not_lt_of_lt first)
  cases back with
  | nil => cases late
  | cons n back =>
      have neighbours := (List.isChain_append_cons_cons.mp chain).2.1
      have later := List.pairwise_cons.mp after.2.1
      refine ⟨n, by simp, later.1 n (.head _), ?_, neighbours⟩
      rcases List.mem_cons.mp late with rfl | late
      · exact Std.ReflCmp.isLE_rfl
      · rw [(List.pairwise_cons.mp later.2).1 f late]
        rfl

/-- What is kept is the first finding of a run. -/
theorem leads_of_mem (member : f ∈ aggregate findings) : Leads findings f := by
  intro a inside before same
  obtain ⟨k, listed, stands⟩ := exists_standsFor inside
  have first : k.order f = .lt := Std.TransCmp.lt_of_isLE_of_lt stands.before before
  obtain ⟨n, kept, after, upto, apart⟩ := exists_next listed member first
  have among := mem_of_aggregate kept
  have apartLater : n.repeats a = false := by rwa [repeats_congr (stands.repeats inside)]
  refine ⟨n, among, ?_, ?_, apartLater⟩
  · apply order_lt_of_not_isLE
    intro early
    have repeated := stands.unbroken n among (by rw [after]; rfl) early
    rw [apart] at repeated
    cases repeated
  · apply order_lt_of_apart upto
    rwa [repeats_comm, repeats_congr same]

/-- Line and column of a finding are those of its place in the unit. -/
def Located (findings : List Finding) : Prop :=
  ∀ a ∈ findings, ∀ b ∈ findings, a.unitId = b.unitId → a.span.start = b.span.start →
    a.position = b.position

theorem Located.eq_of_tied (located : Located findings) (inside : a ∈ findings)
    (among : b ∈ findings) (before : (a.order b).isLE) (after : (b.order a).isLE) : a = b := by
  have tied := Std.OrientedCmp.isLE_antisymm before after
  simp only [order, Ordering.then_eq_eq, Std.compare_eq_iff_eq] at tied
  obtain ⟨rank, start, rule, unit, stop, message⟩ := tied
  have position := located a inside b among unit start
  have severity : a.severity = b.severity := Severity.rank_injective rank
  have span : a.span = b.span := by
    cases same : a.span
    cases same' : b.span
    simp_all
  cases a
  cases b
  simp_all

/-- Whether a finding is kept depends only on which findings there are. -/
theorem mem_aggregate_iff (located : Located findings) :
    f ∈ aggregate findings ↔ f ∈ findings ∧ Leads findings f := by
  constructor
  · intro member
    exact ⟨mem_of_aggregate member, leads_of_mem member⟩
  · rintro ⟨inside, leads⟩
    obtain ⟨k, kept, stands⟩ := exists_standsFor inside
    have among := mem_of_aggregate kept
    have early : (f.order k).isLE := by
      by_contra later
      have first := order_lt_of_not_isLE later
      obtain ⟨c, listed, after, before, apart⟩ := leads k among first (stands.repeats inside)
      have repeated := stands.unbroken c listed (by rw [after]; rfl) (by rw [before]; rfl)
      rw [apart] at repeated
      cases repeated
    rwa [located.eq_of_tied inside among early stands.before]

end Finding
end SqlAudit
