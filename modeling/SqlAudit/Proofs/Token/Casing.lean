import SqlAudit.Text.Case
import SqlAudit.Token.Lexer
/-!
What does not depend on the case of ASCII letters. A function of characters is blind to case if it
says the same of a letter and of its capital; of such functions the classes that tokens are told
apart by are made, and so is the lowercase of a name.
-/
namespace SqlAudit

namespace Text

/-- A function that tells no letter from its capital. -/
def CaseBlind {α : Type} (f : Char → α) : Prop := ∀ c : Char, f c.toUpper = f c

/-- The ASCII letters of a text as capitals. -/
def raised (chars : List Char) : List Char := chars.map Char.toUpper

theorem toUpper_of_large {c : Char} (large : ¬ c.toNat < 128) : c.toUpper = c := by
  unfold Char.toUpper
  split
  · rename_i small
    have below : c.toNat ≤ 122 := by
      have bound := small.2
      simp only [Char.toNat, UInt32.le_iff_toNat_le] at bound ⊢
      simpa using bound
    omega
  · rfl

theorem exists_ofNat {c : Char} (small : c.toNat < 128) : ∃ n < 128, c = Char.ofNat n :=
  ⟨c.toNat, small, (Char.ofNat_toNat c).symm⟩

/-- Beyond ASCII there are no letters whose case counts. -/
theorem caseBlind_of_ascii {α : Type} {f : Char → α}
    (ascii : ∀ n < 128, f (Char.ofNat n).toUpper = f (Char.ofNat n)) : CaseBlind f := by
  intro c
  by_cases small : c.toNat < 128
  · obtain ⟨n, bound, rfl⟩ := exists_ofNat small
    exact ascii n bound
  · rw [toUpper_of_large small]

theorem isDigit_caseBlind : CaseBlind Char.isDigit := caseBlind_of_ascii (by decide)

theorem isBlank_caseBlind : CaseBlind isBlank := caseBlind_of_ascii (by decide)

theorem isLetter_caseBlind : CaseBlind isLetter := caseBlind_of_ascii (by decide)

theorem isNumeral_caseBlind : CaseBlind isNumeral := caseBlind_of_ascii (by decide)

theorem isCased_caseBlind : CaseBlind isCased := caseBlind_of_ascii (by decide)

theorem isCaseIgnorable_caseBlind : CaseBlind isCaseIgnorable :=
  caseBlind_of_ascii (by decide)

theorem lowercaseChar_caseBlind : CaseBlind lowercaseChar := caseBlind_of_ascii (by decide)

theorem takeWhile_raised {p : Char → Bool} (blind : CaseBlind p) (chars : List Char) :
    (raised chars).takeWhile p = raised (chars.takeWhile p) := by
  have same : p ∘ Char.toUpper = p := funext blind
  rw [raised, raised, List.takeWhile_map, same]

theorem dropWhile_raised {p : Char → Bool} (blind : CaseBlind p) (chars : List Char) :
    (raised chars).dropWhile p = raised (chars.dropWhile p) := by
  have same : p ∘ Char.toUpper = p := funext blind
  rw [raised, raised, List.dropWhile_map, same]

theorem meetsCased_raised (chars : List Char) : meetsCased (raised chars) = meetsCased chars := by
  unfold meetsCased
  rw [dropWhile_raised isCaseIgnorable_caseBlind]
  cases chars.dropWhile isCaseIgnorable with
  | nil => rfl
  | cons c rest => exact isCased_caseBlind c

theorem lowercaseBetween_raised (before : List Char) (c : Char) (after : List Char) :
    lowercaseBetween (raised before) c.toUpper (raised after) =
      lowercaseBetween before c after := by
  have sigma : (c.toUpper = '\u03a3') = (c = '\u03a3') :=
    caseBlind_of_ascii (f := fun c => c = '\u03a3') (by decide) c
  have dotted : (c.toUpper = '\u0130') = (c = '\u0130') :=
    caseBlind_of_ascii (f := fun c => c = '\u0130') (by decide) c
  simp only [lowercaseBetween, sigma, dotted, meetsCased_raised, lowercaseChar_caseBlind c]

theorem lowercaseAfter_raised (before chars : List Char) :
    lowercaseAfter (raised before) (raised chars) = lowercaseAfter before chars := by
  induction chars generalizing before with
  | nil => rfl
  | cons c after ih =>
      calc lowercaseAfter (raised before) (raised (c :: after))
          = lowercaseBetween (raised before) c.toUpper (raised after) ++
              lowercaseAfter (raised (c :: before)) (raised after) := rfl
        _ = lowercaseAfter before (c :: after) := by
          rw [lowercaseBetween_raised, ih, lowercaseAfter]

theorem toList_capitals (text : String) : (capitals text).toList = raised text.toList := by
  simp [capitals, raised]

/-- Names that differ in the case of their letters only have one lowercase. -/
theorem lowercase_eq {a b : String} (same : capitals a = capitals b) :
    lowercase a = lowercase b := by
  have chars : raised a.toList = raised b.toList := by
    rw [← toList_capitals, ← toList_capitals, same]
  calc lowercase a
      = String.ofList (lowercaseAfter (raised []) (raised a.toList)) := by
        rw [lowercaseAfter_raised, lowercase]
    _ = String.ofList (lowercaseAfter (raised []) (raised b.toList)) := by rw [chars]
    _ = lowercase b := by rw [lowercaseAfter_raised, lowercase]

end Text
end SqlAudit
