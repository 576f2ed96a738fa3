import SqlAudit.Grammar.Reading
/-!
What can be said of a test before there is a text. Tokens are taken by their outline, one outline
for all tokens that no test tells apart, and `may` says whether a test can come out as given when
the current token and the next one have these outlines, or any where none is given.
-/
namespace SqlAudit

def Lexeme.outline : Lexeme → Lexeme
  | .word text => .word (Text.capitals text)
  | .operator _ => .operator ""
  | .invalid _ => .invalid ""
  | lexeme => lexeme

theorem infixPower?_outline (lexeme : Lexeme) :
    lexeme.outline.infixPower? = lexeme.infixPower? := by
  cases lexeme <;> rfl

namespace TokenClass

/-- The power from which an infix operator is asked for is left open. -/
def may : TokenClass → Lexeme → Bool → Bool
  | .words spellings, .word text, verdict => spellings.contains text == verdict
  | .infixFrom _, lexeme, verdict => lexeme.infixPower?.isSome || !verdict
  | tokens, lexeme, verdict => tokens.holds lexeme == verdict

theorem may_holds (tokens : TokenClass) (lexeme : Lexeme) :
    tokens.may lexeme.outline (tokens.holds lexeme) = true := by
  cases tokens with
  | infixFrom power =>
      rw [may, infixPower?_outline, holds]
      cases lexeme.infixPower? <;> simp
  | infixAt power => simp [may, holds, infixPower?_outline]
  | _ => cases lexeme <;> simp [may, holds, Lexeme.outline]

def infixes : List Lexeme :=
  [Symbol.equal, .notEqual, .less, .lessEqual, .greater, .greaterEqual, .bitOr, .bitAnd,
    .shiftLeft, .shiftRight, .plus, .minus, .concat, .star, .slash, .percent, .caret].map .symbol ++
  [Keyword.OR, .AND, .IS, .IN, .BETWEEN, .LIKE, .ILIKE, .NOT].map .keyword ++ [.operator ""]

/-- The outlines of the tokens in a class, where they are few. -/
def outlines? : TokenClass → Option (List Lexeme)
  | .words spellings => some (spellings.map .word)
  | .keywords ks => some (ks.map .keyword)
  | .symbols ss => some (ss.map .symbol)
  | .infixFrom _ => some infixes
  | _ => none

theorem mem_infixes {lexeme : Lexeme} (operator : lexeme.infixPower?.isSome) :
    lexeme.outline ∈ infixes := by
  cases lexeme with
  | symbol s =>
      cases s <;> first | exact absurd operator (by decide) | simp [infixes, Lexeme.outline]
  | keyword k =>
      cases k <;> first | exact absurd operator (by decide) | simp [infixes, Lexeme.outline]
  | operator text => simp [infixes, Lexeme.outline]
  | _ => simp [Lexeme.infixPower?] at operator

theorem mem_outlines {tokens : TokenClass} {outlines : List Lexeme} {lexeme : Lexeme}
    (listed : tokens.outlines? = some outlines) (may : tokens.may lexeme.outline true = true) :
    lexeme.outline ∈ outlines := by
  cases tokens with
  | infixFrom power =>
      cases listed
      rw [TokenClass.may, infixPower?_outline] at may
      exact mem_infixes (by simpa using may)
  | words spellings =>
      cases listed
      cases lexeme <;> simp_all [TokenClass.may, holds, Lexeme.outline]
  | keywords ks =>
      cases listed
      cases lexeme <;> simp_all [TokenClass.may, holds, Lexeme.outline]
  | symbols ss =>
      cases listed
      cases lexeme <;> simp_all [TokenClass.may, holds, Lexeme.outline]
  | _ => simp [outlines?] at listed

end TokenClass

namespace Test

/-- Only words and keywords start phrases. What has been built so far is left open. -/
def may (current next : Option Lexeme) : Bool → Test → Bool
  | verdict, .here tokens => (current.map (tokens.may · verdict)).getD true
  | verdict, .next tokens => (next.map (tokens.may · verdict)).getD true
  | verdict, .phrase _ => (current.map fun lexeme => lexeme.capitals?.isSome || !verdict).getD true
  | _, .valueIn _ => true
  | _, .lastIs _ => true
  | true, .both a b => a.may current next true && b.may current next true
  | false, .both a b => a.may current next false || b.may current next false
  | true, .either a b => a.may current next true || b.may current next true
  | false, .either a b => a.may current next false && b.may current next false
  | verdict, .neither a => a.may current next !verdict

theorem may_holds (f : Frame) (c : Cursor) (test : Test) :
    test.may (some c.current.lexeme.outline) (some c.peek.lexeme.outline)
      (test.holds f c) = true := by
  induction test with
  | here tokens => exact tokens.may_holds _
  | next tokens => exact tokens.may_holds _
  | phrase phrases =>
      rw [holds, may]
      cases c.current.lexeme <;> simp [Lexeme.outline, Lexeme.capitals?]
  | valueIn values => rfl
  | lastIs kind => rfl
  | both a b first second =>
      rw [holds]
      cases left : a.holds f c <;> cases right : b.holds f c <;> simp_all [may]
  | either a b first second =>
      rw [holds]
      cases left : a.holds f c <;> cases right : b.holds f c <;> simp_all [may]
  | neither a ih => simpa [holds, may] using ih

/-- Less is known of the tokens. -/
theorem may_weaken {current current' next next' : Option Lexeme}
    (here : current' = current ∨ current' = none) (after : next' = next ∨ next' = none)
    {test : Test} {verdict : Bool} (may : test.may current next verdict = true) :
    test.may current' next' verdict = true := by
  induction test generalizing verdict with
  | here tokens => rcases here with rfl | rfl <;> simp_all [Test.may]
  | next tokens => rcases after with rfl | rfl <;> simp_all [Test.may]
  | phrase phrases => rcases here with rfl | rfl <;> simp_all [Test.may]
  | valueIn values => rfl
  | lastIs kind => rfl
  | both a b first second =>
      cases verdict
      · simp only [Test.may, Bool.or_eq_true] at may ⊢
        exact may.imp first second
      · simp only [Test.may, Bool.and_eq_true] at may ⊢
        exact ⟨first may.1, second may.2⟩
  | either a b first second =>
      cases verdict
      · simp only [Test.may, Bool.and_eq_true] at may ⊢
        exact ⟨first may.1, second may.2⟩
      · simp only [Test.may, Bool.or_eq_true] at may ⊢
        exact may.imp first second
  | neither a ih => exact ih may

/-- The outlines with which the current token can give the test this verdict, where they are
few. -/
def outlines? : Bool → Test → Option (List Lexeme)
  | true, .here tokens => tokens.outlines?
  | true, .both a b => (a.outlines? true).or (b.outlines? true)
  | false, .either a b => (a.outlines? false).or (b.outlines? false)
  | true, .either a b => (a.outlines? true).bind fun l => (b.outlines? true).map (l ++ ·)
  | false, .both a b => (a.outlines? false).bind fun l => (b.outlines? false).map (l ++ ·)
  | verdict, .neither a => a.outlines? !verdict
  | _, _ => none

theorem mem_of_or {α : Type} {x : α} {listed : List α} {first second : Option (List α)}
    (chosen : first.or second = some listed) (left : ∀ l, first = some l → x ∈ l)
    (right : ∀ l, second = some l → x ∈ l) : x ∈ listed := by
  cases first with
  | none => exact right _ (by simpa using chosen)
  | some l => exact left _ (by simpa using chosen)

theorem mem_of_bind {α : Type} {x : α} {listed : List α} {first second : Option (List α)}
    (joined : (first.bind fun l => second.map (l ++ ·)) = some listed)
    (either : ∀ l, first = some l → ∀ r, second = some r → x ∈ l ∨ x ∈ r) : x ∈ listed := by
  obtain ⟨l, left, rest⟩ := Option.bind_eq_some_iff.mp joined
  obtain ⟨r, right, rfl⟩ := Option.map_eq_some_iff.mp rest
  exact List.mem_append.mpr (either l left r right)

theorem mem_outlines {test : Test} {outlines : List Lexeme} {lexeme : Lexeme}
    {next : Option Lexeme} {verdict : Bool} (listed : test.outlines? verdict = some outlines)
    (may : test.may (some lexeme.outline) next verdict = true) : lexeme.outline ∈ outlines := by
  induction test generalizing verdict outlines with
  | here tokens =>
      cases verdict
      · simp [outlines?] at listed
      · exact TokenClass.mem_outlines listed may
  | both a b first second =>
      cases verdict
      · apply mem_of_bind listed
        intro l left r right
        simp only [Test.may, Bool.or_eq_true] at may
        exact may.imp (first left) (second right)
      · simp only [Test.may, Bool.and_eq_true] at may
        exact mem_of_or listed (fun l left => first left may.1) fun r right => second right may.2
  | either a b first second =>
      cases verdict
      · simp only [Test.may, Bool.and_eq_true] at may
        exact mem_of_or listed (fun l left => first left may.1) fun r right => second right may.2
      · apply mem_of_bind listed
        intro l left r right
        simp only [Test.may, Bool.or_eq_true] at may
        exact may.imp (first left) (second right)
  | neither a ih =>
      rw [outlines?] at listed
      exact ih listed may
  | _ => cases verdict <;> simp [outlines?] at listed

end Test
end SqlAudit
