import SqlAudit.Proofs.Grammar.Voices
/-!
Nodes that keep the words of a phrase. All that the grammar reads has been followed, and whatever it
is, one of the voices after it is true of the frame; a node that is closed is one that was approved,
so that its value is what was read as a phrase of its table.
-/
namespace SqlAudit

variable {tokens : List Token} {place : Span} {v w : Voice} {f g : Frame} {c d : Cursor}

/-- Where a node keeps the words of a phrase, these are a run within it that starts a phrase of
its table. -/
structure Node.Phrased (tokens : List Token) (node : Node) : Prop where
  created : node.kind = .otherStatement → ∀ kind, node.value = some ("CREATE " ++ kind) →
    Spoken tokens node.span Grammar.createdObjects kind
  altered : node.kind = .otherStatement → ∀ kind, node.value = some ("ALTER " ++ kind) →
    Spoken tokens node.span Grammar.alteredObjects kind
  dropped : node.kind = .drop → ∃ kind, node.value = some kind ∧
    Spoken tokens node.span Grammar.droppedObjects kind
  target : node.kind = .privilegeTarget → ∃ kind, node.value = some kind ∧
    (kind = "TABLE" ∨ Spoken tokens node.span Grammar.privilegeTargets kind)
  actions : node.kind = .alterIndex → ∀ child ∈ node.children, child.kind = .alterAction →
    ∃ action, child.value = some action ∧ Spoken tokens child.span Grammar.indexActions action

theorem Say.spoken {phrases : Phrases} {said : String} (plain : phrases.plain = true)
    (say : Say tokens place [.phrase phrases] said) : Spoken tokens place phrases said := by
  obtain ⟨first, rest, ⟨c, speaks, rfl⟩, rfl, rfl⟩ := say
  rw [String.append_empty]
  exact speaks.spoken plain

theorem tables_plain : ∀ phrases ∈ [Grammar.createdObjects, Grammar.alteredObjects,
    Grammar.droppedObjects, Grammar.privilegeTargets, Grammar.indexActions],
    phrases.plain = true := by
  decide +kernel

theorem Say.verb {phrases : Phrases} {verb said : String} (plain : phrases.plain = true)
    (say : Say tokens place [.text verb, .text " ", .phrase phrases] said) :
    ∃ kind, said = verb ++ " " ++ kind ∧ Spoken tokens place phrases kind := by
  obtain ⟨_, _, rfl, ⟨_, kind, rfl, say, rfl⟩, rfl⟩ := say
  exact ⟨kind, by rw [String.append_assoc], say.spoken plain⟩

theorem SayValue.exists_said {pieces : List Piece} {value : Option String}
    (told : SayValue tokens place (some pieces) value) :
    ∃ said, value = some said ∧ Say tokens place pieces said := by
  cases value with
  | none => exact told.elim
  | some said => exact ⟨said, rfl, told⟩

theorem Say.of_word {among : List String} {said : String}
    (say : Say tokens place [.word among] said) : said ∈ among := by
  obtain ⟨first, rest, here, rfl, rfl⟩ := say
  rwa [String.append_empty]

namespace Voice.Describes

/-- What is known of the value is said within the node that the frame becomes. -/
theorem said {pieces : List Piece} (describes : w.Describes tokens g d)
    (known : w.value = some (some pieces)) : ∃ said, g.value = some said ∧
      Say tokens ⟨g.start, max d.previous.stop g.start⟩ pieces said := by
  apply SayValue.exists_said
  exact (describes.value _ known).mono (Nat.le_refl _) (Nat.le_max_left ..)

theorem spoken {phrases : Phrases} (describes : w.Describes tokens g d)
    (plain : phrases.plain = true) (value : w.value = some (some [.phrase phrases])) :
    ∃ kind, g.value = some kind ∧
      Spoken tokens ⟨g.start, max d.previous.stop g.start⟩ phrases kind := by
  obtain ⟨said, same, say⟩ := describes.said value
  exact ⟨said, same, say.spoken plain⟩

/-- A statement that is not looked into is called by one word, or after its verb by the words of a
phrase. -/
theorem other_statement (describes : w.Describes tokens g d) (approved : w.approved = true)
    (isOther : w.kind = some (some .otherStatement)) : ∃ said, g.value = some said ∧
      (' ' ∉ said.toList ∨
        (∃ kind, said = "CREATE" ++ " " ++ kind ∧
          Spoken tokens ⟨g.start, max d.previous.stop g.start⟩ Grammar.createdObjects kind) ∨
        ∃ kind, said = "ALTER" ++ " " ++ kind ∧
          Spoken tokens ⟨g.start, max d.previous.stop g.start⟩ Grammar.alteredObjects kind) := by
  rw [Voice.approved, isOther] at approved
  dsimp only at approved
  split at approved
  · rename_i among known
    obtain ⟨said, value, say⟩ := describes.said known
    have single := List.all_eq_true.mp (List.all_eq_true.mp approved said say.of_word)
    refine ⟨said, value, .inl fun blank => ?_⟩
    simpa using single ' ' blank
  · simp only [Bool.or_eq_true, beq_iff_eq] at approved
    obtain known | known := approved
    · obtain ⟨said, value, say⟩ := describes.said known
      exact ⟨said, value, .inr (.inl (say.verb (tables_plain _ (by simp))))⟩
    · obtain ⟨said, value, say⟩ := describes.said known
      exact ⟨said, value, .inr (.inr (say.verb (tables_plain _ (by simp))))⟩

/-- What a voice is approved for holds of the node that the frame becomes. -/
theorem phrased {kind : NodeKind} (describes : w.Describes tokens g d)
    (approved : w.approved = true) (isNode : g.kind = some kind) :
    Node.Phrased tokens (g.closed kind d) := by
  have known : w.kind = some (some kind) := by
    cases same : w.kind with
    | none => simp [Voice.approved, same] at approved
    | some other => rw [← isNode, describes.kind other same]
  constructor <;> rintro (rfl : kind = _)
  case created =>
      intro kind value
      obtain ⟨said, same, cases⟩ := describes.other_statement approved known
      have spelled := congrArg String.toList (Option.some.inj (same.symm.trans value))
      obtain word | ⟨own, rfl, spoken⟩ | ⟨own, rfl, spoken⟩ := cases
      · simp [spelled] at word
      · have kinds : own = kind := String.toList_inj.mp (by simpa using spelled)
        exact kinds ▸ spoken
      · simp at spelled
  case altered =>
      intro kind value
      obtain ⟨said, same, cases⟩ := describes.other_statement approved known
      have spelled := congrArg String.toList (Option.some.inj (same.symm.trans value))
      obtain word | ⟨own, rfl, spoken⟩ | ⟨own, rfl, spoken⟩ := cases
      · simp [spelled] at word
      · simp at spelled
      · have kinds : own = kind := String.toList_inj.mp (by simpa using spelled)
        exact kinds ▸ spoken
  case dropped =>
      rw [Voice.approved, known] at approved
      exact describes.spoken (tables_plain _ (by simp)) (by simpa using approved)
  case target =>
      rw [Voice.approved, known] at approved
      simp only [Bool.or_eq_true, beq_iff_eq] at approved
      obtain value | value := approved
      · obtain ⟨said, same, first, rest, rfl, rfl, rfl⟩ := describes.said value
        exact ⟨_, same, .inl rfl⟩
      · obtain ⟨said, same, spoken⟩ := describes.spoken (tables_plain _ (by simp)) value
        exact ⟨said, same, .inr spoken⟩
  case actions =>
      rw [Voice.approved, known] at approved
      intro child member isAction
      obtain ⟨all, heard, only⟩ := (Option.any_eq_true ..).mp approved
      obtain ⟨pieces, inside, told⟩ :=
        describes.actions all heard child (List.mem_reverse.mp member) isAction
      have same := List.all_eq_true.mp only pieces inside
      rw [beq_iff_eq] at same
      subst same
      obtain ⟨said, value, say⟩ := told.exists_said
      exact ⟨said, value, say.spoken (tables_plain _ (by simp))⟩

end Voice.Describes

namespace Test

/-- The test has been passed at the cursor, for whatever frame. -/
def Passed (sure : Option Test) (c : Cursor) : Prop :=
  ∀ test, sure = some test → ∃ f, test.holds f c = true

theorem passed_none (c : Cursor) : Passed none c := nofun

theorem passed_of_holds {test : Test} (holds : test.holds f c = true) : Passed (some test) c := by
  rintro _ ⟨⟩
  exact ⟨f, holds⟩

theorem spellings_sound {test : Test} {among : List String}
    (spelled : test.spellings? = some among) (holds : test.holds f c = true) :
    ∃ word ∈ among, c.current.lexeme.capitals? = some word := by
  induction test generalizing among with
  | here tokens =>
      cases tokens with
      | words spellings =>
          cases spelled
          rw [Test.holds] at holds
          cases current : c.current.lexeme with
          | word text =>
              rw [current, TokenClass.holds, List.contains_iff_mem] at holds
              exact ⟨_, holds, rfl⟩
          | _ => simp [current, TokenClass.holds] at holds
      | keywords ks =>
          cases spelled
          rw [Test.holds] at holds
          cases current : c.current.lexeme with
          | keyword k =>
              rw [current, TokenClass.holds, List.contains_iff_mem] at holds
              exact ⟨_, List.mem_map_of_mem holds, rfl⟩
          | _ => simp [current, TokenClass.holds] at holds
      | _ => cases spelled
  | either a b left right =>
      obtain ⟨first, one, later⟩ := Option.bind_eq_some_iff.mp spelled
      obtain ⟨second, other, rfl⟩ := Option.map_eq_some_iff.mp later
      rw [Test.holds, Bool.or_eq_true] at holds
      obtain holds | holds := holds
      · obtain ⟨word, member, same⟩ := left one holds
        exact ⟨word, List.mem_append_left _ member, same⟩
      · obtain ⟨word, member, same⟩ := right other holds
        exact ⟨word, List.mem_append_right _ member, same⟩
  | _ => cases spelled

theorem starts_sound {test : Test} {phrases : Phrases} (starts : test.starts phrases = true)
    (holds : test.holds f c = true) : c.spoken phrases ≠ [] := by
  cases test with
  | phrase others =>
      rw [Test.starts, beq_iff_eq] at starts
      exact Cursor.spoken_ne_nil (starts ▸ holds)
  | _ => cases starts

end Test

namespace Grammar

variable {rules : Nonterminal → Grammar} {a : Grammar} {vs : List Voice} {sure : Option Test}
  {size : Nat}

theorem Changes.spares {value : Bool} (changes : Changes a f c g d)
    (spares : a.spares value = true) : g.kind = f.kind ∧ (value = true → g.value = f.value) := by
  cases changes with
  | nothing | take => exact ⟨rfl, fun _ => rfl⟩
  | become | dissolve => cases spares
  | copy | write | gap =>
      exact ⟨rfl, fun same => by simp [Grammar.spares, same] at spares⟩
  | phrase spoken =>
      refine ⟨by split <;> rfl, fun same => by simp [Grammar.spares, same] at spares⟩
  | splice =>
      exact ⟨f.splice_kind, fun same => by simp [Grammar.spares, same] at spares⟩
  | echo =>
      obtain ⟨value, same⟩ := f.echo_eq
      exact ⟨by rw [same], fun same => by simp [Grammar.spares, same] at spares⟩

theorem Derives.spares {value : Bool} (quiet : ∀ name, (rules name).spares true = true)
    (derives : Derives rules a f c g d) (spares : a.spares value = true) :
    g.kind = f.kind ∧ (value = true → g.value = f.value) := by
  induction derives generalizing value with
  | change changes => exact changes.spares spares
  | seq first second left right =>
      obtain ⟨one, other⟩ := Bool.and_eq_true_iff.mp spares
      obtain ⟨kind, same⟩ := left one
      obtain ⟨kind', same'⟩ := right other
      exact ⟨kind'.trans kind, fun asked => (same' asked).trans (same asked)⟩
  | yes holds taken ih => exact ih (Bool.and_eq_true_iff.mp spares).1
  | no fails taken ih => exact ih (Bool.and_eq_true_iff.mp spares).2
  | stop fails => exact ⟨rfl, fun _ => rfl⟩
  | round holds once again left right =>
      obtain ⟨kind, same⟩ := left spares
      obtain ⟨kind', same'⟩ := right spares
      exact ⟨kind'.trans kind, fun asked => (same' asked).trans (same asked)⟩
  | node real inner moved ih => exact ⟨Frame.close_kind .., fun _ => Frame.close_value ..⟩
  | @wrap kind a f g c d real inner moved ih =>
      rw [Frame.close_kind, Frame.close_value, Frame.wrapLast]
      cases f.parts <;> exact ⟨rfl, fun _ => rfl⟩
  | discard inner ih => exact ⟨rfl, fun _ => rfl⟩
  | deeper shallow inner ih => exact ih spares
  | call ruled moved ih =>
      obtain ⟨kind, same⟩ := ih (quiet _)
      exact ⟨kind, fun _ => same rfl⟩

/-- What took no token left the cursor where it was. -/
theorem Derives.stays (derives : Derives rules a f c g d) (stays : a.stays = true) : d = c := by
  cases derives with
  | change changes => cases changes <;> first | rfl | cases stays
  | _ => cases stays

theorem Derives.passed (derives : Derives rules a f c g d)
    (passed : Test.Passed sure c) : Test.Passed (bif a.stays then sure else none) d := by
  rw [Bool.cond_eq_ite]
  split
  · rwa [derives.stays ‹_›]
  · exact Test.passed_none d

theorem follow_mem {step : Voice → Option (List Voice)} {before : List Voice}
    (followed : Voice.follow step before = some vs) (member : v ∈ before) :
    ∃ first, step v = some first ∧ first ⊆ vs := by
  induction before generalizing vs with
  | nil => cases member
  | cons w rest ih =>
      obtain ⟨first, here, later⟩ := Option.bind_eq_some_iff.mp followed
      obtain ⟨others, known, rfl⟩ := Option.map_eq_some_iff.mp later
      obtain rfl | member := List.mem_cons.mp member
      · exact ⟨first, here, fun w inside => List.mem_union_iff.mpr (.inl inside)⟩
      · obtain ⟨own, here, within⟩ := ih known member
        exact ⟨own, here, fun w inside => List.mem_union_iff.mpr (.inr (within inside))⟩

theorem Changes.describes (changes : Changes a f c g d) (found : voices a sure v = some vs)
    (passed : Test.Passed sure c) (inside : c.tokens <:+ tokens)
    (begins : f.start ≤ c.current.span.start) (later : c.previous.stop ≤ d.previous.stop)
    (describes : v.Describes tokens f c) : ∃ w ∈ vs, w.Describes tokens g d := by
  replace describes := describes.onward later
  cases changes with
  | nothing | take =>
      cases found
      exact ⟨v, .head _, describes⟩
  | copy spelling =>
      rw [voices] at found
      cases known : bif spelling == .capitals then sure.bind Test.spellings? else none with
      | none =>
          rw [known] at found
          cases found
          exact ⟨_, .head _, describes.mute _⟩
      | some among =>
          rw [known] at found
          cases found
          rw [Bool.cond_eq_ite] at known
          obtain ⟨capitals, known⟩ := Option.ite_none_right_eq_some.mp known
          obtain ⟨test, asked, spelled⟩ := Option.bind_eq_some_iff.mp known
          obtain ⟨h, holds⟩ := passed test asked
          obtain ⟨word, member, same⟩ := Test.spellings_sound spelled holds
          refine ⟨_, .head _, describes.add ?_⟩
          cases beq_iff_eq.mp capitals
          simpa [Piece.Says, Spelling.of, same] using member
  | write text =>
      cases found
      exact ⟨_, .head _, describes.add rfl⟩
  | gap =>
      cases found
      exact ⟨_, .head _, describes.gap⟩
  | @phrase _ _ _ phrases words spoken =>
      have own : c.spoken phrases = words := by rw [Cursor.spoken, spoken]
      have spoke : words ≠ [] → (v.speak phrases).Describes tokens
          (f.gap.write (" ".intercalate words)) d := by
        intro some
        subst own
        refine describes.speak ⟨inside, ?_, some⟩
        simp [Span.contains, Cursor.spokenSpan, spoken, begins]
      rw [voices, Bool.cond_eq_ite] at found
      split at found <;> cases found
      · rename_i begins
        obtain ⟨test, asked, starts⟩ := (Option.any_eq_true ..).mp begins
        obtain ⟨h, holds⟩ := passed test asked
        have some : words ≠ [] := own ▸ Test.starts_sound starts holds
        rw [if_neg some]
        exact ⟨_, .head _, spoke some⟩
      · split
        · exact ⟨v, .head _, describes⟩
        · rename_i some
          exact ⟨_, .tail _ (.head _), spoke some⟩
  | become real =>
      cases found
      exact ⟨_, .head _, fun _ same => Option.some.inj same, describes.value, describes.actions⟩
  | dissolve =>
      cases found
      exact ⟨_, .head _, fun _ same => Option.some.inj same, describes.value, describes.actions⟩
  | splice =>
      cases found
      refine ⟨_, .head _, .of_kind fun kind known => ?_⟩
      rw [Frame.splice_kind]
      exact describes.kind kind known
  | echo =>
      cases found
      obtain ⟨value, same⟩ := f.echo_eq
      rw [same]
      exact ⟨_, .head _, describes.mute value⟩

/-- The frame that a node around the last one starts with, and the frame without that one. -/
theorem wrapLast_describes (kind : NodeKind) (describes : v.Describes tokens f c) :
    (Voice.opened kind).anyParts.Describes tokens (f.wrapLast kind c).1 c ∧
      v.Describes tokens (f.wrapLast kind c).2 c := by
  rw [Frame.wrapLast]
  cases same : f.parts with
  | nil => exact ⟨(Voice.Describes.opened kind c).anyParts [], describes⟩
  | cons node parts =>
      have silent := Voice.Describes.opened_silent kind tokens
      refine ⟨.of_value (fun _ known => Option.some.inj known) (silent _),
        describes.kind, describes.value, ?_⟩
      intro all known other member
      exact describes.actions all known other (by rw [same]; exact .tail _ member)

/-- A frame that has been approved becomes a node that keeps the words of phrases. -/
theorem close_voiced {inner : List Voice} (describes : v.Describes tokens f d)
    (phrased : f.All (Node.Phrased tokens)) (approved : inner.all Voice.approved = true)
    (own : g.All (Node.Phrased tokens)) (heard : ∃ w ∈ inner, w.Describes tokens g d) :
    (f.close g d).All (Node.Phrased tokens) ∧
      ∃ w ∈ [v.close inner], w.Describes tokens (f.close g d) d := by
  obtain ⟨w, member, within⟩ := heard
  have allowed := List.all_eq_true.mp approved w member
  exact ⟨all_close phrased own fun kind isNode => within.phrased allowed isNode,
    _, .head _, describes.close member within⟩

theorem always_always (a : Grammar) (v : Voice) : a.always (a.always v) = a.always v := by
  simp only [always, Bool.cond_eq_ite]
  split <;> rfl

theorem voices_loop {test : Test} (found : voices (.loop test a) sure v = some vs) :
    a.spares false = true ∧
      ∃ body, voices a (some test) (a.always v) = some body ∧ vs = [a.always v] := by
  rw [voices, Bool.cond_eq_ite] at found
  split at found
  · obtain ⟨body, one, rfl⟩ := Option.map_eq_some_iff.mp found
    exact ⟨‹_›, body, one, rfl⟩
  · cases found

/-- What is known in every round of a loop stays true further on, of frames whose kind and value
do. -/
theorem always_describes (describes : v.Describes tokens f c) (start : g.start = f.start)
    (later : c.previous.stop ≤ d.previous.stop) (kind : g.kind = f.kind)
    (value : a.spares true = true → g.value = f.value) : (a.always v).Describes tokens g d := by
  have onward := describes.onward later
  rw [always, Bool.cond_eq_ite]
  split
  · exact .of_value (kind ▸ onward.kind) (start ▸ value ‹_› ▸ onward.value)
  · exact .of_kind (kind ▸ onward.kind)

/-- All that a rule reads has been followed, and it leaves the frame that it is read into alone. -/
structure Voiced (rules : Nonterminal → Grammar) : Prop where
  quiet : ∀ name, (rules name).spares true = true
  followed : ∀ name, (voices (rules name) none .anything).isSome = true

/-- Whatever is read by a grammar that has been followed, one of the voices describes it, and its
nodes keep the words of phrases. -/
theorem derives_voiced (voiced : Voiced rules) (derives : Derives rules a f c g d)
    (found : voices a sure v = some vs) (passed : Test.Passed sure c)
    (inside : c.tokens <:+ tokens) (ordered : c.Ordered size) (fitted : f.Fitted c)
    (phrased : f.All (Node.Phrased tokens)) (describes : v.Describes tokens f c) :
    g.All (Node.Phrased tokens) ∧ ∃ w ∈ vs, w.Describes tokens g d := by
  have later := derives.steps.path.previous_mono ordered
  induction derives generalizing sure v vs with
  | change changes =>
      exact ⟨changes.all phrased,
        changes.describes found passed inside fitted.begins later describes⟩
  | seq first second left right =>
      obtain ⟨before, one, rest⟩ := Option.bind_eq_some_iff.mp found
      have path := first.steps.path
      obtain ⟨own, w, member, here⟩ :=
        left one passed inside ordered fitted phrased describes (path.previous_mono ordered)
      obtain ⟨after, other, within⟩ := follow_mem rest member
      have next := path.ordered ordered
      obtain ⟨whole, u, last, there⟩ := right other (first.passed passed)
        (path.suffix.trans inside) next (steps_fitted first.steps ordered fitted) own here
        (second.steps.path.previous_mono next)
      exact ⟨whole, u, within last, there⟩
  | yes holds taken ih =>
      obtain ⟨yes, one, rest⟩ := Option.bind_eq_some_iff.mp found
      obtain ⟨no, other, rfl⟩ := Option.map_eq_some_iff.mp rest
      obtain ⟨own, w, member, here⟩ :=
        ih one (Test.passed_of_holds holds) inside ordered fitted phrased describes later
      exact ⟨own, w, List.mem_union_iff.mpr (.inl member), here⟩
  | no fails taken ih =>
      obtain ⟨yes, one, rest⟩ := Option.bind_eq_some_iff.mp found
      obtain ⟨no, other, rfl⟩ := Option.map_eq_some_iff.mp rest
      obtain ⟨own, w, member, here⟩ :=
        ih other (Test.passed_none _) inside ordered fitted phrased describes later
      exact ⟨own, w, List.mem_union_iff.mpr (.inr member), here⟩
  | @stop test a f c fails =>
      obtain ⟨kept, body, one, rfl⟩ := voices_loop found
      exact ⟨phrased, _, .head _, always_describes describes rfl later rfl fun _ => rfl⟩
  | @round test a f g h c d e holds once again left right =>
      obtain ⟨kept, body, one, rfl⟩ := voices_loop found
      have path := once.steps.path
      have moved := path.previous_mono ordered
      have start : (a.always v).Describes tokens f c :=
        always_describes describes rfl (Nat.le_refl _) rfl fun _ => rfl
      obtain ⟨own, -⟩ :=
        left one (Test.passed_of_holds holds) inside ordered fitted phrased start moved
      have next : (a.always v).Describes tokens g d :=
        always_describes describes once.steps.start_eq moved
          (once.spares voiced.quiet kept).1 fun spares => (once.spares voiced.quiet spares).2 rfl
      have rest : voices (.loop test a) none (a.always v) = some [a.always v] := by
        rw [voices, kept, cond_true, always_always, one]
        rfl
      have between := path.ordered ordered
      exact right rest (Test.passed_none _) (path.suffix.trans inside) between
        (steps_fitted once.steps ordered fitted) own next
        (again.steps.path.previous_mono between)
  | node real inner moved ih =>
      obtain ⟨within, body, closed⟩ := Option.bind_eq_some_iff.mp found
      rw [Bool.cond_eq_ite] at closed
      split at closed <;> cases closed
      rename_i approved
      obtain ⟨own, heard⟩ := ih body passed inside ordered (fitted_opened _ _)
        (all_opened _ _ _) (.opened _ _) later
      exact close_voiced (describes.onward later) phrased approved own heard
  | @wrap kind a f g c d real inner moved ih =>
      obtain ⟨within, body, closed⟩ := Option.bind_eq_some_iff.mp found
      rw [Bool.cond_eq_ite] at closed
      split at closed <;> cases closed
      rename_i approved
      obtain ⟨fresh, outer⟩ := wrapLast_describes kind describes
      obtain ⟨first, left⟩ := all_wrapLast kind c phrased
      obtain ⟨own, heard⟩ := ih body (Test.passed_none _) inside ordered
        (fitted_wrapLast kind ordered fitted).1 first fresh later
      exact close_voiced (outer.onward later) left approved own heard
  | discard inner ih =>
      cases found
      exact ⟨phrased, v, .head _, describes.onward later⟩
  | deeper shallow inner ih =>
      obtain ⟨own, w, member, here⟩ := ih found (Test.passed_none _) inside ordered
        ⟨fitted.begins, fitted.row⟩ phrased (describes.onward (Nat.le_refl _)) later
      exact ⟨own, w, member, here.onward (Nat.le_refl _)⟩
  | @call name f g c d ruled moved ih =>
      cases found
      obtain ⟨after, followed⟩ := Option.isSome_iff_exists.mp (voiced.followed name)
      obtain ⟨kind, value⟩ := ruled.spares voiced.quiet (voiced.quiet name)
      obtain ⟨own, -⟩ := ih followed (Test.passed_none _) inside ordered fitted phrased
        (.anything _ _) later
      have onward := describes.onward later
      exact ⟨own, _, .head _, .of_value (kind ▸ onward.kind)
        (ruled.steps.start_eq ▸ value rfl ▸ onward.value)⟩

/-- The power of an expression makes no difference to what is known after it. -/
theorem voices_expressionFrom (power : Nat) (v : Voice) :
    voices (expressionFrom power) none v = voices (expressionFrom 0) none v := rfl

theorem voiced_rules : Voiced Grammar.rules where
  quiet name := by cases name <;> rfl
  followed name := by
    cases name with
    | expression power =>
        rw [Grammar.rules, voices_expressionFrom]
        decide +kernel
    | query => decide +kernel
    | joinedTable => decide +kernel
    | createStatement => decide +kernel
    | group => decide +kernel
    | atomicBody => decide +kernel

theorem voiced_statement : (voices statement none .anything).isSome = true := by decide +kernel

/-- The nodes of a statement keep the words of phrases. -/
theorem derives_phrased {b : Cursor} (ordered : c.Ordered size) (inside : c.tokens <:+ tokens)
    (begins : b.current = c.current)
    (derives : Derives Grammar.rules statement (.opened none b) c g d) :
    g.All (Node.Phrased tokens) := by
  obtain ⟨after, followed⟩ := Option.isSome_iff_exists.mp voiced_statement
  have frame : Frame.opened none b = .opened none c := by rw [Frame.opened, begins, Frame.opened]
  rw [frame] at derives
  exact (derives_voiced voiced_rules derives followed (Test.passed_none _) inside ordered
    (fitted_opened none c) (all_opened _ none c) (.anything _ _)).1

end Grammar

end SqlAudit
