import Mathlib.Tactic.Linarith
import SqlAudit.Proofs.Sequence.Capacity
/-!
The capacity check in 128 bits. Every number of a sequence is given in 64 bits or is a default of
its type, so its range takes 66 bits with its sign. A chunk is a fourth of the range at most,
however few the routers, and that keeps its product with the increment within 127 bits.
-/
namespace SqlAudit.Sequence

variable {s : Sequence} {limits : Limits}

theorem fitsSigned_iff {bits : Nat} {n : Int} : Text.fitsSigned bits n = true ↔
    -2 ^ (bits - 1) ≤ n ∧ n < 2 ^ (bits - 1) := by
  rw [Text.fitsSigned, Bool.and_eq_true, decide_eq_true_iff, decide_eq_true_iff]
  rfl

/-- A result, if `bits` bits hold it. -/
def held (bits : Nat) (n : Int) : Option Int := Option.guard (Text.fitsSigned bits) n

/-- A quotient, if there is one and `bits` bits hold it. -/
def quotient? (bits : Nat) (n d : Int) : Option Int :=
  if d = 0 then none else held bits (n.tdiv d)

/-- How far the sequence can move. -/
def distance (s : Sequence) : Int :=
  if s.isAscending then s.maxValue - s.start else s.start - s.minValue

/-- The size, the chunk and the boundary as they come out of `bits`-bit arithmetic, one operation
after the other; nothing where a result does not fit or a divisor is zero. -/
def figures? (bits : Nat) (s : Sequence) (limits : Limits) : Option (Int × Int × Int) := do
  let distance ← held bits s.distance
  let size := max 0 (← held bits (distance + 1))
  let share ← quotient? bits size (← held bits (2 * limits.routers))
  let chunk := min (← quotient? bits share 2) limits.maxChunk
  let boundary ← held bits (s.increment * chunk)
  return (size, chunk, boundary)

theorem held_eq {n : Int} (low : -2 ^ 127 ≤ n) (high : n < 2 ^ 127) : held 128 n = some n := by
  rw [held, Option.guard_eq_some_iff]
  exact ⟨rfl, fitsSigned_iff.mpr ⟨low, high⟩⟩

theorem quotient?_eq {n d : Int} (nonneg : 0 ≤ n) (high : n < 2 ^ 127) (divisor : 0 < d) :
    quotient? 128 n d = some (n / d) := by
  have least : 0 ≤ n / d := Int.ediv_nonneg nonneg (by omega)
  have most : n / d ≤ n := Int.ediv_le_self d nonneg
  rw [quotient?, if_neg (by omega), Int.tdiv_eq_ediv_of_nonneg nonneg]
  exact held_eq (by omega) (by omega)

/-- A number of 64 bits, one of which is the sign. -/
def IsLong (n : Int) : Prop := -2 ^ 63 ≤ n ∧ n < 2 ^ 63

instance : DecidablePred IsLong := fun _ => inferInstanceAs (Decidable (_ ∧ _))

/-- Every number that a sequence is calculated from is one of 64 bits. -/
structure Long (s : Sequence) : Prop where
  increment : IsLong s.increment
  minValue : IsLong s.minValue
  maxValue : IsLong s.maxValue
  start : IsLong s.start

theorem Long.distance_bounds (long : s.Long) : -2 ^ 64 < s.distance ∧ s.distance < 2 ^ 64 := by
  obtain ⟨-, ⟨_, _⟩, ⟨_, _⟩, ⟨_, _⟩⟩ := long
  rw [distance]
  split <;> constructor <;> omega

theorem size_eq (s : Sequence) : s.size = max 0 (s.distance + 1) := by
  rw [size, distance]
  split <;> rfl

theorem Long.size_le (long : s.Long) : s.size ≤ 2 ^ 64 := by
  have distance := long.distance_bounds
  rw [size_eq]
  omega

theorem Long.chunk_le (long : s.Long) (routers : 0 < limits.routers)
    (chunks : 0 < limits.maxChunk) : s.chunk limits ≤ 2 ^ 62 := by
  have one : s.chunk limits ≤ s.chunk limits * limits.routers :=
    le_mul_of_one_le_right (s.chunk_nonneg routers chunks) routers
  have four := s.chunk_routers_le routers
  have size := long.size_le
  omega

theorem Long.boundary_bounds (long : s.Long) (routers : 0 < limits.routers)
    (chunks : 0 < limits.maxChunk) :
    -2 ^ 125 ≤ s.boundary limits ∧ s.boundary limits ≤ 2 ^ 125 := by
  have nonneg := s.chunk_nonneg routers chunks
  have most := long.chunk_le routers chunks
  obtain ⟨low, high⟩ := long.increment
  rw [boundary]
  constructor
  · calc
      -2 ^ 125 = -2 ^ 63 * 2 ^ 62 := by norm_num
      _ ≤ -2 ^ 63 * s.chunk limits := by omega
      _ ≤ s.increment * s.chunk limits := Int.mul_le_mul_of_nonneg_right low nonneg
  · calc
      s.increment * s.chunk limits ≤ 2 ^ 63 * s.chunk limits :=
        Int.mul_le_mul_of_nonneg_right high.le nonneg
      _ ≤ 2 ^ 63 * 2 ^ 62 := by omega
      _ = 2 ^ 125 := by norm_num

/-- Arithmetic in 128 bits comes to what exact arithmetic comes to. -/
theorem Long.figures (long : s.Long) (routers : 0 < limits.routers) (few : limits.routers < 2 ^ 63)
    (chunks : 0 < limits.maxChunk) :
    figures? 128 s limits = some (s.size, s.chunk limits, s.boundary limits) := by
  have distance := long.distance_bounds
  have bounds := long.boundary_bounds routers chunks
  have nonneg := s.size_nonneg
  have most := long.size_le
  have share : 0 ≤ s.size / (2 * limits.routers) := Int.ediv_nonneg nonneg (by omega)
  have less : s.size / (2 * limits.routers) ≤ s.size := Int.ediv_le_self _ nonneg
  have apart : held 128 s.distance = some s.distance := held_eq (by omega) (by omega)
  have counted : held 128 (s.distance + 1) = some (s.distance + 1) :=
    held_eq (by omega) (by omega)
  have twice : held 128 (2 * limits.routers) = some (2 * limits.routers) :=
    held_eq (by omega) (by omega)
  have shared : quotient? 128 s.size (2 * limits.routers) = some (s.size / (2 * limits.routers)) :=
    quotient?_eq nonneg (by omega) (by omega)
  have halved : quotient? 128 (s.size / (2 * limits.routers)) 2 =
      some (s.size / (2 * limits.routers) / 2) := quotient?_eq share (by omega) (by omega)
  have reached : held 128 (s.increment * min (s.size / (2 * limits.routers) / 2) limits.maxChunk) =
      some (s.boundary limits) :=
    held_eq (show _ ≤ s.boundary limits by omega) (show s.boundary limits < _ by omega)
  simp only [figures?, apart, counted, ← size_eq, twice, shared, halved, reached,
    Option.bind_eq_bind, Option.bind_some]
  rfl

namespace Options

/-- The options that a sequence is calculated from. -/
def numeric : List String := ["INCREMENT", "MINVALUE", "MAXVALUE", "START"]

/-- The numbers that the options of a node give are numbers of 64 bits. -/
def LongIn (node : Node) : Prop :=
  ∀ option ∈ node.childrenOf .sequenceOption, ∀ name ∈ numeric, option.value.getD "" = name →
    ∀ n ∈ (argument option name).toOption, IsLong n

instance : DecidablePred LongIn := fun _ => inferInstanceAs (Decidable (∀ _ ∈ _, ∀ _ ∈ _, _ → _))

/-- Every number given is one of 64 bits. -/
structure Long (options : Options) : Prop where
  increment : ∀ n ∈ options.increment, IsLong n
  minValue : ∀ n ∈ options.minValue, IsLong n
  maxValue : ∀ n ∈ options.maxValue, IsLong n
  start : ∀ n ∈ options.start, IsLong n

variable {options next : Options}

theorem empty_long : empty.Long := by
  constructor <;> simp [empty]

/-- An option changes nothing but its own number. -/
theorem add_long {option : Node} (long : options.Long)
    (given : ∀ name ∈ numeric, option.value.getD "" = name →
      ∀ n ∈ (argument option name).toOption, IsLong n)
    (added : options.add option = .ok next) : next.Long := by
  have read {name : String} {set : Int → Options}
      (mapped : (argument option name).map set = .ok next) :
      ∃ n ∈ (argument option name).toOption, next = set n := by
    cases argued : argument option name with
    | error fault =>
        rw [argued] at mapped
        cases mapped
    | ok n =>
        rw [argued] at mapped
        cases mapped
        exact ⟨n, rfl, rfl⟩
  rw [add] at added
  split at added
  case h_1 =>
    cases added
    exact ⟨long.increment, long.minValue, long.maxValue, long.start⟩
  case h_2 named =>
    obtain ⟨n, argued, rfl⟩ := read added
    have fits := given _ (by decide) named n argued
    exact ⟨by simpa using fits, long.minValue, long.maxValue, long.start⟩
  case h_3 named =>
    obtain ⟨n, argued, rfl⟩ := read added
    have fits := given _ (by decide) named n argued
    exact ⟨long.increment, by simpa using fits, long.maxValue, long.start⟩
  case h_4 named =>
    obtain ⟨n, argued, rfl⟩ := read added
    have fits := given _ (by decide) named n argued
    exact ⟨long.increment, long.minValue, by simpa using fits, long.start⟩
  case h_5 named =>
    obtain ⟨n, argued, rfl⟩ := read added
    have fits := given _ (by decide) named n argued
    exact ⟨long.increment, long.minValue, long.maxValue, by simpa using fits⟩
  case h_6 =>
    obtain ⟨n, -, rfl⟩ := read added
    exact ⟨long.increment, long.minValue, long.maxValue, long.start⟩
  case h_7 =>
    cases added
    exact long

theorem foldlM_long {list : List Node} (long : options.Long)
    (given : ∀ option ∈ list, ∀ name ∈ numeric, option.value.getD "" = name →
      ∀ n ∈ (argument option name).toOption, IsLong n)
    (read : list.foldlM add options = .ok next) : next.Long := by
  induction list generalizing options with
  | nil =>
      cases read
      exact long
  | cons option rest ih =>
      rw [List.foldlM_cons] at read
      cases added : options.add option with
      | error fault =>
          rw [added] at read
          cases read
      | ok between =>
          rw [added] at read
          apply ih (add_long long (given option (by simp)) added) _ read
          intro later mem
          exact given later (by simp [mem])

theorem ofNode_long {node : Node} (given : LongIn node) (read : ofNode node = .ok options) :
    options.Long :=
  foldlM_long empty_long given read

/-- The defaults of a type are numbers of 64 bits too. -/
theorem settle_long (long : options.Long) : options.settle.Long := by
  obtain ⟨low, high⟩ : IsLong (typeRange (options.dataType.getD "bigint")).1 ∧
      IsLong (typeRange (options.dataType.getD "bigint")).2 := by
    rw [typeRange]
    split_ifs <;> decide
  have or {given : Option Int} {default : Int} (each : ∀ n ∈ given, IsLong n)
      (fallback : IsLong default) : IsLong (given.getD default) := by
    cases given with
    | none => exact fallback
    | some n => exact each n rfl
  have either {up : Prop} [Decidable up] {n m : Int} (above : IsLong n) (below : IsLong m) :
      IsLong (if up then n else m) := by
    split
    · exact above
    · exact below
  have minValue : IsLong options.settle.minValue := or long.minValue (either (by decide) low)
  have maxValue : IsLong options.settle.maxValue := or long.maxValue (either high (by decide))
  exact ⟨or long.increment (by decide), minValue, maxValue,
    or long.start (either minValue maxValue)⟩

end Options

/-- No sequence of 64-bit numbers makes the check overflow: the size, twice the routers, the chunk
and the boundary lie within 128 bits, nothing is divided by zero, and each operation on the way to
them gives the exact result. -/
theorem figures_in_range (node : Node) (limits : Limits) (given : Options.LongIn node)
    (routers : 0 < limits.routers) (few : limits.routers < 2 ^ 63) (chunks : 0 < limits.maxChunk)
    (options : Options) (read : Options.ofNode node = .ok options) :
    (∀ n ∈ [options.settle.size, 2 * limits.routers, options.settle.chunk limits,
      options.settle.boundary limits], -2 ^ 127 ≤ n ∧ n < 2 ^ 127) ∧
    2 * limits.routers ≠ 0 ∧
    figures? 128 options.settle limits =
      some (options.settle.size, options.settle.chunk limits, options.settle.boundary limits) := by
  have long := Options.settle_long (Options.ofNode_long given read)
  have size := long.size_le
  have nonneg := options.settle.size_nonneg
  have chunk := long.chunk_le routers chunks
  have some := options.settle.chunk_nonneg routers chunks
  have boundary := long.boundary_bounds routers chunks
  refine ⟨?_, by omega, long.figures routers few chunks⟩
  simp only [List.forall_mem_cons]
  refine ⟨?_, ?_, ?_, ?_, by simp⟩ <;> omega

/-- The widest range and the largest step down: the boundary takes 126 bits. -/
theorem figures_in_range_widest :
    ∃ node ∈ (Script.read .postgres ("CREATE SEQUENCE s INCREMENT BY -9223372036854775808 " ++
        "MINVALUE -9223372036854775808 START WITH 9223372036854775807")).root.children,
      node.kind = .createSequence ∧ Options.LongIn node ∧
      ∃ options, Options.ofNode node = .ok options ∧
        options.settle.boundary ⟨1, 2 ^ 63 - 1, 16⟩ = -2 ^ 125 ∧
        -2 ^ 127 ≤ options.settle.boundary ⟨1, 2 ^ 63 - 1, 16⟩ ∧
        figures? 128 options.settle ⟨1, 2 ^ 63 - 1, 16⟩ =
          some (options.settle.size, options.settle.chunk ⟨1, 2 ^ 63 - 1, 16⟩,
            options.settle.boundary ⟨1, 2 ^ 63 - 1, 16⟩) := by
  obtain ⟨node, created, kind, given, options⟩ :
      ∃ node ∈ (Script.read .postgres ("CREATE SEQUENCE s INCREMENT BY -9223372036854775808 " ++
          "MINVALUE -9223372036854775808 START WITH 9223372036854775807")).root.children,
        node.kind = .createSequence ∧ Options.LongIn node ∧ Options.ofNode node =
          .ok ⟨none, some (-2 ^ 63), some (-2 ^ 63), none, some (2 ^ 63 - 1), none⟩ := by
    decide +kernel
  obtain ⟨range, -, figures⟩ := figures_in_range node ⟨1, 2 ^ 63 - 1, 16⟩ given (by decide)
    (by decide) (by decide) _ options
  exact ⟨node, created, kind, given, _, options, by decide +kernel, (range _ (by simp)).1, figures⟩

end SqlAudit.Sequence
