import IntegerMachine.Encoding
import Mathlib.Data.Nat.Digits.Lemmas
import Mathlib.Tactic.IntervalCases

/-!
# What instruction words hold

An instruction word is read by its decimal digits (`Word.digitAt`): the two lowest are the code of an operation
(`Word.Holds`), and each argument has one above them for its mode. Decoding accepts exactly the words whose digits
are right, tells the first that is not, and gives back every instruction that has been encoded
(`Instruction.decode_exact`). It goes through the arguments one by one (`Instruction.argumentsBelow`).
-/
namespace IntegerMachine

/-- The decimal digit of a word at a place, the lowest being place zero. The sign is not looked at. -/
def Word.digitAt (w : Word) (place : Nat) : Nat := w.toInt.natAbs / 10 ^ place % 10

/-- The word is positive and its two lowest digits are the code of the operation. -/
def Word.Holds (w : Word) (op : Opcode) : Prop := 0 < w.toInt ∧ w.toInt % 100 = op.code

/-! ## The operation -/

theorem Opcode.code_bounds (op : Opcode) : 0 < op.code ∧ op.code < 100 := by
  cases op <;> decide

theorem Opcode.ofCode?_eq_some_iff {code : Nat} {op : Opcode} : ofCode? code = some op ↔ code = op.code := by
  constructor
  · intro found
    unfold ofCode? at found
    have same := List.find?_some found
    exact (beq_iff_eq.mp same).symm
  · rintro rfl
    exact ofCode?_code op

/-- A remainder toward zero that is the code of an operation is that of a positive word. -/
theorem Word.holds_iff {w : Word} {op : Opcode} : w.Holds op ↔ w.toInt.tmod 100 = op.code := by
  have code := op.code_bounds
  constructor
  · rintro ⟨positive, lowest⟩
    rw [Int.tmod_eq_emod_of_nonneg (by omega), lowest]
  · intro lowest
    have positive : 0 < w.toInt := by
      by_contra nonpositive
      have mirrored : (-w.toInt).tmod 100 = -(w.toInt.tmod 100) := Int.neg_tmod ..
      rw [Int.tmod_eq_emod_of_nonneg (by omega)] at mirrored
      omega
    exact ⟨positive, by rw [← lowest, Int.tmod_eq_emod_of_nonneg (by omega)]⟩

theorem Word.Holds.unique {w : Word} {op op' : Opcode} (holds : w.Holds op) (holds' : w.Holds op') : op = op' := by
  have same : op.code = op'.code := by
    have := holds.2
    have := holds'.2
    omega
  exact Option.some.inj ((Opcode.ofCode?_code op).symm.trans (same ▸ Opcode.ofCode?_code op'))

theorem Word.toSize?_remainder {w : Word} {op : Opcode} :
    (w % 100).toSize?.bind Opcode.ofCode? = some op ↔ w.Holds op := by
  have remainder : (w % 100).toInt = w.toInt.tmod 100 := Int64.toInt_mod w 100
  have code := op.code_bounds
  have negative : w % 100 < 0 ↔ (w % 100).toInt < 0 := Int64.lt_iff_toInt_lt
  rw [holds_iff, ← remainder, Option.bind_eq_some_iff]
  unfold toSize?
  constructor
  · rintro ⟨size, found, named⟩
    rw [Opcode.ofCode?_eq_some_iff] at named
    split at found
    · cases found
    · cases found
      omega
  · intro lowest
    have sized : ¬ w % 100 < 0 := fun below => by
      have := negative.mp below
      omega
    rw [if_neg sized]
    refine ⟨(w % 100).toInt.toNat, rfl, Opcode.ofCode?_eq_some_iff.mpr ?_⟩
    omega

theorem opcodeOf_of_holds {w : Word} {op : Opcode} (holds : w.Holds op) : opcodeOf w = .ok op := by
  unfold opcodeOf
  rw [Word.toSize?_remainder.mpr holds]

theorem opcodeOf_of_unheld {w : Word} (unheld : ∀ op, ¬ w.Holds op) : opcodeOf w = .error (.unknownOpcode w) := by
  unfold opcodeOf
  cases found : (w % 100).toSize?.bind Opcode.ofCode? with
  | none => rfl
  | some op => exact absurd (Word.toSize?_remainder.mp found) (unheld op)

/-! ## The modes -/

theorem Word.digitAt_lt (w : Word) (place : Nat) : w.digitAt place < 10 := Nat.mod_lt _ (by decide)

theorem toInt_modePlace {n : Nat} (inside : n < 3) : (modePlaces.getD n 0).toInt = 10 ^ (2 + n) := by
  interval_cases n <;> rfl

theorem digit_eq_ofNat {w : Word} (positive : 0 < w.toInt) {n : Nat} (inside : n < 3) :
    w / modePlaces.getD n 0 % 10 = Int64.ofNat (w.digitAt (2 + n)) := by
  have place := toInt_modePlace inside
  have digit := w.digitAt_lt (2 + n)
  have proper : modePlaces.getD n 0 ≠ -1 := by interval_cases n <;> decide
  rw [← Int64.toInt_inj, Int64.toInt_mod, Int64.toInt_div_of_ne_right _ _ proper, place,
    Int64.toInt_ofNat_of_lt (by omega), show (10 : Int64).toInt = 10 from rfl]
  rw [Int.tdiv_eq_ediv_of_nonneg (by omega), Int.tmod_eq_emod_of_nonneg (Int.ediv_nonneg (by omega) (by positivity))]
  unfold Word.digitAt
  push_cast
  rw [abs_of_pos positive]

/-- The digit of a mode as a number. -/
def Mode.figure (mode : Mode) : Nat := mode.digit.toInt.toNat

theorem Mode.figure_le_two (mode : Mode) : mode.figure ≤ 2 := by
  cases mode <;> decide

theorem Mode.digit_eq_ofNat (mode : Mode) : mode.digit = Int64.ofNat mode.figure := by
  cases mode <;> rfl

theorem Mode.figure_injective {mode mode' : Mode} (same : mode.figure = mode'.figure) : mode = mode' := by
  have digits : mode.digit = mode'.digit := by rw [digit_eq_ofNat, digit_eq_ofNat, same]
  exact Option.some.inj ((ofDigit?_digit mode).symm.trans (digits ▸ ofDigit?_digit mode'))

theorem modeAt_of_le {w : Word} (positive : 0 < w.toInt) {n : Nat} (inside : n < 3) (valid : w.digitAt (2 + n) ≤ 2) :
    ∃ mode : Mode, modeAt w (modePlaces.getD n 0) = .ok mode ∧ mode.figure = w.digitAt (2 + n) := by
  unfold modeAt
  rw [digit_eq_ofNat positive inside]
  generalize w.digitAt (2 + n) = digit at valid
  interval_cases digit
  · exact ⟨.position, rfl, rfl⟩
  · exact ⟨.immediate, rfl, rfl⟩
  · exact ⟨.relative, rfl, rfl⟩

theorem modeAt_of_gt {w : Word} (positive : 0 < w.toInt) {n : Nat} (inside : n < 3) (bad : 2 < w.digitAt (2 + n)) :
    modeAt w (modePlaces.getD n 0) = .error (.invalidMode w (Int64.ofNat (w.digitAt (2 + n)))) := by
  have digit := w.digitAt_lt (2 + n)
  unfold modeAt
  rw [digit_eq_ofNat positive inside]
  generalize w.digitAt (2 + n) = digit' at bad digit
  interval_cases digit' <;> rfl

namespace Instruction
variable {mem : Memory} {ip : Nat}

/-! ## The arguments -/

/-- The first arguments of the instruction at an address. -/
def argumentsBelow (mem : Memory) (ip : Nat) : Nat → Except Fault (List Argument)
  | 0 => .ok []
  | n + 1 => do
    let args ← argumentsBelow mem ip n
    let arg ← argumentAt mem (mem.peek ip) (ip + 1 + n) (modePlaces.getD n 0)
    return args ++ [arg]

/-- Once the operation is known, decoding is reading its arguments in order and binding it to them. -/
theorem decode_of_opcodeOf {op : Opcode} (found : opcodeOf (mem.peek ip) = .ok op) :
    (decode mem ip).map some = (argumentsBelow mem ip op.arity).map (bind? op) := by
  have first : argumentAt mem (mem.peek ip) (ip + 1 + 0) (modePlaces.getD 0 0) =
      argumentAt mem (mem.peek ip) (ip + 1) 100 := rfl
  have second : argumentAt mem (mem.peek ip) (ip + 1 + 1) (modePlaces.getD 1 0) =
      argumentAt mem (mem.peek ip) (ip + 2) 1000 := rfl
  have third : argumentAt mem (mem.peek ip) (ip + 1 + 2) (modePlaces.getD 2 0) =
      argumentAt mem (mem.peek ip) (ip + 3) 10000 := rfl
  unfold decode
  simp only [found]
  -- Which of the three reads are made depends on the operation, but each of them goes well or not by itself.
  rcases one : argumentAt mem (mem.peek ip) (ip + 1) 100 with _ | arg
  all_goals
    rcases two : argumentAt mem (mem.peek ip) (ip + 2) 1000 with _ | arg'
    all_goals
      rcases three : argumentAt mem (mem.peek ip) (ip + 3) 10000 with _ | arg''
      all_goals
        cases op
        all_goals
          simp only [Opcode.arity, argumentsBelow, first, second, third, one, two, three]
          rfl

theorem decode_of_refused {op : Opcode} {fault : Fault} (found : opcodeOf (mem.peek ip) = .ok op)
    (refused : argumentsBelow mem ip op.arity = .error fault) : decode mem ip = .error fault := by
  have decoded := decode_of_opcodeOf found
  rw [refused] at decoded
  cases result : decode mem ip with
  | ok i =>
    rw [result] at decoded
    cases decoded
  | error fault' =>
    rw [result] at decoded
    rw [Except.error.inj decoded]

theorem decode_of_read {op : Opcode} {args : List Argument} {i : Instruction}
    (found : opcodeOf (mem.peek ip) = .ok op) (read : argumentsBelow mem ip op.arity = .ok args)
    (bound : bind? op args = some i) : decode mem ip = .ok i := by
  have decoded := decode_of_opcodeOf found
  rw [read] at decoded
  cases result : decode mem ip with
  | ok i' =>
    rw [result] at decoded
    have same : some i' = bind? op args := Except.ok.inj decoded
    rw [bound] at same
    rw [Option.some.inj same]
  | error fault =>
    rw [result] at decoded
    cases decoded

theorem bind?_of_length {op : Opcode} {args : List Argument} (length : args.length = op.arity) :
    ∃ i, bind? op args = some i ∧ i.opcode = op ∧ i.arguments = args := by
  cases op with
  | add | multiply | lessThan | equals =>
    obtain ⟨lhs, rhs, dest, rfl⟩ := List.length_eq_three.mp length
    exact ⟨_, rfl, rfl, rfl⟩
  | jumpIfTrue | jumpIfFalse =>
    obtain ⟨condition, target, rfl⟩ := List.length_eq_two.mp length
    exact ⟨_, rfl, rfl, rfl⟩
  | input | output | adjustRelativeBase =>
    obtain ⟨arg, rfl⟩ := List.length_eq_one_iff.mp length
    exact ⟨_, rfl, rfl, rfl⟩
  | halt =>
    obtain rfl := List.length_eq_zero_iff.mp length
    exact ⟨_, rfl, rfl, rfl⟩

theorem eq_of_arguments {i i' : Instruction} (opcode : i.opcode = i'.opcode)
    (arguments : i.arguments = i'.arguments) : i = i' := by
  have bound := bind?_arguments i
  rw [opcode, arguments, bind?_arguments] at bound
  exact (Option.some.inj bound).symm

/-- The arguments stand in memory behind an instruction word, which has the digits of their modes. -/
def StandBehind (mem : Memory) (ip : Nat) (args : List Argument) : Prop :=
  ∀ n (inside : n < args.length),
    args[n].value = mem.peek (ip + 1 + n) ∧ args[n].mode.figure = (mem.peek ip).digitAt (2 + n)

theorem argumentsBelow_of_valid (positive : 0 < (mem.peek ip).toInt) {count : Nat} (few : count ≤ 3)
    (valid : ∀ n < count, (mem.peek ip).digitAt (2 + n) ≤ 2) :
    ∃ args, argumentsBelow mem ip count = .ok args ∧ args.length = count ∧ StandBehind mem ip args := by
  induction count with
  | zero => exact ⟨[], rfl, rfl, nofun⟩
  | succ count ih =>
    obtain ⟨args, read, length, stand⟩ := ih (by omega) fun n inside => valid n (by omega)
    obtain ⟨mode, found, figure⟩ := modeAt_of_le positive (by omega) (valid count (by omega))
    refine ⟨args ++ [⟨mem.peek (ip + 1 + count), mode⟩], ?_, by simp [length], fun n inside => ?_⟩
    · simp only [argumentsBelow, argumentAt, read, found]
      rfl
    · by_cases earlier : n < args.length
      · rw [List.getElem_append_left earlier]
        exact stand n earlier
      · have last : n = count := by
          simp only [List.length_append, List.length_singleton] at inside
          omega
        subst last
        rw [List.getElem_append_right (by omega)]
        simp only [length, Nat.sub_self, List.getElem_singleton]
        exact ⟨trivial, figure⟩

theorem argumentsBelow_of_invalid (positive : 0 < (mem.peek ip).toInt) {n count : Nat} (few : count ≤ 3)
    (inside : n < count) (bad : 2 < (mem.peek ip).digitAt (2 + n))
    (first : ∀ k < n, (mem.peek ip).digitAt (2 + k) ≤ 2) :
    argumentsBelow mem ip count =
      .error (.invalidMode (mem.peek ip) (Int64.ofNat ((mem.peek ip).digitAt (2 + n)))) := by
  induction count with
  | zero => cases inside
  | succ count ih =>
    by_cases earlier : n < count
    · simp only [argumentsBelow, ih (by omega) earlier]
      rfl
    · -- The last of these arguments is the first without a mode: those before it are read.
      obtain rfl : n = count := by omega
      obtain ⟨args, read, -, -⟩ := argumentsBelow_of_valid positive (by omega) first
      simp only [argumentsBelow, argumentAt, read, modeAt_of_gt positive (by omega) bad]
      rfl

/-! ## Decoding -/

theorem decode_of_unheld (unheld : ∀ op, ¬ (mem.peek ip).Holds op) :
    decode mem ip = .error (.unknownOpcode (mem.peek ip)) := by
  unfold decode
  simp only [opcodeOf_of_unheld unheld]
  rfl

theorem decode_of_valid {op : Opcode} (holds : (mem.peek ip).Holds op)
    (valid : ∀ n < op.arity, (mem.peek ip).digitAt (2 + n) ≤ 2) :
    ∃ i, decode mem ip = .ok i ∧ i.opcode = op ∧ StandBehind mem ip i.arguments := by
  obtain ⟨args, read, length, stand⟩ := argumentsBelow_of_valid holds.1 op.arity_le_three valid
  obtain ⟨i, bound, opcode, rfl⟩ := bind?_of_length length
  exact ⟨i, decode_of_read (opcodeOf_of_holds holds) read bound, opcode, stand⟩

theorem decode_of_invalid {op : Opcode} (holds : (mem.peek ip).Holds op) {n : Nat} (inside : n < op.arity)
    (bad : 2 < (mem.peek ip).digitAt (2 + n)) (first : ∀ k < n, (mem.peek ip).digitAt (2 + k) ≤ 2) :
    decode mem ip = .error (.invalidMode (mem.peek ip) (Int64.ofNat ((mem.peek ip).digitAt (2 + n)))) := by
  have refused := argumentsBelow_of_invalid holds.1 op.arity_le_three inside bad first
  exact decode_of_refused (opcodeOf_of_holds holds) refused

/-- Either each argument has the digit of a mode, or there is a first that has not. -/
theorem valid_or_first (w : Word) (count : Nat) :
    (∀ n < count, w.digitAt (2 + n) ≤ 2) ∨
      ∃ n < count, 2 < w.digitAt (2 + n) ∧ ∀ k < n, w.digitAt (2 + k) ≤ 2 := by
  by_cases some : ∃ n, n < count ∧ 2 < w.digitAt (2 + n)
  · obtain ⟨inside, bad⟩ := Nat.find_spec some
    refine .inr ⟨Nat.find some, inside, bad, fun k earlier => ?_⟩
    have valid := Nat.find_min some earlier
    omega
  · refine .inl fun n inside => ?_
    by_contra bad
    exact some ⟨n, inside, by omega⟩

/-- What can be decoded has a word with the right digits. -/
theorem valid_of_decode {i : Instruction} (decoded : decode mem ip = .ok i) :
    (mem.peek ip).Holds i.opcode ∧ (∀ n < i.opcode.arity, (mem.peek ip).digitAt (2 + n) ≤ 2) ∧
      StandBehind mem ip i.arguments := by
  by_cases held : ∃ op, (mem.peek ip).Holds op
  · obtain ⟨op, holds⟩ := held
    rcases valid_or_first (mem.peek ip) op.arity with valid | ⟨n, inside, bad, first⟩
    · obtain ⟨i', decoded', rfl, stand⟩ := decode_of_valid holds valid
      cases decoded.symm.trans decoded'
      exact ⟨holds, valid, stand⟩
    · cases decoded.symm.trans (decode_of_invalid holds inside bad first)
  · cases decoded.symm.trans (decode_of_unheld (not_exists.mp held))

theorem inside_of_decode {i : Instruction} (decoded : decode mem ip = .ok i) : ip < mem.size := by
  refine Nat.lt_of_not_le fun outside => ?_
  have holds := (valid_of_decode decoded).1
  rw [Memory.peek_of_size_le outside] at holds
  exact absurd holds.1 (by decide)

/-! ## Encoding -/

/-- The digits of the modes of some arguments. -/
def figures (args : List Argument) : List Nat := args.map fun arg => arg.mode.figure

theorem figures_lt_ten (args : List Argument) : ∀ figure ∈ figures args, figure < 10 := by
  intro figure member
  obtain ⟨arg, -, rfl⟩ := List.mem_map.mp member
  have := arg.mode.figure_le_two
  omega

theorem pack_eq_ofNat {places : List Word} (args : List Argument) (low weight : Nat)
    (tenfold : ∀ n < args.length, places[n]? = some (Int64.ofNat (weight * 10 ^ n))) :
    ((args.map Argument.mode).zip places).foldl (fun word (mode, place) => word + mode.digit * place)
        (Int64.ofNat low) =
      Int64.ofNat (low + weight * Nat.ofDigits 10 (figures args)) := by
  -- The word so far and the weight of the next place change from argument to argument.
  induction args generalizing places low weight with
  | nil => simp [figures]
  | cons arg args ih =>
    cases places with
    | nil => cases tenfold 0 (by simp)
    | cons place places =>
      have here : place = Int64.ofNat weight := by simpa using tenfold 0 (by simp)
      have later : ∀ n < args.length, places[n]? = some (Int64.ofNat (weight * 10 * 10 ^ n)) := fun n inside => by
        have next := tenfold (n + 1) (by simpa using inside)
        rwa [List.getElem?_cons_succ, pow_succ', ← mul_assoc] at next
      rw [List.map_cons, List.zip_cons_cons, List.foldl_cons, here]
      dsimp only
      rw [Mode.digit_eq_ofNat, ← Int64.ofNat_mul, ← Int64.ofNat_add, ih _ _ later]
      simp only [figures, List.map_cons, Nat.ofDigits_cons]
      congr 1
      ring

theorem encode_eq_ofNat {op : Opcode} {args : List Argument} (length : args.length = op.arity) :
    encode op (args.map Argument.mode) = Int64.ofNat (op.code + 100 * Nat.ofDigits 10 (figures args)) := by
  have few := op.arity_le_three
  have all : (args.map Argument.mode).take op.arity = args.map Argument.mode := by
    rw [← length, ← List.length_map Argument.mode, List.take_length]
  unfold encode
  rw [all]
  refine pack_eq_ofNat args _ _ fun n inside => ?_
  have known : n < 3 := by omega
  interval_cases n <;> rfl

theorem toInt_word (i : Instruction) :
    i.word.toInt = ((i.opcode.code + 100 * Nat.ofDigits 10 (figures i.arguments) : Nat) : Int) := by
  have few : (figures i.arguments).length ≤ 3 := by
    rw [figures, List.length_map, i.length_arguments]
    exact i.opcode.arity_le_three
  have bound := Nat.ofDigits_lt_base_pow_length (by decide : 1 < 10) (figures_lt_ten i.arguments)
  have thousand : 10 ^ (figures i.arguments).length ≤ 10 ^ 3 := Nat.pow_le_pow_right (by decide) few
  have code := i.opcode.code_bounds
  unfold word
  rw [encode_eq_ofNat i.length_arguments, Int64.toInt_ofNat_of_lt (by omega)]

theorem ofDigits_range (value count : Nat) :
    Nat.ofDigits 10 ((List.range count).map fun n => value / 10 ^ n % 10) = value % 10 ^ count := by
  induction count with
  | zero => simp [Nat.mod_one]
  | succ count ih =>
    rw [List.range_succ, List.map_append, Nat.ofDigits_append, ih, Nat.mod_pow_succ]
    simp

theorem digitAt_above {w : Word} {value : Nat} (same : w.toInt.natAbs / 100 = value) (n : Nat) :
    w.digitAt (2 + n) = value / 10 ^ n % 10 := by
  unfold Word.digitAt
  rw [pow_add, ← Nat.div_div_eq_div_mul, ← same, show 10 ^ 2 = 100 from rfl]

theorem toInt_word_of_decode {i : Instruction} (decoded : decode mem ip = .ok i) :
    i.word.toInt = (mem.peek ip).toInt % 10 ^ (2 + i.opcode.arity) := by
  obtain ⟨holds, valid, stand⟩ := valid_of_decode decoded
  obtain ⟨positive, lowest⟩ := holds
  obtain ⟨value, magnitude⟩ := Int.eq_ofNat_of_zero_le (Int.le_of_lt positive)
  have seen : figures i.arguments = (List.range i.opcode.arity).map fun n => value / 100 / 10 ^ n % 10 := by
    refine List.ext_getElem (by simp [figures, i.length_arguments]) fun n inside _ => ?_
    have known : n < i.arguments.length := by simpa [figures] using inside
    simp only [figures, List.getElem_map, List.getElem_range]
    rw [(stand n known).2]
    exact digitAt_above (by rw [magnitude]; rfl) n
  rw [toInt_word, seen, ofDigits_range, magnitude]
  rw [magnitude] at lowest
  have cut : value % 10 ^ (2 + i.opcode.arity) = value % 100 + 100 * (value / 100 % 10 ^ i.opcode.arity) := by
    rw [pow_add, Nat.mod_mul, show 10 ^ 2 = 100 from rfl]
  have code : value % 100 = i.opcode.code := by omega
  rw [← code, ← cut]
  push_cast
  rfl

theorem decode_of_word {i : Instruction} (word : mem.peek ip = i.word)
    (values : ∀ n (inside : n < i.arguments.length), mem.peek (ip + 1 + n) = i.arguments[n].value) :
    decode mem ip = .ok i := by
  have packed := toInt_word i
  rw [← word] at packed
  have code := i.opcode.code_bounds
  have holds : (mem.peek ip).Holds i.opcode := ⟨by omega, by omega⟩
  have figure : ∀ n (inside : n < i.arguments.length),
      (mem.peek ip).digitAt (2 + n) = i.arguments[n].mode.figure := by
    intro n inside
    have known : n < (figures i.arguments).length := by simpa [figures] using inside
    have modes : (mem.peek ip).toInt.natAbs / 100 = Nat.ofDigits 10 (figures i.arguments) := by omega
    rw [digitAt_above modes, Nat.ofDigits_div_pow_eq_ofDigits_drop n (by decide) _ (figures_lt_ten i.arguments),
      List.drop_eq_getElem_cons known, Nat.ofDigits_cons]
    have small := i.arguments[n].mode.figure_le_two
    simp only [figures, List.getElem_map]
    omega
  have valid : ∀ n < i.opcode.arity, (mem.peek ip).digitAt (2 + n) ≤ 2 := by
    intro n inside
    rw [← i.length_arguments] at inside
    rw [figure n inside]
    exact i.arguments[n].mode.figure_le_two
  obtain ⟨i', decoded, opcode, stand⟩ := decode_of_valid holds valid
  have length : i'.arguments.length = i.arguments.length := by rw [length_arguments, length_arguments, opcode]
  have same : i' = i := by
    refine eq_of_arguments opcode (List.ext_getElem length fun n inside inside' => ?_)
    obtain ⟨value, mode⟩ := stand n inside
    have modes : i'.arguments[n].mode = i.arguments[n].mode := Mode.figure_injective (mode.trans (figure n inside'))
    have raws : i'.arguments[n].value = i.arguments[n].value := value.trans (values n inside')
    calc
      i'.arguments[n] = ⟨i'.arguments[n].value, i'.arguments[n].mode⟩ := rfl
      _ = i.arguments[n] := by rw [modes, raws]
  rw [decoded, same]

/-- Decoding is exact, and undoes encoding. It succeeds exactly if the word is positive, its two lowest digits
    are the code of an operation, and the digit of each argument is that of a mode. The instruction then has
    this operation, the argument words that follow, the modes of the digits, and an instruction word that is
    the word without its higher digits. Otherwise the fault tells that there is no operation, or else the first
    digit that is no mode. And an instruction comes back wherever its word stands in front of its arguments. -/
theorem decode_exact (mem : Memory) (ip : Nat) :
    ((∃ i, decode mem ip = .ok i) ↔
      0 < (mem.peek ip).toInt ∧ ∃ op : Opcode, (mem.peek ip).toInt % 100 = op.code ∧
        ∀ n < op.arity, (mem.peek ip).digitAt (2 + n) ≤ 2) ∧
    (∀ i, decode mem ip = .ok i →
      (mem.peek ip).toInt % 100 = i.opcode.code ∧
      (∀ n (inside : n < i.arguments.length),
        i.arguments[n].value = mem.peek (ip + 1 + n) ∧
          i.arguments[n].mode.digit = Int64.ofNat ((mem.peek ip).digitAt (2 + n))) ∧
      i.word.toInt = (mem.peek ip).toInt % 10 ^ (2 + i.opcode.arity)) ∧
    ((∀ op : Opcode, (mem.peek ip).toInt.tmod 100 ≠ op.code) →
      decode mem ip = .error (.unknownOpcode (mem.peek ip))) ∧
    ((mem.peek ip).toInt ≤ 0 → ∀ op : Opcode, (mem.peek ip).toInt.tmod 100 ≠ op.code) ∧
    (∀ (op : Opcode) (n : Nat), (mem.peek ip).toInt.tmod 100 = op.code → n < op.arity →
      2 < (mem.peek ip).digitAt (2 + n) → (∀ k < n, (mem.peek ip).digitAt (2 + k) ≤ 2) →
        decode mem ip =
          .error (.invalidMode (mem.peek ip) (Int64.ofNat ((mem.peek ip).digitAt (2 + n))))) ∧
    (∀ i : Instruction, mem.peek ip = i.word →
      (∀ n (inside : n < i.arguments.length), mem.peek (ip + 1 + n) = i.arguments[n].value) →
        decode mem ip = .ok i) := by
  refine ⟨⟨?_, ?_⟩, fun i decoded => ?_, fun unknown => ?_, fun nonpositive op code => ?_, ?_, ?_⟩
  · rintro ⟨i, decoded⟩
    obtain ⟨holds, valid, -⟩ := valid_of_decode decoded
    exact ⟨holds.1, i.opcode, holds.2, valid⟩
  · rintro ⟨positive, op, lowest, valid⟩
    obtain ⟨i, decoded, -⟩ := decode_of_valid ⟨positive, lowest⟩ valid
    exact ⟨i, decoded⟩
  · obtain ⟨holds, -, stand⟩ := valid_of_decode decoded
    refine ⟨holds.2, fun n inside => ⟨(stand n inside).1, ?_⟩, toInt_word_of_decode decoded⟩
    rw [Mode.digit_eq_ofNat, (stand n inside).2]
  · exact decode_of_unheld fun op holds => unknown op (Word.holds_iff.mp holds)
  · have positive := (Word.holds_iff.mpr code).1
    omega
  · intro op n lowest inside bad first
    exact decode_of_invalid (Word.holds_iff.mpr lowest) inside bad first
  · intro i word values
    exact decode_of_word word values

/-- Digits above those of the arguments are cut off, argument words past the end of memory are zero, and of two
    digits that are no mode the lower one is told. -/
theorem decode_exact_cells :
    (∃ i, decode (.ofProgram [701002, 4] 5) 0 = .ok i ∧ i.word.toInt = 1002) ∧
      decode (.ofProgram [-1] 5) 0 = .error (.unknownOpcode (-1)) ∧
      decode (.ofProgram [54302] 5) 0 = .error (.invalidMode 54302 3) ∧
      decode (.ofProgram [0, 1002, 4, 3, 4] 5) 1 =
        .ok (.multiply ⟨4, .position⟩ ⟨3, .immediate⟩ ⟨4, .position⟩) := by
  obtain ⟨accepted, kept, -⟩ := decode_exact (.ofProgram [701002, 4] 5) 0
  obtain ⟨-, -, unknown, -⟩ := decode_exact (.ofProgram [-1] 5) 0
  obtain ⟨-, -, -, -, invalid, -⟩ := decode_exact (.ofProgram [54302] 5) 0
  obtain ⟨-, -, -, -, -, encoded⟩ := decode_exact (.ofProgram [0, 1002, 4, 3, 4] 5) 1
  obtain ⟨i, decoded⟩ := accepted.mpr ⟨by decide, .multiply, by decide, by decide⟩
  refine ⟨⟨i, decoded, ?_⟩, unknown fun op => ?_, ?_, ?_⟩
  · obtain ⟨lowest, -, word⟩ := kept i decoded
    have multiplies : i.opcode = .multiply := Word.Holds.unique ⟨by decide, lowest⟩ ⟨by decide, by decide⟩
    rw [word, multiplies]
    decide
  · cases op <;> decide
  · exact invalid .multiply 0 (by decide) (by decide) (by decide) (by decide)
  · exact encoded (.multiply ⟨4, .position⟩ ⟨3, .immediate⟩ ⟨4, .position⟩) (by decide) (by decide)

end Instruction

end IntegerMachine
