import IntegerMachine.Console
import IntegerMachine.Proofs.Bounds
import IntegerMachine.Proofs.ProgramText
import IntegerMachine.Proofs.Suspension

/-!
# Sessions at the console

A console reads its lines one at a time, whenever its machine has run out of input. What comes of it is what comes of
feeding the machine the words of all lines at once (`run_upFront`): the run on all words goes on where the run on the
lines up to now suspended, and a program that ends before the last line makes no use of what is left.

A run of a console that comes back well is a session (`Session`), whatever the bound on its cycles (`Session.run` and
`session_of_run`).
-/
namespace IntegerMachine.Console
open Machine (Runs SameProgress)

variable {ascii : Bool} {m left last copy : Machine} {state s : RunState} {lines : List Line} {ws : List Word}
  {text : String}

/-! ## Lines of numbers -/

/-- The words that lines of numbers spell. A blank line spells none. -/
inductive Spells : List Line → List Word → Prop
  | nil : Spells [] []
  | blank {line : String} {lines : List Line} {ws : List Word} (blank : line.toList.all Text.isBlank = true)
      (later : Spells lines ws) : Spells (some line :: lines) ws
  | words {line : String} {lines : List Line} {words ws : List Word} (parsed : ProgramText.parse line = .ok words)
      (later : Spells lines ws) : Spells (some line :: lines) (words ++ ws)

theorem isBlank_of_isDigit {c : Char} (digit : c.isDigit = true) : Text.isBlank c = false := by
  have decimal : 48 ≤ c.toNat ∧ c.toNat ≤ 57 := by simpa [Char.isDigit, UInt32.le_iff_toNat_le] using digit
  simp only [Text.isBlank, Text.blankRanges, List.any_cons, List.any_nil]
  grind

theorem exists_digit_of_digits {digits : List Char} (decimal : ProgramText.Digits digits) :
    ∃ c ∈ digits, c.isDigit = true := by
  obtain ⟨some, all⟩ := ProgramText.digits_iff.mp decimal
  obtain ⟨c, rest, rfl⟩ := List.exists_cons_of_ne_nil some
  exact ⟨c, by simp, all c (by simp)⟩

theorem exists_digit_of_program {cs : List Char} {words : List Word} (program : ProgramText.Program cs words) :
    ∃ c ∈ cs, c.isDigit = true := by
  cases program with
  | words _ named =>
    cases named with
    | plain decimal =>
      obtain ⟨c, member, digit⟩ := exists_digit_of_digits decimal
      exact ⟨c, by simp [member], digit⟩
    | negative decimal =>
      obtain ⟨c, member, digit⟩ := exists_digit_of_digits decimal
      exact ⟨c, by simp [member], digit⟩

theorem lineWords_of_blank {line : String} (blank : line.toList.all Text.isBlank = true) :
    lineWords false line = .ok [] := by
  simp [lineWords, blank]

/-- A line with a word on it is not blank. -/
theorem lineWords_of_parsed {line : String} {words : List Word} (parsed : ProgramText.parse line = .ok words) :
    lineWords false line = .ok words := by
  obtain ⟨c, member, digit⟩ := exists_digit_of_program (ProgramText.program_of_parseChars parsed)
  have dark : ¬ line.toList.all Text.isBlank = true := fun blank => by
    have blank' := List.all_eq_true.mp blank c member
    rw [isBlank_of_isDigit digit] at blank'
    cases blank'
  unfold lineWords
  rw [if_neg Bool.false_ne_true, if_neg dark, parsed]

/-- A word that has been written on a line is read back. -/
theorem parse_text (word : Word) : ProgramText.parse (word.text ++ "\n") = .ok [word] := by
  have program : ProgramText.Program ([] ++ word.text.toList ++ [] ++ ['\n']) [word] :=
    .words nofun (ProgramText.item_text word) .none (by simp [ProgramText.Blanks])
  have line : (word.text ++ "\n").toList = [] ++ word.text.toList ++ [] ++ ['\n'] := by simp
  unfold ProgramText.parse
  rw [line]
  exact ProgramText.parseChars_program program

/-- What the first of some lines spells is fed to a machine that is not at rest. -/
theorem Spells.cases_cons {line : Line} (spells : Spells (line :: lines) ws) :
    ∃ words rest, ws = words ++ rest ∧ Spells lines rest ∧
      ∀ m : Machine, m.state.isTerminal = false → accept false m line = .ok (m.fed words) := by
  have accepted {line : String} {words : List Word} (reads : lineWords false line = .ok words) (m : Machine)
      (live : m.state.isTerminal = false) : accept false m (some line) = .ok (m.fed words) := by
    simp only [accept, reads, Machine.feedAll_of_live live]
    rfl
  cases spells with
  | blank blank later => exact ⟨[], ws, rfl, later, accepted (lineWords_of_blank blank)⟩
  | @words _ _ words rest parsed later => exact ⟨words, rest, rfl, later, accepted (lineWords_of_parsed parsed)⟩

/-! ## Sessions -/

/-- A console that is given lines comes back with a run state, having changed its machine and written a text. -/
inductive Session (ascii : Bool) : List Line → Machine → RunState → Machine → String → Prop
  | done {lines : List Line} {m left : Machine} {state : RunState} (resumed : Returns (m.resume ·) (.ok state) left)
      (stopped : state ≠ .awaitingInput) : Session ascii lines m state left.drained (outputText ascii left.output)
  | dry {m left : Machine} (resumed : Returns (m.resume ·) (.ok .awaitingInput) left) :
      Session ascii [] m left.drained.halted.state left.drained.halted (outputText ascii left.output)
  | line {line : Line} {lines : List Line} {m left next last : Machine} {state : RunState} {text : String}
      (resumed : Returns (m.resume ·) (.ok .awaitingInput) left)
      (accepted : accept ascii left.drained line = .ok next) (later : Session ascii lines next state last text) :
      Session ascii (line :: lines) m state last (outputText ascii left.output ++ text)

theorem halt_machine (m : Machine) (silent : Bool) : (m.halt silent).machine = m.halted := by
  unfold Machine.halt Machine.halted Machine.mapChannel
  rcases halted : m.channel.halt with ⟨_ | _, channel⟩ <;> simp only [halted]

section
variable {fuel : Nat} {events log : Array Event} {written : String}

theorem turn_of_resumed (resumed : m.resume fuel = some ⟨.ok state, left, events⟩) :
    turn fuel ascii m = some ⟨.ok state, left.drained, outputText ascii left.output, events⟩ := by
  unfold turn
  rw [resumed]
  rfl

theorem runLines_of_done (resumed : m.resume fuel = some ⟨.ok state, left, events⟩) (stopped : state ≠ .awaitingInput) :
    runLines fuel ascii lines m written log =
      some ⟨.ok state, left.drained, ⟨lines, written ++ outputText ascii left.output, ascii⟩, log ++ events⟩ := by
  unfold runLines
  simp only [turn_of_resumed resumed, if_neg stopped]

theorem runLines_of_dry (resumed : m.resume fuel = some ⟨.ok .awaitingInput, left, events⟩) :
    runLines fuel ascii [] m written log =
      some ⟨.ok left.drained.halted.state, left.drained.halted, ⟨[], written ++ outputText ascii left.output, ascii⟩,
        log ++ events ++ (endOfInput left.drained).events⟩ := by
  unfold runLines
  simp only [turn_of_resumed resumed, if_pos, endOfInput, halt_machine]
  rfl

theorem runLines_of_line {line : Line} (resumed : m.resume fuel = some ⟨.ok .awaitingInput, left, events⟩) :
    runLines fuel ascii (line :: lines) m written log =
      match accept ascii left.drained line with
      | .ok next => runLines fuel ascii lines next (written ++ outputText ascii left.output) (log ++ events)
      | .error error =>
        some ⟨.error error, left.drained, ⟨lines, written ++ outputText ascii left.output, ascii⟩, log ++ events⟩ := by
  rw [runLines]
  cases accepted : accept ascii left.drained line <;> simp only [turn_of_resumed resumed, if_pos, accepted]

/-- A console only comes back well if its machine does. -/
theorem resumed_of_run {r : Result} (ran : runLines fuel ascii lines m written log = some r) (well : r.result = .ok s) :
    ∃ state left events, m.resume fuel = some ⟨.ok state, left, events⟩ := by
  unfold runLines at ran
  rcases resumed : m.resume fuel with _ | ⟨failure | state, left, events⟩
  · simp only [turn, resumed] at ran
    cases ran
  · simp only [turn, resumed] at ran
    cases ran
    cases well
  · exact ⟨state, left, events, rfl⟩

/-- A session is found with every bound from some bound on. -/
theorem Session.run (session : Session ascii lines m state last text) :
    ∃ bound, ∀ written log, ∃ r : Result,
      (∀ fuel, bound ≤ fuel → runLines fuel ascii lines m written log = some r) ∧
      r.result = .ok state ∧ r.machine = last ∧ r.console.written = written ++ text := by
  induction session with
  | done resumed stopped =>
    obtain ⟨bound, events, resumed⟩ := resumed
    refine ⟨bound, fun written log => ?_⟩
    exact ⟨_, fun fuel enough => runLines_of_done (Machine.resume_mono resumed enough) stopped, rfl, rfl, rfl⟩
  | dry resumed =>
    obtain ⟨bound, events, resumed⟩ := resumed
    refine ⟨bound, fun written log => ?_⟩
    exact ⟨_, fun fuel enough => runLines_of_dry (Machine.resume_mono resumed enough), rfl, rfl, rfl⟩
  | @line line lines m left next last state text resumed accepted later ih =>
    obtain ⟨bound, events, resumed⟩ := resumed
    obtain ⟨bound', found⟩ := ih
    refine ⟨bound + bound', fun written log => ?_⟩
    obtain ⟨r, ran, result, machine, console⟩ := found (written ++ outputText ascii left.output) (log ++ events)
    refine ⟨r, fun fuel enough => ?_, result, machine, by rw [console, String.append_assoc]⟩
    rw [runLines_of_line (Machine.resume_mono resumed (by omega)), accepted]
    exact ran fuel (by omega)

theorem session_of_run {r : Result} (ran : runLines fuel ascii lines m written log = some r)
    (well : r.result = .ok state) :
    ∃ text, Session ascii lines m state r.machine text ∧ r.console.written = written ++ text := by
  induction lines generalizing m written log with
  | nil =>
    obtain ⟨came, left, events, resumed⟩ := resumed_of_run ran well
    by_cases awaiting : came = .awaitingInput
    · subst awaiting
      rw [runLines_of_dry resumed] at ran
      cases ran
      cases well
      exact ⟨_, .dry ⟨fuel, events, resumed⟩, rfl⟩
    · rw [runLines_of_done resumed awaiting] at ran
      cases ran
      cases well
      exact ⟨_, .done ⟨fuel, events, resumed⟩ awaiting, rfl⟩
  | cons line lines ih =>
    obtain ⟨came, left, events, resumed⟩ := resumed_of_run ran well
    by_cases awaiting : came = .awaitingInput
    · subst awaiting
      rw [runLines_of_line resumed] at ran
      rcases accepted : accept ascii left.drained line with error | next
      · rw [accepted] at ran
        cases ran
        cases well
      · rw [accepted] at ran
        obtain ⟨text, session, console⟩ := ih ran
        exact ⟨_, .line ⟨fuel, events, resumed⟩ accepted session, by rw [console, String.append_assoc]⟩
    · rw [runLines_of_done resumed awaiting] at ran
      cases ran
      cases well
      exact ⟨_, .done ⟨fuel, events, resumed⟩ awaiting, rfl⟩

end

/-! ## Feeding everything up front -/

/-- How a session ends, beside a run of its machine on all words at once that comes to the run state `s` and leaves
    `copy`. -/
structure UpFront (s : RunState) (copy : Machine) (state : RunState) (last : Machine) (text : String) : Prop where
  ends : (s = .ended ∧ state = .ended) ∨ (s = .awaitingInput ∧ state = .halted)
  stays : last.state = state
  wrote : text = outputText false copy.output
  progress : SameProgress copy last

theorem outputText_append (ascii : Bool) (words more : List Word) :
    outputText ascii (words ++ more) = outputText ascii words ++ outputText ascii more := by
  simp [outputText]

/-- A machine that has run out of input and is fed a line goes on as it does on the words of all lines, but for the
    output that has been written by then. -/
theorem runs_line_iff (suspends : m.Suspends) (live : m.state.isTerminal = false)
    (run : Runs m.launched (.ok .awaitingInput) left) (words rest : List Word) {result : Except Failure RunState} :
    Runs (m.launched.fed (words ++ rest)) result copy ↔
      ∃ copy', Runs ((left.drained.fed words).launched.fed rest) result copy' ∧ copy = copy'.holding left.output := by
  rw [run.fed_of_starved (suspends.of_config m.launched_config) (Machine.launched_running live),
    left.launched_fed_eq_holding, Machine.runs_holding_iff, Machine.launched_fed, Machine.fed_fed]

theorem drained_live (run : Runs m.launched (.ok .awaitingInput) left) : left.drained.state.isTerminal = false := by
  have awaiting : left.drained.state = .awaitingInput := run.state_ok.1
  rw [awaiting]
  rfl

theorem drained_fed_suspends {result : Except Failure RunState} (suspends : m.Suspends)
    (run : Runs m.launched result left) (words : List Word) : (left.drained.fed words).Suspends :=
  suspends.of_config (run.follows.config.trans m.launched_config)

/-- A session does to its machine what a run does on the words of all lines. -/
theorem Session.upFront (session : Session false lines m state last text) (suspends : m.Suspends)
    (live : m.state.isTerminal = false) (spells : Spells lines ws) :
    ∃ s copy, Runs (m.launched.fed ws) (.ok s) copy ∧ UpFront s copy state last text := by
  induction session generalizing ws with
  | @done lines m left state resumed stopped =>
    have run := (Machine.returns_resume_iff live).mp resumed
    have suspends' := suspends.of_config m.launched_config
    have ended : state = .ended :=
      (run.state_of_ok suspends'.mode (Machine.launched_running live)).resolve_right stopped
    refine ⟨state, left.fed ws, run.fed_of_served suspends' (fun came => stopped (Except.ok.inj came)) ws, ?_⟩
    exact ⟨.inl ⟨ended, ended⟩, run.state_ok.1, rfl, ⟨rfl, rfl, rfl, rfl, rfl, rfl⟩⟩
  | @dry m left resumed =>
    cases spells
    have run := (Machine.returns_resume_iff live).mp resumed
    refine ⟨.awaitingInput, left, ?_, ?_⟩
    · rw [Machine.fed_nil]
      exact run
    · rw [Machine.halted_of_live (drained_live run)]
      exact ⟨.inr ⟨rfl, rfl⟩, rfl, rfl, ⟨rfl, rfl, rfl, rfl, rfl, rfl⟩⟩
  | @line line lines m left next last state text resumed accepted later ih =>
    obtain ⟨words, rest, rfl, spells', accepts⟩ := spells.cases_cons
    have run := (Machine.returns_resume_iff live).mp resumed
    have awaiting := drained_live run
    obtain rfl : next = left.drained.fed words := Except.ok.inj (accepted.symm.trans (accepts _ awaiting))
    have live' : (left.drained.fed words).state.isTerminal = false := awaiting
    obtain ⟨s, copy, run', ends⟩ := ih (drained_fed_suspends suspends run words) live' spells'
    refine ⟨s, copy.holding left.output, (runs_line_iff suspends live run words rest).mpr ⟨copy, run', rfl⟩, ?_⟩
    refine ⟨ends.ends, ends.stays, ?_, ends.progress.mapChannel _⟩
    rw [Machine.output_holding, outputText_append, ends.wrote]

/-- A machine that comes back well when it has been fed everything has a session. -/
theorem exists_session (spells : Spells lines ws) (suspends : m.Suspends) (live : m.state.isTerminal = false)
    (run : Runs (m.launched.fed ws) (.ok s) copy) : ∃ state last text, Session false lines m state last text := by
  induction lines generalizing m ws copy with
  | nil =>
    obtain ⟨came, left, first⟩ := run.exists_ok_of_fed (suspends.of_config m.launched_config)
    have resumed := (Machine.returns_resume_iff live).mpr first
    by_cases awaiting : came = .awaitingInput
    · subst awaiting
      exact ⟨_, _, _, .dry resumed⟩
    · exact ⟨_, _, _, .done resumed awaiting⟩
  | cons line lines ih =>
    obtain ⟨came, left, first⟩ := run.exists_ok_of_fed (suspends.of_config m.launched_config)
    have resumed := (Machine.returns_resume_iff live).mpr first
    by_cases awaiting : came = .awaitingInput
    · subst awaiting
      obtain ⟨words, rest, rfl, spells', accepts⟩ := spells.cases_cons
      obtain ⟨copy', later, -⟩ := (runs_line_iff suspends live first words rest).mp run
      have waits := drained_live first
      have live' : (left.drained.fed words).state.isTerminal = false := waits
      obtain ⟨state, last, text, session⟩ := ih spells' (drained_fed_suspends suspends first words) live' later
      exact ⟨state, last, _, .line resumed (accepts _ waits) session⟩
    · exact ⟨_, _, _, .done resumed awaiting⟩

/-- A console comes back on a text if its machine does on all words of that text. -/
theorem run_of_runs (spells : Spells (ofText text false).lines ws) (suspends : m.Suspends)
    (live : m.state.isTerminal = false) (all : Runs (m.launched.fed ws) (.ok s) copy) :
    ∃ bound, ∃ r : Result, ∃ state, (∀ fuel, bound ≤ fuel → run fuel (ofText text false) m = some r) ∧
      r.result = .ok state ∧ UpFront s copy state r.machine r.console.written := by
  obtain ⟨state, last, wrote, session⟩ := exists_session spells suspends live all
  obtain ⟨s', copy', all', ends⟩ := session.upFront suspends live spells
  obtain ⟨same, rfl⟩ := all.unique all'
  cases same
  obtain ⟨bound, found⟩ := session.run
  obtain ⟨r, ran, result, rfl, written⟩ := found "" #[]
  rw [String.empty_append] at written
  exact ⟨bound, r, state, ran, result, written ▸ ends⟩

/-- If a console comes back on a text, so does its machine on all words of that text. -/
theorem runs_of_run (spells : Spells (ofText text false).lines ws) (suspends : m.Suspends)
    (live : m.state.isTerminal = false) {fuel : Nat} {r : Result} (ran : run fuel (ofText text false) m = some r)
    (well : r.result = .ok state) :
    ∃ s copy, Runs (m.launched.fed ws) (.ok s) copy ∧ UpFront s copy state r.machine r.console.written := by
  obtain ⟨wrote, session, written⟩ := session_of_run ran well
  have console : r.console.written = wrote := written.trans String.empty_append
  rw [console]
  exact session.upFront suspends live spells

/-- What a console writes is each word on a line of its own. -/
theorem outputText_false (words : List Word) :
    outputText false words = String.join (words.map fun word => word.text ++ "\n") := by
  have plain : wordText false = fun word => word.text ++ "\n" := funext fun _ => if_neg (by simp)
  rw [outputText, plain]

/-- Reading lines of numbers one at a time makes no difference. Take a machine that suspends when it lacks input and
    is not at rest, and let a copy of it that is fed some words all at once come back well. Then the copy has ended or
    awaits input, and a console comes back on every text that spells these words, however they are divided into lines
    and whatever blank lines there are: it has ended the machine or halted it, has written every word that the copy
    has, each on a line, and leaves the machine as far as the copy has got. -/
theorem run_upFront (suspends : m.Suspends) (live : m.state.isTerminal = false) {channel : Channel}
    (fed : m.channel.feedAll ws = .ok channel)
    (resumed : Returns (({ m with channel } : Machine).resume ·) (.ok s) copy) :
    (s = .ended ∨ s = .awaitingInput) ∧
    ∀ text, Spells (ofText text false).lines ws →
      ∃ bound, ∃ r : Result, (∀ fuel, bound ≤ fuel → run fuel (ofText text false) m = some r) ∧
        r.result = .ok (if s = .ended then .ended else .halted) ∧
        r.machine.state = (if s = .ended then .ended else .halted) ∧
        r.console.written = String.join (copy.output.map fun word => word.text ++ "\n") ∧
        SameProgress copy r.machine := by
  obtain rfl : channel = (m.fed ws).channel := Except.ok.inj (fed.symm.trans (Machine.feedAll_of_live live ws))
  have all : Runs (m.launched.fed ws) (.ok s) copy := (Machine.returns_fed_iff live).mp resumed
  have suspends' : (m.launched.fed ws).Suspends := suspends.of_config m.launched_config
  have settled := all.state_of_ok suspends'.mode (Machine.launched_running live)
  refine ⟨settled, fun text spells => ?_⟩
  obtain ⟨bound, r, state, ran, result, ends⟩ := run_of_runs spells suspends live all
  have came : state = if s = .ended then .ended else .halted := by
    rcases ends.ends with ⟨rfl, rfl⟩ | ⟨rfl, rfl⟩ <;> rfl
  refine ⟨bound, r, ran, ?_, ?_, ?_, ends.progress⟩
  · rw [result, came]
  · rw [ends.stays, came]
  · rw [ends.wrote, outputText_false]

/-- A machine that writes the sum of two words. -/
def sum : Machine := .ofProgram [3, 11, 3, 12, 1, 11, 12, 11, 4, 11, 99, 0, 0] {}

/-- The words stand on lines of their own, with a blank line between them. -/
theorem run_upFront_sum :
    ∃ channel copy bound r, sum.Suspends ∧ sum.channel.feedAll [20, 22] = .ok channel ∧
      Returns (({ sum with channel } : Machine).resume ·) (.ok .ended) copy ∧
      Spells (ofText "20\n \n22\n" false).lines [20, 22] ∧
      (∀ fuel, bound ≤ fuel → run fuel (ofText "20\n \n22\n" false) sum = some r) ∧
      r.result = .ok .ended ∧ r.console.written = "42\n" ∧ SameProgress copy r.machine := by
  have suspends : sum.Suspends := ⟨rfl, rfl⟩
  have first : ProgramText.parse "20\n" = .ok [20] := parse_text 20
  have second : ProgramText.parse "22\n" = .ok [22] := parse_text 22
  have spells : Spells (ofText "20\n \n22\n" false).lines [20, 22] := .words first (.blank rfl (.words second .nil))
  obtain ⟨copy, resumed, output⟩ : ∃ copy, Returns ((sum.fed [20, 22]).resume ·) (.ok .ended) copy ∧
    copy.output = [42] := ⟨_, ⟨20, _, rfl⟩, rfl⟩
  obtain ⟨-, comes⟩ := run_upFront suspends rfl rfl resumed
  obtain ⟨bound, r, ran, result, -, written, progress⟩ := comes _ spells
  rw [output] at written
  exact ⟨_, copy, bound, r, suspends, rfl, resumed, spells, ran, result, written, progress⟩

end IntegerMachine.Console
