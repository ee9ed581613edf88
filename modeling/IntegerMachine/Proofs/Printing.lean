import IntegerMachine.Proofs.Console
import IntegerMachine.Proofs.Transcript

/-!
# What a console writes

Each time its machine comes back a console writes what is on the output, in order, and leaves nothing there. A fault of
the machine is answered before that: the words that the machine has written since its last line stay on the output
(`run_swallows`). Otherwise all words that have been written by the program have been written to the stream
(`run_prints`), and even after a fault the stream and the output together hold all of them.
-/
namespace IntegerMachine.Console
open Machine (Exchanges Runs)

variable {fuel : Nat} {ascii : Bool} {lines : List Line} {m left next : Machine} {written : String}
  {log events : Array Event}

/-- The words that the program writes while a console runs its machine on the given lines. -/
def emitted (fuel : Nat) (ascii : Bool) : List Line → Machine → List Word
  | lines, m =>
    m.wrote fuel ++
      match turn fuel ascii m with
      | some ⟨.ok .awaitingInput, m, _, _⟩ =>
        match lines with
        | [] => []
        | line :: rest =>
          match accept ascii m line with
          | .ok m => emitted fuel ascii rest m
          | .error _ => []
      | _ => []

/-- What a console that comes back has written and left: it began with the text `before`, and the words `due` were on
    the output or have been written by the program. -/
structure Prints (ascii : Bool) (before : String) (due : List Word) (program : String) (r : Result) : Prop where
  /-- The stream holds the first words, and the output what is left of them. -/
  accounted : ∃ printed, r.console.written = before ++ outputText ascii printed ∧ printed ++ r.machine.output = due
  /-- Nothing is left but by a fault. -/
  emptied : r.machine.output = [] ∨ ∃ ip text fault, r.result = .error (.machine (.faulted program ip text fault))

theorem Prints.of_printed {before : String} {due : List Word} {program : String} {r : Result}
    (printed : r.console.written = before ++ outputText ascii due) (nothing : r.machine.output = []) :
    Prints ascii before due program r :=
  ⟨⟨due, printed, by rw [nothing, List.append_nil]⟩, .inl nothing⟩

theorem turn_of_failed {failure : Failure} (resumed : m.resume fuel = some ⟨.error failure, left, events⟩) :
    turn fuel ascii m = some ⟨.error failure, left, "", events⟩ := by
  unfold turn
  rw [resumed]

/-- What is accepted is fed, and nothing else changes. -/
theorem exists_fed_of_accept {line : Line} (live : m.state.isTerminal = false)
    (accepted : accept ascii m line = .ok next) : ∃ words, next = m.fed words := by
  cases line with
  | none => cases accepted
  | some line =>
    cases spelled : lineWords ascii line with
    | error error =>
      have refused : accept ascii m (some line) = .error error := by
        simp only [accept, spelled]
        rfl
      cases refused.symm.trans accepted
    | ok words =>
      have fed : accept ascii m (some line) = .ok (m.fed words) := by
        simp only [accept, spelled, Machine.feedAll_of_live live]
        rfl
      exact ⟨words, Except.ok.inj (accepted.symm.trans fed)⟩

/-- A machine that fails is left with what it has written. -/
theorem runLines_of_failed {failure : Failure} (resumed : m.resume fuel = some ⟨.error failure, left, events⟩) :
    runLines fuel ascii lines m written log =
      some ⟨.error (.machine failure), left, ⟨lines, written, ascii⟩, log ++ events⟩ := by
  unfold runLines
  simp only [turn_of_failed resumed, String.append_empty]

theorem emitted_of_failed {failure : Failure} (resumed : m.resume fuel = some ⟨.error failure, left, events⟩) :
    emitted fuel ascii lines m = m.wrote fuel := by
  unfold emitted
  simp only [turn_of_failed resumed, List.append_nil]

theorem emitted_of_done {state : RunState} (resumed : m.resume fuel = some ⟨.ok state, left, events⟩)
    (stopped : state ≠ .awaitingInput) : emitted fuel ascii lines m = m.wrote fuel := by
  unfold emitted
  rw [turn_of_resumed resumed]
  cases state with
  | awaitingInput => exact absurd rfl stopped
  | initialising | running | ended | halted => exact List.append_nil _

theorem emitted_of_dry (resumed : m.resume fuel = some ⟨.ok .awaitingInput, left, events⟩) :
    emitted fuel ascii [] m = m.wrote fuel := by
  unfold emitted
  simp only [turn_of_resumed resumed, List.append_nil]

theorem emitted_of_line {line : Line} (resumed : m.resume fuel = some ⟨.ok .awaitingInput, left, events⟩) :
    emitted fuel ascii (line :: lines) m =
      m.wrote fuel ++
        match accept ascii left.drained line with
        | .ok next => emitted fuel ascii lines next
        | .error _ => [] := by
  rw [emitted]
  simp only [turn_of_resumed resumed]

/-- A machine that has failed was struck by a fault, and has not had its output taken. -/
theorem prints_of_failed {failure : Failure} (mode : m.config.mode = .cooperative) (live : m.state.isTerminal = false)
    (resumed : m.resume fuel = some ⟨.error failure, left, events⟩) :
    Prints ascii written (m.output ++ emitted fuel ascii lines m) m.name
      ⟨.error (.machine failure), left, ⟨lines, written, ascii⟩, log ++ events⟩ := by
  have run := (Machine.returns_resume_iff live).mp ⟨fuel, events, resumed⟩
  have config := m.launched_config
  obtain ⟨ip, text, fault, rfl⟩ := run.faulted_of_error ((congrArg Config.mode config).trans mode)
  have name : m.launched.name = m.name := congrArg Config.name config
  rw [emitted_of_failed resumed, ← (Machine.resume_exchanges resumed).output, name]
  refine ⟨⟨[], ?_, List.nil_append _⟩, .inr ⟨ip, text, fault, rfl⟩⟩
  simp [outputText]

/-- A machine that comes back well has its output printed. -/
theorem prints_of_resumed {state : RunState} {result : Except ConsoleError RunState} {last : Machine} {rest : List Line}
    {more : Array Event} (resumed : m.resume fuel = some ⟨.ok state, left, events⟩)
    (emits : emitted fuel ascii lines m = m.wrote fuel) (nothing : last.output = []) :
    Prints ascii written (m.output ++ emitted fuel ascii lines m) m.name
      ⟨result, last, ⟨rest, written ++ outputText ascii left.output, ascii⟩, more⟩ := by
  rw [emits, ← (Machine.resume_exchanges resumed).output]
  exact .of_printed rfl nothing

/-- What a console does with the next line is printed behind what has been printed by then. -/
theorem Prints.of_line {line : Line} {r : Result} (live : m.state.isTerminal = false)
    (resumed : m.resume fuel = some ⟨.ok .awaitingInput, left, events⟩)
    (accepted : accept ascii left.drained line = .ok next)
    (later : Prints ascii (written ++ outputText ascii left.output) (next.output ++ emitted fuel ascii lines next)
      next.name r) :
    Prints ascii written (m.output ++ emitted fuel ascii (line :: lines) m) m.name r := by
  have run := (Machine.returns_resume_iff live).mp ⟨fuel, events, resumed⟩
  obtain ⟨words, rfl⟩ := exists_fed_of_accept (drained_live run) accepted
  have name : (left.drained.fed words).name = m.name :=
    congrArg Config.name (run.follows.config.trans m.launched_config)
  obtain ⟨printed, console, rest⟩ := later.accounted
  have empty : (left.drained.fed words).output = [] := rfl
  rw [empty, List.nil_append] at rest
  refine ⟨⟨left.output ++ printed, ?_, ?_⟩, name ▸ later.emptied⟩
  · rw [console, outputText_append, String.append_assoc]
  · rw [emitted_of_line resumed, accepted, List.append_assoc, rest, (Machine.resume_exchanges resumed).output,
      List.append_assoc]

/-- A console whose machine does not ask for a line. -/
theorem runLines_prints_of_stopped {r : Result} (mode : m.config.mode = .cooperative)
    (live : m.state.isTerminal = false) (ran : runLines fuel ascii lines m written log = some r)
    (stopped : ¬ ∃ left events, m.resume fuel = some ⟨.ok .awaitingInput, left, events⟩) :
    Prints ascii written (m.output ++ emitted fuel ascii lines m) m.name r := by
  rcases resumed : m.resume fuel with _ | ⟨failure | state, left, events⟩
  · unfold runLines turn at ran
    rw [resumed] at ran
    cases ran
  · rw [runLines_of_failed resumed] at ran
    cases ran
    exact prints_of_failed mode live resumed
  · have rests : state ≠ .awaitingInput := by
      rintro rfl
      exact stopped ⟨left, events, resumed⟩
    rw [runLines_of_done resumed rests] at ran
    cases ran
    exact prints_of_resumed resumed (emitted_of_done resumed rests) rfl

theorem runLines_prints {r : Result} (mode : m.config.mode = .cooperative) (live : m.state.isTerminal = false)
    (ran : runLines fuel ascii lines m written log = some r) :
    Prints ascii written (m.output ++ emitted fuel ascii lines m) m.name r := by
  -- The lines that are left are read by a machine that has been fed the line before and has no output.
  induction lines generalizing m written log with
  | nil =>
    by_cases awaits : ∃ left events, m.resume fuel = some ⟨.ok .awaitingInput, left, events⟩
    · obtain ⟨left, events, resumed⟩ := awaits
      rw [runLines_of_dry resumed] at ran
      cases ran
      exact prints_of_resumed resumed (emitted_of_dry resumed) (Machine.halted_output _)
    · exact runLines_prints_of_stopped mode live ran awaits
  | cons line rest ih =>
    by_cases awaits : ∃ left events, m.resume fuel = some ⟨.ok .awaitingInput, left, events⟩
    · obtain ⟨left, events, resumed⟩ := awaits
      rw [runLines_of_line resumed] at ran
      have run := (Machine.returns_resume_iff live).mp ⟨fuel, events, resumed⟩
      cases accepted : accept ascii left.drained line with
      | error error =>
        rw [accepted] at ran
        cases ran
        refine prints_of_resumed resumed ?_ rfl
        rw [emitted_of_line resumed, accepted, List.append_nil]
      | ok next =>
        rw [accepted] at ran
        obtain ⟨words, rfl⟩ := exists_fed_of_accept (drained_live run) accepted
        have config : left.config = m.config := run.follows.config.trans m.launched_config
        have waits := drained_live run
        have live' : (left.drained.fed words).state.isTerminal = false := waits
        exact .of_line live resumed accepted (ih ((congrArg Config.mode config).trans mode) live' ran)
    · exact runLines_prints_of_stopped mode live ran awaits

/-- Take a cooperative machine that is not at rest. Whenever a console comes back from running it, the words that were
    on the output before and those that the program has written meanwhile have been written to the stream, one behind
    the other and after what was there, and the output is empty. If the program has come to a fault, the stream may lack
    the last of these words, which are on the output then. -/
theorem run_prints {console : Console} {r : Result} (mode : m.config.mode = .cooperative)
    (live : m.state.isTerminal = false) (ran : run fuel console m = some r) :
    (∃ printed, r.console.written = console.written ++ outputText console.ascii printed ∧
      printed ++ r.machine.output = m.output ++ emitted fuel console.ascii console.lines m) ∧
    (r.machine.output = [] ∨ ∃ ip text fault, r.result = .error (.machine (.faulted m.name ip text fault))) := by
  have prints := runLines_prints mode live ran
  exact ⟨prints.accounted, prints.emptied⟩

/-- A machine that writes a word, asks for one, writes another word and comes to a word that is no instruction. -/
def stumbling : Machine := .ofProgram [104, 200, 3, 0, 104, 300, 0] {}

/-- The word from before the line is printed, the one from before the fault is not. -/
theorem run_prints_stumbling :
    ∃ r, stumbling.config.mode = .cooperative ∧ stumbling.state.isTerminal = false ∧
      run 9 (ofText "a\n" true) stumbling = some r ∧
      emitted 9 true (ofText "a\n" true).lines stumbling = [200, 300] ∧
      r.console.written = "200\n" ∧ r.machine.output = [300] ∧
      ∃ printed, r.console.written = outputText true printed ∧ printed ++ r.machine.output = [200, 300] := by
  have emits : emitted 9 true (ofText "a\n" true).lines stumbling = [200, 300] := rfl
  obtain ⟨r, ran, written, output⟩ : ∃ r, run 9 (ofText "a\n" true) stumbling = some r ∧
      r.console.written = "200\n" ∧ r.machine.output = [300] := ⟨_, rfl, rfl, rfl⟩
  obtain ⟨⟨printed, console, due⟩, -⟩ := run_prints rfl rfl ran
  refine ⟨r, rfl, rfl, ran, emits, written, output, printed, ?_, ?_⟩
  · rw [console]
    exact String.empty_append
  · rw [due]
    exact emits

/-- A console may come back without having written all words that its program has. -/
theorem run_swallows :
    ¬ ∀ (m : Machine) (console : Console) (fuel : Nat) (r : Result), m.config.mode = .cooperative →
      m.state.isTerminal = false → run fuel console m = some r →
        r.console.written = console.written ++
            outputText console.ascii (m.output ++ emitted fuel console.ascii console.lines m) ∧
          r.machine.output = [] := by
  intro all
  obtain ⟨r, ran, output⟩ :
      ∃ r, run 9 (ofText "" false) (.ofProgram [104, 1, 104, 2, -1] { name := "test" }) = some r ∧
        r.machine.output = [1, 2] := ⟨_, rfl, rfl⟩
  obtain ⟨-, nothing⟩ := all _ _ 9 r rfl rfl ran
  rw [output] at nothing
  cases nothing

end IntegerMachine.Console
