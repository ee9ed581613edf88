import IntegerMachine.Proofs.Rereading

/-!
# Lines that are no numbers

A console that reads numbers comes back when it has read a line that stands for none, with an error that concerns the
line and not the machine. By then the machine has done what the lines in front of that one make it do, and awaits more
(`runLines_refused`). The console can be run again, and goes on with the line behind as it would have done by itself
(`runLines_again`): done as often as a line is bad, that comes to what one run comes to on a text without the bad lines
(`run_skips`).
-/
namespace IntegerMachine.Console
open Machine (Runs)

variable {ascii : Bool} {fuel : Nat} {m left : Machine} {lines : List Line} {written : String}
  {log events : Array Event} {e : ProgramText.Error}

/-! ## Bad lines -/

/-- A console for numbers refuses a line that is neither blank nor made of numbers. -/
def isBad (line : String) : Bool :=
  match lineWords false line with
  | .ok _ => false
  | .error _ => true

theorem isBad_cases (line : String) :
    (isBad line = false ∧ ∃ words, lineWords false line = .ok words) ∨
    (isBad line = true ∧ ∃ e, lineWords false line = .error (.line e)) := by
  unfold isBad
  cases read : lineWords false line with
  | ok words => exact .inl ⟨rfl, words, rfl⟩
  | error error =>
    unfold lineWords at read
    rw [if_neg Bool.false_ne_true] at read
    split at read
    · cases read
    · split at read
      · cases read
      · cases read
        exact .inr ⟨rfl, _, rfl⟩

/-- A bad line changes nothing. -/
theorem accept_of_bad {line : String} {error : ConsoleError} (refused : lineWords ascii line = .error error)
    (m : Machine) : accept ascii m (some line) = .error error := by
  simp only [accept, refused]
  rfl

/-! ## How a line is refused -/

/-- A console whose machine does not ask for a line does the same on all lines, and refuses none. -/
theorem runLines_of_stopped (ascii : Bool)
    (stopped : ¬ ∃ left events, m.resume fuel = some ⟨.ok .awaitingInput, left, events⟩) :
    (∀ lines written log, runLines fuel ascii lines m written log = none) ∨
    ∃ result last text events, (∀ e, result ≠ .error (.line e)) ∧ ∀ lines written log,
      runLines fuel ascii lines m written log =
        some ⟨result, last, ⟨lines, written ++ text, ascii⟩, log ++ events⟩ := by
  rcases resumed : m.resume fuel with _ | ⟨failure | state, left, events⟩
  · left
    intro lines written log
    unfold runLines turn
    rw [resumed]
  · refine .inr ⟨.error (.machine failure), left, "", events, ?_, ?_⟩
    · intro e same
      cases same
    · intro lines written log
      rw [runLines_of_failed resumed, String.append_empty]
  · have rests : state ≠ .awaitingInput := by
      rintro rfl
      exact stopped ⟨left, events, resumed⟩
    refine .inr ⟨.ok state, left.drained, outputText ascii left.output, events, ?_, ?_⟩
    · intro e same
      cases same
    · intro lines written log
      exact runLines_of_done resumed rests

/-- Only a console that has got a line refuses one. -/
theorem resumed_of_refused {r : Result} (ran : runLines fuel ascii lines m written log = some r)
    (refused : r.result = .error (.line e)) :
    ∃ left events, m.resume fuel = some ⟨.ok .awaitingInput, left, events⟩ := by
  by_contra stopped
  rcases runLines_of_stopped ascii stopped with never | ⟨result, last, text, events, settled, same⟩
  · cases (never lines written log).symm.trans ran
  · rw [same] at ran
    cases ran
    exact settled e refused

/-- How a console for numbers that was given some lines, and had written a text by then, leaves the machine `m` when it
    refuses one of the lines. -/
structure Refuses (lines : List Line) (written : String) (m : Machine) (e : ProgramText.Error) (r : Result) :
    Prop where
  /-- The bad line is the last that has been read. The machine is where the words in front of that line lead it, and
      all that it has written on the way has been printed. -/
  reached : ∃ read bad words copy, lines = read ++ some bad :: r.console.lines ∧ Reads false read words ∧
    lineWords false bad = .error (.line e) ∧ Runs (m.launched.fed words) (.ok .awaitingInput) copy ∧
    r.machine = copy.drained ∧ r.console.written = written ++ outputText false copy.output
  awaiting : r.machine.state = .awaitingInput
  unfed : r.machine.channel.input = []
  printed : r.machine.output = []

theorem runLines_refused {r : Result} (suspends : m.Suspends) (live : m.state.isTerminal = false)
    (ran : runLines fuel false lines m written log = some r) (refused : r.result = .error (.line e)) :
    Refuses lines written m e r := by
  induction lines generalizing m written log with
  | nil =>
    obtain ⟨left, events, resumed⟩ := resumed_of_refused ran refused
    rw [runLines_of_dry resumed] at ran
    cases ran
    cases refused
  | cons line rest ih =>
    obtain ⟨left, events, resumed⟩ := resumed_of_refused ran refused
    have run := (Machine.returns_resume_iff live).mp ⟨fuel, events, resumed⟩
    have waits := drained_live run
    rw [runLines_of_line resumed] at ran
    cases line with
    | none =>
      cases ran
      cases refused
    | some text =>
      rcases isBad_cases text with ⟨-, words, read⟩ | ⟨-, e', bad⟩
      · -- The words of this line stand in front of those of the lines up to the bad one.
        rw [accept_of_read waits read] at ran
        have live' : (left.drained.fed words).state.isTerminal = false := waits
        have later := ih (drained_fed_suspends suspends run words) live' ran
        obtain ⟨before, bad, words', copy, split, reads, refused, run', machine, console⟩ := later.reached
        refine ⟨⟨some text :: before, bad, words ++ words', copy.holding left.output, ?_, .line read reads, refused,
          (runs_line_iff suspends live run words words').mpr ⟨copy, run', rfl⟩, machine, ?_⟩,
          later.awaiting, later.unfed, later.printed⟩
        · rw [split, List.cons_append]
        · rw [console, Machine.output_holding, outputText_append, String.append_assoc]
      · rw [accept_of_bad bad] at ran
        cases ran
        cases refused
        have starving := run.starving (suspends.of_config m.launched_config) (Machine.launched_running live)
        have start : Runs (m.launched.fed []) (.ok .awaitingInput) left := by
          rw [Machine.fed_nil]
          exact run
        exact ⟨⟨[], text, [], left, rfl, .nil, bad, start, rfl, rfl⟩, run.state_ok.1, starving.2, rfl⟩

/-! ## Running again -/

/-- What a run comes to, but for the events that are reported on the way. -/
structure Upshot where
  result : Except ConsoleError RunState
  machine : Machine
  console : Console

/-- What a run comes to, without its events. -/
def Result.upshot (r : Result) : Upshot := ⟨r.result, r.machine, r.console⟩

theorem upshot_of_stopped (stopped : ¬ ∃ left events, m.resume fuel = some ⟨.ok .awaitingInput, left, events⟩)
    (log log' : Array Event) :
    (runLines fuel ascii lines m written log).map (·.upshot) =
      (runLines fuel ascii lines m written log').map (·.upshot) := by
  rcases runLines_of_stopped ascii stopped with never | ⟨result, last, text, events, -, same⟩
  · rw [never, never]
  · rw [same, same]
    rfl

/-- What has been reported before makes no difference. -/
theorem runLines_upshot (log log' : Array Event) :
    (runLines fuel ascii lines m written log).map (·.upshot) =
      (runLines fuel ascii lines m written log').map (·.upshot) := by
  induction lines generalizing m written log log' with
  | nil =>
    by_cases awaits : ∃ left events, m.resume fuel = some ⟨.ok .awaitingInput, left, events⟩
    · obtain ⟨left, events, resumed⟩ := awaits
      rw [runLines_of_dry resumed, runLines_of_dry resumed]
      rfl
    · exact upshot_of_stopped awaits log log'
  | cons line rest ih =>
    by_cases awaits : ∃ left events, m.resume fuel = some ⟨.ok .awaitingInput, left, events⟩
    · obtain ⟨left, events, resumed⟩ := awaits
      rw [runLines_of_line resumed, runLines_of_line resumed]
      cases accept ascii left.drained line with
      | error error => rfl
      | ok next => exact ih _ _
    · exact upshot_of_stopped awaits log log'

/-- A console is run again on a machine that it has left awaiting a line as it would have gone on by itself. -/
theorem runLines_again (suspends : m.Suspends) (live : m.state.isTerminal = false)
    (resumed : m.resume fuel = some ⟨.ok .awaitingInput, left, events⟩) (log log' : Array Event) :
    (runLines fuel ascii lines left.drained (written ++ outputText ascii left.output) log').map (·.upshot) =
      (runLines fuel ascii lines m written log).map (·.upshot) := by
  obtain ⟨again, resumed'⟩ := Machine.resume_again suspends live resumed
  have drained : left.drained.drained = left.drained := rfl
  have silent (text : String) : text ++ outputText ascii left.drained.output = text := String.append_empty
  cases lines with
  | nil =>
    rw [runLines_of_dry resumed, runLines_of_dry resumed', drained, silent]
    rfl
  | cons line rest =>
    rw [runLines_of_line resumed, runLines_of_line resumed', drained, silent]
    cases accept ascii left.drained line with
    | error error => rfl
    | ok next => exact runLines_upshot _ _

/-- A console that has refused a line has fewer lines left. -/
theorem length_lt_of_refused {r : Result} (ran : runLines fuel ascii lines m written log = some r)
    (refused : r.result = .error (.line e)) : r.console.lines.length < lines.length := by
  induction lines generalizing m written log with
  | nil =>
    obtain ⟨left, events, resumed⟩ := resumed_of_refused ran refused
    rw [runLines_of_dry resumed] at ran
    cases ran
    cases refused
  | cons line rest ih =>
    obtain ⟨left, events, resumed⟩ := resumed_of_refused ran refused
    rw [runLines_of_line resumed] at ran
    cases accepted : accept ascii left.drained line with
    | error error =>
      rw [accepted] at ran
      cases ran
      exact Nat.lt_succ_self _
    | ok next =>
      rw [accepted] at ran
      exact Nat.lt_succ_of_lt (ih ran)

/-- Runs a console, and runs it again as often as it refuses a line. -/
def insist (fuel : Nat) (console : Console) (m : Machine) : Option Result :=
  match _ : run fuel console m with
  | some ⟨.error (.line _), m, console, _⟩ => insist fuel console m
  | o => o
termination_by console.lines.length
decreasing_by exact length_lt_of_refused ‹_› rfl

section
variable {console console' : Console} {m' : Machine} {r : Result}

theorem insist_of_refused (ran : run fuel console m = some r) (refused : r.result = .error (.line e)) :
    insist fuel console m = insist fuel r.console r.machine := by
  obtain ⟨result, machine, next, events⟩ := r
  cases refused
  rw [insist]
  split
  · next ran' =>
    cases ran.symm.trans ran'
    rfl
  · next other => exact absurd ran (other _ _ _ _)

theorem insist_of_settled (settled : ∀ r, run fuel console m = some r → ∀ e, r.result ≠ .error (.line e)) :
    insist fuel console m = run fuel console m := by
  rw [insist]
  split
  · next ran => exact absurd rfl (settled _ ran _)
  · rfl

/-- What comes of it in the end concerns no line. -/
theorem insist_settled (came : insist fuel console m = some r) : ∀ e, r.result ≠ .error (.line e) := by
  fun_induction insist fuel console m with
  | case1 console m e m' console' events ran ih => exact ih came
  | case2 console m other =>
    intro e refused
    obtain ⟨result, machine, next, events⟩ := r
    cases refused
    exact other _ _ _ _ came

/-- Two runs that come to the same go on to the same. -/
theorem insist_congr
    (same : (run fuel console m).map (·.upshot) = (run fuel console' m').map (·.upshot)) :
    (insist fuel console m).map (·.upshot) = (insist fuel console' m').map (·.upshot) := by
  by_cases refused : ∃ r e, run fuel console m = some r ∧ r.result = .error (.line e)
  · obtain ⟨r, e, ran, refused⟩ := refused
    rw [ran, Option.map_some] at same
    obtain ⟨r', ran', upshot⟩ := Option.map_eq_some_iff.mp same.symm
    obtain ⟨result, machine, next⟩ := Upshot.mk.inj upshot
    rw [insist_of_refused ran refused, insist_of_refused ran' (result.trans refused), machine, next]
  · have settled : ∀ r, run fuel console m = some r → ∀ e, r.result ≠ .error (.line e) :=
      fun r ran e came => refused ⟨r, e, ran, came⟩
    have settled' : ∀ r, run fuel console' m' = some r → ∀ e, r.result ≠ .error (.line e) := by
      intro r' ran' e came
      rw [ran', Option.map_some] at same
      obtain ⟨r, ran, upshot⟩ := Option.map_eq_some_iff.mp same
      exact settled r ran e ((Upshot.mk.inj upshot).1.trans came)
    rw [insist_of_settled settled, insist_of_settled settled', same]

end

/-- A console for numbers in the midst of a text. -/
def midway (texts : List String) (written : String) : Console := ⟨texts.map some, written, false⟩

/-- A console that is run again as often as it refuses a line reads some of its lines, and comes to what one run comes
    to on these lines without the bad ones and on the lines behind. -/
def Skips (fuel : Nat) (texts : List String) (written : String) (m : Machine) : Prop :=
  ∃ reached rest, texts = reached ++ rest ∧
    (∀ u, (insist fuel (midway texts written) m).map (·.upshot) = some u → u.console.lines = rest.map some) ∧
    (insist fuel (midway texts written) m).map (·.upshot) =
      (run fuel (midway (reached.filter (!isBad ·) ++ rest) written) m).map (·.upshot)

section
variable {text : String} {texts : List String} {words : List Word}

/-- A console that comes back without having read a line is not run again. -/
theorem Skips.of_settled
    (settled : ∀ r, run fuel (midway texts written) m = some r →
      (∀ e, r.result ≠ .error (.line e)) ∧ r.console.lines = texts.map some) : Skips fuel texts written m := by
  have once := insist_of_settled fun r ran => (settled r ran).1
  refine ⟨[], texts, rfl, ?_, ?_⟩
  · intro u came
    rw [once] at came
    obtain ⟨r, ran, rfl⟩ := Option.map_eq_some_iff.mp came
    exact (settled r ran).2
  · rw [once]
    rfl

theorem Skips.of_stopped (stopped : ¬ ∃ left events, m.resume fuel = some ⟨.ok .awaitingInput, left, events⟩)
    (texts : List String) (written : String) : Skips fuel texts written m := by
  refine .of_settled fun r ran => ?_
  rcases runLines_of_stopped false stopped with never | ⟨result, last, text, events, settled, same⟩
  · cases (never _ _ _).symm.trans ran
  · cases (same _ _ _).symm.trans ran
    exact ⟨settled, rfl⟩

theorem Skips.of_dry (resumed : m.resume fuel = some ⟨.ok .awaitingInput, left, events⟩) (written : String) :
    Skips fuel [] written m := by
  refine .of_settled fun r ran => ?_
  cases (runLines_of_dry resumed).symm.trans ran
  exact ⟨nofun, rfl⟩

/-- A line that can be read is fed, on either way. -/
theorem Skips.of_read (live : m.state.isTerminal = false)
    (resumed : m.resume fuel = some ⟨.ok .awaitingInput, left, events⟩) (read : lineWords false text = .ok words)
    (later : Skips fuel texts (written ++ outputText false left.output) (left.drained.fed words)) :
    Skips fuel (text :: texts) written m := by
  have run := (Machine.returns_resume_iff live).mp ⟨fuel, events, resumed⟩
  have accepted := accept_of_read (drained_live run) read
  have onward (texts : List String) :
      (Console.run fuel (midway (text :: texts) written) m).map (·.upshot) =
        (Console.run fuel (midway texts (written ++ outputText false left.output)) (left.drained.fed words)).map
          (·.upshot) := by
    unfold Console.run midway
    simp only [List.map_cons, runLines_of_line resumed, accepted]
    exact runLines_upshot _ _
  have good : isBad text = false := by
    unfold isBad
    rw [read]
  obtain ⟨reached, rest, rfl, ends, same⟩ := later
  refine ⟨text :: reached, rest, rfl, ?_, ?_⟩
  · intro u came
    exact ends u ((insist_congr (onward _)).symm.trans came)
  · rw [List.filter_cons_of_pos (by rw [good]; rfl), List.cons_append, onward, ← same]
    exact insist_congr (onward _)

/-- A bad line is missing from the one run, and the other is begun again behind it. -/
theorem Skips.of_bad (suspends : m.Suspends) (live : m.state.isTerminal = false)
    (resumed : m.resume fuel = some ⟨.ok .awaitingInput, left, events⟩)
    (refused : lineWords false text = .error (.line e))
    (later : Skips fuel texts (written ++ outputText false left.output) left.drained) :
    Skips fuel (text :: texts) written m := by
  have onward : insist fuel (midway (text :: texts) written) m =
      insist fuel (midway texts (written ++ outputText false left.output)) left.drained := by
    have ran : run fuel (midway (text :: texts) written) m = some ⟨.error (.line e), left.drained,
        midway texts (written ++ outputText false left.output), #[] ++ events⟩ := by
      unfold run midway
      simp only [List.map_cons, runLines_of_line resumed, accept_of_bad refused]
    exact insist_of_refused ran rfl
  have bad : isBad text = true := by
    unfold isBad
    rw [refused]
  obtain ⟨reached, rest, rfl, ends, same⟩ := later
  refine ⟨text :: reached, rest, rfl, ?_, ?_⟩
  · intro u came
    rw [onward] at came
    exact ends u came
  · rw [List.filter_cons_of_neg (by rw [bad]; exact nofun), onward, same]
    exact runLines_again suspends live resumed #[] #[]

end

theorem insist_skips (suspends : m.Suspends) (live : m.state.isTerminal = false) (texts : List String)
    (written : String) : Skips fuel texts written m := by
  induction texts generalizing m written with
  | nil =>
    by_cases awaits : ∃ left events, m.resume fuel = some ⟨.ok .awaitingInput, left, events⟩
    · obtain ⟨left, events, resumed⟩ := awaits
      exact .of_dry resumed written
    · exact .of_stopped awaits [] written
  | cons text texts ih =>
    by_cases awaits : ∃ left events, m.resume fuel = some ⟨.ok .awaitingInput, left, events⟩
    · obtain ⟨left, events, resumed⟩ := awaits
      have run := (Machine.returns_resume_iff live).mp ⟨fuel, events, resumed⟩
      have waits := drained_live run
      rcases isBad_cases text with ⟨-, words, read⟩ | ⟨-, e, refused⟩
      · have live' : (left.drained.fed words).state.isTerminal = false := waits
        exact .of_read live resumed read (ih (drained_fed_suspends suspends run words) live' _)
      · have suspends' : left.drained.Suspends := suspends.of_config (run.follows.config.trans m.launched_config)
        exact .of_bad suspends live resumed refused (ih suspends' waits _)
    · exact .of_stopped awaits (text :: texts) written

/-! ## The lines of a text -/

section
variable {α : Type} {lineFeed : α} {kept divided : List (List α)}

/-- The ways in which a stream is divided into lines: all of them but the last one end with a line feed. -/
inductive Divided (lineFeed : α) : List (List α) → Prop
  | nil : Divided lineFeed []
  | last {line : List α} (plain : lineFeed ∉ line) (more : line ≠ []) : Divided lineFeed [line]
  | line {line : List α} {lines : List (List α)} (plain : lineFeed ∉ line) (later : Divided lineFeed lines) :
      Divided lineFeed ((line ++ [lineFeed]) :: lines)

/-- Lines that some lines are missing from are lines. -/
theorem Divided.sublist (lines : Divided lineFeed divided) (sub : List.Sublist kept divided) :
    Divided lineFeed kept := by
  induction lines generalizing kept with
  | nil =>
    rw [List.sublist_nil.mp sub]
    exact .nil
  | @last line plain more =>
    rcases List.sublist_singleton.mp sub with rfl | rfl
    · exact .nil
    · exact .last plain more
  | line plain later ih =>
    cases sub with
    | cons _ sub => exact ih sub
    | cons_cons _ sub => exact .line plain (ih sub)

variable [DecidableEq α]

theorem divided_splitLines (lineFeed : α) (text : List α) : Divided lineFeed (splitLines lineFeed text) := by
  induction text with
  | nil => exact .nil
  | cons a rest ih =>
    by_cases feed : a = lineFeed
    · have split : splitLines lineFeed (a :: rest) = ([] ++ [lineFeed]) :: splitLines lineFeed rest := by
        rw [splitLines, if_pos feed, feed]
        rfl
      rw [split]
      exact .line List.not_mem_nil ih
    · rcases split : splitLines lineFeed rest with _ | ⟨line, lines⟩
      · rw [splitLines, if_neg feed, split]
        exact .last (by simpa using Ne.symm feed) (by simp)
      · rw [splitLines_cons feed split]
        rw [split] at ih
        cases ih with
        | last plain => exact .last (by simp [plain, Ne.symm feed]) (by simp)
        | @line line _ plain later =>
          rw [← List.cons_append]
          exact .line (by simp [plain, Ne.symm feed]) later

theorem splitLines_of_plain {line : List α} (plain : lineFeed ∉ line) (more : line ≠ []) :
    splitLines lineFeed line = [line] := by
  induction line with
  | nil => exact absurd rfl more
  | cons a rest ih =>
    obtain ⟨inside, plain'⟩ := not_or.mp (mt List.mem_cons.mpr plain)
    cases rest with
    | nil => rw [splitLines, if_neg (Ne.symm inside), splitLines]
    | cons b rest => exact splitLines_cons (Ne.symm inside) (ih plain' (by simp))

/-- Lines that are put behind one another are told apart again. -/
theorem Divided.splitLines_flatten (lines : Divided lineFeed divided) :
    splitLines lineFeed divided.flatten = divided := by
  induction lines with
  | nil => rfl
  | @last line plain more =>
    rw [List.flatten_singleton]
    exact splitLines_of_plain plain more
  | @line line lines plain later ih =>
    rw [List.flatten_cons, List.append_assoc, List.singleton_append, splitLines_append plain, ih]

end

/-- The lines of a text, each with its line feed. -/
def linesOf (text : String) : List String := (splitLines '\n' text.toList).map String.ofList

/-- The text of some lines of a text has these lines. -/
theorem linesOf_join {kept : List String} {text : String} (sub : kept.Sublist (linesOf text)) :
    linesOf (String.join kept) = kept := by
  have whole : (linesOf text).map String.toList = splitLines '\n' text.toList := by
    simp [linesOf]
  have sub' : (kept.map String.toList).Sublist (splitLines '\n' text.toList) := by
    rw [← whole]
    exact sub.map String.toList
  have same := ((divided_splitLines '\n' text.toList).sublist sub').splitLines_flatten
  have chars : (String.join kept).toList = (kept.map String.toList).flatten := by
    rw [String.toList_join, List.flatMap_def]
  unfold linesOf
  rw [chars, same]
  simp

/-- Bad lines can be skipped. Take a machine that suspends when it lacks input and is not at rest. Whenever a console for
    numbers comes back because of a line, that line has not been fed even in part, and the machine awaits input, with
    nothing on either queue, where the lines in front of that line have brought it. And if a console for a text is run
    again as often as it comes back so, it comes to the same result, machine, written text and lines that are left as
    one run on the text without the bad lines among those that are read, within the same bound. -/
theorem run_skips (suspends : m.Suspends) (live : m.state.isTerminal = false) (fuel : Nat) :
    (∀ (console : Console) (r : Result) (e : ProgramText.Error), console.ascii = false →
      run fuel console m = some r → r.result = .error (.line e) → Refuses console.lines console.written m e r) ∧
    ∀ text, ∃ reached rest, linesOf text = reached ++ rest ∧
      (∀ r, insist fuel (ofText text false) m = some r →
        (∀ e, r.result ≠ .error (.line e)) ∧ r.console.lines = rest.map some) ∧
      (insist fuel (ofText text false) m).map (·.upshot) =
        (run fuel (ofText (String.join (reached.filter (!isBad ·) ++ rest)) false) m).map (·.upshot) := by
  have console (text : String) : ofText text false = midway (linesOf text) "" := by
    simp [ofText, midway, linesOf]
  constructor
  · intro console r e numbers ran refused
    unfold run at ran
    rw [numbers] at ran
    exact runLines_refused suspends live ran refused
  · intro text
    obtain ⟨reached, rest, lines, ends, same⟩ : Skips fuel (linesOf text) "" m := insist_skips suspends live _ _
    have kept : linesOf (String.join (reached.filter (!isBad ·) ++ rest)) = reached.filter (!isBad ·) ++ rest := by
      apply linesOf_join
      rw [lines]
      exact List.filter_sublist.append_right rest
    refine ⟨reached, rest, lines, ?_, ?_⟩
    · intro r came
      rw [console] at came
      exact ⟨insist_settled came, ends r.upshot (Option.map_eq_some_iff.mpr ⟨r, came, rfl⟩)⟩
    · rw [console, console, kept]
      exact same

/-- A line is bad behind its first word, and none of it is fed. -/
theorem run_skips_sum :
    ∃ r last reached rest, sum.Suspends ∧ sum.state.isTerminal = false ∧
      run 20 (ofText "20\n1,x\n22\n" false) sum = some r ∧ r.result = .error (.line (.malformed 1 ",x\n")) ∧
      Refuses (ofText "20\n1,x\n22\n" false).lines "" sum (.malformed 1 ",x\n") r ∧
      insist 20 (ofText "20\n1,x\n22\n" false) sum = some last ∧ last.console.written = "42\n" ∧
      linesOf "20\n1,x\n22\n" = reached ++ rest ∧ last.console.lines = rest.map some ∧
      some last.upshot =
        (run 20 (ofText (String.join (reached.filter (!isBad ·) ++ rest)) false) sum).map (·.upshot) := by
  have suspends : sum.Suspends := ⟨rfl, rfl⟩
  have result : (run 20 (ofText "20\n1,x\n22\n" false) sum).map (·.result) =
      some (.error (.line (.malformed 1 ",x\n"))) := by decide +kernel
  obtain ⟨r, ran, refused⟩ := Option.map_eq_some_iff.mp result
  have wrote : (insist 20 (ofText "20\n1,x\n22\n" false) sum).map (·.console.written) = some "42\n" := by
    decide +kernel
  obtain ⟨last, came, written⟩ := Option.map_eq_some_iff.mp wrote
  obtain ⟨refuses, skips⟩ := run_skips suspends rfl 20
  obtain ⟨reached, rest, split, ends, same⟩ := skips "20\n1,x\n22\n"
  rw [came] at same
  exact ⟨r, last, reached, rest, suspends, rfl, ran, refused, refuses _ r _ rfl ran refused, came, written, split,
    (ends last came).2, same⟩

end IntegerMachine.Console
