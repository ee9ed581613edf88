import IntegerMachine.Proofs.Piping
import IntegerMachine.Proofs.Printing

/-!
# Reading back what has been written

A console in ASCII mode writes a word below 128 as one character, whatever stands next to it, and reads a text line by
line, each without the line feed at its end and with a word for that line feed behind it. These two fit together
(`reads_outputText`): every line feed that has been written is one that is read, and only a last line that lacks its
line feed is given one. A carriage return would not come back, since it may be taken for part of the line's end.

A machine gets what is read (`runLines_feeds`): whatever its program takes while a console runs it, and whatever is
left on the input, are the words of the lines behind those that had been there.
-/
namespace IntegerMachine.Console

variable {ascii : Bool} {fuel : Nat} {m left next : Machine} {lines : List Line} {words ws : List Word} {word : Word}
  {written : String} {log events : Array Event}

/-! ## What lines are read as -/

/-- The words that some lines are read as. -/
inductive Reads (ascii : Bool) : List Line → List Word → Prop
  | nil : Reads ascii [] []
  | line {line : String} {lines : List Line} {words ws : List Word} (read : lineWords ascii line = .ok words)
      (later : Reads ascii lines ws) : Reads ascii (some line :: lines) (words ++ ws)

/-- A machine that is not at rest is fed what a line is read as. -/
theorem accept_of_read {line : String} (live : m.state.isTerminal = false) (read : lineWords ascii line = .ok words) :
    accept ascii m (some line) = .ok (m.fed words) := by
  simp only [accept, read, Machine.feedAll_of_live live]
  rfl

theorem Reads.exists_of_cons {line : String} (reads : Reads ascii (some line :: lines) ws) :
    ∃ words rest, ws = words ++ rest ∧ lineWords ascii line = .ok words ∧ Reads ascii lines rest := by
  cases reads with
  | line read later => exact ⟨_, _, rfl, read, later⟩

theorem Reads.feeds (reads : Reads ascii lines ws) (live : m.state.isTerminal = false) :
    lines.foldlM (accept ascii) m = .ok (m.fed ws) := by
  induction reads generalizing m with
  | nil =>
    rw [Machine.fed_nil]
    rfl
  | @line line lines words ws read later ih =>
    have live' : (m.fed words).state.isTerminal = false := live
    rw [List.foldlM_cons, accept_of_read live read, ← Machine.fed_fed]
    exact ih live'

/-! ## What a program takes -/

/-- The words that the program takes off the input while a console runs its machine on the given lines. -/
def taken (fuel : Nat) (ascii : Bool) : List Line → Machine → List Word
  | lines, m =>
    m.took fuel ++
      match turn fuel ascii m with
      | some ⟨.ok .awaitingInput, m, _, _⟩ =>
        match lines with
        | [] => []
        | line :: rest =>
          match accept ascii m line with
          | .ok m => taken fuel ascii rest m
          | .error _ => []
      | _ => []

theorem taken_of_line {line : Line} (resumed : m.resume fuel = some ⟨.ok .awaitingInput, left, events⟩)
    (accepted : accept ascii left.drained line = .ok next) :
    taken fuel ascii (line :: lines) m = m.took fuel ++ taken fuel ascii lines next := by
  rw [taken]
  simp only [turn_of_resumed resumed, accepted]

theorem taken_of_dry (resumed : m.resume fuel = some ⟨.ok .awaitingInput, left, events⟩) :
    taken fuel ascii [] m = m.took fuel := by
  unfold taken
  simp only [turn_of_resumed resumed, List.append_nil]

theorem taken_of_failed {failure : Failure} (resumed : m.resume fuel = some ⟨.error failure, left, events⟩) :
    taken fuel ascii lines m = m.took fuel := by
  unfold taken
  simp only [turn_of_failed resumed, List.append_nil]

theorem taken_of_done {state : RunState} (resumed : m.resume fuel = some ⟨.ok state, left, events⟩)
    (stopped : state ≠ .awaitingInput) : taken fuel ascii lines m = m.took fuel := by
  unfold taken
  rw [turn_of_resumed resumed]
  cases state with
  | awaitingInput => exact absurd rfl stopped
  | initialising | running | ended | halted => exact List.append_nil _

/-- A machine that comes back awaiting input was not at rest. -/
theorem live_of_resumed (resumed : m.resume fuel = some ⟨.ok .awaitingInput, left, events⟩) :
    m.state.isTerminal = false := by
  cases rest : m.state.isTerminal with
  | false => rfl
  | true =>
    rw [Machine.resume_of_terminal rest] at resumed
    cases resumed

/-- A console whose machine does not ask for a line reads none, and the input is as the program leaves it. -/
theorem runLines_feeds_of_stopped {r : Result} (ran : runLines fuel ascii lines m written log = some r)
    (stopped : ¬ ∃ left events, m.resume fuel = some ⟨.ok .awaitingInput, left, events⟩) :
    r.console.lines = lines ∧ m.channel.input = taken fuel ascii lines m ++ r.machine.channel.input := by
  rcases resumed : m.resume fuel with _ | ⟨failure | state, left, events⟩
  · unfold runLines turn at ran
    rw [resumed] at ran
    cases ran
  · rw [runLines_of_failed resumed] at ran
    cases ran
    rw [taken_of_failed resumed]
    exact ⟨rfl, (Machine.resume_exchanges resumed).input⟩
  · have rests : state ≠ .awaitingInput := by
      rintro rfl
      exact stopped ⟨left, events, resumed⟩
    rw [runLines_of_done resumed rests] at ran
    cases ran
    rw [taken_of_done resumed rests]
    exact ⟨rfl, (Machine.resume_exchanges resumed).input⟩

/-- When a console has read all of its lines, its machine has been fed exactly the words that they are read as. -/
theorem runLines_feeds {r : Result} (reads : Reads ascii lines ws)
    (ran : runLines fuel ascii lines m written log = some r) (all : r.console.lines = []) :
    m.channel.input ++ ws = taken fuel ascii lines m ++ r.machine.channel.input := by
  induction reads generalizing m written log with
  | nil =>
    rw [List.append_nil]
    by_cases awaits : ∃ left events, m.resume fuel = some ⟨.ok .awaitingInput, left, events⟩
    · obtain ⟨left, events, resumed⟩ := awaits
      rw [runLines_of_dry resumed] at ran
      cases ran
      rw [taken_of_dry resumed, Machine.halted_input]
      exact (Machine.resume_exchanges resumed).input
    · exact (runLines_feeds_of_stopped ran awaits).2
  | @line line lines words ws read later ih =>
    by_cases awaits : ∃ left events, m.resume fuel = some ⟨.ok .awaitingInput, left, events⟩
    · obtain ⟨left, events, resumed⟩ := awaits
      have run := (Machine.returns_resume_iff (live_of_resumed resumed)).mp ⟨fuel, events, resumed⟩
      have accepted := accept_of_read (drained_live run) read
      rw [runLines_of_line resumed, accepted] at ran
      have fed : left.channel.input ++ words ++ ws = _ := ih ran
      rw [taken_of_line resumed accepted, (Machine.resume_exchanges resumed).input, List.append_assoc,
        List.append_assoc, ← fed, List.append_assoc]
    · rw [(runLines_feeds_of_stopped ran awaits).1] at all
      cases all

/-! ## Characters -/

/-- The words that ASCII mode writes as a character. -/
def Ascii (word : Word) : Prop := 0 ≤ word ∧ word ≤ 127

instance : Decidable (Ascii word) := inferInstanceAs (Decidable (0 ≤ word ∧ word ≤ 127))

/-- The character of a word. -/
def asciiChar (word : Word) : Char := Char.ofNat word.toInt.toNat

theorem wordText_of_ascii (ascii : Ascii word) : wordText true word = String.singleton (asciiChar word) :=
  if_pos ⟨rfl, ascii⟩

theorem toInt_of_ascii (ascii : Ascii word) : 0 ≤ word.toInt ∧ word.toInt ≤ 127 :=
  ⟨Int64.le_iff_toInt_le.mp ascii.1, Int64.le_iff_toInt_le.mp ascii.2⟩

theorem val_asciiChar (ascii : Ascii word) : (asciiChar word).val.toNat = word.toInt.toNat := by
  obtain ⟨low, high⟩ := toInt_of_ascii ascii
  have valid : word.toInt.toNat.isValidChar := .inl (by omega)
  unfold asciiChar Char.ofNat
  rw [dif_pos valid]
  rfl

/-- A character is one byte, and that byte is the word. -/
theorem ofText_asciiChar (ascii : Ascii word) (cs : List Char) :
    Word.ofText (asciiChar word :: cs) = word :: Word.ofText cs := by
  obtain ⟨low, high⟩ := toInt_of_ascii ascii
  have val := val_asciiChar ascii
  have short : (asciiChar word).val ≤ 127 := by
    rw [UInt32.le_iff_toNat_le, val]
    exact Int.toNat_le.mpr high
  have byte : (asciiChar word).val.toUInt8.toNat = word.toInt.toNat := by
    rw [UInt32.toNat_toUInt8, val]
    omega
  have same : Int64.ofNat word.toInt.toNat = word := by
    rw [← Int64.ofInt_eq_ofNat, Int.toNat_of_nonneg low, Int64.ofInt_toInt]
  unfold Word.ofText
  rw [List.flatMap_cons, String.utf8EncodeChar_eq_singleton (Char.utf8Size_eq_one_iff.mpr short), List.map_append,
    List.map_singleton, byte, same, List.singleton_append]

/-- No two words are the same character. -/
theorem asciiChar_ne {other : Word} (ascii : Ascii word) (ascii' : Ascii other) (differ : word ≠ other) :
    asciiChar word ≠ asciiChar other := by
  intro same
  have read := ofText_asciiChar ascii []
  rw [same, ofText_asciiChar ascii' []] at read
  exact differ (List.cons.inj read).1.symm

/-! ## Lines of characters -/

/-- A character that is not part of the end of a line is not stripped from in front of anything. -/
theorem stripLineEnd_cons {c : Char} (feed : c ≠ '\n') (ret : c ≠ '\r') (line : List Char) :
    stripLineEnd (c :: line) = c :: stripLineEnd line := by
  unfold stripLineEnd
  rw [List.reverse_cons, List.dropWhile_append]
  cases (line.reverse.dropWhile fun c => c == '\n' || c == '\r') with
  | nil => simp [feed, ret]
  | cons => simp

/-- A line that has one more character in front is read with one more word in front. -/
theorem lineWords_cons (ascii : Ascii word) (feed : word ≠ 10) (ret : word ≠ 13) {line : List Char}
    (read : lineWords true (String.ofList line) = .ok words) :
    lineWords true (String.ofList (asciiChar word :: line)) = .ok (word :: words) := by
  have kept := stripLineEnd_cons (asciiChar_ne ascii (by decide : Ascii 10) feed)
    (asciiChar_ne ascii (by decide : Ascii 13) ret) line
  unfold lineWords at read ⊢
  simp only [if_true, String.toList_ofList, kept, ofText_asciiChar ascii, Except.ok.injEq] at read ⊢
  rw [List.cons_append, read]

/-- Some words with a line feed at the end, unless there are none. -/
def lineEnded (words : List Word) : List Word :=
  if words = [] ∨ words.getLast? = some 10 then words else words ++ [10]

theorem lineEnded_cons (word : Word) (more : words ≠ []) : lineEnded (word :: words) = word :: lineEnded words := by
  unfold lineEnded
  rw [List.getLast?_cons_of_ne_nil more]
  by_cases ended : words.getLast? = some 10 <;> simp [more, ended]

section
variable {α : Type} [DecidableEq α] {lineFeed a : α} {rest line : List α} {lines : List (List α)}

theorem splitLines_ne_nil (lineFeed a : α) (rest : List α) : splitLines lineFeed (a :: rest) ≠ [] := by
  unfold splitLines
  by_cases feed : a = lineFeed
  · simp [feed]
  · rw [if_neg feed]
    cases splitLines lineFeed rest <;> simp

theorem splitLines_cons (inside : a ≠ lineFeed) (split : splitLines lineFeed rest = line :: lines) :
    splitLines lineFeed (a :: rest) = (a :: line) :: lines := by
  rw [splitLines, if_neg inside, split]

end

/-- The characters of some words are read as these words, but for a line feed that is missing at their end. -/
theorem reads_chars (ascii : ∀ w ∈ words, Ascii w ∧ w ≠ 13) :
    Reads true ((splitLines '\n' (words.map asciiChar)).map fun line => some (String.ofList line))
      (lineEnded words) := by
  induction words with
  | nil => exact .nil
  | cons word words ih =>
    obtain ⟨⟨char, ret⟩, later⟩ := List.forall_mem_cons.mp ascii
    have rest := ih later
    have empty : lineWords true (String.ofList []) = .ok [10] := rfl
    by_cases feed : word = 10
    · -- This is the line feed of an empty line.
      subst feed
      have split : splitLines '\n' ((10 :: words).map asciiChar) = ['\n'] :: splitLines '\n' (words.map asciiChar) :=
        if_pos rfl
      have ended : lineEnded (10 :: words) = [10] ++ lineEnded words := by
        cases words with
        | nil => rfl
        | cons next words => exact lineEnded_cons 10 (by simp)
      rw [split, ended]
      exact .line rfl rest
    · have inside : asciiChar word ≠ '\n' := asciiChar_ne char (by decide : Ascii 10) feed
      cases words with
      | nil =>
        -- The last line lacks its line feed.
        have split : splitLines '\n' [asciiChar word] = [[asciiChar word]] := if_neg inside
        have ended : lineEnded [word] = [word, 10] ++ [] := by simp [lineEnded, feed]
        rw [List.map_singleton, split, ended]
        exact .line (lineWords_cons char feed ret empty) .nil
      | cons next words =>
        -- The character stands in front of the first line of the rest.
        rw [lineEnded_cons word (by simp), List.map_cons]
        rcases split : splitLines '\n' ((next :: words).map asciiChar) with _ | ⟨line, lines⟩
        · exact absurd split (splitLines_ne_nil '\n' _ _)
        · rw [split, List.map_cons] at rest
          obtain ⟨first, others, same, read, reads⟩ := rest.exists_of_cons
          rw [splitLines_cons inside split, same]
          exact .line (lineWords_cons char feed ret read) reads

/-- What an ASCII console writes is read back by another. -/
theorem reads_outputText (ascii : ∀ w ∈ words, Ascii w ∧ w ≠ 13) :
    Reads true (ofText (outputText true words) true).lines (lineEnded words) := by
  have chars : (outputText true words).toList = words.map asciiChar := by
    induction words with
    | nil => rfl
    | cons word words ih =>
      obtain ⟨⟨char, -⟩, later⟩ := List.forall_mem_cons.mp ascii
      have rest := ih later
      unfold outputText at rest ⊢
      rw [List.map_cons, String.join_cons, String.toList_append, rest, wordText_of_ascii char, String.toList_singleton,
        List.map_cons, List.singleton_append]
  have reads := reads_chars ascii
  rw [← chars] at reads
  exact reads

/-- Text in ASCII mode is read back as what it has been written for. Take words from 0 to 127 without a carriage return
    among them, and the text that a console in ASCII mode writes for them. Its lines, read one by one, feed a machine
    that is not at rest exactly these words, with one line feed behind them if there are any and the last is none. And
    when a console in ASCII mode has read that text to its end, whatever its machine does meanwhile, exactly these words
    have been put behind the input that was there: they are what the program has taken and what it has left. -/
theorem run_reread (ascii : ∀ w ∈ words, 0 ≤ w ∧ w ≤ 127 ∧ w ≠ 13) :
    (∀ m : Machine, m.state.isTerminal = false →
      (ofText (outputText true words) true).lines.foldlM (accept true) m = .ok (m.fed (lineEnded words))) ∧
    ∀ (fuel : Nat) (m : Machine) (r : Result), run fuel (ofText (outputText true words) true) m = some r →
      r.console.lines = [] →
        m.channel.input ++ lineEnded words =
          taken fuel true (ofText (outputText true words) true).lines m ++ r.machine.channel.input := by
  have reads : Reads true (ofText (outputText true words) true).lines (lineEnded words) :=
    reads_outputText fun w member => ⟨⟨(ascii w member).1, (ascii w member).2.1⟩, (ascii w member).2.2⟩
  constructor
  · intro m live
    exact reads.feeds live
  · intro fuel m r ran all
    exact runLines_feeds reads ran all

/-- There is an empty line, a character that is not printed, and no line feed at the end. -/
theorem run_reread_unfinished :
    ∃ r, (∀ w ∈ ([104, 10, 10, 0, 105] : List Word), 0 ≤ w ∧ w ≤ 127 ∧ w ≠ 13) ∧
      outputText true [104, 10, 10, 0, 105] = "h\n\n\x00i" ∧
      (ofText (outputText true [104, 10, 10, 0, 105]) true).lines.foldlM (accept true) Machine.echo =
        .ok (Machine.echo.fed [104, 10, 10, 0, 105, 10]) ∧
      run 60 (ofText (outputText true [104, 10, 10, 0, 105]) true) Machine.echo = some r ∧ r.console.lines = [] ∧
      Machine.echo.channel.input ++ [104, 10, 10, 0, 105, 10] =
        taken 60 true (ofText (outputText true [104, 10, 10, 0, 105]) true).lines Machine.echo ++
          r.machine.channel.input := by
  have ascii : ∀ w ∈ ([104, 10, 10, 0, 105] : List Word), 0 ≤ w ∧ w ≤ 127 ∧ w ≠ 13 := by simp
  have lines : (run 60 (ofText (outputText true [104, 10, 10, 0, 105]) true) Machine.echo).map (·.console.lines) =
      some [] := by decide +kernel
  obtain ⟨r, ran, all⟩ := Option.map_eq_some_iff.mp lines
  have ended : lineEnded [104, 10, 10, 0, 105] = [104, 10, 10, 0, 105, 10] := rfl
  obtain ⟨feeds, accounts⟩ := run_reread ascii
  rw [ended] at feeds accounts
  exact ⟨r, ascii, by decide +kernel, feeds Machine.echo rfl, ran, all, accounts 60 Machine.echo r ran all⟩

end IntegerMachine.Console
