import IntegerMachine.Proofs.Console
import IntegerMachine.Proofs.Pipeline

/-!
# Consoles behind one another

When the text that one console writes is what another reads, their machines do what they do as a pipeline
(`run_piped`). What a console writes is a line for each word, from which another reads that word again
(`spells_outputText`), so that the words are the same on either way from one machine to the next. The two consoles
are then a cascade, each machine being run once on all that it is given, and so is the pipeline.
-/
namespace IntegerMachine.Console
open Machine (Runs SameProgress)

/-! ## The text between two consoles -/

theorem splitLines_append {α : Type} [DecidableEq α] {lineFeed : α} {line : List α} (plain : lineFeed ∉ line)
    (rest : List α) :
    splitLines lineFeed (line ++ lineFeed :: rest) = (line ++ [lineFeed]) :: splitLines lineFeed rest := by
  induction line with
  | nil => simp [splitLines]
  | cons a line ih =>
    have other : a ≠ lineFeed := fun same => plain (by simp [same])
    have later := ih fun member => plain (List.mem_cons_of_mem a member)
    simp only [List.cons_append, splitLines, if_neg other, later]

/-- What a console writes spells the words that it has written. -/
theorem spells_outputText (words : List Word) : Spells (ofText (outputText false words) false).lines words := by
  induction words with
  | nil => exact .nil
  | cons word words ih =>
    have split : (outputText false (word :: words)).toList =
        word.text.toList ++ '\n' :: (outputText false words).toList := by
      simp [outputText_false]
    have line : String.ofList (word.text.toList ++ ['\n']) = word.text ++ "\n" := by
      simp
    have plain := (ProgramText.item_text word).lineFeed_not_mem
    have lines : (ofText (outputText false (word :: words)) false).lines =
        some (word.text ++ "\n") :: (ofText (outputText false words) false).lines := by
      simp only [ofText, split, splitLines_append plain, List.map_cons, line]
    rw [lines]
    exact .words (parse_text word) ih

/-! ## The machines of two consoles -/

/-- A machine in a pipeline has got as far as one at a console. They differ only in that the console has halted its
    machine where the other awaits input. -/
structure Alike (m n : Machine) : Prop extends SameProgress m n where
  ends : (m.state = .ended ∧ n.state = .ended) ∨ (m.state = .awaitingInput ∧ n.state = .halted)

theorem UpFront.alike {m copy last : Machine} {s state : RunState} {text : String}
    (ends : UpFront s copy state last text) (run : Runs m (.ok s) copy) : Alike copy last := by
  have came := run.state_ok.1
  have stays := ends.stays
  refine { ends.progress with ends := ?_ }
  rcases ends.ends with ⟨rfl, rfl⟩ | ⟨rfl, rfl⟩
  · exact .inl ⟨came, stays⟩
  · exact .inr ⟨came, stays⟩

/-- Two consoles behind one another are a pipeline. Take two machines that suspend when they lack input and are not at
    rest, a text that spells some words, and let a console come back that runs the first machine on it, and then
    another that runs the second on what the first one has written. Then the pipeline of the two, fed the words, comes
    back with the last word of its second stage. What that has written, each word on a line, is what the second
    console has, and both stages have got as far as the machines at the consoles. -/
theorem run_piped {a b : Machine} (suspends : a.Suspends) (suspends' : b.Suspends) (live : a.state.isTerminal = false)
    (live' : b.state.isTerminal = false) {text : String} {ws : List Word} (spells : Spells (ofText text false).lines ws)
    {fuel fuel' : Nat} {r r' : Result} {state state' : RunState} (ran : run fuel (ofText text false) a = some r)
    (well : r.result = .ok state) (ran' : run fuel' (ofText r.console.written false) b = some r')
    (well' : r'.result = .ok state') :
    ∃ p left left', Pipeline.feed ⟨[a, b], false⟩ ws = .ok p ∧
      (∃ bound, ∀ fuel, bound ≤ fuel → ∃ events, p.run fuel = some ⟨.ok left'.lastOutput, [left, left'], events⟩) ∧
      String.join (left'.output.map fun word => word.text ++ "\n") = r'.console.written ∧
      Alike left r.machine ∧ Alike left' r'.machine := by
  obtain ⟨s, copy, all, ends⟩ := runs_of_run spells suspends live ran well
  have between : Spells (ofText r.console.written false).lines copy.output := by
    rw [ends.wrote]
    exact spells_outputText copy.output
  obtain ⟨s', copy', all', ends'⟩ := runs_of_run between suspends' live' ran' well'
  -- The cascade of the stages runs each on what it runs on at its console.
  have first : Returns ((a.fed ws).resume ·) (.ok s) copy := (Machine.returns_fed_iff live).mpr all
  have second : Returns ((b.fed copy.output).resume ·) (.ok s') copy' := (Machine.returns_fed_iff live').mpr all'
  have cascade : Pipeline.Cascade [a.fed ws, b] (.ok ()) [copy.drained, copy'] := .next first (.last second)
  have stagesLive : ∀ m ∈ [a.fed ws, b], m.state.isTerminal = false := by
    simp only [List.forall_mem_cons]
    exact ⟨live, live', nofun⟩
  have stagesSuspend : ∀ m ∈ [a.fed ws, b], m.Suspends := by
    simp only [List.forall_mem_cons]
    exact ⟨suspends.of_config rfl, suspends', nofun⟩
  obtain ⟨bound, found⟩ :=
    Pipeline.run_of_cascade (p := ⟨[a.fed ws, b], false⟩) rfl nofun stagesLive stagesSuspend cascade
  refine ⟨⟨[a.fed ws, b], false⟩, copy.drained, copy', ?_, ⟨bound, found⟩, ?_, ?_, ends'.alike all'⟩
  · simp only [Pipeline.feed, Machine.feedAll_of_live live]
    rfl
  · rw [ends'.wrote, outputText_false]
  · exact ⟨ends.progress.mapChannel _, (ends.alike all).ends⟩

/-- A sum is written on a line and echoed from there. The second console runs out of lines. -/
theorem run_piped_sum :
    ∃ fuel fuel' r r' p left left', sum.Suspends ∧ Machine.echo.Suspends ∧
      Spells (ofText "20\n22\n" false).lines [20, 22] ∧
      run fuel (ofText "20\n22\n" false) sum = some r ∧ r.result = .ok .ended ∧ r.console.written = "42\n" ∧
      run fuel' (ofText r.console.written false) Machine.echo = some r' ∧ r'.result = .ok .halted ∧
      r'.console.written = "42\n" ∧ Pipeline.feed ⟨[sum, Machine.echo], false⟩ [20, 22] = .ok p ∧
      (∃ bound, ∀ fuel, bound ≤ fuel → ∃ events, p.run fuel = some ⟨.ok left'.lastOutput, [left, left'], events⟩) ∧
      Alike left r.machine ∧ Alike left' r'.machine := by
  have first : ProgramText.parse "20\n" = .ok [20] := parse_text 20
  have second : ProgramText.parse "22\n" = .ok [22] := parse_text 22
  have spells : Spells (ofText "20\n22\n" false).lines [20, 22] := .words first (.words second .nil)
  obtain ⟨copy, resumed, output⟩ : ∃ copy, Returns ((sum.fed [20, 22]).resume ·) (.ok .ended) copy ∧
    copy.output = [42] := ⟨_, ⟨20, _, rfl⟩, rfl⟩
  obtain ⟨copy', resumed', output'⟩ : ∃ copy, Returns ((Machine.echo.fed [42]).resume ·) (.ok .awaitingInput) copy ∧
    copy.output = [42] := ⟨_, ⟨20, _, rfl⟩, rfl⟩
  have all := (Machine.returns_fed_iff rfl).mp resumed
  have all' := (Machine.returns_fed_iff rfl).mp resumed'
  obtain ⟨fuel, r, state, ran, result, ends⟩ := run_of_runs spells ⟨rfl, rfl⟩ rfl all
  have written : r.console.written = "42\n" := by
    rw [ends.wrote, output]
    rfl
  have between : Spells (ofText r.console.written false).lines [42] := by
    rw [ends.wrote, output]
    exact spells_outputText [42]
  obtain ⟨fuel', r', state', ran', result', ends'⟩ := run_of_runs between ⟨rfl, rfl⟩ rfl all'
  have written' : r'.console.written = "42\n" := by
    rw [ends'.wrote, output']
    rfl
  obtain ⟨-, rfl⟩ : RunState.ended = .ended ∧ state = .ended := ends.ends.resolve_right nofun
  obtain ⟨-, rfl⟩ : RunState.awaitingInput = .awaitingInput ∧ state' = .halted := ends'.ends.resolve_left nofun
  have came := ran fuel (Nat.le_refl _)
  have came' := ran' fuel' (Nat.le_refl _)
  obtain ⟨p, left, left', fed, comes, -, alike, alike'⟩ :=
    run_piped ⟨rfl, rfl⟩ ⟨rfl, rfl⟩ rfl rfl spells came result came' result'
  exact ⟨fuel, fuel', r, r', p, left, left', ⟨rfl, rfl⟩, ⟨rfl, rfl⟩, spells, came, result, written, came', result',
    written', fed, comes, alike, alike'⟩

end IntegerMachine.Console
