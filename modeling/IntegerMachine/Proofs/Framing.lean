import IntegerMachine.Proofs.Strand

/-!
# Framing

However a node and its forwarder take turns, the forwarder cuts the stream of words that the node writes into
packets and incomplete packets that are dropped (`Strand.framing`). The packets are the groups of a packet's length
that the stream consists of, unless a wait for a payload runs out: what the node writes later then begins a packet
wherever it stands.
-/
namespace IntegerMachine

/-! ## Packets in a stream -/

namespace Packet

/-- The packet with these words. -/
def ofWords? : List Word → Option Packet
  | [] => none
  | destination :: payload => some ⟨destination, payload⟩

/-- The packets that a stream consists of: its groups of `1 + size` words each, as far as they are complete. -/
def groups (size : Nat) (stream : List Word) : List Packet :=
  (List.range (stream.length / (1 + size))).filterMap fun k =>
    ofWords? ((stream.drop (k * (1 + size))).take (1 + size))

theorem groups_of_short {size : Nat} {stream : List Word} (short : stream.length ≤ size) : groups size stream = [] := by
  have none : stream.length / (1 + size) = 0 := Nat.div_eq_of_lt (by omega)
  rw [groups, none]
  rfl

theorem groups_words_append {packet : Packet} (rest : List Word) :
    groups packet.payload.length (packet.words ++ rest) = packet :: groups packet.payload.length rest := by
  have length : packet.words.length = 1 + packet.payload.length := by
    rw [words, List.length_cons, Nat.add_comm]
  have count : (packet.words ++ rest).length / packet.words.length = rest.length / packet.words.length + 1 := by
    rw [List.length_append, Nat.add_div_left _ (by rw [length]; omega)]
  unfold groups
  rw [← length, count, List.range_succ_eq_map, List.filterMap_cons, List.filterMap_map]
  have first : ofWords? (((packet.words ++ rest).drop (0 * packet.words.length)).take packet.words.length) =
      some packet := by
    rw [Nat.zero_mul, List.drop_zero, List.take_left]
    rfl
  have later (k : Nat) : (packet.words ++ rest).drop ((k + 1) * packet.words.length) =
      rest.drop (k * packet.words.length) := by
    rw [Nat.succ_mul, Nat.add_comm, ← List.drop_drop, List.drop_left]
  simp only [first, Function.comp_def, Nat.succ_eq_add_one, later]

theorem groups_flatMap_append {size : Nat} {packets : List Packet}
    (whole : ∀ packet ∈ packets, packet.payload.length = size) (rest : List Word) :
    groups size (packets.flatMap words ++ rest) = packets ++ groups size rest := by
  induction packets with
  | nil => rfl
  | cons packet packets ih =>
    obtain rfl := whole packet List.mem_cons_self
    have later := ih fun packet member => whole packet (List.mem_cons_of_mem _ member)
    rw [List.flatMap_cons, List.append_assoc, groups_words_append, later]
    rfl

end Packet

/-! ## Pieces -/

/-- What a forwarder cuts out of a stream. -/
inductive Piece where
  | sent (packet : Packet)
  | dropped (words : List Word)

namespace Piece

def words : Piece → List Word
  | sent packet => packet.words
  | dropped words => words

def packet? : Piece → Option Packet
  | sent packet => some packet
  | dropped _ => none

/-- A packet is complete, and less is dropped. -/
def Fits (size : Nat) : Piece → Prop
  | sent packet => packet.payload.length = size
  | dropped words => words ≠ [] ∧ words.length ≤ size

end Piece

namespace Strand
variable {size : Nat} {s s' : Strand}

/-- The stream consists of pieces, of which some have been sent, of the words that the forwarder holds, and of those
    still on the output. -/
def Framed (size : Nat) (s : Strand) : Prop :=
  ∃ pieces : List Piece, s.written = pieces.flatMap Piece.words ++ (s.node.forwarder.held ++ s.output) ∧
    s.packets = pieces.filterMap Piece.packet? ∧ ∀ piece ∈ pieces, piece.Fits size

theorem Framed.act (sound : s.Sound size) (framed : s.Framed size) (move : Move) : (s.act size move).Framed size := by
  obtain ⟨pieces, cut, packets, fits⟩ := framed
  have add {piece : Piece} (fit : piece.Fits size) : ∀ piece' ∈ pieces ++ [piece], piece'.Fits size := by
    intro piece' member
    rcases List.mem_append.mp member with before | last
    · exact fits piece' before
    · rw [List.mem_singleton.mp last]
      exact fit
  rcases act_cases sound move with
    ⟨forwarder, same, ⟨words, output, written, -⟩, -, -⟩ | ⟨_, late, f, c, sent, rfl, acted, does, kept⟩
  · refine ⟨pieces, ?_, same.trans packets, fits⟩
    rw [written, output, forwarder, cut]
    simp only [List.append_assoc]
  · rw [acted]
    have holds := sound.forwarder
    cases does with
    | turns held down stops =>
      refine ⟨pieces, ?_, by simp [packets], fits⟩
      simp [held, cut]
    | @takes _ word rest front held going on =>
      have output : s.output = word :: rest := front
      refine ⟨pieces, ?_, by simp [packets], fits⟩
      simp [forwarded_output, held, cut, output]
    | @collapses word rest big front held =>
      have output : s.output = word :: rest := front
      have fit : (Piece.dropped [word]).Fits size := ⟨List.cons_ne_nil _ _, Nat.one_le_of_lt big⟩
      refine ⟨pieces ++ [.dropped [word]], ?_, by simp [packets, Piece.packet?], add fit⟩
      simp [forwarded_output, cut, held, output, Piece.words]
    | @drops destination payload wait collecting ends =>
      rw [collecting] at holds
      have fit : (Piece.dropped (destination :: payload)).Fits size := ⟨List.cons_ne_nil _ _, holds.1⟩
      refine ⟨pieces ++ [.dropped (destination :: payload)], ?_, by simp [packets, Piece.packet?], add fit⟩
      simp [cut, collecting, Piece.words]
    | @sends packet sending =>
      rw [sending] at holds
      have fit : (Piece.sent packet).Fits size := holds
      refine ⟨pieces ++ [.sent packet], ?_, by simp [packets, Piece.packet?], add fit⟩
      simp [cut, sending, Piece.words]

/-! ## Strands in time -/

/-- A strand that has dropped words since its machine came to rest. No further packet can be made of what is left. -/
structure Spent (size : Nat) (lost : List Word) (s : Strand) : Prop where
  rest : s.state.isTerminal
  wide : 0 < size
  few : s.node.forwarder.held.length + s.output.length + s.node.worker.due ≤ 1
  ended : s.state = .ended → s.node.forwarder.held = [] ∧ s.output = [] ∧ lost.length ≤ size

/-- All packets of a strand come before the words that it has lost. -/
def Orderly (size : Nat) (s : Strand) : Prop :=
  ∃ lost : List Word, s.written = s.packets.flatMap Packet.words ++ (lost ++ (s.node.forwarder.held ++ s.output)) ∧
    (∀ packet ∈ s.packets, packet.payload.length = size) ∧
    (lost = [] ∨ s.node.forwarder = .collapsed ∨ Spent size lost s)

theorem Spent.extended {lost : List Word} (sound : s.Sound size) (extended : Extends s s') (spent : Spent size lost s) :
    Spent size lost s' := by
  obtain ⟨words, output, -, bound⟩ := extended.written
  have few := spent.few
  have left := bound spent.rest
  have state := extended.rests spent.rest
  refine ⟨?_, spent.wide, ?_, fun ended => ?_⟩
  · rw [state]
    exact spent.rest
  · rw [extended.forwarder, output, List.length_append]
    omega
  · rw [state] at ended
    obtain ⟨held, empty, short⟩ := spent.ended ended
    have none : words = [] := List.eq_nil_of_length_eq_zero (by have := sound.ended ended; omega)
    rw [extended.forwarder, output, empty, none]
    exact ⟨held, rfl, short⟩

theorem Orderly.act (sound : s.Sound size) (orderly : s.Orderly size) {move : Move} (inTime : s.InTime move) :
    (s.act size move).Orderly size := by
  obtain ⟨lost, cut, whole, kept⟩ := orderly
  rcases act_cases sound move with extended | ⟨_, late, f, c, sent, rfl, acted, does, sound'⟩
  · obtain ⟨words, output, written, -⟩ := extended.written
    refine ⟨lost, ?_, extended.packets ▸ whole, ?_⟩
    · rw [written, output, extended.forwarder, extended.packets, cut]
      simp only [List.append_assoc]
    · rw [extended.forwarder]
      exact kept.imp id (Or.imp id (Spent.extended sound extended))
  · rw [acted]
    have holds := sound.forwarder
    cases does with
    | turns held down stops =>
      refine ⟨lost, by simp [held, cut], by simpa using whole, kept.imp id (Or.imp down fun spent => ?_)⟩
      have few := spent.few
      have ended := spent.ended
      rw [← held] at few ended
      exact ⟨spent.rest, spent.wide, few, ended⟩
    | @takes f word rest front held going on =>
      have output : s.output = word :: rest := front
      refine ⟨lost, by simp [forwarded_output, held, cut, output], by simpa using whole, ?_⟩
      rcases kept with none | down | spent
      · exact .inl none
      · exact absurd down going
      · refine .inr (.inr ⟨spent.rest, spent.wide, ?_, fun ended => ?_⟩)
        · have few := spent.few
          rw [output, List.length_cons] at few
          change f.held.length + rest.length + s.node.worker.due ≤ 1
          rw [held, List.length_append, List.length_singleton]
          omega
        · have empty := (spent.ended ended).2.1
          rw [output] at empty
          cases empty
    | @collapses word rest big front held =>
      have output : s.output = word :: rest := front
      exact ⟨lost ++ [word], by simp [forwarded_output, cut, held, output], by simpa using whole, .inr (.inl rfl)⟩
    | @drops destination payload wait collecting ends =>
      rw [collecting] at holds
      have due := s.node.worker.due_le_one
      -- the clock has not run out, so it was the machine that has come to rest
      obtain ⟨rest, empty⟩ : s.state.isTerminal ∧ s.output = [] := by
        rcases ends with ⟨lated, atClock⟩ | closed
        · exact absurd (atClock ▸ collecting) (inTime lated destination payload)
        · exact closed
      refine ⟨lost ++ destination :: payload, by simp [cut, collecting], by simpa using whole, .inr (.inr ?_)⟩
      refine ⟨rest, Nat.zero_lt_of_lt holds.1, ?_, fun ended => ⟨rfl, empty, ?_⟩⟩
      · change 0 + s.output.length + s.node.worker.due ≤ 1
        rw [empty, List.length_nil]
        omega
      · rcases kept with rfl | down | spent
        · exact holds.1
        · cases collecting.symm.trans down
        · have nothing := (spent.ended ended).1
          rw [collecting] at nothing
          cases nothing
    | @sends packet sending =>
      rw [sending] at holds
      -- a spent strand has at most one word left, too few for a packet
      obtain rfl : lost = [] := by
        rcases kept with none | down | spent
        · exact none
        · cases sending.symm.trans down
        · have few := spent.few
          have wide := spent.wide
          have complete : packet.payload.length = size := holds
          rw [sending, Forwarder.held_sending, Packet.words, List.length_cons] at few
          omega
      refine ⟨[], by simp [cut, sending], ?_, .inl rfl⟩
      intro packet' member
      rcases List.mem_append.mp member with before | last
      · exact whole packet' before
      · rw [List.mem_singleton.mp last]
        exact holds

/-- A forwarder that has stopped has found its machine at rest and the output empty. -/
def Closed (s : Strand) : Prop :=
  s.node.forwarder = .stopped → s.state.isTerminal ∧ (s.state = .ended → s.output = [])

theorem Closed.act (sound : s.Sound size) (closed : s.Closed) {move : Move}
    (undisturbed : ∀ late, move = .forward true late → s.node.forwarder = .stopped) : (s.act size move).Closed := by
  intro stopped
  rcases act_cases sound move with extended | ⟨shutdown, late, f, c, sent, rfl, acted, does, -⟩
  · rw [extended.forwarder] at stopped
    obtain ⟨rest, empty⟩ := closed stopped
    have state := extended.rests rest
    rw [state]
    refine ⟨rest, fun ended => ?_⟩
    obtain ⟨words, output, -, few⟩ := extended.written
    have none : words = [] := List.eq_nil_of_length_eq_zero (by have := sound.ended ended; have := few rest; omega)
    rw [output, empty ended, none]
    rfl
  · rw [acted] at stopped ⊢
    cases does with
    | turns held down stops =>
      rcases stops stopped with before | rfl | ⟨rest, empty⟩
      · exact closed before
      · exact closed (undisturbed late rfl)
      · exact ⟨rest, fun _ => empty⟩
    | takes front held going on => exact absurd stopped on
    | collapses | drops | sends => cases stopped

theorem act_stopped (stopped : s.node.forwarder = .stopped) (move : Move) :
    (s.act size move).node.forwarder = .stopped := by
  cases move with
  | forward shutdown late => simp [act, Node.moved, stopped, Forwarder.step]
  | work | feed | halt => exact stopped

theorem Orderly.prefix_groups (orderly : s.Orderly size) : s.packets <+: Packet.groups size s.written := by
  obtain ⟨lost, cut, whole, -⟩ := orderly
  rw [cut, Packet.groups_flatMap_append whole]
  exact List.prefix_append _ _

/-- Once the machine has ended and the forwarder has stopped, all complete groups have been sent. -/
theorem Orderly.eq_groups (orderly : s.Orderly size) (closed : s.Closed) (ended : s.state = .ended)
    (stopped : s.node.forwarder = .stopped) : s.packets = Packet.groups size s.written := by
  obtain ⟨lost, cut, whole, kept⟩ := orderly
  have empty := (closed stopped).2 ended
  have short : lost.length ≤ size := by
    rcases kept with rfl | down | spent
    · exact Nat.zero_le _
    · cases stopped.symm.trans down
    · exact (spent.ended ended).2.2
  rw [stopped, empty, Forwarder.held_stopped, List.append_nil, List.append_nil] at cut
  rw [cut, Packet.groups_flatMap_append whole, Packet.groups_of_short short, List.append_nil]

/-! ## Runs of a strand -/

theorem ok_of_bind {ε α β : Type} {x : Except ε α} {f : α → Except ε β} {b : β} (done : (x >>= f) = .ok b) :
    ∃ a, x = .ok a ∧ f a = .ok b := by
  cases x with
  | error failure => cases done
  | ok a => exact ⟨a, rfl, done⟩

theorem boot_fresh {config : NetworkConfig} {address : Nat} {m : Machine} {node : Node}
    (booted : Node.boot config address m = .ok node) :
    node.forwarder = .testing ∧ node.worker.due = 0 := by
  obtain ⟨m', worker, spawned, rfl⟩ : ∃ m' worker, Worker.spawn m' = .ok worker ∧ node = ⟨worker, .testing⟩ := by
    unfold Node.boot at booted
    by_cases addressed : config.bootWithAddress
    · rw [if_pos addressed] at booted
      obtain ⟨channel, -, booted⟩ := ok_of_bind booted
      obtain ⟨worker, spawned, booted⟩ := ok_of_bind booted
      exact ⟨_, worker, spawned, (Except.ok.inj booted).symm⟩
    · rw [if_neg addressed] at booted
      obtain ⟨channel, -, booted⟩ := ok_of_bind booted
      obtain ⟨worker, spawned, booted⟩ := ok_of_bind booted
      exact ⟨_, worker, spawned, (Except.ok.inj booted).symm⟩
  refine ⟨rfl, ?_⟩
  unfold Worker.spawn at spawned
  split at spawned
  · cases spawned
  · split at spawned
    · cases spawned
    · cases spawned
      rfl

theorem sound_opened {node : Node} (forwarder : node.forwarder = .testing) (due : node.worker.due = 0) :
    (opened node).Sound size := by
  refine ⟨?_, fun _ => due⟩
  change node.forwarder.Sound size node.channel
  rw [forwarder]
  trivial

theorem framed_opened {node : Node} (forwarder : node.forwarder = .testing) : (opened node).Framed size := by
  refine ⟨[], ?_, rfl, List.forall_mem_nil _⟩
  change node.channel.output.toList = [] ++ (node.forwarder.held ++ node.channel.output.toList)
  rw [forwarder]
  rfl

theorem orderly_opened {node : Node} (forwarder : node.forwarder = .testing) : (opened node).Orderly size := by
  refine ⟨[], ?_, List.forall_mem_nil _, .inl rfl⟩
  change node.channel.output.toList = [] ++ ([] ++ (node.forwarder.held ++ node.channel.output.toList))
  rw [forwarder]
  rfl

theorem closed_opened {node : Node} (forwarder : node.forwarder = .testing) : (opened node).Closed := by
  intro stopped
  cases forwarder.symm.trans stopped

theorem Framed.run (sound : s.Sound size) (framed : s.Framed size) (moves : List Move) :
    (s.run size moves).Framed size := by
  induction moves generalizing s with
  | nil => exact framed
  | cons move moves ih => exact ih (sound.act move) (framed.act sound move)

theorem Orderly.run (sound : s.Sound size) (orderly : s.Orderly size) {moves : List Move}
    (punctual : s.Punctual size moves) : (s.run size moves).Orderly size := by
  induction moves generalizing s with
  | nil => exact orderly
  | cons move moves ih =>
    obtain ⟨inTime, later⟩ := punctual
    exact ih (sound.act move) (orderly.act sound inTime) later

/-- However a node and its forwarder take turns, the forwarder cuts the stream into pieces, one behind the other. It
    sends those of the length of a packet, and drops shorter ones. As long as no wait for a payload runs out, the
    packets sent are the groups of that length that the stream begins with. -/
theorem framing {config : NetworkConfig} {address : Nat} {m : Machine} {node : Node}
    (booted : Node.boot config address m = .ok node) (moves : List Move)
    (ran : (opened node).run config.packetSize moves = s) :
    s.Framed config.packetSize ∧
    ((opened node).Punctual config.packetSize moves → s.packets <+: Packet.groups config.packetSize s.written) := by
  obtain ⟨forwarder, due⟩ := boot_fresh booted
  have sound : (opened node).Sound config.packetSize := sound_opened forwarder due
  subst ran
  refine ⟨(framed_opened forwarder).run sound moves, fun punctual => ?_⟩
  exact ((orderly_opened forwarder).run sound punctual).prefix_groups

/-- A forwarder whose clock never runs out is in time. -/
theorem punctual_of_prompt {moves : List Move} (prompt : ∀ move ∈ moves, ∀ shutdown, move ≠ .forward shutdown true) :
    s.Punctual size moves := by
  induction moves generalizing s with
  | nil => trivial
  | cons move moves ih =>
    refine ⟨?_, ih fun move member => prompt move (List.mem_cons_of_mem _ member)⟩
    cases move with
    | forward shutdown late =>
      rintro rfl
      exact absurd rfl (prompt _ List.mem_cons_self shutdown)
    | work | feed | halt => trivial

/-- A node that writes one word, reads one, and writes three further words. -/
def pausing : Machine := .ofProgram [104, 5, 3, 20, 104, 6, 104, 7, 104, 8, 99] {}

/-- Here it is fed before it pauses. -/
theorem framing_pausing : ∃ node s, Node.boot { packetSize := 1, bootWithAddress := false } 0 pausing = .ok node ∧
    (opened node).run 1 (.feed [7] :: List.replicate 21 (.work false) ++ List.replicate 8 (.forward false false)) = s ∧
    s.written = [5, 6, 7, 8] ∧ s.packets = [⟨5, [6]⟩, ⟨7, [8]⟩] ∧ s.Framed 1 ∧
    s.packets <+: Packet.groups 1 s.written := by
  refine ⟨_, _, rfl, rfl, by decide +kernel, by decide +kernel, ?_⟩
  obtain ⟨framed, aligned⟩ := @framing _ { packetSize := 1, bootWithAddress := false } 0 pausing _ rfl _ rfl
  exact ⟨framed, aligned (punctual_of_prompt (by decide))⟩

/-- Here the wait for the payload of the first packet runs out before the node is fed. The one packet that is sent
    begins with the second word of the stream. -/
theorem framing_slips : ∃ node s, Node.boot { packetSize := 1, bootWithAddress := false } 0 pausing = .ok node ∧
    (opened node).run 1 (List.replicate 5 (.work false) ++ List.replicate 4 (.forward false false) ++
      [.forward false true, .feed [7]] ++ List.replicate 16 (.work false) ++
      List.replicate 4 (.forward false false)) = s ∧
    s.state = .ended ∧ s.written = [5, 6, 7, 8] ∧ s.packets = [⟨6, [7]⟩] ∧
    ∃ packet ∈ s.packets, packet ∉ Packet.groups 1 s.written := by
  refine ⟨_, _, rfl, rfl, rfl, rfl, rfl, ⟨6, [7]⟩, ?_, ?_⟩
  · exact List.mem_singleton_self _
  · decide

end Strand

end IntegerMachine
