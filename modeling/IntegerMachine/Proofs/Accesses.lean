import IntegerMachine.Proofs.Padding

/-!
# Memory as an unbounded row of cells

What a sequence of accesses comes to is told without memory: from the program, from the number of cells that memory
has or may grow to, and from the words that the accesses have written (`Access.answer`). Memory answers the same, fails
without a trace, and has just grown to the furthest cell that was reached (`Access.perform_answers`). Whatever the limit
says, memory has no room for more than `Word.capacity` cells (`Access.load_beyond_capacity`).
-/
namespace IntegerMachine

/-- An access to memory, with the relative base that its argument is counted from. -/
inductive Access where
  | load (a : Argument) (relativeBase : Word)
  | store (a : Argument) (relativeBase value : Word)
  | poke (address : Nat) (value : Word)
  deriving DecidableEq

namespace Access

/-- Carries out an access. A load answers the value of its argument, the others the previous contents of the cell. -/
def perform : Access → EStateM Fault Memory Word
  | .load a relativeBase => Memory.load a relativeBase
  | .store a relativeBase value => Memory.store a relativeBase value
  | .poke address value => Memory.poke address value

/-- The memory that accesses leave which are carried out one after another, whatever becomes of each. -/
def performAll (accesses : List Access) (mem : Memory) : Memory :=
  accesses.foldl (fun mem access => Memory.left access.perform mem) mem

/-! ## What accesses come to -/

/-- The address of an argument: its value, to which the relative base is added, wrapped to 64 bits, if the mode says
    so. Immediate arguments have none. -/
def target (a : Argument) (relativeBase : Word) : Option Int :=
  match a.mode with
  | .position => some a.value.toInt
  | .relative => some ((a.value.toInt + relativeBase.toInt).bmod (1 <<< 64))
  | .immediate => none

/-- The address of an access. -/
def address? : Access → Option Int
  | .load a relativeBase | .store a relativeBase _ => target a relativeBase
  | .poke address _ => some address

/-- What an access comes to whose argument is immediate: the argument is its own value and cannot be stored to. -/
def immediate : Access → Except Fault Word
  | .load a _ => .ok a.value
  | .store .. | .poke .. => .error .immediateStore

/-- The word that an access writes, if it writes. -/
def written? : Access → Option Word
  | .load .. => none
  | .store _ _ value | .poke _ value => some value

/-- The cell that an access reaches where there are or may be `bound` cells, if it reaches one. -/
def cell? (bound : Nat) (access : Access) : Option Nat :=
  access.address?.bind fun address =>
    if 0 ≤ address ∧ address.toNat < bound ∧ address.toNat < Word.capacity then some address.toNat else none

/-- The contents of a cell after accesses: the word that was written last, or else that of the program, or else
    zero. -/
def contents (program : List Word) (bound : Nat) (earlier : List Access) (address : Nat) : Word :=
  earlier.foldl (fun word access => if access.cell? bound = some address then access.written?.getD word else word)
    (program.getD address 0)

/-- What an access comes to after others. -/
def answer (program : List Word) (bound : Nat) (earlier : List Access) (access : Access) : Except Fault Word :=
  match access.address? with
  | none => access.immediate
  | some address =>
    if address < 0 then .error (.negativeAddress (Int64.ofInt address))
    else if bound ≤ address.toNat then .error (.addressOutOfRange (Word.ofSize address.toNat))
    else if Word.capacity ≤ address.toNat then .error .beyondCapacity
    else .ok (contents program bound earlier address.toNat)

/-- The number of cells after accesses: enough for the program and for every cell that has been reached. -/
def extent (program : List Word) (bound : Nat) (earlier : List Access) : Nat :=
  (earlier.filterMap (cell? bound)).foldl (fun size address => max size (address + 1)) program.length

/-! ## What memory refuses -/

section
variable {mem mem' : Memory}

/-- As memory grows, the cells that it has or may grow to stay the same. -/
theorem refusal?_of_grows (grows : mem.Grows mem') (address : Nat) : mem'.refusal? address = mem.refusal? address := by
  have admits : mem'.admits address = mem.admits address := by
    have size_le := grows.size_le
    have bounded := grows.bounded
    unfold Memory.admits
    rw [grows.limit, Bool.eq_iff_iff, Bool.or_eq_true, Bool.or_eq_true]
    simp only [decide_eq_true_eq]
    omega
  unfold Memory.refusal?
  rw [admits]

theorem refusal?_ofProgram (program : List Word) (limit address : Nat) :
    (Memory.ofProgram program limit).refusal? address =
      if max program.length limit ≤ address then some (.addressOutOfRange (Word.ofSize address))
      else if Word.capacity ≤ address then some .beyondCapacity else none := by
  have admits : (Memory.ofProgram program limit).admits address ↔ ¬ max program.length limit ≤ address := by
    unfold Memory.admits
    rw [Bool.or_eq_true, decide_eq_true_eq, decide_eq_true_eq]
    change address < program.length ∨ address < limit ↔ _
    omega
  unfold Memory.refusal?
  by_cases outside : max program.length limit ≤ address
  · rw [if_pos outside, if_neg (fun admitted => admits.mp admitted outside)]
  · rw [if_neg outside, if_pos (admits.mpr outside)]
    by_cases held : address < Word.capacity
    · rw [if_pos held, if_neg (Nat.not_le.mpr held)]
    · rw [if_neg held, if_pos (Nat.not_lt.mp held)]

theorem growing_perform (access : Access) : Memory.Growing access.perform := by
  cases access with
  | load a relativeBase => exact Memory.growing_load a relativeBase
  | store a relativeBase value => exact Memory.growing_store a relativeBase value
  | poke address value => exact Memory.growing_poke address value

theorem performAll_concat (earlier : List Access) (access : Access) (mem : Memory) :
    performAll (earlier ++ [access]) mem = Memory.left access.perform (performAll earlier mem) := by
  simp only [performAll, List.foldl_append, List.foldl_cons, List.foldl_nil]

end

/-! ## One access -/

/-- The memory that an access leaves which reaches a cell. -/
def leaves (access : Access) (mem : Memory) (cell : Nat) : Memory :=
  match access.written? with
  | none => mem.reach cell
  | some value => (mem.reach cell).write cell value

theorem effectiveAddress_eq_none {a : Argument} {relativeBase : Word} (immediate : target a relativeBase = none) :
    a.effectiveAddress relativeBase = none := by
  unfold target at immediate
  unfold Argument.effectiveAddress
  cases mode : a.mode <;> simp_all

theorem effectiveAddress_eq_some {a : Argument} {relativeBase : Word} {address : Int}
    (targets : target a relativeBase = some address) :
    ∃ word : Word, a.effectiveAddress relativeBase = some word ∧ word.toInt = address := by
  unfold target at targets
  unfold Argument.effectiveAddress
  cases mode : a.mode with
  | position =>
    simp only [mode, Option.some.injEq] at targets
    exact ⟨a.value, rfl, targets⟩
  | relative =>
    simp only [mode, Option.some.injEq] at targets
    exact ⟨a.value + relativeBase, rfl, (Int64.toInt_add _ _).trans targets⟩
  | immediate =>
    rw [mode] at targets
    cases targets

theorem address_eq (word : Word) :
    Memory.address word =
      if word.toInt < 0 then .error (.negativeAddress (Int64.ofInt word.toInt)) else .ok word.toInt.toNat := by
  have negative : word < 0 ↔ word.toInt < 0 := Int64.lt_iff_toInt_lt
  unfold Memory.address Word.toSize?
  by_cases below : word.toInt < 0
  · rw [if_pos (negative.mpr below), if_pos below, Int64.ofInt_toInt]
  · rw [if_neg (mt negative.mp below), if_neg below]

/-- Resolving an argument, and going on with its address if there is one. -/
theorem resolve_eq (a : Argument) (relativeBase : Word) (immediate : EStateM.Result Fault Memory Word)
    (x : Nat → EStateM Fault Memory Word) (mem : Memory) :
    (match a.effectiveAddress relativeBase with
      | none => immediate
      | some word =>
        match Memory.address word with
        | .ok address => x address mem
        | .error fault => .error fault mem) =
    match target a relativeBase with
    | none => immediate
    | some address =>
      if address < 0 then .error (.negativeAddress (Int64.ofInt address)) mem else x address.toNat mem := by
  cases targets : target a relativeBase with
  | none => rw [effectiveAddress_eq_none targets]
  | some address =>
    obtain ⟨word, found, rfl⟩ := effectiveAddress_eq_some targets
    simp only [found, address_eq]
    by_cases negative : word.toInt < 0
    · simp only [if_pos negative]
    · simp only [if_neg negative]

/-- What an access does to memory: without an address, it does nothing; with a negative one or one that memory
    refuses it fails and does nothing; otherwise it finds the contents of its cell. -/
theorem perform_eq (access : Access) (mem : Memory) :
    access.perform mem =
      match access.address? with
      | none =>
        match access.immediate with
        | .ok word => .ok word mem
        | .error fault => .error fault mem
      | some address =>
        if address < 0 then .error (.negativeAddress (Int64.ofInt address)) mem
        else
          match mem.refusal? address.toNat with
          | some fault => .error fault mem
          | none => .ok (mem.peek address.toNat) (access.leaves mem address.toNat) := by
  cases access with
  | load a relativeBase =>
    refine (resolve_eq a relativeBase (.ok a.value mem) Memory.readCell mem).trans ?_
    simp only [Memory.readCell, Memory.peek_reach]
    rfl
  | store a relativeBase value =>
    refine (resolve_eq a relativeBase (.error .immediateStore mem) (Memory.poke · value) mem).trans ?_
    simp only [Memory.poke, Memory.peek_reach]
    rfl
  | poke address value =>
    have positive : ¬ ((address : Int) < 0) := by omega
    simp only [perform, Memory.poke, address?, if_neg positive, Int.toNat_natCast, Memory.peek_reach]
    rfl

/-! ## Accesses one after another -/

/-- What the accesses so far have made of memory: it has the size and the contents of the row of cells. -/
structure Stands (program : List Word) (limit : Nat) (earlier : List Access) (mem : Memory) : Prop where
  grows : (Memory.ofProgram program limit).Grows mem
  size : mem.size = extent program (max program.length limit) earlier
  peek : ∀ address, mem.peek address = contents program (max program.length limit) earlier address

section
variable {program : List Word} {limit bound : Nat} {earlier : List Access} {mem : Memory}

theorem extent_concat (access : Access) : extent program bound (earlier ++ [access]) =
    match access.cell? bound with
    | none => extent program bound earlier
    | some cell => max (extent program bound earlier) (cell + 1) := by
  unfold extent
  rw [List.filterMap_append]
  cases reached : access.cell? bound <;> simp [reached]

theorem contents_concat (access : Access) (address : Nat) : contents program bound (earlier ++ [access]) address =
    if access.cell? bound = some address then access.written?.getD (contents program bound earlier address)
    else contents program bound earlier address := by
  simp only [contents, List.foldl_append, List.foldl_cons, List.foldl_nil]

namespace Stands

theorem ofProgram (program : List Word) (limit : Nat) : Stands program limit [] (.ofProgram program limit) where
  grows := .refl _
  size := rfl
  peek address := by simp [Memory.peek, Memory.ofProgram, contents]

/-- The next access comes to what is expected of it. If it reaches a cell it succeeds, and otherwise memory stays. -/
theorem perform_eq_answer (stands : Stands program limit earlier mem) (access : Access) :
    access.perform mem =
      match answer program (max program.length limit) earlier access with
      | .ok word => .ok word (((access.cell? (max program.length limit)).map (access.leaves mem)).getD mem)
      | .error fault => .error fault mem := by
  rw [perform_eq]
  unfold answer cell?
  cases access.address? with
  | none =>
    cases access.immediate <;> rfl
  | some address =>
    -- Memory has grown since, but refuses the same addresses as the one that was given the program.
    simp only [refusal?_of_grows stands.grows, refusal?_ofProgram, ← stands.peek, Option.bind_some]
    by_cases negative : address < 0
    · simp only [if_pos negative]
    · by_cases outside : max program.length limit ≤ address.toNat
      · simp only [if_neg negative, if_pos outside]
      · by_cases excess : Word.capacity ≤ address.toNat
        · simp only [if_neg negative, if_neg outside, if_pos excess]
        · simp only [if_neg negative, if_neg outside, if_neg excess]
          rw [if_pos ⟨Int.not_lt.mp negative, Nat.not_le.mp outside, Nat.not_le.mp excess⟩]
          rfl

theorem cell?_of_error {access : Access} {fault : Fault} (fails : answer program bound earlier access = .error fault) :
    access.cell? bound = none := by
  unfold answer at fails
  unfold cell?
  cases addressed : access.address? with
  | none => rfl
  | some address =>
    rw [addressed] at fails
    rw [Option.bind_some, if_neg]
    rintro ⟨positive, inside, held⟩
    simp only [if_neg (Int.not_lt.mpr positive), if_neg (Nat.not_le.mpr inside), if_neg (Nat.not_le.mpr held)] at fails
    cases fails

theorem left_perform (stands : Stands program limit earlier mem) (access : Access) :
    Memory.left access.perform mem =
      ((access.cell? (max program.length limit)).map (access.leaves mem)).getD mem := by
  unfold Memory.left
  rw [stands.perform_eq_answer]
  cases answered : answer program (max program.length limit) earlier access with
  | ok word => rfl
  | error fault => rw [cell?_of_error answered]; rfl

/-- The row of cells goes on to stand for memory. -/
theorem concat (stands : Stands program limit earlier mem) (access : Access) :
    Stands program limit (earlier ++ [access]) (Memory.left access.perform mem) := by
  refine ⟨stands.grows.trans (access.growing_perform mem), ?_, fun address => ?_⟩
  · rw [stands.left_perform, extent_concat, ← stands.size]
    cases access.cell? (max program.length limit) with
    | none => rfl
    | some cell =>
      simp only [Option.map_some, Option.getD_some, leaves]
      cases access.written? with
      | none => exact mem.size_reach cell
      | some value => exact (Memory.size_write _ cell value).trans (mem.size_reach cell)
  · rw [stands.left_perform, contents_concat, ← stands.peek]
    cases access.cell? (max program.length limit) with
    | none => rfl
    | some cell =>
      have inside : cell < (mem.reach cell).size := by
        rw [Memory.size_reach]
        omega
      simp only [Option.map_some, Option.getD_some, leaves, Option.some.injEq]
      cases access.written? with
      | none => simp only [Memory.peek_reach, Option.getD_none, ite_self]
      | some value => simp only [Memory.peek_write inside, Memory.peek_reach, Option.getD_some]

theorem performAll (program : List Word) (limit : Nat) (accesses : List Access) :
    Stands program limit accesses (Access.performAll accesses (.ofProgram program limit)) := by
  -- From the end: what an access comes to depends on all those before it.
  induction accesses using List.reverseRecOn with
  | nil => exact .ofProgram program limit
  | append_singleton earlier access ih =>
    rw [performAll_concat]
    exact ih.concat access

end Stands

end

/-- Memory is a row of cells without end, which are zero but for the program. Take a program, a limit and any accesses
    one after another. Each succeeds exactly if its address is that of a cell which memory has or may grow to, and
    can hold; it then answers the word that was last written to the cell, or that of the program, or zero. It fails
    with the fault that its address calls for otherwise, and leaves memory as it was. An immediate argument is loaded
    as its own value and never stored to. The size of memory is that of the program, or reaches to the furthest cell
    that an access has reached. -/
theorem perform_answers (program : List Word) (limit : Nat) (earlier : List Access) (access : Access) :
    let mem := performAll earlier (.ofProgram program limit)
    mem.size = extent program (max program.length limit) earlier ∧
    (∀ address, mem.peek address = contents program (max program.length limit) earlier address) ∧
    match answer program (max program.length limit) earlier access with
    | .ok word => ∃ mem', access.perform mem = .ok word mem'
    | .error fault => access.perform mem = .error fault mem := by
  have stands := Stands.performAll program limit earlier
  refine ⟨stands.size, stands.peek, ?_⟩
  rw [stands.perform_eq_answer]
  cases answer program (max program.length limit) earlier access with
  | ok word => exact ⟨_, rfl⟩
  | error fault => rfl

/-- Where the limit is beyond the capacity of memory, an address below the limit may be out of reach. -/
theorem load_beyond_capacity :
    let access := Access.load ⟨1152921504606846975, .position⟩ 0
    access.address? = some (1 <<< 60 - 1) ∧ 1 <<< 60 - 1 < max [(5 : Word)].length (1 <<< 61) ∧
      access.perform (.ofProgram [5] (1 <<< 61)) = .error .beyondCapacity (.ofProgram [5] (1 <<< 61)) :=
  ⟨by decide, by decide, rfl⟩

end Access

end IntegerMachine
