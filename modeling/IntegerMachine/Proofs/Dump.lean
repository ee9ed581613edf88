import IntegerMachine.Machine.Display
import IntegerMachine.Proofs.Listing
import IntegerMachine.Proofs.Registers

/-!
# What a dump shows

A dump, cut at its line feeds, is a line of titles and a rule, one line for each cell of its range (`Memory.Shows`) and
a closing rule. So where a dump starts can be read off its third line. Once a program has ended, this is the cell right
behind the halt instruction that has ended it (`Journal.dumped`).
-/
namespace IntegerMachine

/-! ## The lines of a table with two columns -/

namespace Table
variable (w w' : Nat)

/-- A line of a table, with one text on the right of its column and one on the left. -/
def pairLine (label contents : String) : List Char :=
  List.replicate (2 + (w - label.length)) ' ' ++ label.toList ++ [' ', '│', ' '] ++ contents.toList ++
    List.replicate (w' - contents.length + 2) ' '

/-- A rule across both columns. -/
def ruleLine (crossing : String) : List Char :=
  [' '] ++ List.replicate (w + 2) '─' ++ crossing.toList ++ List.replicate (w' + 2) '─' ++ [' ']

theorem toList_rowText (label contents : String) :
    (rowText [w, w'] [.right label, .left contents]).toList = pairLine w w' label contents ++ ['\n'] := by
  simp [rowText, Cell.right, Cell.left, Cell.line, Listing.toList_pushn, pairLine, List.replicate_add]

theorem toList_rule (crossing : String) :
    (rule crossing [w, w']).toList = ruleLine w w' crossing ++ ['\n'] := by
  simp [rule, Listing.toList_pushn, ruleLine]

variable {w w' : Nat}

theorem lineFeed_not_mem_pairLine {label contents : String} (plain : '\n' ∉ label.toList)
    (plain' : '\n' ∉ contents.toList) : '\n' ∉ pairLine w w' label contents := by
  simp [pairLine, plain, plain']

theorem lineFeed_not_mem_ruleLine {crossing : String} (plain : '\n' ∉ crossing.toList) :
    '\n' ∉ ruleLine w w' crossing := by
  simp [ruleLine, plain]

end Table

/-! ## The lines of a table of memory -/

namespace Memory
variable {mem : Memory}

/-- A line shows a cell: its address behind the first letter of the line, and its word. -/
def Shows (mem : Memory) (line : List Char) (address : Nat) : Prop :=
  ∃ before behind,
    line = before ++ ("M[" ++ address.repr ++ "] = │ " ++ (mem.peek address).text).toList ++ behind ∧
    (∀ c ∈ before, c = ' ' ∨ c = '*' ∨ c = '-' ∨ c = '>') ∧ ∀ c ∈ behind, c = ' '

/-- What stands in front of the address of a cell. -/
def mark (marked : Option Nat) (address : Nat) : String := if marked = some address then "* --> " else ""

/-- The line for the cell at an address, in columns of some widths. -/
def cellLine (mem : Memory) (marked : Option Nat) (w w' : Nat) (address : Nat) : List Char :=
  Table.pairLine w w' (mark marked address ++ ("M[" ++ address.repr ++ "] =")) (mem.peek address).text

theorem tableRow_eq (mem : Memory) (marked : Option Nat) (address : Nat) :
    mem.tableRow marked address =
      [.right (mark marked address ++ ("M[" ++ address.repr ++ "] =")), .left (mem.peek address).text] := by
  unfold tableRow mark
  split <;> simp

theorem shows_cellLine (mem : Memory) (marked : Option Nat) (w w' address : Nat) :
    mem.Shows (mem.cellLine marked w w' address) address := by
  let label := mark marked address ++ ("M[" ++ address.repr ++ "] =")
  refine ⟨List.replicate (2 + (w - label.length)) ' ' ++ (mark marked address).toList,
    List.replicate (w' - (mem.peek address).text.length + 2) ' ', by simp [cellLine, Table.pairLine, label],
    fun c member => ?_, fun c => List.eq_of_mem_replicate⟩
  have arrow : ∀ c ∈ (mark marked address).toList, c = ' ' ∨ c = '*' ∨ c = '-' ∨ c = '>' := by
    unfold mark
    split <;> simp
  rcases List.mem_append.mp member with blank | marking
  · exact .inl (List.eq_of_mem_replicate blank)
  · exact arrow c marking

theorem lineFeed_not_mem_cellLine (mem : Memory) (marked : Option Nat) (w w' address : Nat) :
    '\n' ∉ mem.cellLine marked w w' address := by
  have digits : '\n' ∉ address.repr.toList := (ProgramText.digits_repr address).1.lineFeed_not_mem
  have arrow : '\n' ∉ (mark marked address).toList := by
    unfold mark
    split <;> simp
  have contents : '\n' ∉ (mem.peek address).text.toList := (ProgramText.item_text (mem.peek address)).lineFeed_not_mem
  rw [Nat.toList_repr] at digits
  exact Table.lineFeed_not_mem_pairLine (by simp [arrow, digits]) contents

theorem splitOn_cellLines (mem : Memory) (marked : Option Nat) (w w' : Nat) (addresses : List Nat) (rest : List Char) :
    ((String.join (addresses.map fun n => Table.rowText [w, w'] (mem.tableRow marked n))).toList ++ rest).splitOn '\n' =
      addresses.map (mem.cellLine marked w w') ++ rest.splitOn '\n' := by
  induction addresses with
  | nil => rfl
  | cons address addresses ih =>
    have first : (Table.rowText [w, w'] (mem.tableRow marked address)).toList =
        mem.cellLine marked w w' address ++ ['\n'] := by
      rw [tableRow_eq]
      exact Table.toList_rowText w w' _ _
    have next := Listing.splitOn_lineFeed (mem.lineFeed_not_mem_cellLine marked w w' address)
      ((String.join (addresses.map fun n => Table.rowText [w, w'] (mem.tableRow marked n))).toList ++ rest)
    rw [ih] at next
    simpa [first] using next

/-- A table of memory shows the cells of its range one below the other. -/
theorem splitOn_table {start stop : Nat} (ordered : start ≤ stop) (inside : stop ≤ mem.size) (marked : Option Nat) :
    ∃ titles rule lines last,
      (mem.table start stop marked).render.toList.splitOn '\n' = titles :: rule :: lines ++ [last, []] ∧
      List.Forall₂ mem.Shows lines (List.range' start (stop - start)) := by
  obtain ⟨w, w', widths⟩ : ∃ w w', (mem.table start stop marked).widths = [w, w'] := ⟨_, _, rfl⟩
  have table_eq : mem.table start stop marked =
      ⟨[.right "Address", .left "Contents"], (List.range' start (stop - start)).map (mem.tableRow marked)⟩ := by
    simp only [table, Nat.min_eq_left inside, Nat.min_eq_left ordered]
  refine ⟨Table.pairLine w w' "Address" "Contents", Table.ruleLine w w' "┼",
    (List.range' start (stop - start)).map (mem.cellLine marked w w'), Table.ruleLine w w' "┴", ?_, ?_⟩
  · have text : (mem.table start stop marked).render.toList =
        Table.pairLine w w' "Address" "Contents" ++ '\n' :: (Table.ruleLine w w' "┼" ++ '\n' ::
          ((String.join ((List.range' start (stop - start)).map fun n =>
            Table.rowText [w, w'] (mem.tableRow marked n))).toList ++ (Table.ruleLine w w' "┴" ++ ['\n']))) := by
      simp only [Table.render, widths]
      simp [table_eq, Table.toList_rowText, Table.toList_rule, Function.comp_def]
    have titles : '\n' ∉ Table.pairLine w w' "Address" "Contents" :=
      Table.lineFeed_not_mem_pairLine (by decide) (by decide)
    have rule : '\n' ∉ Table.ruleLine w w' "┼" := Table.lineFeed_not_mem_ruleLine (by decide)
    have last : '\n' ∉ Table.ruleLine w w' "┴" := Table.lineFeed_not_mem_ruleLine (by decide)
    rw [text, Listing.splitOn_lineFeed titles, Listing.splitOn_lineFeed rule, splitOn_cellLines,
      Listing.splitOn_lineFeed last]
    rfl
  · rw [List.forall₂_map_left_iff]
    exact List.forall₂_same.mpr fun address _ => mem.shows_cellLine marked w w' address

end Memory

/-! ## Dumps -/

open Machine

variable {program : List Word} {config : Config} {calls : List (Call × Except Failure Unit)} {a : Account}

/-- Once the program of a journal has ended, the dump of its data shows the cells from right behind the halt instruction
    that has ended it to the end of memory. -/
theorem Journal.dumped (mode : config.mode = .cooperative) (journal : Journal program config calls a)
    (ended : a.machine.state = .ended) :
    ∃ halt text titles rule lines last,
      a.machine.ip = halt + 1 ∧ Instruction.decode a.machine.memory halt = .ok .halt ∧
      a.machine.dumpAfterHalt = .ok text ∧
      text.toList.splitOn '\n' = titles :: rule :: lines ++ [last, []] ∧
      List.Forall₂ a.machine.memory.Shows lines
        (List.range' (halt + 1) (a.machine.memory.size - (halt + 1))) := by
  have acts : Acts false (.opened program config) a := journal.acts mode nofun
  have order := (Account.InOrder.opened program config).acts acts
  obtain ⟨halt, behind, decoded⟩ := order.ended ended
  have inside : halt < a.machine.memory.size := Instruction.inside_of_decode decoded
  obtain ⟨titles, rule, lines, last, text, shows⟩ :=
    Memory.splitOn_table (Nat.succ_le_of_lt inside) (Nat.le_refl _) (some a.machine.ip)
  refine ⟨halt, _, titles, rule, lines, last, behind, decoded, if_pos ended, ?_, shows⟩
  unfold dumpRange
  rw [behind] at text ⊢
  exact text

end IntegerMachine
