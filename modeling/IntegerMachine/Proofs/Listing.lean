import IntegerMachine.Listing
import IntegerMachine.Proofs.Encoding
import IntegerMachine.Proofs.ProgramText
import Mathlib.Data.List.Basic

/-!
# What a listing tells

The lines of a listing cover its words one behind the other, each word once (`Covers`), and each shows the address
where it begins (`Line.exists_address`). The text of a line tells the instruction or the word that it stands for
(`Content.text_injective`), so that the text of a listing tells all of its lines. What it leaves open are digits of
instruction words that decoding does not look at (`disassemble_faithful`).
-/
namespace IntegerMachine

/-! ## The text of a word -/

theorem ProgramText.Item.unique {item : List Char} {w w' : Word} (named : Item item w) (named' : Item item w') :
    w = w' := by
  have stop : NoDigit [] := nofun
  have read := item?_append named stop
  have read' := item?_append named' stop
  exact (Prod.mk.inj (Option.some.inj (read.symm.trans read'))).1

theorem ProgramText.Item.chars {item : List Char} {w : Word} (named : Item item w) :
    item ≠ [] ∧ ∀ c ∈ item, c = '-' ∨ c.isDigit = true := by
  cases named with
  | plain decimal =>
    obtain ⟨some, all⟩ := digits_iff.mp decimal
    exact ⟨some, fun c member => .inr (all c member)⟩
  | negative decimal =>
    obtain ⟨-, all⟩ := digits_iff.mp decimal
    refine ⟨nofun, fun c member => ?_⟩
    rcases List.mem_cons.mp member with rfl | digit
    · exact .inl rfl
    · exact .inr (all c digit)

theorem Word.text_injective {w w' : Word} (same : w.text = w'.text) : w = w' := by
  have named := ProgramText.item_text w
  rw [same] at named
  exact named.unique (ProgramText.item_text w')

/-- The text of a word begins with a sign or a digit. -/
theorem Word.exists_head (w : Word) :
    ∃ c rest, w.text.toList = c :: rest ∧ (c = '-' ∨ c.isDigit = true) := by
  obtain ⟨some, all⟩ := (ProgramText.item_text w).chars
  obtain ⟨c, rest, split⟩ := List.exists_cons_of_ne_nil some
  exact ⟨c, rest, split, all c (by simp [split])⟩

/-! ## The text of an argument -/

namespace Argument

/-- The offset of a relative argument as it is written, which is with a sign in any case. -/
def offsetText (offset : Word) : String := if offset < 0 then "-" ++ (-offset).text else "+" ++ offset.text

theorem text_relative (offset : Word) : text ⟨offset, .relative⟩ = "M[rb" ++ (offsetText offset ++ "]") := by
  unfold text offsetText
  by_cases negative : offset < 0
  · simp only [negative, if_true]
    simp [← String.toList_inj]
  · simp only [negative, if_false]
    simp [← String.toList_inj]

/-- The least word is its own negative, and is written with two signs. -/
theorem offsetText_injective {offset offset' : Word} (same : offsetText offset = offsetText offset') :
    offset = offset' := by
  have chars := congrArg String.toList same
  unfold offsetText at chars
  by_cases negative : offset < 0
  · by_cases negative' : offset' < 0
    · simp only [negative, negative', if_true, String.toList_append, List.append_cancel_left_eq,
        String.toList_inj] at chars
      exact Int64.neg_inj.mp (Word.text_injective chars)
    · simp [negative, negative'] at chars
  · by_cases negative' : offset' < 0
    · simp [negative, negative'] at chars
    · simp only [negative, negative', if_false, String.toList_append, List.append_cancel_left_eq,
        String.toList_inj] at chars
      exact Word.text_injective chars

/-- The mode in which an argument with this text is resolved: all but immediate arguments begin with a letter, and
    relative ones go on with another where the others have their word. -/
def modeShown (text : List Char) : Mode :=
  if text.head? = some 'M' then if text[2]? = some 'r' then .relative else .position else .immediate

theorem modeShown_text (a : Argument) : modeShown a.text.toList = a.mode := by
  obtain ⟨value, mode⟩ := a
  obtain ⟨c, rest, split, numeric⟩ := value.exists_head
  have dark : c ≠ 'M' ∧ c ≠ 'r' := by
    constructor
    · rintro rfl
      simp at numeric
    · rintro rfl
      simp at numeric
  cases mode with
  | position => simp [text, split, modeShown, dark]
  | immediate => simp [text, split, modeShown, dark]
  | relative => simp [text_relative, modeShown]

theorem text_injective {a a' : Argument} (same : a.text = a'.text) : a = a' := by
  have modes : a.mode = a'.mode := by
    rw [← modeShown_text a, ← modeShown_text a', same]
  obtain ⟨value, mode⟩ := a
  obtain ⟨value', mode'⟩ := a'
  obtain rfl : mode = mode' := modes
  have values : value = value' := by
    cases mode with
    | position =>
      simp only [text, ← String.toList_inj, String.toList_append, List.append_cancel_right_eq,
        List.append_cancel_left_eq] at same
      exact Word.text_injective (String.toList_inj.mp same)
    | immediate => exact Word.text_injective same
    | relative =>
      simp only [text_relative, ← String.toList_inj, String.toList_append, List.append_cancel_right_eq,
        List.append_cancel_left_eq] at same
      exact offsetText_injective (String.toList_inj.mp same)
  rw [values]

/-- No argument is written with a comma or on more than one line. -/
theorem plain_text (a : Argument) : ∀ c ∈ a.text.toList, c ≠ ',' ∧ c ≠ '\n' := by
  have numeral (w : Word) : ∀ c ∈ w.text.toList, c ≠ ',' ∧ c ≠ '\n' := by
    intro c member
    rcases (ProgramText.item_text w).chars.2 c member with rfl | digit
    · decide
    · constructor
      · rintro rfl
        cases digit
      · rintro rfl
        cases digit
  obtain ⟨value, mode⟩ := a
  cases mode with
  | position => simpa [text, or_imp, forall_and] using numeral value
  | immediate => exact numeral value
  | relative =>
    rw [text_relative, offsetText]
    split
    · simpa [or_imp, forall_and] using numeral (-value)
    · simpa [or_imp, forall_and] using numeral value

end Argument

/-! ## The text of a line -/

namespace Listing

/-- Some texts in parentheses with commas between them, or nothing if there are none. -/
def parenthesised : List String → String
  | [] => ""
  | texts => "(" ++ ", ".intercalate texts ++ ")"

/-- A list is cut in one way where an element first occurs. -/
theorem cut_unique {α : Type} {a : α} {front front' behind behind' : List α} (plain : a ∉ front) (plain' : a ∉ front')
    (same : front ++ a :: behind = front' ++ a :: behind') : front = front' ∧ behind = behind' := by
  rcases List.append_eq_append_iff.mp same with ⟨more, rfl, rest⟩ | ⟨more, rfl, rest⟩
  · cases more with
    | nil => simpa using rest
    | cons b more =>
      obtain ⟨rfl, -⟩ := List.cons.inj rest
      exact absurd (by simp) plain'
  · cases more with
    | nil => simpa [eq_comm] using rest
    | cons b more =>
      obtain ⟨rfl, -⟩ := List.cons.inj rest
      exact absurd (by simp) plain

/-- Texts without commas can be told apart once they stand behind one another. -/
theorem intercalate_injective {texts texts' : List (List Char)} (some : texts ≠ []) (some' : texts' ≠ [])
    (plain : ∀ text ∈ texts, ',' ∉ text) (plain' : ∀ text ∈ texts', ',' ∉ text)
    (same : [',', ' '].intercalate texts = [',', ' '].intercalate texts') : texts = texts' := by
  induction texts generalizing texts' with
  | nil => exact absurd rfl some
  | cons text texts ih =>
    obtain ⟨text', texts', rfl⟩ := List.exists_cons_of_ne_nil some'
    have first := plain text (by simp)
    have first' := plain' text' (by simp)
    cases texts with
    | nil =>
      cases texts' with
      | nil => simpa using same
      | cons next' texts' =>
        -- A single text would hold the comma behind the first of several.
        rw [List.intercalate_singleton, List.intercalate_cons_cons] at same
        exact absurd (by simp [same]) first
    | cons next texts =>
      cases texts' with
      | nil =>
        rw [List.intercalate_singleton, List.intercalate_cons_cons] at same
        exact absurd (by simp [← same]) first'
      | cons next' texts' =>
        simp only [List.intercalate_cons_cons, List.append_assoc, List.cons_append, List.nil_append] at same
        obtain ⟨rfl, rest⟩ := cut_unique first first' same
        have later : next :: texts = next' :: texts' := by
          refine ih (by simp) (by simp) (fun text member => ?_) (fun text member => ?_) (List.cons.inj rest).2
          · exact plain text (List.mem_cons_of_mem _ member)
          · exact plain' text (List.mem_cons_of_mem _ member)
        rw [later]

theorem parenthesised_injective {texts texts' : List String} (plain : ∀ text ∈ texts, ',' ∉ text.toList)
    (plain' : ∀ text ∈ texts', ',' ∉ text.toList) (same : parenthesised texts = parenthesised texts') :
    texts = texts' := by
  have chars := congrArg String.toList same
  cases texts with
  | nil =>
    cases texts' with
    | nil => rfl
    | cons text' texts' => simp [parenthesised] at chars
  | cons text texts =>
    cases texts' with
    | nil => simp [parenthesised] at chars
    | cons text' texts' =>
      simp only [parenthesised, String.toList_append, List.append_cancel_right_eq, List.append_cancel_left_eq,
        String.toList_intercalate] at chars
      have lists : (text :: texts).map String.toList = (text' :: texts').map String.toList :=
        intercalate_injective (by simp) (by simp) (by simpa using plain) (by simpa using plain') chars
      exact (List.map_inj_right fun _ _ => String.toList_inj.mp).mp lists

/-- The word that a line begins with. -/
def Content.name : Content → String
  | .code i => i.opcode.name
  | .data _ => "Data"

/-- What stands in parentheses behind that. -/
def Content.entries : Content → List String
  | .code i => i.arguments.map Argument.text
  | .data w => [w.text]

theorem Content.text_eq (content : Content) : content.text = content.name ++ parenthesised content.entries := by
  cases content with
  | data w => simp [text, name, entries, parenthesised, ← String.toList_inj]
  | code i =>
    simp only [text, Instruction.text, name, entries]
    cases i.arguments with
    | nil => simp [parenthesised]
    | cons arg args => simp [parenthesised, ← String.toList_inj]

theorem Content.plain_entries (content : Content) :
    ∀ text ∈ content.entries, ∀ c ∈ text.toList, c ≠ ',' ∧ c ≠ '\n' := by
  intro text member
  cases content with
  | data w =>
    obtain rfl : text = w.text := by simpa [entries] using member
    exact Argument.plain_text ⟨w, .immediate⟩
  | code i =>
    obtain ⟨arg, -, rfl⟩ := List.mem_map.mp member
    exact arg.plain_text

theorem Content.plain_name (content : Content) : ∀ c ∈ content.name.toList, c ≠ '(' ∧ c ≠ '\n' := by
  cases content with
  | data =>
    simp [name]
  | code i =>
    simp only [name]
    cases i.opcode <;> simp [Opcode.name]

theorem Content.name_cut (content : Content) :
    content.text.toList.takeWhile (· != '(') = content.name.toList ∧
      content.text.toList.dropWhile (· != '(') = (parenthesised content.entries).toList := by
  have before : ∀ c ∈ content.name.toList, (c != '(') = true := fun c member => by
    simpa using (content.plain_name c member).1
  rw [text_eq, String.toList_append, List.takeWhile_append_of_pos before, List.dropWhile_append_of_pos before]
  cases content.entries <;> simp [parenthesised]

theorem opcode_name_injective {op op' : Opcode} (same : op.name = op'.name) : op = op' := by
  have found : ∀ op : Opcode, Opcode.all.find? (·.name == op.name) = some op := fun op => by cases op <;> rfl
  exact Option.some.inj ((found op).symm.trans (same ▸ found op'))

theorem opcode_name_ne_data (op : Opcode) : op.name ≠ "Data" := by
  cases op <;> decide

/-- What a line stands for can be told from its text. -/
theorem Content.text_injective {content content' : Content} (same : content.text = content'.text) :
    content = content' := by
  obtain ⟨name, entries⟩ := content.name_cut
  obtain ⟨name', entries'⟩ := content'.name_cut
  rw [same, name', String.toList_inj] at name
  rw [same, entries', String.toList_inj] at entries
  have rest : content'.entries = content.entries :=
    parenthesised_injective (fun text member comma => (content'.plain_entries text member _ comma).1 rfl)
      (fun text member comma => (content.plain_entries text member _ comma).1 rfl) entries
  cases content with
  | data w =>
    cases content' with
    | data w' =>
      obtain same : w'.text = w.text := by simpa [Content.entries] using rest
      rw [Word.text_injective same]
    | code i' => exact absurd name (opcode_name_ne_data _)
  | code i =>
    cases content' with
    | data w' => exact absurd name.symm (opcode_name_ne_data _)
    | code i' =>
      have arguments : i'.arguments = i.arguments :=
        (List.map_inj_right fun _ _ => Argument.text_injective).mp rest
      rw [Instruction.eq_of_arguments (opcode_name_injective name) arguments]

theorem mem_intercalate {texts : List (List Char)} {c : Char} (member : c ∈ [',', ' '].intercalate texts) :
    c = ',' ∨ c = ' ' ∨ ∃ text ∈ texts, c ∈ text := by
  induction texts with
  | nil => cases member
  | cons text texts ih =>
    cases texts with
    | nil => exact .inr (.inr ⟨text, by simp, by simpa using member⟩)
    | cons next texts =>
      rw [List.intercalate_cons_cons, List.mem_append, List.mem_append] at member
      rcases member with (first | gap) | later
      · exact .inr (.inr ⟨text, by simp, first⟩)
      · rcases List.mem_pair.mp gap with comma | space
        · exact .inl comma
        · exact .inr (.inl space)
      · rcases ih later with comma | space | ⟨text', among, member⟩
        · exact .inl comma
        · exact .inr (.inl space)
        · exact .inr (.inr ⟨text', List.mem_cons_of_mem _ among, member⟩)

/-- What a line stands for is written on one line. -/
theorem Content.lineFeed_not_mem (content : Content) : '\n' ∉ content.text.toList := by
  intro member
  rw [text_eq, String.toList_append, List.mem_append] at member
  rcases member with named | entered
  · exact (content.plain_name _ named).2 rfl
  · have plain := content.plain_entries
    cases entries : content.entries with
    | nil => simp [entries, parenthesised] at entered
    | cons text texts =>
      rw [entries] at entered plain
      simp only [parenthesised, String.toList_append, String.toList_intercalate, List.mem_append] at entered
      rcases entered with (opened | inside) | closed
      · revert opened
        decide
      · rcases mem_intercalate inside with comma | space | ⟨chars, among, member⟩
        · cases comma
        · cases space
        · obtain ⟨text', among', rfl⟩ := List.mem_map.mp among
          exact (plain text' among' _ member).2 rfl
      · revert closed
        decide

theorem toList_pushn (text : String) (c : Char) (count : Nat) :
    (text.pushn c count).toList = text.toList ++ List.replicate count c := by
  induction count with
  | zero => simp [String.pushn, Nat.repeat]
  | succ count ih =>
    have next : text.pushn c (count + 1) = (text.pushn c count).push c := rfl
    rw [next, String.toList_push, ih, List.replicate_succ', List.append_assoc]

/-- Digits that are read as a number, of which there are at least four. -/
structure Denotes (digits : List Char) (n : Nat) : Prop where
  decimal : ProgramText.Digits digits
  value : Nat.ofDigitChars 10 digits 0 = n
  width : 4 ≤ digits.length

theorem denotes_addressText (n : Nat) : Denotes (addressText n).toList n := by
  obtain ⟨decimal, value⟩ := ProgramText.digits_repr n
  obtain ⟨some, all⟩ := ProgramText.digits_iff.mp decimal
  have padded : (addressText n).toList = List.replicate (4 - n.repr.length) '0' ++ n.repr.toList := by
    simp [addressText, toList_pushn]
  rw [padded]
  refine ⟨ProgramText.digits_iff.mpr ⟨List.append_ne_nil_of_right_ne_nil _ some, fun c member => ?_⟩, ?_, ?_⟩
  · rcases List.mem_append.mp member with zero | digit
    · rw [List.eq_of_mem_replicate zero]
      rfl
    · exact all c digit
  · rw [Nat.ofDigitChars_append, Nat.ofDigitChars_replicate_zero, Nat.mul_zero, value]
  · rw [List.length_append, List.length_replicate, String.length_toList]
    omega

/-- The text of a line in front of its line feed. -/
def Line.shown (line : Line) : List Char := (addressText line.address ++ "  " ++ line.content.text).toList

theorem Line.toList_text (line : Line) : line.text.toList = line.shown ++ ['\n'] := by
  simp [text, shown]

/-- A line shows its address, and behind two spaces what it stands for. -/
theorem Line.exists_address (line : Line) :
    ∃ digits, Denotes digits line.address ∧ line.shown = digits ++ [' ', ' '] ++ line.content.text.toList :=
  ⟨_, denotes_addressText line.address, by simp [shown]⟩

theorem Line.lineFeed_not_mem (line : Line) : '\n' ∉ line.shown := by
  obtain ⟨digits, address, shown⟩ := line.exists_address
  simp [shown, address.decimal.lineFeed_not_mem, line.content.lineFeed_not_mem]

/-- Lines at one address with the same text are the same. -/
theorem Line.shown_injective {line line' : Line} (address : line.address = line'.address)
    (same : line.shown = line'.shown) : line = line' := by
  obtain ⟨n, content⟩ := line
  obtain ⟨n', content'⟩ := line'
  obtain rfl : n = n' := address
  unfold shown at same
  rw [String.toList_inj] at same
  have contents : content = content' := Content.text_injective ((String.append_right_inj _).mp same)
  rw [contents]

/-! ## Lines behind one another -/

/-- The lines stand for the words from one address up to another, each line for those behind the one before. -/
inductive Covers : Nat → List Line → Nat → Prop
  | none {n : Nat} : Covers n [] n
  | line {n stop : Nat} {content : Content} {lines : List Line} (later : Covers (n + content.size) lines stop) :
      Covers n (⟨n, content⟩ :: lines) stop

namespace Covers
variable {start stop stop' : Nat} {lines lines' : List Line}

theorem le (covers : Covers start lines stop) : start ≤ stop := by
  induction covers with
  | none => exact Nat.le_refl _
  | @line n stop content lines later ih => omega

theorem stop_unique (covers : Covers start lines stop) (covers' : Covers start lines stop') : stop = stop' := by
  induction covers with
  | none =>
    cases covers'
    rfl
  | line later ih =>
    cases covers' with
    | line later' => exact ih later'

theorem start_le (covers : Covers start lines stop) {line : Line} (member : line ∈ lines) : start ≤ line.address := by
  induction covers with
  | none => cases member
  | @line n stop content lines later ih =>
    rcases List.mem_cons.mp member with rfl | member
    · exact Nat.le_refl _
    · have := ih member
      omega

/-- Each word between the ends is covered by one line. -/
theorem existsUnique (covers : Covers start lines stop) {n : Nat} (behind : start ≤ n) (inside : n < stop) :
    ∃! line, line ∈ lines ∧ line.address ≤ n ∧ n < line.address + line.content.size := by
  induction covers with
  | none => omega
  | @line first stop content lines later ih =>
    by_cases here : n < first + content.size
    · refine ⟨⟨first, content⟩, ⟨by simp, behind, here⟩, ?_⟩
      rintro line ⟨member, before, -⟩
      rcases List.mem_cons.mp member with same | member
      · exact same
      · have := later.start_le member
        omega
    · obtain ⟨line, ⟨member, before, after⟩, unique⟩ := ih (by omega) inside
      refine ⟨line, ⟨List.mem_cons_of_mem _ member, before, after⟩, ?_⟩
      rintro line' ⟨member', before', after'⟩
      rcases List.mem_cons.mp member' with rfl | member'
      · exact absurd after' here
      · exact unique line' ⟨member', before', after'⟩

/-- Lines that begin at the same address can be told from what they show. -/
theorem eq_of_shown (covers : Covers start lines stop) (covers' : Covers start lines' stop')
    (same : lines.map Line.shown = lines'.map Line.shown) : lines = lines' := by
  induction covers generalizing lines' with
  | none => exact (List.map_eq_nil_iff.mp same.symm).symm
  | @line n stop content lines later ih =>
    cases covers' with
    | none => cases same
    | @line _ _ content' lines' later' =>
      obtain ⟨first, rest⟩ := List.cons.inj same
      have lines : (⟨n, content⟩ : Line) = ⟨n, content'⟩ := Line.shown_injective rfl first
      obtain rfl : content = content' := congrArg Line.content lines
      rw [ih later' rest]

end Covers

section
variable {mem : Memory} {n : Nat}

theorem contentAt_cases (mem : Memory) (n : Nat) :
    (∃ i, Instruction.decode mem n = .ok i ∧ n + i.size ≤ mem.size ∧ contentAt mem n = .code i) ∨
      contentAt mem n = .data (mem.peek n) := by
  unfold contentAt
  cases Instruction.decode mem n with
  | error fault => exact .inr rfl
  | ok i =>
    by_cases fits : n + i.size ≤ mem.size
    · exact .inl ⟨i, rfl, fits, if_pos fits⟩
    · exact .inr (if_neg fits)

/-- An instruction that the end of memory cuts off is not listed as one. -/
theorem contentAt_fits (inside : n < mem.size) : n + (contentAt mem n).size ≤ mem.size := by
  rcases contentAt_cases mem n with ⟨i, -, fits, code⟩ | data
  · rw [code]
    exact fits
  · rw [data]
    exact inside

theorem covers_linesFrom (within : n ≤ mem.size) : Covers n (linesFrom mem n) mem.size := by
  fun_induction linesFrom mem n with
  | case1 n inside content ih => exact .line (ih (contentAt_fits inside))
  | case2 n outside =>
    obtain rfl : n = mem.size := by omega
    exact .none

theorem content_of_mem {line : Line} (member : line ∈ linesFrom mem n) :
    line.content = contentAt mem line.address := by
  fun_induction linesFrom mem n with
  | case1 n inside content ih =>
    rcases List.mem_cons.mp member with rfl | member
    · rfl
    · exact ih member
  | case2 n outside => cases member

end

variable {words words' : List Word}

/-- The memory that a listing is made of. -/
def stored (words : List Word) : Memory := .ofProgram words Memory.defaultLimit

theorem peek_stored {n : Nat} (inside : n < words.length) : (stored words).peek n = words[n] := by
  simp [stored, Memory.ofProgram, Memory.peek, inside]

theorem covers_lines (words : List Word) : Covers 0 (lines words) words.length :=
  @covers_linesFrom (stored words) 0 (Nat.zero_le _)

/-! ## The text of a listing -/

/-- A text is cut behind its first line. -/
theorem splitOn_lineFeed {shown : List Char} (plain : '\n' ∉ shown) (rest : List Char) :
    (shown ++ '\n' :: rest).splitOn '\n' = shown :: rest.splitOn '\n' := by
  have single : shown.splitOn '\n' = [shown] := by
    have each : ∀ line ∈ [shown], '\n' ∉ line := by simpa using plain
    simpa using List.splitOn_intercalate '\n' each nofun
  unfold List.splitOn at single ⊢
  rw [List.splitOnP_append_cons _ _ (by decide), single]
  rfl

theorem splitOn_lines (lines : List Line) :
    (String.join (lines.map Line.text)).toList.splitOn '\n' = lines.map Line.shown ++ [[]] := by
  induction lines with
  | nil => rfl
  | cons line lines ih =>
    have split : (String.join ((line :: lines).map Line.text)).toList =
        line.shown ++ '\n' :: (String.join (lines.map Line.text)).toList := by
      simp [line.toList_text]
    rw [split, splitOn_lineFeed line.lineFeed_not_mem, ih]
    rfl

/-- The text of a listing tells its lines. -/
theorem lines_of_disassemble (same : disassemble words = disassemble words') : lines words = lines words' := by
  have shown : (lines words).map Line.shown ++ [[]] = (lines words').map Line.shown ++ [[]] := by
    rw [← splitOn_lines, ← splitOn_lines]
    exact congrArg (fun text : String => text.toList.splitOn '\n') same
  exact (covers_lines words).eq_of_shown (covers_lines words') (List.append_cancel_right shown)

/-- At an address of both listings stands the same instruction, and the words there agree in the digits of its
    operation and its modes. -/
structure SameCode (words words' : List Word) (n : Nat) (i : Instruction) : Prop where
  listed : ⟨n, .code i⟩ ∈ lines words
  listed' : ⟨n, .code i⟩ ∈ lines words'
  decoded : Instruction.decode (stored words) n = .ok i
  decoded' : Instruction.decode (stored words') n = .ok i
  digits : ((stored words).peek n).toInt % 10 ^ (2 + i.opcode.arity) =
    ((stored words').peek n).toInt % 10 ^ (2 + i.opcode.arity)

/-- A line that is in both listings stands for the same words in both, instruction words apart. -/
theorem agree_of_line {line : Line} (listed : line ∈ lines words) (listed' : line ∈ lines words') {n : Nat}
    (before : line.address ≤ n) (after : n < line.address + line.content.size) :
    (stored words).peek n = (stored words').peek n ∨ ∃ i, SameCode words words' n i := by
  have content : line.content = contentAt (stored words) line.address := content_of_mem listed
  have content' : line.content = contentAt (stored words') line.address := content_of_mem listed'
  obtain ⟨start, shown⟩ := line
  cases shown with
  | data w =>
    obtain rfl : n = start := by
      have size : (Content.data w).size = 1 := rfl
      simp only [size] at before after
      omega
    have cell {words : List Word} (content : Content.data w = contentAt (stored words) n) :
        (stored words).peek n = w := by
      rcases contentAt_cases (stored words) n with ⟨i, -, -, code⟩ | data
      · cases content.trans code
      · exact (Content.data.inj (content.trans data)).symm
    exact .inl ((cell content).trans (cell content').symm)
  | code i =>
    have decoded {words : List Word} (content : Content.code i = contentAt (stored words) start) :
        Instruction.decode (stored words) start = .ok i := by
      rcases contentAt_cases (stored words) start with ⟨i', decoded, -, code⟩ | data
      · rw [Content.code.inj (content.trans code), decoded]
      · cases content.trans data
    by_cases first : n = start
    · subst first
      refine .inr ⟨i, listed, listed', decoded content, decoded content', ?_⟩
      rw [← Instruction.toInt_word_of_decode (decoded content), ← Instruction.toInt_word_of_decode (decoded content')]
    · -- Behind the instruction word stand the arguments, which are listed with their words.
      have size : (Content.code i).size = 1 + i.arguments.length := by
        rw [i.length_arguments]
        rfl
      obtain ⟨k, rfl⟩ : ∃ k, n = start + 1 + k := ⟨n - (start + 1), by simp only at before; omega⟩
      have among : k < i.arguments.length := by
        simp only [size] at after
        omega
      obtain ⟨-, -, stand⟩ := Instruction.valid_of_decode (decoded content)
      obtain ⟨-, -, stand'⟩ := Instruction.valid_of_decode (decoded content')
      exact .inl ((stand k among).1.symm.trans (stand' k among).1)

/-- A listing loses nothing but unused digits. Its text, cut at the line feeds, is that of its lines, each of which shows
    the address where it begins in at least four digits, and behind that what it stands for. The first of them begins at
    address zero, each other behind the words that the one before it stands for, and the last reaches the end, so that
    each word is covered by one line. And if two lists of words have the same listing, then they are equally
    long and agree in each word, but for the words of instructions that stand at the same address in both: these agree
    in all digits that decoding looks at. -/
theorem disassemble_faithful (words words' : List Word) :
    (disassemble words).toList.splitOn '\n' = (lines words).map Line.shown ++ [[]] ∧
    (∀ line ∈ lines words,
      ∃ digits, Denotes digits line.address ∧ line.shown = digits ++ [' ', ' '] ++ line.content.text.toList) ∧
    Covers 0 (lines words) words.length ∧
    (∀ n < words.length,
      ∃! line, line ∈ lines words ∧ line.address ≤ n ∧ n < line.address + line.content.size) ∧
    (disassemble words = disassemble words' →
      words.length = words'.length ∧
      ∀ n (inside : n < words.length) (inside' : n < words'.length), words[n] = words'[n] ∨
        ∃ i : Instruction, ⟨n, .code i⟩ ∈ lines words ∧ ⟨n, .code i⟩ ∈ lines words' ∧
          Instruction.decode (stored words) n = .ok i ∧ Instruction.decode (stored words') n = .ok i ∧
          words[n].toInt % 10 ^ (2 + i.opcode.arity) = words'[n].toInt % 10 ^ (2 + i.opcode.arity)) := by
  have covers := covers_lines words
  refine ⟨splitOn_lines _, fun line _ => line.exists_address, covers,
    fun n inside => covers.existsUnique (Nat.zero_le n) inside, fun same => ?_⟩
  have sameLines := lines_of_disassemble same
  have covers' : Covers 0 (lines words) words'.length := by
    rw [sameLines]
    exact covers_lines words'
  refine ⟨covers.stop_unique covers', fun n inside inside' => ?_⟩
  obtain ⟨line, ⟨listed, before, after⟩, -⟩ := covers.existsUnique (Nat.zero_le n) inside
  rcases agree_of_line listed (sameLines ▸ listed) before after with equal | ⟨i, code⟩
  · rw [peek_stored inside, peek_stored inside'] at equal
    exact .inl equal
  · have digits := code.digits
    rw [peek_stored inside, peek_stored inside'] at digits
    exact .inr ⟨i, code.listed, code.listed', code.decoded, code.decoded', digits⟩

/-- Two instruction words with a digit that is not used, an argument that is the least word, and an instruction that the
    end cuts off. -/
theorem disassemble_faithful_cut :
    (∃! line, line ∈ lines [70204, Int64.minValue, 99, 1002] ∧ line.address ≤ 1 ∧ 1 < line.address + line.content.size) ∧
    disassemble [70204, Int64.minValue, 99, 1002] = disassemble [204, Int64.minValue, 12399, 1002] ∧
    ∃ i : Instruction, ⟨0, .code i⟩ ∈ lines [204, Int64.minValue, 12399, 1002] ∧
      (70204 : Word).toInt % 10 ^ (2 + i.opcode.arity) = (204 : Word).toInt % 10 ^ (2 + i.opcode.arity) := by
  have listing : lines [70204, Int64.minValue, 99, 1002] = lines [204, Int64.minValue, 12399, 1002] := by
    decide +kernel
  have same : disassemble [70204, Int64.minValue, 99, 1002] = disassemble [204, Int64.minValue, 12399, 1002] := by
    unfold disassemble
    rw [listing]
  obtain ⟨-, -, -, once, agree⟩ :=
    disassemble_faithful [70204, Int64.minValue, 99, 1002] [204, Int64.minValue, 12399, 1002]
  refine ⟨once 1 (by decide), same, ?_⟩
  rcases (agree same).2 0 (by decide) (by decide) with equal | ⟨i, -, listed, -, -, digits⟩
  · cases equal
  · exact ⟨i, listed, digits⟩

end Listing
end IntegerMachine
