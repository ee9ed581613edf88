import IntegerMachine.ProgramText
import Mathlib.Data.List.DropRight

/-!
# The grammar of program text

A program text is a list of signed decimal numerals in the range of words, with commas between them and blanks
anywhere around them (`Program`). Reading accepts exactly these texts, tells the blank ones apart from the
others, and undoes writing (`parse_exact`).
-/
namespace IntegerMachine.ProgramText

/-- Only spaces, tabs, carriage returns and line feeds. -/
def Blanks (cs : List Char) : Prop := ∀ c ∈ cs, c = ' ' ∨ c = '\t' ∨ c = '\r' ∨ c = '\n'

/-- Digits, of which there is at least one. -/
def Digits (cs : List Char) : Prop := cs ≠ [] ∧ ∀ c ∈ cs, '0' ≤ c ∧ c ≤ '9'

/-- A decimal numeral, with or without a minus sign, and the word that has its value. -/
inductive Item : List Char → Word → Prop
  | plain {digits : List Char} {w : Word} (decimal : Digits digits)
      (value : w.toInt = Nat.ofDigitChars 10 digits 0) : Item digits w
  | negative {digits : List Char} {w : Word} (decimal : Digits digits)
      (value : w.toInt = -(Nat.ofDigitChars 10 digits 0 : Int)) : Item ('-' :: digits) w

/-- Items behind a comma each, with blanks on either side of it. -/
inductive Further : List Char → List Word → Prop
  | none : Further [] []
  | more {before behind item rest : List Char} {w : Word} {ws : List Word} (blank : Blanks before)
      (blank' : Blanks behind) (named : Item item w) (later : Further rest ws) :
      Further (before ++ ',' :: (behind ++ item ++ rest)) (w :: ws)

/-- Items with commas between them, and blanks at either end of the text. -/
inductive Program : List Char → List Word → Prop
  | words {before item rest behind : List Char} {w : Word} {ws : List Word} (blank : Blanks before)
      (named : Item item w) (later : Further rest ws) (blank' : Blanks behind) :
      Program (before ++ item ++ rest ++ behind) (w :: ws)

/-! ## Blanks -/

theorem isBlank_iff {c : Char} : isBlank c = true ↔ c = ' ' ∨ c = '\t' ∨ c = '\r' ∨ c = '\n' := by
  simp only [isBlank, Bool.or_eq_true, beq_iff_eq, or_assoc]

theorem blanks_iff {cs : List Char} : Blanks cs ↔ ∀ c ∈ cs, isBlank c = true := by
  simp only [Blanks, isBlank_iff]

theorem skipBlanks_eq_nil_iff {cs : List Char} : skipBlanks cs = [] ↔ Blanks cs := by
  rw [blanks_iff]
  exact List.dropWhile_eq_nil_iff

theorem skipBlanks_append {before : List Char} (blank : Blanks before) (cs : List Char) :
    skipBlanks (before ++ cs) = skipBlanks cs :=
  List.dropWhile_append_of_pos (blanks_iff.mp blank)

theorem skipBlanks_of_dark {c : Char} (dark : isBlank c = false) (cs : List Char) : skipBlanks (c :: cs) = c :: cs :=
  List.dropWhile_cons_of_neg (by simp [dark])

theorem skipBlanks_skipBlanks (cs : List Char) : skipBlanks (skipBlanks cs) = skipBlanks cs :=
  List.dropWhile_idempotent isBlank cs

theorem exists_blanks (cs : List Char) : ∃ before, Blanks before ∧ cs = before ++ skipBlanks cs :=
  ⟨cs.takeWhile isBlank, blanks_iff.mpr fun _ member => List.mem_takeWhile_imp member,
    List.takeWhile_append_dropWhile.symm⟩

/-! ## Items -/

theorem ofInt?_eq_some_iff {i : Int} {w : Word} : Word.ofInt? i = some w ↔ w.toInt = i := by
  unfold Word.ofInt?
  rw [Int64.toInt_minValue, Int64.toInt_maxValue]
  constructor
  · intro found
    split at found
    · cases found
      exact Int64.toInt_ofInt_of_le (by omega) (by omega)
    · cases found
  · rintro rfl
    have below := w.toInt_lt
    have above := w.le_toInt
    rw [if_pos ⟨above, by omega⟩, Int64.ofInt_toInt]

theorem isDigit_iff {c : Char} : c.isDigit = true ↔ '0' ≤ c ∧ c ≤ '9' := by
  simp [Char.isDigit, Char.le_def]

theorem digits_iff {cs : List Char} : Digits cs ↔ cs ≠ [] ∧ ∀ c ∈ cs, c.isDigit = true := by
  simp only [Digits, isDigit_iff]

theorem Digits.lineFeed_not_mem {digits : List Char} (decimal : Digits digits) : '\n' ∉ digits := fun member => by
  cases (digits_iff.mp decimal).2 '\n' member

theorem Item.lineFeed_not_mem {item : List Char} {w : Word} (named : Item item w) : '\n' ∉ item := by
  cases named with
  | plain decimal => exact decimal.lineFeed_not_mem
  | negative decimal => simpa using decimal.lineFeed_not_mem

theorem item?_eq_some_iff {cs rest : List Char} {w : Word} :
    item? cs = some (w, rest) ↔
      Digits ((takeSign cs).2.takeWhile Char.isDigit) ∧ rest = (takeSign cs).2.dropWhile Char.isDigit ∧
        w.toInt = if (takeSign cs).1 then -(Nat.ofDigitChars 10 ((takeSign cs).2.takeWhile Char.isDigit) 0 : Int)
          else Nat.ofDigitChars 10 ((takeSign cs).2.takeWhile Char.isDigit) 0 := by
  have decimal : Digits ((takeSign cs).2.takeWhile Char.isDigit) ↔ (takeSign cs).2.takeWhile Char.isDigit ≠ [] := by
    rw [digits_iff, and_iff_left]
    exact fun _ member => List.mem_takeWhile_imp member
  have value : ∀ digits, (Numeral.value digits : Int) = Nat.ofDigitChars 10 digits 0 := fun _ => rfl
  unfold item?
  simp only [value, decimal]
  by_cases empty : (takeSign cs).2.takeWhile Char.isDigit = []
  · simp [empty]
  · simp only [List.isEmpty_iff, empty, if_false, Option.map_eq_some_iff, ofInt?_eq_some_iff, Prod.mk.injEq]
    constructor
    · rintro ⟨w', found, rfl, rfl⟩
      exact ⟨empty, rfl, found⟩
    · rintro ⟨-, rfl, found⟩
      exact ⟨w, found, rfl, rfl⟩

theorem takeSign_cases (cs : List Char) :
    takeSign cs = (false, cs) ∨ ∃ rest, cs = '-' :: rest ∧ takeSign cs = (true, rest) := by
  unfold takeSign
  split
  · exact .inr ⟨_, rfl, rfl⟩
  · exact .inl rfl

theorem exists_item_of_item? {cs rest : List Char} {w : Word} (found : item? cs = some (w, rest)) :
    ∃ item, Item item w ∧ cs = item ++ rest := by
  obtain ⟨decimal, rfl, value⟩ := item?_eq_some_iff.mp found
  have split : ∀ tail : List Char, tail = tail.takeWhile Char.isDigit ++ tail.dropWhile Char.isDigit :=
    fun _ => List.takeWhile_append_dropWhile.symm
  rcases takeSign_cases cs with unsigned | ⟨tail, rfl, signed⟩
  · rw [unsigned] at decimal value ⊢
    exact ⟨_, .plain decimal value, split cs⟩
  · rw [signed] at decimal value ⊢
    exact ⟨'-' :: _, .negative decimal value, congrArg ('-' :: ·) (split tail)⟩

/-- A text that does not go on with a digit. -/
def NoDigit (cs : List Char) : Prop := ∀ c ∈ cs.head?, c.isDigit = false

theorem span_digits {digits rest : List Char} (decimal : Digits digits) (stop : NoDigit rest) :
    (digits ++ rest).takeWhile Char.isDigit = digits ∧ (digits ++ rest).dropWhile Char.isDigit = rest := by
  obtain ⟨-, all⟩ := digits_iff.mp decimal
  rw [List.takeWhile_append_of_pos all, List.dropWhile_append_of_pos all]
  cases rest with
  | nil => simp
  | cons c rest =>
    have other : ¬ c.isDigit = true := by simp [stop c (by simp)]
    rw [List.takeWhile_cons_of_neg other, List.dropWhile_cons_of_neg other, List.append_nil]
    exact ⟨rfl, rfl⟩

theorem takeSign_of_digits {digits : List Char} (decimal : Digits digits) (rest : List Char) :
    takeSign (digits ++ rest) = (false, digits ++ rest) := by
  obtain ⟨some, all⟩ := digits_iff.mp decimal
  cases digits with
  | nil => exact absurd rfl some
  | cons c digits =>
    have digit := all c (by simp)
    unfold takeSign
    split
    · next same =>
      cases same
      cases digit
    · rfl

theorem item?_append {item rest : List Char} {w : Word} (named : Item item w) (stop : NoDigit rest) :
    item? (item ++ rest) = some (w, rest) := by
  rw [item?_eq_some_iff]
  cases named with
  | plain decimal value =>
    obtain ⟨taken, left⟩ := span_digits decimal stop
    rw [takeSign_of_digits decimal]
    simp only [taken, left]
    exact ⟨decimal, trivial, value⟩
  | @negative digits _ decimal value =>
    obtain ⟨taken, left⟩ := span_digits decimal stop
    have signed : takeSign ('-' :: digits ++ rest) = (true, digits ++ rest) := rfl
    rw [signed]
    simp only [taken, left]
    exact ⟨decimal, trivial, value⟩

theorem skipBlanks_item {item : List Char} {w : Word} (named : Item item w) (rest : List Char) :
    skipBlanks (item ++ rest) = item ++ rest := by
  cases named with
  | plain decimal =>
    obtain ⟨some, all⟩ := digits_iff.mp decimal
    cases item with
    | nil => exact absurd rfl some
    | cons c digits =>
      refine skipBlanks_of_dark ?_ _
      have digit := all c (by simp)
      rw [Bool.eq_false_iff, Ne, isBlank_iff]
      rintro (rfl | rfl | rfl | rfl) <;> cases digit
  | negative => exact skipBlanks_of_dark rfl _

/-! ## Further items -/

theorem separator?_eq_some_iff {cs behind : List Char} :
    separator? cs = some behind ↔ ∃ tail, skipBlanks cs = ',' :: tail ∧ behind = skipBlanks tail := by
  unfold separator?
  split
  · next tail same => simp [same, eq_comm]
  · next other =>
    simp only [reduceCtorEq, false_iff]
    rintro ⟨tail, same, -⟩
    exact other tail same

theorem separator?_of_blanks {cs : List Char} (blank : Blanks cs) : separator? cs = none := by
  unfold separator?
  rw [skipBlanks_eq_nil_iff.mpr blank]

theorem moreItems_of_blanks {cs : List Char} (blank : Blanks cs) : moreItems cs = ([], cs) := by
  rw [moreItems]
  split
  · rfl
  · next separated =>
    rw [separator?_of_blanks blank] at separated
    cases separated

theorem moreItems_of_item {cs behind rest : List Char} {w : Word} (separated : separator? cs = some behind)
    (found : item? behind = some (w, rest)) :
    moreItems cs = (w :: (moreItems rest).1, (moreItems rest).2) := by
  rw [moreItems]
  split
  · next none =>
    rw [separated] at none
    cases none
  · next behind' same =>
    cases separated.symm.trans same
    split
    · next none =>
      rw [found] at none
      cases none
    · next same =>
      cases found.symm.trans same
      rfl

theorem exists_further (cs : List Char) :
    ∃ read, Further read (moreItems cs).1 ∧ cs = read ++ (moreItems cs).2 := by
  fun_induction moreItems cs with
  | case1 cs => exact ⟨[], .none, rfl⟩
  | case2 cs => exact ⟨[], .none, rfl⟩
  | case3 cs behind separated w rest found ws stop later ih =>
    obtain ⟨tail, comma, rfl⟩ := separator?_eq_some_iff.mp separated
    obtain ⟨before, blank, split⟩ := exists_blanks cs
    obtain ⟨gap, blank', split'⟩ := exists_blanks tail
    obtain ⟨item, named, split''⟩ := exists_item_of_item? found
    rw [later] at ih
    obtain ⟨read, further, remainder⟩ := ih
    refine ⟨before ++ ',' :: (gap ++ item ++ read), .more blank blank' named further, ?_⟩
    calc
      cs = before ++ ',' :: (gap ++ (item ++ (read ++ stop))) := by
        rw [← remainder, ← split'', ← split', ← comma, ← split]
      _ = before ++ ',' :: (gap ++ item ++ read) ++ stop := by simp

theorem noDigit_of_blanks {cs : List Char} (blank : Blanks cs) : NoDigit cs := by
  intro c first
  rcases blank c (List.mem_of_mem_head? first) with rfl | rfl | rfl | rfl <;> rfl

theorem noDigit_append {cs cs' : List Char} (stop : NoDigit cs) (stop' : NoDigit cs') : NoDigit (cs ++ cs') := by
  cases cs with
  | nil => exact stop'
  | cons c cs => exact stop

theorem noDigit_further {read : List Char} {ws : List Word} (further : Further read ws) : NoDigit read := by
  cases further with
  | none => exact nofun
  | more blank =>
    refine noDigit_append (noDigit_of_blanks blank) fun c first => ?_
    cases first
    rfl

theorem separator?_append {before gap item : List Char} {w : Word} (blank : Blanks before) (blank' : Blanks gap)
    (named : Item item w) (rest : List Char) :
    separator? (before ++ ',' :: (gap ++ (item ++ rest))) = some (item ++ rest) := by
  refine separator?_eq_some_iff.mpr ⟨gap ++ (item ++ rest), ?_, ?_⟩
  · rw [skipBlanks_append blank, skipBlanks_of_dark rfl]
  · rw [skipBlanks_append blank', skipBlanks_item named]

theorem moreItems_append {read behind : List Char} {ws : List Word} (further : Further read ws)
    (blank : Blanks behind) : moreItems (read ++ behind) = (ws, behind) := by
  induction further with
  | none => exact moreItems_of_blanks blank
  | @more before gap item rest w ws first second named later ih =>
    have reordered : before ++ ',' :: (gap ++ item ++ rest) ++ behind =
        before ++ ',' :: (gap ++ (item ++ (rest ++ behind))) := by simp
    have separated := separator?_append first second named (rest ++ behind)
    -- An item ends where its digits do: behind it come blanks, a comma or nothing.
    have stop : NoDigit (rest ++ behind) := noDigit_append (noDigit_further later) (noDigit_of_blanks blank)
    rw [reordered, moreItems_of_item separated (item?_append named stop), ih]

/-! ## Whole texts -/

/-- What becomes of a text once words have been read and the blanks behind them skipped. -/
def conclude (cs : List Char) (words : List Word) : List Char → Except Error (List Word)
  | [] => if words.isEmpty then .error .empty else .ok words
  | c :: rest =>
    .error (.malformed (byteLength cs - byteLength (c :: rest)) (String.ofList ((c :: rest).take nearLength)))

theorem parseChars_eq (cs : List Char) :
    parseChars cs = conclude cs (items (skipBlanks cs)).1 (skipBlanks (items (skipBlanks cs)).2) := by
  unfold parseChars
  rcases items (skipBlanks cs) with ⟨words, stop⟩
  dsimp only
  cases skipBlanks stop with
  | nil => rfl
  | cons => rfl

theorem items_of_no_item {cs : List Char} (missing : item? cs = none) : items cs = ([], cs) := by
  unfold items
  rw [missing]

theorem items_of_item {cs rest : List Char} {w : Word} (found : item? cs = some (w, rest)) :
    items cs = (w :: (moreItems rest).1, (moreItems rest).2) := by
  unfold items
  rw [found]

theorem parseChars_program {cs : List Char} {words : List Word} (program : Program cs words) :
    parseChars cs = .ok words := by
  cases program with
  | @words before item rest behind w ws blank named later blank' =>
    have start : skipBlanks (before ++ item ++ rest ++ behind) = item ++ (rest ++ behind) := by
      rw [List.append_assoc, List.append_assoc, skipBlanks_append blank, skipBlanks_item named]
    have stop : NoDigit (rest ++ behind) := noDigit_append (noDigit_further later) (noDigit_of_blanks blank')
    rw [parseChars_eq, start, items_of_item (item?_append named stop), moreItems_append later blank',
      skipBlanks_eq_nil_iff.mpr blank']
    rfl

theorem program_of_parseChars {cs : List Char} {words : List Word} (parsed : parseChars cs = .ok words) :
    Program cs words := by
  rw [parseChars_eq] at parsed
  cases ended : skipBlanks (items (skipBlanks cs)).2 with
  | cons c rest =>
    rw [ended] at parsed
    cases parsed
  | nil =>
    rw [ended] at parsed
    rcases first : item? (skipBlanks cs) with _ | ⟨w, rest⟩
    · rw [items_of_no_item first] at parsed
      cases parsed
    · rw [items_of_item first] at parsed ended
      cases parsed
      obtain ⟨before, blank, split⟩ := exists_blanks cs
      obtain ⟨item, named, split'⟩ := exists_item_of_item? first
      obtain ⟨read, further, split''⟩ := exists_further rest
      have whole : cs = before ++ item ++ read ++ (moreItems rest).2 := by
        rw [List.append_assoc, List.append_assoc, ← split'', ← split', ← split]
      rw [whole]
      exact .words blank named further (skipBlanks_eq_nil_iff.mp ended)

theorem parseChars_blanks {cs : List Char} (blank : Blanks cs) : parseChars cs = .error .empty := by
  rw [parseChars_eq, skipBlanks_eq_nil_iff.mpr blank]
  rfl

theorem blanks_of_parseChars {cs : List Char} (parsed : parseChars cs = .error .empty) : Blanks cs := by
  rw [parseChars_eq] at parsed
  cases ended : skipBlanks (items (skipBlanks cs)).2 with
  | cons c rest =>
    rw [ended] at parsed
    cases parsed
  | nil =>
    rcases first : item? (skipBlanks cs) with _ | ⟨w, rest⟩
    · rw [items_of_no_item first, skipBlanks_skipBlanks] at ended
      exact skipBlanks_eq_nil_iff.mp ended
    · rw [ended, items_of_item first] at parsed
      cases parsed

/-! ## Writing -/

/-- A word with the blanks that are written around it. -/
structure Entry where
  before : String
  word : Word
  behind : String

/-- An entry as it is written. -/
def Entry.text (e : Entry) : String := e.before ++ e.word.text ++ e.behind

theorem Entry.toList_text (e : Entry) : e.text.toList = e.before.toList ++ e.word.text.toList ++ e.behind.toList := by
  simp only [Entry.text, String.toList_append]

/-- Entries with commas between them. -/
def written (entries : List Entry) : String := ",".intercalate (entries.map Entry.text)

theorem digits_repr (n : Nat) : Digits n.repr.toList ∧ Nat.ofDigitChars 10 n.repr.toList 0 = n := by
  rw [Nat.toList_repr]
  refine ⟨digits_iff.mpr ⟨Nat.toDigits_ne_nil, fun c member => ?_⟩, ?_⟩
  · exact Nat.isDigit_of_mem_toDigits (by decide) (by decide) member
  · exact Nat.ofDigitChars_toDigits (by decide) (by decide)

theorem item_text (w : Word) : Item w.text.toList w := by
  unfold Word.text
  rw [Int.repr_eq_if]
  split
  · obtain ⟨decimal, value⟩ := digits_repr w.toInt.toNat
    exact .plain decimal (by omega)
  · obtain ⟨decimal, value⟩ := digits_repr (-w.toInt).toNat
    have signed : Item ('-' :: (-w.toInt).toNat.repr.toList) w := .negative decimal (by omega)
    rw [String.toList_append]
    exact signed

/-- The entries behind the first, and the blanks behind that. -/
theorem exists_further_of_entries (entries : List Entry)
    (blank : ∀ e ∈ entries, Blanks e.before.toList ∧ Blanks e.behind.toList) {gap : List Char}
    (blank' : Blanks gap) :
    ∃ read behind, Further read (entries.map Entry.word) ∧ Blanks behind ∧
      gap ++ entries.flatMap (fun e => ',' :: e.text.toList) = read ++ behind := by
  -- The blanks behind an entry stand in front of the next comma, and so change from entry to entry.
  induction entries generalizing gap with
  | nil => exact ⟨[], gap, .none, blank', by simp⟩
  | cons e entries ih =>
    obtain ⟨first, last⟩ := blank e (by simp)
    obtain ⟨read, behind, further, blank'', split⟩ := ih (fun e member => blank e (by simp [member])) last
    refine ⟨gap ++ ',' :: (e.before.toList ++ e.word.text.toList ++ read), behind,
      .more blank' first (item_text e.word) further, blank'', ?_⟩
    rw [List.flatMap_cons, e.toList_text]
    simp only [List.append_assoc, List.cons_append, split]

theorem toList_written (e : Entry) (entries : List Entry) :
    (written (e :: entries)).toList = e.text.toList ++ entries.flatMap fun e => ',' :: e.text.toList := by
  unfold written
  rw [String.toList_intercalate]
  induction entries generalizing e with
  | nil => simp
  | cons e' entries ih =>
    simp only [List.map_cons, List.intercalate_cons_cons, List.flatMap_cons] at ih ⊢
    rw [ih e']
    simp

theorem program_written {entries : List Entry} (some : entries ≠ [])
    (blank : ∀ e ∈ entries, Blanks e.before.toList ∧ Blanks e.behind.toList) :
    Program (written entries).toList (entries.map Entry.word) := by
  cases entries with
  | nil => exact absurd rfl some
  | cons e entries =>
    obtain ⟨first, last⟩ := blank e (by simp)
    obtain ⟨read, behind, further, blank', split⟩ :=
      exists_further_of_entries entries (fun e member => blank e (by simp [member])) last
    have whole : (written (e :: entries)).toList = e.before.toList ++ e.word.text.toList ++ read ++ behind := by
      rw [toList_written, e.toList_text, List.append_assoc _ read, ← split]
      simp
    rw [whole]
    exact .words first (item_text e.word) further blank'

/-- Reading program text is exact. It comes to words exactly on the texts of the grammar, and then to those of
    the items in order; a text is empty exactly if it is blank; and every other text is malformed. What has been
    written, with any blanks around the words, is read back. -/
theorem parse_exact :
    (∀ (text : String) (words : List Word), parse text = .ok words ↔ Program text.toList words) ∧
    (∀ text : String, parse text = .error .empty ↔ Blanks text.toList) ∧
    (∀ text : String, (∀ words, ¬ Program text.toList words) → ¬ Blanks text.toList →
      ∃ offset near, parse text = .error (.malformed offset near)) ∧
    (∀ entries : List Entry, entries ≠ [] →
      (∀ e ∈ entries, Blanks e.before.toList ∧ Blanks e.behind.toList) →
        parse (written entries) = .ok (entries.map Entry.word)) := by
  have accepts : ∀ (text : String) (words : List Word), parse text = .ok words ↔ Program text.toList words :=
    fun _ _ => ⟨program_of_parseChars, parseChars_program⟩
  have empty : ∀ text : String, parse text = .error .empty ↔ Blanks text.toList :=
    fun _ => ⟨blanks_of_parseChars, parseChars_blanks⟩
  refine ⟨accepts, empty, fun text unlike dark => ?_, fun entries some blank => ?_⟩
  · cases parsed : parse text with
    | ok words => exact absurd ((accepts text words).mp parsed) (unlike words)
    | error e =>
      cases e with
      | empty => exact absurd ((empty text).mp parsed) dark
      | malformed offset near => exact ⟨offset, near, rfl⟩
  · exact (accepts _ _).mpr (program_written some blank)

/-- Blanks around words, blanks alone, and a numeral just out of range. -/
theorem parse_exact_edges :
    parse (written [⟨" ", -5, "\t"⟩, ⟨"\n", 7, ""⟩]) = .ok [-5, 7] ∧ parse " \r\n" = .error .empty ∧
      ∃ offset near, parse "9223372036854775808" = .error (.malformed offset near) := by
  obtain ⟨accepts, empty, malformed, reads⟩ := parse_exact
  have refused : item? (skipBlanks "9223372036854775808".toList) = none := by decide
  have beyond : parse "9223372036854775808" ≠ .error .empty ∧ ∀ words, parse "9223372036854775808" ≠ .ok words := by
    unfold parse
    rw [parseChars_eq, items_of_no_item refused]
    exact ⟨nofun, nofun⟩
  refine ⟨reads _ nofun ?_, (empty _).mpr (by simp [Blanks]), malformed _ (fun words program => ?_) fun blank => ?_⟩
  · simp [Blanks]
  · exact beyond.2 words ((accepts _ words).mpr program)
  · exact beyond.1 ((empty _).mpr blank)

end IntegerMachine.ProgramText
