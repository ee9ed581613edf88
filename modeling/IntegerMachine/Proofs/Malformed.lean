import IntegerMachine.Proofs.ProgramText

/-!
# Where program text is malformed

A text that is no program is reported with the place at which reading stopped. What stands in front of that place can be
read by itself, and nothing beyond it could have been (`parse_malformed`): a longer part of the text is a program only
if it breaks off within the digits of a numeral that is out of range as a whole (`Amid`), so that the part has a
smaller one instead.
-/
namespace IntegerMachine.ProgramText

/-! ## Bytes -/

theorem byteLength_append (cs cs' : List Char) : byteLength (cs ++ cs') = byteLength cs + byteLength cs' := by
  unfold byteLength
  induction cs with
  | nil => simp
  | cons c cs ih =>
    simp only [List.cons_append, List.foldr_cons, ih]
    omega

theorem byteLength_toList (text : String) : byteLength text.toList = text.utf8ByteSize := by
  have chars (cs : List Char) : byteLength cs = (String.ofList cs).utf8ByteSize := by
    induction cs with
    | nil => rfl
    | cons c cs ih =>
      have single : (String.ofList [c]).utf8ByteSize = c.utf8Size := by
        rw [← String.singleton_eq_ofList, String.utf8ByteSize_singleton]
      have split : String.ofList (c :: cs) = String.ofList [c] ++ String.ofList cs := by
        rw [← String.ofList_append]
        rfl
      rw [split, String.utf8ByteSize_append, single, ← ih]
      rfl
  rw [chars, String.ofList_toList]

theorem byteLength_pos (c : Char) (cs : List Char) : 0 < byteLength (c :: cs) := by
  have := c.utf8Size_pos
  unfold byteLength
  rw [List.foldr_cons]
  omega

/-- Of two ends of a text the one with fewer bytes has fewer characters. -/
theorem length_lt_of_byteLength_lt {front front' behind behind' : List Char}
    (same : front ++ behind = front' ++ behind') (fewer : byteLength behind < byteLength behind') :
    behind.length < behind'.length := by
  by_contra more
  have longer : front.length ≤ front'.length := by
    have lengths := congrArg List.length same
    simp only [List.length_append] at lengths
    omega
  obtain ⟨between, rfl⟩ : front <+: front' :=
    List.prefix_of_prefix_length_le ⟨behind, same⟩ ⟨behind', rfl⟩ longer
  rw [List.append_assoc] at same
  rw [List.append_cancel_left same, byteLength_append] at fewer
  omega

/-! ## Numerals that are out of range -/

/-- The characters in front of the digits of a numeral. -/
def sign (negative : Bool) : List Char := if negative then ['-'] else []

/-- The value of a numeral. -/
def signedValue (negative : Bool) (digits : List Char) : Int :=
  if negative then -(Nat.ofDigitChars 10 digits 0 : Int) else Nat.ofDigitChars 10 digits 0

/-- A text ends behind `lead` with a part of a numeral, some of whose digits follow. With all of them it is out of the
    range of words. -/
def Amid (lead text further : List Char) : Prop :=
  ∃ negative digits digits' tail, text = lead ++ (sign negative ++ digits) ∧ further = digits' ++ tail ∧
    Digits digits ∧ Digits digits' ∧ NoDigit tail ∧
    (signedValue negative (digits ++ digits') < -9223372036854775808 ∨
      9223372036854775807 < signedValue negative (digits ++ digits'))

theorem Amid.append {lead text further : List Char} (amid : Amid lead text further) (front : List Char) :
    Amid (front ++ lead) (front ++ text) further := by
  obtain ⟨negative, digits, digits', tail, rfl, rest⟩ := amid
  exact ⟨negative, digits, digits', tail, by simp only [List.append_assoc], rest⟩

theorem Digits.append {digits digits' : List Char} (decimal : Digits digits) (decimal' : Digits digits') :
    Digits (digits ++ digits') := by
  refine ⟨by simp [decimal.1], fun c member => ?_⟩
  rcases List.mem_append.mp member with first | later
  · exact decimal.2 c first
  · exact decimal'.2 c later

theorem exists_sign {item : List Char} {w : Word} (named : Item item w) :
    ∃ negative digits, item = sign negative ++ digits ∧ Digits digits := by
  cases named with
  | plain decimal => exact ⟨false, item, rfl, decimal⟩
  | @negative digits w decimal => exact ⟨true, digits, rfl, decimal⟩

/-- A numeral is read with all its digits, if its value is that of a word. -/
theorem item?_numeral (negative : Bool) {digits tail : List Char} (decimal : Digits digits) (stop : NoDigit tail) :
    item? (sign negative ++ (digits ++ tail)) =
      (Word.ofInt? (signedValue negative digits)).map fun w => (w, tail) := by
  have signed : takeSign (sign negative ++ (digits ++ tail)) = (negative, digits ++ tail) := by
    cases negative with
    | true => rfl
    | false => exact takeSign_of_digits decimal tail
  obtain ⟨taken, left⟩ := span_digits decimal stop
  have some : digits.isEmpty = false := by simpa using decimal.1
  unfold item?
  simp only [signed, taken, left, some]
  rfl

theorem ofInt?_eq_none {i : Int} (beyond : Word.ofInt? i = none) : i < -9223372036854775808 ∨ 9223372036854775807 < i := by
  unfold Word.ofInt? at beyond
  rw [Int64.toInt_minValue, Int64.toInt_maxValue] at beyond
  split at beyond
  · cases beyond
  · omega

theorem noDigit_dropWhile (cs : List Char) : NoDigit (cs.dropWhile Char.isDigit) := by
  intro c first
  have stopped := List.head?_dropWhile_not Char.isDigit cs
  rw [Option.mem_def.mp first] at stopped
  simpa using stopped

/-- A text that goes on with a digit goes on with a run of digits. -/
theorem exists_digits_of_not_noDigit {cs : List Char} (goes : ¬ NoDigit cs) :
    ∃ digits tail, cs = digits ++ tail ∧ Digits digits ∧ NoDigit tail := by
  have split : cs.takeWhile Char.isDigit ++ cs.dropWhile Char.isDigit = cs := List.takeWhile_append_dropWhile
  refine ⟨_, _, split.symm, digits_iff.mpr ⟨fun none => ?_, fun c member => ?_⟩, noDigit_dropWhile cs⟩
  · rw [none, List.nil_append] at split
    exact goes (split ▸ noDigit_dropWhile cs)
  · exact List.mem_takeWhile_imp member

/-- An item in front of something else than a digit, as it is read in a longer text. It is read as before unless its
    digits go on there, and then it may be out of range. -/
theorem item?_within {item left : List Char} {w : Word} (named : Item item w) (stop : NoDigit left)
    (further : List Char) :
    item? (item ++ (left ++ further)) = some (w, left ++ further) ∨
    (∃ w' tail, item? (item ++ (left ++ further)) = some (w', tail) ∧ tail.length < further.length) ∨
    (item? (item ++ (left ++ further)) = none ∧ left = [] ∧ Amid [] item further) := by
  by_cases ends : NoDigit (left ++ further)
  · exact .inl (item?_append named ends)
  · obtain rfl : left = [] := by
      cases left with
      | nil => rfl
      | cons c left => exact absurd stop ends
    obtain ⟨digits', tail, rfl, decimal', stop'⟩ := exists_digits_of_not_noDigit ends
    obtain ⟨negative, digits, rfl, decimal⟩ := exists_sign named
    have read := item?_numeral negative (decimal.append decimal') stop'
    simp only [List.append_assoc] at read
    simp only [List.nil_append, List.append_assoc, read]
    cases value : Word.ofInt? (signedValue negative (digits ++ digits')) with
    | some w' =>
      have some := List.length_pos_iff.mpr decimal'.1
      refine .inr (.inl ⟨w', tail, rfl, ?_⟩)
      rw [List.length_append]
      omega
    | none =>
      refine .inr (.inr ⟨rfl, trivial, negative, digits, digits', tail, ?_⟩)
      exact ⟨rfl, rfl, decimal, decimal', stop', ofInt?_eq_none value⟩

/-! ## Where reading stops -/

theorem length_skipBlanks_moreItems_le (cs : List Char) :
    (skipBlanks (moreItems cs).2).length ≤ (skipBlanks cs).length := by
  obtain ⟨read, further, split⟩ := exists_further cs
  generalize (moreItems cs).1 = ws at further
  cases further with
  | none => rw [← List.nil_append (moreItems cs).2, ← split]
  | @more before behind item rest w ws blank =>
    have left := length_skipBlanks_le (moreItems cs).2
    have comma : skipBlanks cs = ',' :: (behind ++ item ++ rest ++ (moreItems cs).2) := by
      refine (congrArg skipBlanks split).trans ?_
      rw [List.append_assoc, List.cons_append, skipBlanks_append blank, skipBlanks_of_dark rfl]
    rw [comma, List.length_cons, List.length_append]
    omega

/-- Items behind a comma each, that go beyond the place at which reading stops in a longer text. -/
theorem exists_amid {read behind further : List Char} {ws : List Word} (items : Further read ws) (blank : Blanks behind)
    (beyond : further.length < (skipBlanks (moreItems (read ++ behind ++ further)).2).length) :
    ∃ front gap, Blanks gap ∧ Amid (front ++ ',' :: gap) (read ++ behind) further := by
  induction items with
  | none =>
    have first := length_skipBlanks_moreItems_le (behind ++ further)
    have left := length_skipBlanks_le further
    rw [skipBlanks_append blank] at first
    rw [List.nil_append] at beyond
    omega
  | @more before gap item rest w ws blank' blank'' named later ih =>
    have reordered : before ++ ',' :: (gap ++ item ++ rest) ++ behind ++ further =
        before ++ ',' :: (gap ++ (item ++ (rest ++ behind ++ further))) := by simp
    have separated := separator?_append blank' blank'' named (rest ++ behind ++ further)
    have stop : NoDigit (rest ++ behind) := noDigit_append (noDigit_further later) (noDigit_of_blanks blank)
    rw [reordered] at beyond
    rcases item?_within named stop further with found | ⟨w', tail, found, shorter⟩ | ⟨missing, nothing, amid⟩
    · rw [moreItems_of_item separated found] at beyond
      obtain ⟨front, gap', blank, amid⟩ := ih beyond
      refine ⟨before ++ ',' :: (gap ++ item) ++ front, gap', blank, ?_⟩
      have more := amid.append (before ++ ',' :: (gap ++ item))
      simpa using more
    · -- The item has taken digits from what follows, and reading has gone on behind them.
      rw [moreItems_of_item separated found] at beyond
      have first := length_skipBlanks_moreItems_le tail
      have left := length_skipBlanks_le tail
      dsimp only at beyond
      omega
    · refine ⟨before, gap, blank'', ?_⟩
      have more := amid.append (before ++ ',' :: gap)
      have ends : before ++ ',' :: (gap ++ item ++ rest) ++ behind = before ++ ',' :: gap ++ item := by
        rw [← List.append_nil (before ++ ',' :: gap ++ item), ← nothing]
        simp
      rw [ends]
      simpa using more

/-- A program that goes beyond the place at which reading stops in a longer text. -/
theorem exists_amid_of_program {part further : List Char} {words : List Word} (program : Program part words)
    (beyond : further.length < (skipBlanks (items (skipBlanks (part ++ further))).2).length) :
    ∃ lead, (Blanks lead ∨ ∃ front gap, Blanks gap ∧ lead = front ++ ',' :: gap) ∧ Amid lead part further := by
  cases program with
  | @words before item rest behind w ws blank named later blank' =>
    have reordered : skipBlanks (before ++ item ++ rest ++ behind ++ further) = item ++ (rest ++ behind ++ further) := by
      rw [List.append_assoc, List.append_assoc, List.append_assoc, skipBlanks_append blank, skipBlanks_item named,
        ← List.append_assoc rest]
    have stop : NoDigit (rest ++ behind) := noDigit_append (noDigit_further later) (noDigit_of_blanks blank')
    rw [reordered] at beyond
    rcases item?_within named stop further with found | ⟨w', tail, found, shorter⟩ | ⟨missing, nothing, amid⟩
    · rw [items_of_item found] at beyond
      obtain ⟨front, gap, blank'', amid⟩ := exists_amid later blank' beyond
      refine ⟨before ++ item ++ front ++ ',' :: gap, .inr ⟨_, gap, blank'', rfl⟩, ?_⟩
      have more := amid.append (before ++ item)
      simpa using more
    · rw [items_of_item found] at beyond
      have first := length_skipBlanks_moreItems_le tail
      have left := length_skipBlanks_le tail
      dsimp only at beyond
      omega
    · refine ⟨before, .inl blank, ?_⟩
      have more := amid.append before
      rw [List.append_assoc _ rest, nothing]
      simpa using more

/-- What has been read of a text, up to the first dark character behind it, is blank or a program. -/
theorem blanks_or_program (cs : List Char) :
    ∃ front, cs = front ++ skipBlanks (items (skipBlanks cs)).2 ∧ (Blanks front ∨ ∃ words, Program front words) := by
  obtain ⟨before, blank, start⟩ := exists_blanks cs
  rcases first : item? (skipBlanks cs) with _ | ⟨w, rest⟩
  · rw [items_of_no_item first, skipBlanks_skipBlanks]
    exact ⟨before, start, .inl blank⟩
  · rw [items_of_item first]
    obtain ⟨item, named, split⟩ := exists_item_of_item? first
    obtain ⟨read, further, split'⟩ := exists_further rest
    obtain ⟨gap, blank', stop⟩ := exists_blanks (moreItems rest).2
    refine ⟨before ++ item ++ read ++ gap, ?_, .inr ⟨_, .words blank named further blank'⟩⟩
    calc
      cs = before ++ (item ++ (read ++ (gap ++ skipBlanks (moreItems rest).2))) := by
        rw [← stop, ← split', ← split, ← start]
      _ = before ++ item ++ read ++ gap ++ skipBlanks (moreItems rest).2 := by simp

/-- A text that is malformed has been read up to a dark character. -/
theorem exists_of_malformed {cs : List Char} {offset : Nat} {near : String}
    (refused : parseChars cs = .error (.malformed offset near)) :
    ∃ c rest, skipBlanks (items (skipBlanks cs)).2 = c :: rest ∧ isBlank c = false ∧
      offset = byteLength cs - byteLength (c :: rest) ∧ near = String.ofList ((c :: rest).take nearLength) := by
  rw [parseChars_eq] at refused
  cases stop : skipBlanks (items (skipBlanks cs)).2 with
  | nil =>
    rw [stop, conclude] at refused
    split at refused <;> cases refused
  | cons c rest =>
    rw [stop] at refused
    cases refused
    have dark := List.head?_dropWhile_not isBlank (items (skipBlanks cs)).2
    rw [show (items (skipBlanks cs)).2.dropWhile isBlank = c :: rest from stop] at dark
    exact ⟨c, rest, rfl, by simpa using dark, rfl, rfl⟩

/-- An error of program text points at the first place that cannot be read. It is the place of a character and not of a
    blank one; the excerpt begins there; the text in front of it is blank or a program by itself; and a longer part of
    the text that is a program breaks off within the digits of a numeral, at the head of the text or behind a comma,
    that is out of range with all its digits. -/
theorem parse_malformed {text : String} {offset : Nat} {near : String}
    (refused : parse text = .error (.malformed offset near)) :
    offset < text.utf8ByteSize ∧
    ∃ before rest : String, text = before ++ rest ∧ before.utf8ByteSize = offset ∧
      (Blanks before.toList ∨ ∃ words, parse before = .ok words) ∧
      (∃ c ∈ rest.toList.head?, c ≠ ' ' ∧ c ≠ '\t' ∧ c ≠ '\r' ∧ c ≠ '\n') ∧
      near = String.ofList (rest.toList.take 16) ∧
      ∀ (part further : String) (words : List Word), text = part ++ further → offset < part.utf8ByteSize →
        parse part = .ok words →
          ∃ lead, (Blanks lead ∨ ∃ front gap, Blanks gap ∧ lead = front ++ ',' :: gap) ∧
            Amid lead part.toList further.toList := by
  obtain ⟨c, rest, stop, dark, place, excerpt⟩ := exists_of_malformed refused
  obtain ⟨front, split, read⟩ := blanks_or_program text.toList
  rw [stop] at split
  have bytes : offset = byteLength front := by
    rw [place, split, byteLength_append]
    omega
  have whole : text = String.ofList front ++ String.ofList (c :: rest) := by
    rw [← String.ofList_append, ← split, String.ofList_toList]
  have size : byteLength front = (String.ofList front).utf8ByteSize := by
    rw [← byteLength_toList, String.toList_ofList]
  refine ⟨?_, String.ofList front, String.ofList (c :: rest), whole, ?_, ?_, ?_, ?_, ?_⟩
  · have some := byteLength_pos c rest
    rw [← byteLength_toList, split, byteLength_append]
    omega
  · rw [← size, bytes]
  · rw [String.toList_ofList]
    refine read.imp id fun ⟨words, program⟩ => ⟨words, ?_⟩
    unfold parse
    rw [String.toList_ofList]
    exact parseChars_program program
  · rw [String.toList_ofList]
    refine ⟨c, rfl, ?_⟩
    have visible := mt isBlank_iff.mpr (ne_true_of_eq_false dark)
    simpa only [not_or] using visible
  · rw [String.toList_ofList]
    exact excerpt
  · intro part further words same beyond parsed
    have chars : part.toList ++ further.toList = front ++ c :: rest := by
      rw [← String.toList_append, ← same, split]
    refine exists_amid_of_program (program_of_parseChars parsed) ?_
    have fewer : byteLength further.toList < byteLength (c :: rest) := by
      have sizes := congrArg byteLength chars
      rw [byteLength_append, byteLength_append, byteLength_toList part] at sizes
      omega
    rw [chars, ← split, stop]
    exact length_lt_of_byteLength_lt chars fewer

/-- The numeral behind the comma is out of range, but its first digit alone is not. -/
theorem parse_malformed_overlong :
    parse "5,92233720368547758070é" = .error (.malformed 1 ",922337203685477") ∧
      (∃ before rest : String, "5,92233720368547758070é" = before ++ rest ∧ before.utf8ByteSize = 1 ∧
        (Blanks before.toList ∨ ∃ words, parse before = .ok words)) ∧
      parse "5,9" = .ok [5, 9] ∧ ∃ lead, Amid lead "5,9".toList "2233720368547758070é".toList := by
  have refused : parse "5,92233720368547758070é" = .error (.malformed 1 ",922337203685477") := by decide +kernel
  have parsed : parse "5,9" = .ok [5, 9] := by decide +kernel
  obtain ⟨-, before, rest, split, bytes, read, -, -, longer⟩ := parse_malformed refused
  obtain ⟨lead, -, amid⟩ := longer "5,9" "2233720368547758070é" [5, 9] (by decide) (by decide) parsed
  exact ⟨refused, ⟨before, rest, split, bytes, read⟩, parsed, lead, amid⟩

end IntegerMachine.ProgramText
