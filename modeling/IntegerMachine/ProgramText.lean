import IntegerMachine.Numeral

/-!
# Program text

Programs are exchanged as text: signed decimal words separated by commas, with blanks allowed around
each word. A text that cannot be read to its end is reported with the place where reading stopped,
which is in front of a comma that no word follows.
-/
namespace IntegerMachine.ProgramText

/-- Why a text is no program. The offset counts bytes, and `near` holds at most sixteen characters. -/
inductive Error where
  | empty
  | malformed (offset : Nat) (near : String)
  deriving DecidableEq

def Error.message : Error → String
  | .empty => "program text is empty"
  | .malformed offset near =>
    "malformed program text at offset " ++ offset.repr ++ " near `" ++ near ++ "`"

def isBlank (c : Char) : Bool := c == ' ' || c == '\t' || c == '\r' || c == '\n'

def skipBlanks (cs : List Char) : List Char := cs.dropWhile isBlank

def takeSign : List Char → Bool × List Char
  | '-' :: rest => (true, rest)
  | cs => (false, cs)

/-- A word at the head of a text: an optional minus sign and all the digits that follow, provided
    there are some and their value is in range. -/
def item? (cs : List Char) : Option (Word × List Char) :=
  let (negative, rest) := takeSign cs
  let digits := rest.takeWhile Char.isDigit
  if digits.isEmpty then none
  else
    let magnitude : Int := Numeral.value digits
    (Word.ofInt? (if negative then -magnitude else magnitude)).map
      fun w => (w, rest.dropWhile Char.isDigit)

/-- A comma with blanks on either side at the head of a text. -/
def separator? (cs : List Char) : Option (List Char) :=
  match skipBlanks cs with
  | ',' :: rest => some (skipBlanks rest)
  | _ => none

theorem length_skipBlanks_le (cs : List Char) : (skipBlanks cs).length ≤ cs.length :=
  (List.dropWhile_sublist isBlank).length_le

theorem length_of_separator? {cs rest : List Char} (found : separator? cs = some rest) :
    rest.length < cs.length := by
  unfold separator? at found
  split at found
  · next tail shape =>
    have skipped := length_skipBlanks_le cs
    have after := length_skipBlanks_le tail
    simp only [Option.some.injEq] at found
    subst found
    rw [shape, List.length_cons] at skipped
    omega
  · simp at found

theorem length_takeSign_le (cs : List Char) : (takeSign cs).2.length ≤ cs.length := by
  unfold takeSign
  split <;> simp

theorem length_of_item? {cs rest : List Char} {w : Word} (found : item? cs = some (w, rest)) :
    rest.length ≤ cs.length := by
  unfold item? at found
  simp only at found
  split at found
  · simp at found
  · simp only [Option.map_eq_some_iff, Prod.mk.injEq] at found
    obtain ⟨_, _, _, same⟩ := found
    subst same
    exact Nat.le_trans (List.dropWhile_sublist _).length_le (length_takeSign_le cs)

/-- Further words, each behind a comma, and the text in front of which reading stopped. A comma that
    no word follows is left unread. -/
def moreItems (cs : List Char) : List Word × List Char :=
  match _separated : separator? cs with
  | none => ([], cs)
  | some behind =>
    match _found : item? behind with
    | none => ([], cs)
    | some (w, rest) =>
      let (ws, stop) := moreItems rest
      (w :: ws, stop)
  termination_by cs.length
  decreasing_by
    have := length_of_separator? _separated
    have := length_of_item? _found
    omega

def items (cs : List Char) : List Word × List Char :=
  match item? cs with
  | none => ([], cs)
  | some (w, rest) =>
    let (ws, stop) := moreItems rest
    (w :: ws, stop)

def byteLength (cs : List Char) : Nat := cs.foldr (fun c n => c.utf8Size + n) 0

/-- The number of characters of a malformed text that its error shows. -/
def nearLength : Nat := 16

def parseChars (cs : List Char) : Except Error (List Word) :=
  let (words, stop) := items (skipBlanks cs)
  match skipBlanks stop with
  | [] => if words.isEmpty then .error .empty else .ok words
  | rest =>
    .error (.malformed (byteLength cs - byteLength rest) (String.ofList (rest.take nearLength)))

def parse (text : String) : Except Error (List Word) := parseChars text.toList

end IntegerMachine.ProgramText
