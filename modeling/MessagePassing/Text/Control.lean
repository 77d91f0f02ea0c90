/-
  Message passing — texts without control.

  Some characters steer a terminal instead of being shown on it: control characters
  other than blanks, and sequences that an escape character opens.  `plain` leaves
  them out.  It reads a text with a machine whose `Mode` tells in what sequence it
  is; `plain_eq_self` says that a text without control characters stays as it is.
-/

namespace MessagePassing.Text

/-! ## Characters -/

/-- Control characters that are blanks. -/
def isBlankControl (c : Char) : Bool := c = '\t' || c = '\n' || c = '\x0c' || c = '\r'

/-- The character steers a terminal. -/
def isControl (c : Char) : Bool := (c.toNat < 32 && !isBlankControl c) || c.toNat = 127

/-- The bytes of the character include the one that terminates a string. -/
def terminates (c : Char) : Bool := (String.utf8EncodeChar c).contains 0x9c

/-! ## Sequences -/

/-- What the characters being read belong to. -/
inductive Mode where
  /-- The text itself. -/
  | shown
  /-- A sequence that has just been opened. -/
  | opened
  /-- A sequence that has had a character in front of its last one. -/
  | short
  /-- A sequence with parameters, up to a letter or the like. -/
  | parameters
  /-- A command to the system, up to the bell. -/
  | command
  /-- A message to the device that has just been opened. -/
  | device
  /-- The parameters of a message to the device. -/
  | deviceParameters
  /-- What is in front of the first letter of a message to the device. -/
  | deviceShort
  /-- A string, up to its terminator. -/
  | string
  deriving DecidableEq, Repr

namespace Mode

/-- The mode after the character that follows the escape character. -/
def ofOpening (c : Char) : Mode :=
  if c = '[' then parameters
  else if c = ']' then command
  else if c = 'P' then device
  else if c = 'X' || c = '^' || c = '_' then string
  else if c.toNat < 32 || 127 ≤ c.toNat then opened
  else if c.toNat < 48 then short
  else shown

/-- The mode after a character in a message to the device, whose parameters end
    below a code point. -/
def ofDevice (m : Mode) (parametersEnd : Nat) (c : Char) : Mode :=
  if c.toNat < 32 || 127 ≤ c.toNat then m
  else if c.toNat < 48 then deviceShort
  else if c.toNat < parametersEnd then deviceParameters
  else string

/-- The mode after a character. -/
def next (m : Mode) (c : Char) : Mode :=
  if c.toNat = 27 then opened
  else if c.toNat = 24 || c.toNat = 26 then shown
  else match m with
    | shown => shown
    | opened => ofOpening c
    | short => if 48 ≤ c.toNat && c.toNat < 127 then shown else short
    | parameters => if 64 ≤ c.toNat && c.toNat < 127 then shown else parameters
    | command => if c.toNat = 7 then shown else command
    | device => ofDevice device 64 c
    | deviceParameters => ofDevice deviceParameters 60 c
    | deviceShort => ofDevice deviceShort 48 c
    | string => if terminates c then shown else string

/-- A character other than a control character is shown: in the text every one, and
    the blanks in a sequence that is short. -/
def shows (m : Mode) (c : Char) : Bool :=
  match m with
  | shown => true
  | opened | short | parameters => isBlankControl c
  | _ => false

end Mode

/-! ## Reading -/

/-- The state of the machine.  A blank shown within a sequence interrupts it: what
    follows is shown as well, up to the next control character. -/
structure Reader where
  mode : Mode
  /-- The last character was shown. -/
  showing : Bool
  deriving DecidableEq, Repr

namespace Reader

/-- The machine before the first character. -/
def start : Reader := ⟨.shown, false⟩

/-- The character is shown. -/
def shows (r : Reader) (c : Char) : Bool := !isControl c && (r.showing || r.mode.shows c)

/-- The state after a character.  Among what interrupts a sequence, a character of
    several bytes ends it. -/
def next (r : Reader) (c : Char) : Reader where
  mode :=
    if r.showing && !isControl c then (if c.toNat < 128 then r.mode else .shown)
    else r.mode.next c
  showing := r.shows c

end Reader

/-- The characters that are shown, from a state on. -/
def plainFrom (r : Reader) : List Char → List Char
  | [] => []
  | c :: rest => (if r.shows c then [c] else []) ++ plainFrom (r.next c) rest

/-- A text without control characters and sequences. -/
def plain (s : String) : String := String.ofList (plainFrom .start s.toList)

/-- A text in bold, on a terminal. -/
def bold (s : String) : String := "\x1b[1m" ++ s ++ "\x1b[0m"

theorem next_shown {c : Char} (h : isControl c = false) : Mode.shown.next c = .shown := by
  have noEscape : c.toNat ≠ 27 := by
    intro e
    have noBlank : isBlankControl c = false := by
      simp only [isBlankControl, Bool.or_eq_false_iff, decide_eq_false_iff_not]
      refine ⟨⟨⟨?_, ?_⟩, ?_⟩, ?_⟩ <;> (rintro rfl; exact absurd e (by decide))
    simp [isControl, noBlank, e] at h
  simp [Mode.next, noEscape]

theorem plainFrom_eq_self {l : List Char} (h : ∀ c ∈ l, isControl c = false) {r : Reader}
    (hr : r.mode = .shown) : plainFrom r l = l := by
  induction l generalizing r with
  | nil => rfl
  | cons c rest ih =>
    have first : isControl c = false := h c List.mem_cons_self
    have shows : r.shows c = true := by simp [Reader.shows, first, hr, Mode.shows]
    have mode : (r.next c).mode = .shown := by
      simp only [Reader.next, hr, next_shown first]
      split <;> simp
    simp [plainFrom, shows, ih (fun d hd => h d (List.mem_cons_of_mem _ hd)) mode]

theorem plain_eq_self {s : String} (h : ∀ c ∈ s.toList, isControl c = false) : plain s = s := by
  rw [plain, plainFrom_eq_self h rfl, String.ofList_toList]

end MessagePassing.Text
