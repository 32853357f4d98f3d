/-! Plain text, as a stream takes it that is no terminal: without control characters and without
the control sequences that a terminal would obey. -/
namespace VhdlGates.Text

/-- How far a control sequence has been read. -/
inductive ControlState where
  /-- No sequence is open. -/
  | ground
  /-- An escape character has been read. -/
  | escape
  /-- An escape sequence has reached its intermediate characters. -/
  | escapeIntermediate
  /-- A control sequence proper is open, up to its final character. -/
  | control
  /-- A device control string has begun. -/
  | deviceEntry
  /-- A device control string has reached its parameters. -/
  | deviceParameters
  /-- A device control string has reached its intermediate characters. -/
  | deviceIntermediate
  /-- A string is open, up to the string terminator. -/
  | string
  /-- A command to the operating system is open, up to a bell or the string terminator. -/
  | command
  deriving DecidableEq, Repr

/-- The controls that lay text out in lines and columns. -/
def isLayout (c : Char) : Bool := c == '\t' || c == '\n' || c == '\x0c' || c == '\r'

/-- Whether the code point of a character lies in an inclusive range. -/
def isWithin (first last : Nat) (c : Char) : Bool := first ≤ c.toNat && c.toNat ≤ last

/-- Characters that may stand inside an escape sequence. -/
def isIntermediate : Char → Bool := isWithin 0x20 0x2F

/-- Whether one of the octets of a character is the string terminator. -/
def holdsTerminator (c : Char) : Bool := (String.utf8EncodeChar c).contains 0x9C

namespace ControlState

/-- Whether a character belongs to the plain text. The controls of layout do so also inside a
sequence that is not a string, and break it off. -/
def shows (state : ControlState) (c : Char) : Bool :=
  match state with
  | ground => isLayout c || isWithin 0x20 0x7E c || 0x80 ≤ c.toNat
  | escape | escapeIntermediate | control => isLayout c
  | deviceEntry | deviceParameters | deviceIntermediate | string | command => false

/-- What the character after an escape character begins or ends. -/
def afterEscape (c : Char) : ControlState :=
  if isIntermediate c then escapeIntermediate
  else if c == '[' then control
  else if c == ']' then command
  else if c == 'P' then deviceEntry
  else if c == 'X' || c == '^' || c == '_' then string
  else if isWithin 0x30 0x7E c then ground
  else escape

/-- The state after a character that is not part of the plain text. An escape character begins a
sequence anew, and a cancel or a substitute character ends every sequence. -/
def next (state : ControlState) (c : Char) : ControlState :=
  if c == '\x1b' then escape
  else if c == '\x18' || c == '\x1a' then ground
  else match state with
    | ground => ground
    | escape => afterEscape c
    | escapeIntermediate => if isWithin 0x30 0x7E c then ground else escapeIntermediate
    | control => if isWithin 0x40 0x7E c then ground else control
    | deviceEntry =>
      if isIntermediate c then deviceIntermediate
      else if isWithin 0x30 0x3F c then deviceParameters
      else if isWithin 0x40 0x7E c then string
      else deviceEntry
    | deviceParameters =>
      if isIntermediate c then deviceIntermediate
      else if isWithin 0x3C 0x7E c then string
      else deviceParameters
    | deviceIntermediate => if isWithin 0x30 0x7E c then string else deviceIntermediate
    | string => if holdsTerminator c then ground else string
    | command => if c == '\x07' then ground else command

theorem shows_ground_of_shows {state : ControlState} {c : Char} (h : state.shows c = true) :
    ground.shows c = true := by
  cases state <;> simp_all [shows]

end ControlState

/-- The plain part of a text that is read from a state on. -/
def plainFrom : ControlState → List Char → List Char
  | _, [] => []
  | state, c :: rest =>
    if state.shows c then c :: plainFrom .ground rest else plainFrom (state.next c) rest

/-- The plain part of a text. -/
def plain (text : String) : String := String.ofList (plainFrom .ground text.toList)

theorem plainFrom_sublist (state : ControlState) (text : List Char) :
    (plainFrom state text).Sublist text := by
  fun_induction plainFrom state text with
  | case1 => exact .slnil
  | case2 state c rest _ ih => exact ih.cons_cons c
  | case3 state c rest _ ih => exact ih.cons c

theorem shows_of_mem_plainFrom {state : ControlState} {text : List Char} {c : Char}
    (h : c ∈ plainFrom state text) : ControlState.ground.shows c = true := by
  fun_induction plainFrom state text with
  | case1 => simp at h
  | case2 state d rest hd ih =>
    rcases List.mem_cons.1 h with rfl | h
    · exact ControlState.shows_ground_of_shows hd
    · exact ih h
  | case3 state d rest _ ih => exact ih h

/-- A text without control characters is plain. -/
theorem plainFrom_ground_eq_self {text : List Char}
    (h : ∀ c ∈ text, ControlState.ground.shows c = true) : plainFrom .ground text = text := by
  induction text with
  | nil => rfl
  | cons c rest ih =>
    rw [plainFrom, if_pos (h c List.mem_cons_self), ih fun d hd => h d (List.mem_cons_of_mem c hd)]

example : plain "a\x1b[31mb\x1b]0;t\x07c\x01\n" = "abc\n" := by decide +kernel

end VhdlGates.Text
