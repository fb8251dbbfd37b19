import ShellTokens.Text.Rune
import ShellTokens.Token.Kind

/-!
# The states of the scanner

A state is what a scanner knows of the token under way. It looks at one rune and says what becomes
of it. Running out of input is no move in any state, so scanning goes on from there later.
-/

namespace ShellTokens

inductive State where
  -- Between tokens.
  | blank
  -- Inside something that goes on until its end is seen.
  | comment
  | symbol
  | singleQuoted
  | doubleQuoted
  | bangString
  | afterBackslash
  -- Behind a character that the next one may join.
  | afterAmpersand
  | afterBang
  | afterBangGreater
  | afterColon
  | afterGreater
  | afterLess
  | afterPipe
  deriving DecidableEq, Repr

/-- What a state does with the rune in front of it. -/
inductive Move where
  | halt
  /-- Reads it and stays in the state. -/
  | keep
  | enter (next : State)
  /-- Leaves it to another state. -/
  | become (next : State)
  /-- Reads a backslash. What follows it belongs to the token, and then `back` goes on. -/
  | escape (back : State)
  /-- Reads the rune behind a backslash. -/
  | resume
  /-- Reads it, and it is the last one of a token. -/
  | take (kind : Kind)
  /-- Leaves it, because the token ends in front of it. -/
  | leave (kind : Kind)
  /-- Reads a byte that is no text. -/
  | reject (byte : UInt8)
  deriving DecidableEq, Repr

namespace State

def name : State → String
  | blank => "SkipWhitespace"
  | comment => "SkipComment"
  | symbol => "ScanSymbol"
  | singleQuoted => "ScanSingleQuoted"
  | doubleQuoted => "ScanDoubleQuoted"
  | bangString => "ScanBangString"
  | afterBackslash => "AfterBackslash"
  | afterAmpersand => "AfterAmpersand"
  | afterBang => "AfterBang"
  | afterBangGreater => "AfterBangGreater"
  | afterColon => "AfterColon"
  | afterGreater => "AfterGreaterThan"
  | afterLess => "AfterLessThan"
  | afterPipe => "AfterPipe"

def isDelimiter (c : Char) : Bool :=
  c ∈ ['\t', '\n', '\r', ' ', '"', '#', '%', '&', '\'', '(', ')', ':', ';', '<', '>', '@', '`', '|']

/-- The first character of a token. A brace begins a word, and alone it becomes punctuation when
the word is done. -/
def first (c : Char) : Move :=
  match c with
  | '\t' | '\r' | ' ' => .keep
  | '\n' => .take .newline
  | '%' => .take .percent
  | '(' => .take .openParen
  | ')' => .take .closeParen
  | ';' => .take .semicolon
  | '@' => .take .atSign
  | '`' => .take .backtick
  | '\x7d' => .take .closeBrace
  | '!' => .enter .afterBang
  | '"' => .enter .doubleQuoted
  | '#' => .enter .comment
  | '&' => .enter .afterAmpersand
  | '\'' => .enter .singleQuoted
  | ':' => .enter .afterColon
  | '<' => .enter .afterLess
  | '>' => .enter .afterGreater
  | '\\' => .escape .symbol
  | '|' => .enter .afterPipe
  | _ => .enter .symbol

/-- What a state does with a rune that it has no other use for. -/
def otherwise : State → Move
  | afterAmpersand => .leave .background
  | afterBang => .become symbol
  | afterBangGreater | afterGreater | afterLess => .leave .redirect
  | afterColon => .leave .colon
  | afterPipe => .leave .pipe
  | afterBackslash => .resume
  | blank | comment | symbol | singleQuoted | doubleQuoted | bangString => .keep

/-- What a state does with a character. With `banged` the token under way begins with `!`. -/
def onChar (s : State) (banged : Bool) (c : Char) : Move :=
  match s with
  | blank => first c
  | comment => if c = '\n' then .take .newline else s.otherwise
  | symbol =>
    if isDelimiter c then .leave .symbol else if c = '\\' then .escape symbol else s.otherwise
  | singleQuoted => if c = '\'' then .take .singleQuoted else s.otherwise
  | doubleQuoted =>
    if c = '"' then .take .doubleQuoted else if c = '\\' then .escape doubleQuoted else s.otherwise
  | bangString =>
    if c = '"' then .take .bangString else if c = '\\' then .escape bangString else s.otherwise
  | afterBackslash => s.otherwise
  | afterAmpersand => if c = '&' then .take .and else s.otherwise
  | afterBang =>
    if c = '"' then .enter bangString
    else if c = '>' then .enter afterBangGreater
    else if c = '|' then .enter afterPipe
    else s.otherwise
  | afterBangGreater => if c = '>' then .take .redirect else s.otherwise
  | afterColon => if c = ':' then .take .cons else s.otherwise
  | afterGreater =>
    if c = '(' then .take .substitute else if c = '>' then .take .redirect else s.otherwise
  | afterLess => if c = '(' then .take .substitute else s.otherwise
  | afterPipe =>
    -- After `!|` another `|` is an operator of its own.
    if c = '+' then .take .pipe else if c = '|' && !banged then .take .or else s.otherwise

/-- What a state does with a byte that is no text. Comments are thrown away with all that is in
them, and to an operator it is just the next token. -/
def onInvalid (s : State) (byte : UInt8) : Move :=
  match s with
  | blank | symbol | singleQuoted | doubleQuoted | bangString | afterBackslash => .reject byte
  | _ => s.otherwise

def respond (s : State) (banged : Bool) : Rune → Move
  | .char c => s.onChar banged c
  | .invalid byte => s.onInvalid byte
  | .exhausted => .halt

/-! ## Moves that read nothing

They lead to a state of lower rank, so there are only so many of them between two runes.
-/

/-- How many moves in a row may read nothing from here on. -/
def rank : State → Nat
  | afterBang => 2
  | symbol | afterAmpersand | afterBangGreater | afterColon | afterGreater | afterLess
  | afterPipe => 1
  | blank | comment | singleQuoted | doubleQuoted | bangString | afterBackslash => 0

theorem rank_le_two (s : State) : s.rank ≤ 2 := by cases s <;> decide

theorem first_ne_become (c : Char) (next : State) : first c ≠ .become next := by
  unfold first; split <;> simp

theorem first_ne_leave (c : Char) (kind : Kind) : first c ≠ .leave kind := by
  unfold first; split <;> simp

theorem first_ne_halt (c : Char) : first c ≠ .halt := by
  unfold first; split <;> simp

/-- A state that leaves a rune to another one hands it down. -/
theorem rank_lt_of_become {s next : State} {banged : Bool} {r : Rune}
    (h : s.respond banged r = .become next) : next.rank < s.rank := by
  cases r with
  | exhausted => simp [respond] at h
  | invalid b =>
    cases s <;> simp [respond, onInvalid, otherwise] at h
    subst h; decide
  | char c =>
    cases s <;> simp only [respond, onChar, otherwise] at h
    case blank => exact absurd h (first_ne_become c next)
    all_goals repeat' split at h
    all_goals simp at h
    subst h; decide

/-- Between tokens and inside quotes no token ends in front of a rune. -/
theorem rank_pos_of_leave {s : State} {banged : Bool} {r : Rune} {kind : Kind}
    (h : s.respond banged r = .leave kind) : 0 < s.rank := by
  cases r with
  | exhausted => simp [respond] at h
  | invalid b => cases s <;> simp [respond, onInvalid, otherwise, rank] at h ⊢
  | char c =>
    cases s <;> simp only [respond, onChar, otherwise] at h
    case blank => exact absurd h (first_ne_leave c kind)
    all_goals repeat' split at h
    all_goals simp [rank] at h ⊢

/-- Only the end of the input halts. -/
theorem respond_eq_halt_iff {s : State} {banged : Bool} {r : Rune} :
    s.respond banged r = .halt ↔ r = .exhausted := by
  constructor
  · intro h
    cases r with
    | exhausted => rfl
    | invalid b => cases s <;> simp [respond, onInvalid, otherwise] at h
    | char c =>
      cases s <;> simp only [respond, onChar, otherwise] at h
      case blank => exact absurd h (first_ne_halt c)
      all_goals repeat' split at h
      all_goals simp at h
  · rintro rfl
    rfl

end State

end ShellTokens
