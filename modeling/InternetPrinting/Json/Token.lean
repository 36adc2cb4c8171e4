import InternetPrinting.Text.Hex

/-!
# Tokens of JSON

The characters of a text are read one by one into tokens. Of a number only its
value as a plain natural number is kept, if it has one, and of a string its
content, if its escapes pair their surrogates. Everything else that a reader
could object to is left to the tree.
-/

namespace InternetPrinting.Json

/-- A token of JSON. -/
inductive Token
  | openBrace
  | closeBrace
  | openBracket
  | closeBracket
  | comma
  | colon
  | null
  | bool (b : Bool)
  /-- A number, with its value if it is written as digits alone. -/
  | number (natural : Option Nat)
  /-- A string, with its content if that is text. -/
  | text (content : Option String)
deriving DecidableEq, Repr

/-- The content of a string so far: the characters, latest first, and a high
surrogate that waits for its low one. -/
structure Content where
  chars : List Char := []
  high : Option Nat := none
deriving DecidableEq, Repr

namespace Content

def isHigh (unit : Nat) : Bool :=
  0xD800 ≤ unit && unit < 0xDC00

def isLow (unit : Nat) : Bool :=
  0xDC00 ≤ unit && unit < 0xE000

/-- The character that a high and a low surrogate stand for together. -/
def paired (high low : Nat) : Char :=
  Char.ofNat (0x10000 + (high - 0xD800) * 0x400 + (low - 0xDC00))

/-- Add a character. -/
def char (content : Content) (c : Char) : Option Content :=
  match content.high with
  | some _ => none
  | none => some ⟨c :: content.chars, none⟩

/-- Add a unit of sixteen bits. A high surrogate and the low one right behind
it are one character. -/
def unit (content : Content) (u : Nat) : Option Content :=
  match content.high with
  | some high =>
    if isLow u then some ⟨paired high u :: content.chars, none⟩ else none
  | none =>
    if isHigh u then some ⟨content.chars, some u⟩
    else if isLow u then none
    else some ⟨Char.ofNat u :: content.chars, none⟩

/-- The text, if no surrogate is left alone. -/
def text? (content : Content) : Option String :=
  match content.high with
  | some _ => none
  | none => some (String.ofList content.chars.reverse)

end Content

/-- How far a number has been read. -/
inductive Phase
  | sign
  | zero
  | digits
  | point
  | fraction
  | mark
  | markSign
  | exponent
deriving DecidableEq, Repr

namespace Phase

/-- The phase after one more character of the number. -/
def next? (phase : Phase) (c : Char) : Option Phase :=
  match phase with
  | .sign => if c = '0' then some .zero else if c.isDigit then some .digits else none
  | .zero =>
    if c = '.' then some .point else if c = 'e' ∨ c = 'E' then some .mark else none
  | .digits =>
    if c.isDigit then some .digits
    else if c = '.' then some .point
    else if c = 'e' ∨ c = 'E' then some .mark
    else none
  | .point => if c.isDigit then some .fraction else none
  | .fraction =>
    if c.isDigit then some .fraction else if c = 'e' ∨ c = 'E' then some .mark else none
  | .mark =>
    if c.isDigit then some .exponent
    else if c = '+' ∨ c = '-' then some .markSign
    else none
  | .markSign => if c.isDigit then some .exponent else none
  | .exponent => if c.isDigit then some .exponent else none

/-- Whether a number may end here. -/
def mayEnd : Phase → Bool
  | .zero | .digits | .fraction | .exponent => true
  | _ => false

end Phase

/-- What the next character belongs to. Inside a string the content is given
up for lost once a surrogate stands alone. -/
inductive Mode
  | between
  | text (content : Option Content)
  | escape (content : Option Content)
  | unit (content : Option Content) (digits value : Nat)
  | number (phase : Phase) (natural : Option Nat)
  | word (left : List Char) (token : Token)
deriving DecidableEq, Repr

/-- The tokens so far, latest first, and where the scanner stands. -/
structure Scanner where
  tokens : List Token := []
  mode : Mode := .between
deriving DecidableEq, Repr

def digitValue (c : Char) : Nat :=
  c.toNat - 48

/-- The character that a short escape stands for. -/
def shortEscape? (c : Char) : Option Char :=
  match c with
  | '"' => some '"'
  | '\\' => some '\\'
  | '/' => some '/'
  | 'b' => some '\x08'
  | 'f' => some '\x0c'
  | 'n' => some '\n'
  | 'r' => some '\r'
  | 't' => some '\t'
  | _ => none

/-- The four characters that may stand between tokens. -/
def isSpace (c : Char) : Bool :=
  c = ' ' || c = '\n' || c = '\r' || c = '\t'

/-- The mark that a character is by itself. -/
def punctuation? (c : Char) : Option Token :=
  match c with
  | '{' => some .openBrace
  | '}' => some .closeBrace
  | '[' => some .openBracket
  | ']' => some .closeBracket
  | ',' => some .comma
  | ':' => some .colon
  | _ => none

namespace Scanner

/-- Read a character between tokens. -/
def begin (tokens : List Token) (c : Char) : Option Scanner :=
  if isSpace c then some ⟨tokens, .between⟩
  else match punctuation? c with
    | some token => some ⟨token :: tokens, .between⟩
    | none =>
      if c = '"' then some ⟨tokens, .text (some {})⟩
      else if c = '-' then some ⟨tokens, .number .sign none⟩
      else if c = '0' then some ⟨tokens, .number .zero (some 0)⟩
      else if c.isDigit then some ⟨tokens, .number .digits (some (digitValue c))⟩
      else if c = 't' then some ⟨tokens, .word ['r', 'u', 'e'] (.bool true)⟩
      else if c = 'f' then some ⟨tokens, .word ['a', 'l', 's', 'e'] (.bool false)⟩
      else if c = 'n' then some ⟨tokens, .word ['u', 'l', 'l'] .null⟩
      else none

/-- Read one character. -/
def step (s : Scanner) (c : Char) : Option Scanner :=
  match s.mode with
  | .between => begin s.tokens c
  | .text content =>
    if c = '"' then some ⟨.text (content.bind Content.text?) :: s.tokens, .between⟩
    else if c = '\\' then some ⟨s.tokens, .escape content⟩
    else if c.toNat < 0x20 then none
    else some ⟨s.tokens, .text (content.bind (·.char c))⟩
  | .escape content =>
    if c = 'u' then some ⟨s.tokens, .unit content 0 0⟩
    else (shortEscape? c).map fun meant => ⟨s.tokens, .text (content.bind (·.char meant))⟩
  | .unit content digits value =>
    (Text.Hex.value? c).map fun digit =>
      let value := value * 16 + digit
      if digits = 3 then ⟨s.tokens, .text (content.bind (·.unit value))⟩
      else ⟨s.tokens, .unit content (digits + 1) value⟩
  | .number phase natural =>
    match phase.next? c with
    | some next =>
      let natural := if c.isDigit then natural.map (· * 10 + digitValue c) else none
      some ⟨s.tokens, .number next natural⟩
    | none => if phase.mayEnd then begin (.number natural :: s.tokens) c else none
  | .word left token =>
    match left with
    | [] => none
    | [last] => if c = last then some ⟨token :: s.tokens, .between⟩ else none
    | expected :: left => if c = expected then some ⟨s.tokens, .word left token⟩ else none

/-- The tokens, if the text may end here. -/
def finish (s : Scanner) : Option (List Token) :=
  match s.mode with
  | .between => some s.tokens.reverse
  | .number phase natural =>
    if phase.mayEnd then some (.number natural :: s.tokens).reverse else none
  | _ => none

end Scanner

/-- The tokens of a text. -/
def scan (cs : List Char) : Option (List Token) :=
  (cs.foldlM Scanner.step {}).bind Scanner.finish

end InternetPrinting.Json
