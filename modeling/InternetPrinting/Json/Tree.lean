import InternetPrinting.Json.Token

/-!
# Trees of JSON

Tokens are put together into a tree one by one, with the arrays and objects
that are still open on a stack. So the depth of a text has no limit.
-/

namespace InternetPrinting

/-- A value of JSON. Members keep their order and their repetitions. -/
inductive Json
  | null
  | bool (b : Bool)
  | number (natural : Option Nat)
  | text (content : Option String)
  | array (items : List Json)
  | object (members : List (Option String × Json))

namespace Json

/-- An array or object around the value that is being read: the items before
it, latest first, or the members before it and its key. -/
inductive Frame
  | array (items : List Json)
  | object (members : List (Option String × Json)) (key : Option String)

/-- What the next token has to be. -/
inductive Expectation
  /-- A value. -/
  | value
  /-- The first item of an array, or its end. -/
  | itemOrEnd
  /-- The first key of an object, or its end. -/
  | keyOrEnd
  /-- A further key of an object with these members, latest first. -/
  | key (members : List (Option String × Json))
  /-- The colon behind a key. -/
  | colon (members : List (Option String × Json)) (key : Option String)
  /-- A value is complete, and a comma or an end must follow. -/
  | complete (value : Json)

/-- The open arrays and objects, innermost first, and what comes next. -/
structure Builder where
  frames : List Frame := []
  expectation : Expectation := .value

namespace Builder

/-- Read a token where a value has to stand. -/
def value? (frames : List Frame) : Token → Option Builder
  | .null => some ⟨frames, .complete .null⟩
  | .bool b => some ⟨frames, .complete (.bool b)⟩
  | .number natural => some ⟨frames, .complete (.number natural)⟩
  | .text content => some ⟨frames, .complete (.text content)⟩
  | .openBracket => some ⟨frames, .itemOrEnd⟩
  | .openBrace => some ⟨frames, .keyOrEnd⟩
  | _ => none

/-- Read a token behind a complete value. -/
def after? (frames : List Frame) (value : Json) (token : Token) : Option Builder :=
  match frames, token with
  | .array items :: outer, .comma => some ⟨.array (value :: items) :: outer, .value⟩
  | .array items :: outer, .closeBracket =>
    some ⟨outer, .complete (.array (value :: items).reverse)⟩
  | .object members key :: outer, .comma => some ⟨outer, .key ((key, value) :: members)⟩
  | .object members key :: outer, .closeBrace =>
    some ⟨outer, .complete (.object ((key, value) :: members).reverse)⟩
  | _, _ => none

/-- Read one token. -/
def step (b : Builder) (token : Token) : Option Builder :=
  match b.expectation with
  | .value => value? b.frames token
  | .itemOrEnd =>
    if token = .closeBracket then some ⟨b.frames, .complete (.array [])⟩
    else value? (.array [] :: b.frames) token
  | .keyOrEnd =>
    match token with
    | .closeBrace => some ⟨b.frames, .complete (.object [])⟩
    | .text key => some ⟨b.frames, .colon [] key⟩
    | _ => none
  | .key members =>
    match token with
    | .text key => some ⟨b.frames, .colon members key⟩
    | _ => none
  | .colon members key =>
    if token = .colon then some ⟨.object members key :: b.frames, .value⟩ else none
  | .complete value => after? b.frames value token

/-- The value, if nothing is open. -/
def finish (b : Builder) : Option Json :=
  match b.frames, b.expectation with
  | [], .complete value => some value
  | _, _ => none

end Builder

/-- The tree of a list of tokens. -/
def ofTokens? (tokens : List Token) : Option Json :=
  (tokens.foldlM Builder.step {}).bind Builder.finish

/-- The tree of a text. -/
def parse? (cs : List Char) : Option Json :=
  (scan cs).bind ofTokens?

end Json

end InternetPrinting
