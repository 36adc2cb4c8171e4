import InternetPrinting.Proofs.Json.Numerals
import InternetPrinting.Proofs.Json.Spelling
import Mathlib.Data.List.Chain

/-!
# Texts that are parted into lexemes

A text is parted into lexemes with white space anywhere between them. The scanner finds
only tokens of such a parting. It finds the tokens of every one in which a number stands
in front of a mark or at the end, for then no number could have gone on.
-/

namespace InternetPrinting.Json

section Partings

/-- The text of a token. -/
inductive Lexeme : List Char → Token → Prop
  | mark {c : Char} {token : Token} (is : punctuation? c = some token) : Lexeme [c] token
  | null : Lexeme ['n', 'u', 'l', 'l'] .null
  | bool (b : Bool) : Lexeme (if b then "true" else "false").toList (.bool b)
  | number {word : List Char} (is : word ∈ Numeral.number) :
      Lexeme word (.number (Numeral.natural? word))
  | text {cs : List Char} {pieces : List Piece} {content : Option String}
      (spelled : Spelled cs pieces) (contains : Contains pieces content) :
      Lexeme ('"' :: (cs ++ ['"'])) (.text content)

/-- A text with the tokens of its lexemes. -/
inductive Lexed : List Char → List Token → Prop
  | nil : Lexed [] []
  | space {c : Char} {cs : List Char} {tokens : List Token} (is : isSpace c = true)
      (behind : Lexed cs tokens) : Lexed (c :: cs) tokens
  | lexeme {word cs : List Char} {token : Token} {tokens : List Token}
      (is : Lexeme word token) (behind : Lexed cs tokens) :
      Lexed (word ++ cs) (token :: tokens)

/-- Whether a token is a number, which only what follows it ends. -/
def Token.isNumber : Token → Bool
  | .number _ => true
  | _ => false

/-- Whether a token is a mark of a single character. -/
def Token.isMark : Token → Bool
  | .openBrace | .closeBrace | .openBracket | .closeBracket | .comma | .colon => true
  | _ => false

/-- Behind a number there is nothing or a mark. -/
def Apart (tokens : List Token) : Prop :=
  tokens.IsChain fun token next => token.isNumber = true → next.isMark = true

/-- Nothing that could belong to a number is at the front of a text. -/
def Stops (cs : List Char) : Prop :=
  ∀ c ∈ cs.head?, EndsNumber c

variable {c : Char} {cs word : List Char} {token : Token} {tokens : List Token}

theorem isSpace_of_punctuation (is : punctuation? c = some token) : isSpace c = false := by
  unfold punctuation? at is
  split at is <;> first | rfl | cases is

theorem stops_nil : Stops [] := by
  intro c mem
  cases mem

/-- A space ends a number. -/
theorem endsNumber_of_isSpace (is : isSpace c = true) : EndsNumber c := by
  intro phase _
  simp only [isSpace, Bool.or_eq_true, decide_eq_true_eq] at is
  rcases is with ((rfl | rfl) | rfl) | rfl <;> cases phase <;> rfl

theorem Lexeme.ne_nil (lexeme : Lexeme word token) : word ≠ [] := by
  cases lexeme with
  | mark is => exact List.cons_ne_nil _ _
  | null => exact List.cons_ne_nil _ _
  | bool b => cases b <;> exact List.cons_ne_nil _ _
  | number is => exact ne_of_mem_of_not_mem is Numeral.nil_notMem_number
  | text spelled contains => exact List.cons_ne_nil _ _

/-- Where a mark comes next, nothing can belong to a number, and where no token comes next
it depends on what is behind. -/
theorem Lexed.stops (lexed : Lexed cs tokens) (marked : ∀ token ∈ tokens.head?, token.isMark)
    {rest : List Char} (stops : tokens = [] → Stops rest) : Stops (cs ++ rest) := by
  cases lexed with
  | nil => exact stops rfl
  | space is behind =>
    rintro _ ⟨⟩
    exact endsNumber_of_isSpace is
  | lexeme is behind =>
    have mark := marked _ rfl
    cases is with
    | mark is =>
      rintro _ ⟨⟩
      exact endsNumber_of_punctuation is
    | null | bool | number | text => cases mark

end Partings

section Reading

/-- The tokens of a text that the scanner goes on with. -/
def Scanner.read (s : Scanner) (cs : List Char) : Option (List Token) :=
  (cs.foldlM Scanner.step s).bind Scanner.finish

variable {s next : Scanner} {c : Char} {cs : List Char} {before tokens : List Token}

theorem Scanner.read_cons : s.read (c :: cs) = (s.step c).bind (·.read cs) :=
  bind_foldlM_cons c cs

theorem Scanner.read_of_step (step : s.step c = some next) : s.read (c :: cs) = next.read cs := by
  rw [Scanner.read_cons, step]
  rfl

theorem Scanner.exists_step (read : s.read (c :: cs) = some tokens) :
    ∃ next, s.step c = some next ∧ next.read cs = some tokens := by
  rw [Scanner.read_cons] at read
  exact Option.bind_eq_some_iff.mp read

end Reading

section Words

variable {cs left : List Char} {token : Token} {before tokens : List Token}

theorem read_word (nonempty : left ≠ []) :
    Scanner.read ⟨before, .word left token⟩ (left ++ cs) =
      Scanner.read ⟨token :: before, .between⟩ cs := by
  induction left with
  | nil => exact absurd rfl nonempty
  | cons c left ih =>
    rw [List.cons_append]
    cases left with
    | nil => exact Scanner.read_of_step (by simp [Scanner.step])
    | cons d left =>
      rw [← ih (List.cons_ne_nil d left)]
      exact Scanner.read_of_step (by simp [Scanner.step])

theorem exists_word (read : Scanner.read ⟨before, .word left token⟩ cs = some tokens) :
    ∃ rest, cs = left ++ rest ∧
      Scanner.read ⟨token :: before, .between⟩ rest = some tokens := by
  induction cs generalizing left with
  | nil => cases read
  | cons c cs ih =>
    obtain ⟨next, step, read⟩ := Scanner.exists_step read
    cases left with
    | nil => cases step
    | cons d left =>
      cases left with
      | nil =>
        simp only [Scanner.step, Option.ite_none_right_eq_some] at step
        obtain ⟨rfl, ⟨⟩⟩ := step
        exact ⟨cs, rfl, read⟩
      | cons e left =>
        simp only [Scanner.step, Option.ite_none_right_eq_some] at step
        obtain ⟨rfl, ⟨⟩⟩ := step
        obtain ⟨rest, rfl, behind⟩ := ih read
        exact ⟨rest, rfl, behind⟩

end Words

section Numbers

open Numeral (carry)

variable {cs word : List Char} {phase : Phase} {natural : Option Nat} {before tokens : List Token}

theorem read_number (goesOn : word ∈ Numeral.rest phase) (stops : Stops cs) :
    Scanner.read ⟨before, .number phase natural⟩ (word ++ cs) =
      Scanner.read ⟨.number (carry natural word) :: before, .between⟩ cs := by
  induction word generalizing phase natural with
  | nil =>
    have ended : phase.mayEnd = true := Numeral.nil_mem_rest.mp goesOn
    rw [List.nil_append, Numeral.carry_nil]
    cases cs with
    | nil => simp [Scanner.read, Scanner.finish, ended]
    | cons c cs =>
      rw [Scanner.read_cons, Scanner.read_cons]
      simp [Scanner.step, stops c rfl phase ended, ended]
  | cons c word ih =>
    obtain ⟨next, steps, goesOn⟩ := Numeral.cons_mem_rest.mp goesOn
    rw [Numeral.carry_cons, ← ih goesOn, List.cons_append]
    exact Scanner.read_of_step (by simp only [Scanner.step, steps])

theorem exists_number (read : Scanner.read ⟨before, .number phase natural⟩ cs = some tokens) :
    ∃ word rest, cs = word ++ rest ∧ word ∈ Numeral.rest phase ∧
      Scanner.read ⟨.number (carry natural word) :: before, .between⟩ rest = some tokens := by
  induction cs generalizing phase natural with
  | nil =>
    simp only [Scanner.read, List.foldlM_nil, pure, Option.bind_some, Scanner.finish,
      Option.ite_none_right_eq_some] at read
    obtain ⟨ended, ⟨⟩⟩ := read
    refine ⟨[], [], rfl, Numeral.nil_mem_rest.mpr ended, ?_⟩
    rw [Numeral.carry_nil]
    rfl
  | cons c cs ih =>
    obtain ⟨next, step, read⟩ := Scanner.exists_step read
    simp only [Scanner.step] at step
    cases steps : phase.next? c with
    | some after =>
      rw [steps] at step
      cases step
      obtain ⟨word, rest, rfl, goesOn, read⟩ := ih read
      refine ⟨c :: word, rest, rfl, Numeral.cons_mem_rest.mpr ⟨after, steps, goesOn⟩, ?_⟩
      rw [Numeral.carry_cons]
      exact read
    | none =>
      -- The character is read as if the number had ended in front of it.
      simp only [steps, Option.ite_none_right_eq_some] at step
      obtain ⟨ended, begins⟩ := step
      refine ⟨[], c :: cs, rfl, Numeral.nil_mem_rest.mpr ended, ?_⟩
      rw [Numeral.carry_nil, Scanner.read_cons]
      change (Scanner.begin _ c).bind _ = _
      rw [begins]
      exact read

end Numbers

section Strings

variable {cs word : List Char} {pieces : List Piece} {content : Option Content}
  {before tokens : List Token}

/-- The content of a string whose first piece is added on the way. -/
theorem bind_behind?_cons (piece : Piece) :
    (content.bind (·.add piece)).bind (·.behind? pieces) =
      content.bind (·.behind? (piece :: pieces)) := by
  cases content with
  | none => rfl
  | some content => exact (Content.behind?_cons pieces content piece).symm

section Units

variable {digits value : Nat}

theorem read_digit {c : Char} {w : Nat} (hex : Text.Hex.value? c = some w) (more : digits ≠ 3) :
    Scanner.read ⟨before, .unit content digits value⟩ (c :: cs) =
      Scanner.read ⟨before, .unit content (digits + 1) (value * 16 + w)⟩ cs :=
  Scanner.read_of_step (by simp [Scanner.step, hex, more])

theorem read_lastDigit {c : Char} {w : Nat} (hex : Text.Hex.value? c = some w) :
    Scanner.read ⟨before, .unit content 3 value⟩ (c :: cs) =
      Scanner.read ⟨before, .text (content.bind (·.unit (value * 16 + w)))⟩ cs :=
  Scanner.read_of_step (by simp [Scanner.step, hex])

theorem exists_digit
    (read : Scanner.read ⟨before, .unit content digits value⟩ cs = some tokens) :
    ∃ c rest w, cs = c :: rest ∧ Text.Hex.value? c = some w := by
  cases cs with
  | nil => cases read
  | cons c cs =>
    obtain ⟨next, step, _⟩ := Scanner.exists_step read
    obtain ⟨w, hex, _⟩ := Option.map_eq_some_iff.mp step
    exact ⟨c, cs, w, rfl, hex⟩

/-- The value of four digits, in the form in which they are read. -/
theorem value_eq (w x y z : Nat) :
    (((0 * 16 + w) * 16 + x) * 16 + y) * 16 + z = w * 4096 + x * 256 + y * 16 + z := by
  omega

theorem read_unit {a b c d : Char} {w x y z : Nat} (first : Text.Hex.value? a = some w)
    (second : Text.Hex.value? b = some x) (third : Text.Hex.value? c = some y)
    (last : Text.Hex.value? d = some z) :
    Scanner.read ⟨before, .unit content 0 0⟩ (a :: b :: c :: d :: cs) =
      Scanner.read
        ⟨before, .text (content.bind (·.add (.unit (w * 4096 + x * 256 + y * 16 + z))))⟩ cs := by
  rw [read_digit first (by decide), read_digit second (by decide), read_digit third (by decide),
    read_lastDigit last, value_eq]
  rfl

theorem exists_unit (read : Scanner.read ⟨before, .unit content 0 0⟩ cs = some tokens) :
    ∃ a b c d rest w x y z, cs = a :: b :: c :: d :: rest ∧ Text.Hex.value? a = some w ∧
      Text.Hex.value? b = some x ∧ Text.Hex.value? c = some y ∧ Text.Hex.value? d = some z := by
  obtain ⟨a, cs, w, rfl, first⟩ := exists_digit read
  rw [read_digit first (by decide)] at read
  obtain ⟨b, cs, x, rfl, second⟩ := exists_digit read
  rw [read_digit second (by decide)] at read
  obtain ⟨c, cs, y, rfl, third⟩ := exists_digit read
  rw [read_digit third (by decide)] at read
  obtain ⟨d, cs, z, rfl, last⟩ := exists_digit read
  exact ⟨a, b, c, d, cs, w, x, y, z, rfl, first, second, third, last⟩

end Units

theorem read_escape {c meant : Char} (short : shortEscape? c = some meant) :
    Scanner.read ⟨before, .escape content⟩ (c :: cs) =
      Scanner.read ⟨before, .text (content.bind (·.add (.char meant)))⟩ cs := by
  have notUnit : c ≠ 'u' := by rintro rfl; cases short
  apply Scanner.read_of_step
  simp only [Scanner.step, notUnit, if_false, short]
  rfl

theorem read_backslash :
    Scanner.read ⟨before, .text content⟩ ('\\' :: cs) =
      Scanner.read ⟨before, .escape content⟩ cs :=
  Scanner.read_of_step rfl

theorem read_unitMark :
    Scanner.read ⟨before, .escape content⟩ ('u' :: cs) =
      Scanner.read ⟨before, .unit content 0 0⟩ cs :=
  Scanner.read_of_step rfl

theorem read_plain {c : Char} (visible : 0x20 ≤ c.toNat) (quote : c ≠ '"')
    (backslash : c ≠ '\\') :
    Scanner.read ⟨before, .text content⟩ (c :: cs) =
      Scanner.read ⟨before, .text (content.bind (·.add (.char c)))⟩ cs := by
  apply Scanner.read_of_step
  simp only [Scanner.step, quote, backslash, if_false, Nat.not_lt.mpr visible]
  rfl

theorem read_string (spelled : Spelled word pieces) :
    Scanner.read ⟨before, .text content⟩ (word ++ '"' :: cs) =
      Scanner.read ⟨.text (content.bind (·.behind? pieces)) :: before, .between⟩ cs := by
  induction spelled generalizing content with
  | nil => exact Scanner.read_of_step rfl
  | plain visible quote backslash spelled ih =>
    rw [← bind_behind?_cons, ← ih]
    exact read_plain visible quote backslash
  | escape short spelled ih =>
    rw [← bind_behind?_cons, ← ih]
    exact read_backslash.trans (read_escape short)
  | unit first second third last spelled ih =>
    rw [← bind_behind?_cons, ← ih]
    exact read_backslash.trans (read_unitMark.trans (read_unit first second third last))

/-- A string that is read ends, and what stands before its end is spelled. -/
theorem exists_string (read : Scanner.read ⟨before, .text content⟩ cs = some tokens) :
    ∃ word pieces rest, cs = word ++ '"' :: rest ∧ Spelled word pieces := by
  induction n : cs.length using Nat.strongRecOn generalizing cs content with
  | _ n ih =>
    subst n
    cases cs with
    | nil => cases read
    | cons c cs =>
      by_cases quote : c = '"'
      · subst quote
        exact ⟨[], [], cs, rfl, .nil⟩
      by_cases backslash : c = '\\'
      · subst backslash
        rw [read_backslash] at read
        cases cs with
        | nil => cases read
        | cons c cs =>
          by_cases unit : c = 'u'
          · subst unit
            rw [read_unitMark] at read
            obtain ⟨a, b, c, d, cs, w, x, y, z, rfl, first, second, third, last⟩ :=
              exists_unit read
            rw [read_unit first second third last] at read
            have fewer : cs.length < ('\\' :: 'u' :: a :: b :: c :: d :: cs).length := by
              simp only [List.length_cons]
              omega
            obtain ⟨word, pieces, rest, rfl, spelled⟩ := ih _ fewer read rfl
            exact ⟨_, _, rest, rfl, .unit first second third last spelled⟩
          · obtain ⟨next, step, _⟩ := Scanner.exists_step read
            simp only [Scanner.step, unit, if_false, Option.map_eq_some_iff] at step
            obtain ⟨meant, short, _⟩ := step
            rw [read_escape short] at read
            have fewer : cs.length < ('\\' :: c :: cs).length := by
              simp only [List.length_cons]
              omega
            obtain ⟨word, pieces, rest, rfl, spelled⟩ := ih _ fewer read rfl
            exact ⟨_, _, rest, rfl, .escape short spelled⟩
      · have visible : 0x20 ≤ c.toNat := by
          obtain ⟨next, step, _⟩ := Scanner.exists_step read
          by_contra hidden
          simp [Scanner.step, quote, backslash, Nat.not_le.mp hidden] at step
        rw [read_plain visible quote backslash] at read
        obtain ⟨word, pieces, rest, rfl, spelled⟩ := ih _ (by simp) read rfl
        exact ⟨_, _, rest, rfl, .plain visible quote backslash spelled⟩

end Strings

section Texts

variable {c : Char} {cs word : List Char} {token : Token} {before tokens : List Token}
  {next : Scanner}

theorem begin_of_start {phase : Phase} {natural : Option Nat}
    (starts : Numeral.start? c = some (phase, natural)) :
    Scanner.begin before c = some ⟨before, .number phase natural⟩ := by
  unfold Numeral.start? at starts
  split_ifs at starts with minus zero digit <;> cases starts
  · subst minus; rfl
  · subst zero; rfl
  · have space : isSpace c = false := by
      by_contra space
      simp only [isSpace, Bool.not_eq_false, Bool.or_eq_true, decide_eq_true_eq] at space
      rcases space with ((rfl | rfl) | rfl) | rfl <;> cases digit
    have mark : punctuation? c = none := by
      unfold punctuation?
      split <;> first | rfl | cases digit
    have quote : c ≠ '"' := by rintro rfl; cases digit
    simp [Scanner.begin, space, mark, quote, minus, zero, digit]

theorem Lexeme.read (lexeme : Lexeme word token) (stops : token.isNumber = true → Stops cs) :
    Scanner.read ⟨before, .between⟩ (word ++ cs) =
      Scanner.read ⟨token :: before, .between⟩ cs := by
  cases lexeme with
  | mark is =>
    apply Scanner.read_of_step
    simp [Scanner.step, Scanner.begin, isSpace_of_punctuation is, is]
  | null => exact (Scanner.read_of_step rfl).trans (read_word (List.cons_ne_nil _ _))
  | bool b =>
    cases b <;> exact (Scanner.read_of_step rfl).trans (read_word (List.cons_ne_nil _ _))
  | number is =>
    cases word with
    | nil => exact absurd is Numeral.nil_notMem_number
    | cons c word =>
      obtain ⟨phase, natural, starts, goesOn⟩ := Numeral.cons_mem_number.mp is
      rw [Numeral.natural?_of_start starts, ← read_number goesOn (stops rfl)]
      exact Scanner.read_of_step (begin_of_start starts)
  | @text inner pieces content spelled contains =>
    rw [contains.unique (Content.contains_behind? pieces), List.cons_append, List.append_assoc]
    have opened : Scanner.step ⟨before, .between⟩ '"' = some ⟨before, .text (some {})⟩ := rfl
    exact (Scanner.read_of_step opened).trans (read_string spelled)

/-- What begins with a letter is one of the three words. -/
theorem exists_name (begins : Scanner.begin before c = some next)
    (read : next.read cs = some tokens) (space : isSpace c = false)
    (mark : punctuation? c = none) (quote : c ≠ '"') (starts : Numeral.start? c = none) :
    ∃ word token rest, c :: cs = word ++ rest ∧ Lexeme word token ∧
      Scanner.read ⟨token :: before, .between⟩ rest = some tokens := by
  unfold Numeral.start? at starts
  split_ifs at starts with minus zero digit
  simp only [Scanner.begin, space, mark, quote, minus, zero, digit, Bool.false_eq_true,
    if_false] at begins
  split_ifs at begins with isTrue isFalse isNull <;> cases begins
  · subst isTrue
    obtain ⟨rest, rfl, read⟩ := exists_word read
    exact ⟨_, _, rest, rfl, .bool true, read⟩
  · subst isFalse
    obtain ⟨rest, rfl, read⟩ := exists_word read
    exact ⟨_, _, rest, rfl, .bool false, read⟩
  · subst isNull
    obtain ⟨rest, rfl, read⟩ := exists_word read
    exact ⟨_, _, rest, rfl, .null, read⟩

/-- A character that is read between tokens and is no white space begins a lexeme. -/
theorem exists_lexeme (read : Scanner.read ⟨before, .between⟩ (c :: cs) = some tokens)
    (space : isSpace c = false) :
    ∃ word token rest, c :: cs = word ++ rest ∧ Lexeme word token ∧
      Scanner.read ⟨token :: before, .between⟩ rest = some tokens := by
  obtain ⟨next, begins, read⟩ := Scanner.exists_step read
  change Scanner.begin before c = some next at begins
  cases mark : punctuation? c with
  | some token =>
    simp only [Scanner.begin, space, mark, Bool.false_eq_true, if_false] at begins
    cases begins
    exact ⟨[c], token, cs, rfl, .mark mark, read⟩
  | none =>
    by_cases quote : c = '"'
    · subst quote
      cases begins
      obtain ⟨word, pieces, rest, rfl, spelled⟩ := exists_string read
      rw [read_string spelled] at read
      refine ⟨_, _, rest, ?_, .text spelled (Content.contains_behind? pieces), read⟩
      simp
    · cases starts : Numeral.start? c with
      | none => exact exists_name begins read space mark quote starts
      | some start =>
        obtain ⟨phase, natural⟩ := start
        rw [begin_of_start starts] at begins
        cases begins
        obtain ⟨word, rest, rfl, goesOn, read⟩ := exists_number read
        have is : c :: word ∈ Numeral.number :=
          Numeral.cons_mem_number.mpr ⟨phase, natural, starts, goesOn⟩
        rw [← Numeral.natural?_of_start starts] at read
        exact ⟨c :: word, _, rest, rfl, .number is, read⟩

theorem read_space (space : isSpace c = true) :
    Scanner.read ⟨before, .between⟩ (c :: cs) = Scanner.read ⟨before, .between⟩ cs :=
  Scanner.read_of_step (by simp [Scanner.step, Scanner.begin, space])

/-- What is read behind other tokens is a text that is parted into lexemes. -/
theorem exists_lexed (read : Scanner.read ⟨before, .between⟩ cs = some tokens) :
    ∃ more, Lexed cs more ∧ tokens = before.reverse ++ more := by
  induction n : cs.length using Nat.strongRecOn generalizing cs before with
  | _ n ih =>
    subst n
    cases cs with
    | nil =>
      cases read
      exact ⟨[], .nil, by simp⟩
    | cons c cs =>
      cases space : isSpace c with
      | true =>
        rw [read_space space] at read
        obtain ⟨more, lexed, rfl⟩ := ih _ (by simp) read rfl
        exact ⟨more, .space space lexed, rfl⟩
      | false =>
        obtain ⟨word, token, rest, parts, lexeme, read⟩ := exists_lexeme read space
        have shorter : rest.length < (c :: cs).length := by
          rw [parts, List.length_append]
          have := List.length_pos_of_ne_nil lexeme.ne_nil
          omega
        obtain ⟨more, lexed, rfl⟩ := ih _ shorter read rfl
        rw [parts]
        exact ⟨token :: more, .lexeme lexeme lexed, by simp⟩

/-- The tokens of a parting are read, whatever stands behind it, if no number can go on
with what follows it. -/
theorem Lexed.read {more : List Token} (lexed : Lexed cs more) (apart : Apart more)
    {rest : List Char} (stops : ∀ token ∈ more.getLast?, token.isNumber = true → Stops rest) :
    Scanner.read ⟨before, .between⟩ (cs ++ rest) =
      Scanner.read ⟨more.reverse ++ before, .between⟩ rest := by
  induction lexed generalizing before with
  | nil => rfl
  | space is lexed ih => rw [List.cons_append, read_space is, ih apart stops]
  | @lexeme word cs token tokens is lexed ih =>
    obtain ⟨behind, apart⟩ := List.isChain_cons.mp apart
    have ends : token.isNumber = true → Stops (cs ++ rest) := by
      intro number
      apply lexed.stops (fun next first => behind next first number)
      rintro rfl
      exact stops token rfl number
    have last : ∀ token ∈ tokens.getLast?, token.isNumber = true → Stops rest := by
      intro last mem
      apply stops
      rw [List.getLast?_cons, Option.mem_def.mp mem]
      rfl
    rw [List.append_assoc, is.read ends, ih apart last, List.reverse_cons, List.append_assoc]
    rfl

end Texts

end InternetPrinting.Json
