import InternetPrinting.Proofs.Json.Building
import InternetPrinting.Proofs.Json.Lexemes

/-!
# The grammar of JSON

The grammar says which tokens a value, the items of an array and the members of an object
have. A text denotes a tree if it can be parted into lexemes whose tokens are those of the
tree. Reading finds the tree of every such text and refuses every other one.
-/

namespace InternetPrinting.Json

section Derivations

/-- What tokens may stand for: a value, or the items of an array or the members of an
object up to its end. -/
inductive Phrase
  | value (v : Json)
  | items (vs : List Json)
  | members (ms : List (Option String × Json))

/-- The tokens of a phrase. -/
inductive Derives : List Token → Phrase → Prop
  | null : Derives [.null] (.value .null)
  | bool (b : Bool) : Derives [.bool b] (.value (.bool b))
  | number (natural : Option Nat) : Derives [.number natural] (.value (.number natural))
  | text (content : Option String) : Derives [.text content] (.value (.text content))
  | emptyArray : Derives [.openBracket, .closeBracket] (.value (.array []))
  | array {tokens : List Token} {vs : List Json} (items : Derives tokens (.items vs)) :
      Derives (.openBracket :: tokens) (.value (.array vs))
  | lastItem {tokens : List Token} {v : Json} (value : Derives tokens (.value v)) :
      Derives (tokens ++ [.closeBracket]) (.items [v])
  | item {tokens more : List Token} {v : Json} {vs : List Json}
      (value : Derives tokens (.value v)) (behind : Derives more (.items vs)) :
      Derives (tokens ++ .comma :: more) (.items (v :: vs))
  | emptyObject : Derives [.openBrace, .closeBrace] (.value (.object []))
  | object {tokens : List Token} {ms : List (Option String × Json)}
      (members : Derives tokens (.members ms)) :
      Derives (.openBrace :: tokens) (.value (.object ms))
  | lastMember {tokens : List Token} {key : Option String} {v : Json}
      (value : Derives tokens (.value v)) :
      Derives (.text key :: .colon :: (tokens ++ [.closeBrace])) (.members [(key, v)])
  | member {tokens more : List Token} {key : Option String} {v : Json}
      {ms : List (Option String × Json)} (value : Derives tokens (.value v))
      (behind : Derives more (.members ms)) :
      Derives (.text key :: .colon :: (tokens ++ .comma :: more)) (.members ((key, v) :: ms))

/-- A text denotes a tree. -/
def Denotes (cs : List Char) (tree : Json) : Prop :=
  ∃ tokens, Lexed cs tokens ∧ Derives tokens (.value tree)

variable {tokens : List Token} {phrase : Phrase}

/-- In a phrase only marks stand behind a number. -/
theorem Derives.apart (derives : Derives tokens phrase) : Apart tokens := by
  induction derives <;>
    simp_all [Apart, List.isChain_cons, List.isChain_append, Token.isNumber, Token.isMark]

theorem Derives.getLast?_members {ms : List (Option String × Json)}
    (derives : Derives tokens (.members ms)) : tokens.getLast? = some .closeBrace := by
  generalize same : Phrase.members ms = phrase at derives
  induction derives generalizing ms with
  | lastMember => simp [List.getLast?_cons]
  | member _ _ _ ih => simp [List.getLast?_cons, ih rfl]
  | _ => cases same

/-- An object ends with its brace. -/
theorem Derives.getLast?_object {ms : List (Option String × Json)}
    (derives : Derives tokens (.value (.object ms))) : tokens.getLast? = some .closeBrace := by
  cases derives with
  | emptyObject => rfl
  | object members => rw [List.getLast?_cons, members.getLast?_members]; rfl

end Derivations

section Building

/-- The tree that a builder makes of tokens. -/
def Builder.build (b : Builder) (tokens : List Token) : Option Json :=
  (tokens.foldlM Builder.step b).bind Builder.finish

variable {b : Builder} {frames : List Frame} {token : Token} {tokens : List Token} {tree : Json}

theorem Builder.build_cons :
    b.build (token :: tokens) = (b.step token).bind (·.build tokens) :=
  bind_foldlM_cons token tokens

theorem Builder.build_append {part : List Token} {next : Builder}
    (read : part.foldlM Builder.step b = some next) :
    b.build (part ++ tokens) = next.build tokens := by
  unfold Builder.build
  rw [foldlM_append_of_some read]

theorem Builder.exists_step (built : b.build (token :: tokens) = some tree) :
    ∃ next, b.step token = some next ∧ next.build tokens = some tree := by
  rw [Builder.build_cons] at built
  exact Option.bind_eq_some_iff.mp built

/-- Where the tokens of a phrase lead from where the phrase may stand. -/
def Phrase.Read (tokens : List Token) : Phrase → Prop
  | .value v => Builds tokens v
  | .items vs => ∀ frames before,
      tokens.foldlM Builder.step ⟨.array before :: frames, .value⟩ =
        some ⟨frames, .complete (.array (before.reverse ++ vs))⟩
  | .members ms => ∀ frames before,
      tokens.foldlM Builder.step ⟨frames, .key before⟩ =
        some ⟨frames, .complete (.object (before.reverse ++ ms))⟩

/-- The first item may stand where an array may also end. -/
theorem step_itemOrEnd (notEnd : token ≠ .closeBracket) :
    Builder.step ⟨frames, .itemOrEnd⟩ token = Builder.step ⟨.array [] :: frames, .value⟩ token :=
  if_neg notEnd

/-- The first key is read as any further one where an object may also end. -/
theorem step_keyOrEnd (notEnd : token ≠ .closeBrace) :
    Builder.step ⟨frames, .keyOrEnd⟩ token = Builder.step ⟨frames, .key []⟩ token := by
  cases token with
  | closeBrace => exact absurd rfl notEnd
  | _ => rfl

theorem foldlM_itemOrEnd {next : Builder}
    (read : (token :: tokens).foldlM Builder.step ⟨.array [] :: frames, .value⟩ = some next) :
    (token :: tokens).foldlM Builder.step ⟨frames, .itemOrEnd⟩ = some next := by
  have notEnd : token ≠ .closeBracket := by rintro rfl; cases read
  rw [← read, List.foldlM_cons, List.foldlM_cons, step_itemOrEnd notEnd]

theorem foldlM_keyOrEnd {next : Builder}
    (read : (token :: tokens).foldlM Builder.step ⟨frames, .key []⟩ = some next) :
    (token :: tokens).foldlM Builder.step ⟨frames, .keyOrEnd⟩ = some next := by
  have notEnd : token ≠ .closeBrace := by rintro rfl; cases read
  rw [← read, List.foldlM_cons, List.foldlM_cons, step_keyOrEnd notEnd]

theorem foldlM_key (key : Option String) (before : List (Option String × Json)) :
    (.text key :: .colon :: tokens).foldlM Builder.step ⟨frames, .key before⟩ =
      tokens.foldlM Builder.step ⟨.object before key :: frames, .value⟩ := rfl

theorem Derives.ne_nil {phrase : Phrase} (derives : Derives tokens phrase) : tokens ≠ [] := by
  cases derives <;> simp

theorem Derives.read {phrase : Phrase} (derives : Derives tokens phrase) : phrase.Read tokens := by
  induction derives with
  | null | bool | number | text | emptyArray | emptyObject => exact fun _ => rfl
  | @array tokens vs items ih =>
    intro frames
    obtain ⟨token, tokens, rfl⟩ := List.exists_cons_of_ne_nil items.ne_nil
    exact foldlM_itemOrEnd (ih frames [])
  | @object tokens ms members ih =>
    intro frames
    obtain ⟨token, tokens, rfl⟩ := List.exists_cons_of_ne_nil members.ne_nil
    exact foldlM_keyOrEnd (ih frames [])
  | lastItem value ih =>
    intro frames before
    rw [foldlM_append_of_some (ih _)]
    simp [Builder.step, Builder.after?]
  | @item tokens more v vs value behind ihValue ihBehind =>
    intro frames before
    rw [foldlM_append_of_some (ihValue _)]
    have comma : Builder.step ⟨.array before :: frames, .complete v⟩ .comma =
      some ⟨.array (v :: before) :: frames, .value⟩ := rfl
    rw [foldlM_cons_of_some comma, ihBehind frames (v :: before)]
    simp
  | lastMember value ih =>
    intro frames before
    rw [foldlM_key, foldlM_append_of_some (ih _)]
    simp [Builder.step, Builder.after?]
  | @member tokens more key v ms value behind ihValue ihBehind =>
    intro frames before
    have comma : Builder.step ⟨.object before key :: frames, .complete v⟩ .comma =
      some ⟨frames, .key ((key, v) :: before)⟩ := rfl
    rw [foldlM_key, foldlM_append_of_some (ihValue _), foldlM_cons_of_some comma,
      ihBehind frames ((key, v) :: before)]
    simp

/-- Tokens that lead to a tree where a value has to stand begin with one. -/
def FindsValue (tokens : List Token) : Prop :=
  ∀ frames tree, Builder.build ⟨frames, .value⟩ tokens = some tree →
    ∃ v part rest, tokens = part ++ rest ∧ Derives part (.value v)

def FindsItems (tokens : List Token) : Prop :=
  ∀ frames before tree, Builder.build ⟨.array before :: frames, .value⟩ tokens = some tree →
    ∃ vs part rest, tokens = part ++ rest ∧ Derives part (.items vs)

def FindsMembers (tokens : List Token) : Prop :=
  ∀ frames before tree, Builder.build ⟨frames, .key before⟩ tokens = some tree →
    ∃ ms part rest, tokens = part ++ rest ∧ Derives part (.members ms)

theorem build_itemOrEnd (notEnd : tokens.head? ≠ some .closeBracket) :
    Builder.build ⟨frames, .itemOrEnd⟩ tokens =
      Builder.build ⟨.array [] :: frames, .value⟩ tokens := by
  cases tokens with
  | nil => cases frames <;> rfl
  | cons token tokens =>
    have other : token ≠ .closeBracket := fun same => notEnd (congrArg some same)
    rw [Builder.build_cons, Builder.build_cons, step_itemOrEnd other]

theorem build_keyOrEnd (notEnd : tokens.head? ≠ some .closeBrace) :
    Builder.build ⟨frames, .keyOrEnd⟩ tokens = Builder.build ⟨frames, .key []⟩ tokens := by
  cases tokens with
  | nil => cases frames <;> rfl
  | cons token tokens =>
    have other : token ≠ .closeBrace := fun same => notEnd (congrArg some same)
    rw [Builder.build_cons, Builder.build_cons, step_keyOrEnd other]

theorem findsValue_cons (items : FindsItems tokens) (members : FindsMembers tokens) :
    FindsValue (token :: tokens) := by
  intro frames tree built
  obtain ⟨next, step, built⟩ := Builder.exists_step built
  cases token with
  | null => exact ⟨_, _, tokens, rfl, .null⟩
  | bool b => exact ⟨_, _, tokens, rfl, .bool b⟩
  | number natural => exact ⟨_, _, tokens, rfl, .number natural⟩
  | text content => exact ⟨_, _, tokens, rfl, .text content⟩
  | openBracket =>
    cases step
    by_cases ends : tokens.head? = some .closeBracket
    · obtain ⟨tokens, rfl⟩ := List.head?_eq_some_iff.mp ends
      exact ⟨_, _, tokens, rfl, .emptyArray⟩
    · rw [build_itemOrEnd ends] at built
      obtain ⟨vs, part, rest, rfl, derives⟩ := items frames [] tree built
      exact ⟨_, _, rest, rfl, .array derives⟩
  | openBrace =>
    cases step
    by_cases ends : tokens.head? = some .closeBrace
    · obtain ⟨tokens, rfl⟩ := List.head?_eq_some_iff.mp ends
      exact ⟨_, _, tokens, rfl, .emptyObject⟩
    · rw [build_keyOrEnd ends] at built
      obtain ⟨ms, part, rest, rfl, derives⟩ := members frames [] tree built
      exact ⟨_, _, rest, rfl, .object derives⟩
  | closeBrace | closeBracket | comma | colon => cases step

theorem findsItems (value : FindsValue tokens)
    (items : ∀ shorter : List Token, shorter.length < tokens.length → FindsItems shorter) :
    FindsItems tokens := by
  intro frames before tree built
  obtain ⟨v, part, rest, rfl, derives⟩ := value _ tree built
  rw [Builder.build_append (derives.read _)] at built
  cases rest with
  | nil => cases built
  | cons token rest =>
    obtain ⟨next, step, built⟩ := Builder.exists_step built
    cases token with
    | comma =>
      cases step
      have fewer : rest.length < (part ++ Token.comma :: rest).length := by
        simp only [List.length_append, List.length_cons]
        omega
      obtain ⟨vs, items, rest, rfl, more⟩ := items rest fewer _ _ tree built
      exact ⟨_, _, rest, by simp, .item derives more⟩
    | closeBracket => exact ⟨_, _, rest, by simp, .lastItem derives⟩
    | _ => cases step

/-- A member begins with its key and a colon. -/
theorem exists_key {before : List (Option String × Json)}
    (built : Builder.build ⟨frames, .key before⟩ tokens = some tree) :
    ∃ key rest, tokens = .text key :: .colon :: rest ∧
      Builder.build ⟨.object before key :: frames, .value⟩ rest = some tree := by
  cases tokens with
  | nil => cases frames <;> cases built
  | cons token tokens =>
    obtain ⟨next, step, built⟩ := Builder.exists_step built
    cases token with
    | text key =>
      cases step
      cases tokens with
      | nil => cases frames <;> cases built
      | cons token tokens =>
        obtain ⟨next, step, built⟩ := Builder.exists_step built
        cases token with
        | colon =>
          cases step
          exact ⟨key, tokens, rfl, built⟩
        | _ => cases step
    | _ => cases step

theorem findsMembers
    (value : ∀ shorter : List Token, shorter.length < tokens.length → FindsValue shorter)
    (members : ∀ shorter : List Token, shorter.length < tokens.length → FindsMembers shorter) :
    FindsMembers tokens := by
  intro frames before tree built
  obtain ⟨key, tokens, rfl, inner⟩ := exists_key built
  have fewer : tokens.length < (Token.text key :: .colon :: tokens).length := by
    simp only [List.length_cons]
    omega
  obtain ⟨v, part, rest, rfl, derives⟩ := value tokens fewer _ tree inner
  rw [Builder.build_append (derives.read _)] at inner
  cases rest with
  | nil => cases inner
  | cons token rest =>
    obtain ⟨next, step, inner⟩ := Builder.exists_step inner
    cases token with
    | comma =>
      cases step
      have fewer : rest.length < (Token.text key :: .colon :: (part ++ .comma :: rest)).length := by
        simp only [List.length_append, List.length_cons]
        omega
      obtain ⟨ms, behind, rest, rfl, more⟩ := members rest fewer _ _ tree inner
      refine ⟨(key, v) :: ms, .text key :: .colon :: (part ++ .comma :: behind), rest, ?_,
        .member derives more⟩
      simp
    | closeBrace =>
      refine ⟨[(key, v)], .text key :: .colon :: (part ++ [.closeBrace]), rest, ?_,
        .lastMember derives⟩
      simp
    | _ => cases step

/-- Each of the three is read up to its end, by induction on the number of tokens. -/
theorem finds (tokens : List Token) :
    FindsValue tokens ∧ FindsItems tokens ∧ FindsMembers tokens := by
  induction n : tokens.length using Nat.strongRecOn generalizing tokens with
  | _ n ih =>
    subst n
    have value : FindsValue tokens := by
      cases tokens with
      | nil =>
        intro frames tree built
        cases frames <;> cases built
      | cons token tokens =>
        obtain ⟨_, items, members⟩ := ih _ (by simp) tokens rfl
        exact findsValue_cons items members
    have items : FindsItems tokens := findsItems value fun shorter fewer => (ih _ fewer _ rfl).2.1
    have members : FindsMembers tokens :=
      findsMembers (fun shorter fewer => (ih _ fewer _ rfl).1)
        fun shorter fewer => (ih _ fewer _ rfl).2.2
    exact ⟨value, items, members⟩

/-- Tokens are those of a tree just if they are read as the tree. -/
theorem ofTokens?_eq_some_iff : ofTokens? tokens = some tree ↔ Derives tokens (.value tree) := by
  constructor
  · intro built
    obtain ⟨v, part, rest, rfl, derives⟩ := (finds tokens).1 [] tree built
    have complete : Builder.build ⟨[], .complete v⟩ rest = some tree := by
      rw [← Builder.build_append (derives.read [])]
      exact built
    cases rest with
    | nil =>
      cases complete
      rwa [List.append_nil]
    | cons token rest =>
      obtain ⟨next, step, _⟩ := Builder.exists_step complete
      cases step
  · intro derives
    exact Builds.ofTokens? derives.read

/-- Nothing may stand behind a tree. -/
theorem ofTokens?_append_eq_none (derives : Derives tokens (.value tree)) {more : List Token}
    (nonempty : more ≠ []) : ofTokens? (tokens ++ more) = none := by
  obtain ⟨token, more, rfl⟩ := List.exists_cons_of_ne_nil nonempty
  change Builder.build {} _ = _
  rw [Builder.build_append (derives.read []), Builder.build_cons]
  rfl

end Building

section Texts

variable {cs rest : List Char} {tokens : List Token} {tree : Json}

theorem lexed_of_scan (scanned : scan cs = some tokens) : Lexed cs tokens := by
  obtain ⟨more, lexed, same⟩ := exists_lexed scanned
  rw [List.reverse_nil, List.nil_append] at same
  rwa [same]

theorem scan_append (lexed : Lexed cs tokens) (apart : Apart tokens)
    (stops : ∀ token ∈ tokens.getLast?, token.isNumber = true → Stops rest) :
    scan (cs ++ rest) = Scanner.read ⟨tokens.reverse, .between⟩ rest := by
  have read : scan (cs ++ rest) = Scanner.read ⟨tokens.reverse ++ [], .between⟩ rest :=
    lexed.read apart stops
  rwa [List.append_nil] at read

/-- A text is read as a tree just if it denotes the tree. -/
theorem parse?_eq_some_iff : parse? cs = some tree ↔ Denotes cs tree := by
  unfold parse?
  rw [Option.bind_eq_some_iff]
  constructor
  · rintro ⟨tokens, scanned, built⟩
    exact ⟨tokens, lexed_of_scan scanned, ofTokens?_eq_some_iff.mp built⟩
  · rintro ⟨tokens, lexed, derives⟩
    refine ⟨tokens, ?_, ofTokens?_eq_some_iff.mpr derives⟩
    rw [← List.append_nil cs, scan_append lexed derives.apart fun _ _ _ => stops_nil]
    simp [Scanner.read, Scanner.finish]

/-- A text denotes one tree. -/
theorem Denotes.unique {other : Json} (denotes : Denotes cs tree) (again : Denotes cs other) :
    tree = other := by
  rw [← parse?_eq_some_iff] at denotes again
  exact Option.some.inj (denotes.symm.trans again)

theorem isSpace_of_lexed_nil (lexed : Lexed cs []) : ∀ c ∈ cs, isSpace c = true := by
  generalize none : ([] : List Token) = tokens at lexed
  induction lexed with
  | nil => nofun
  | space is lexed ih => exact List.forall_mem_cons.mpr ⟨is, ih none⟩
  | lexeme => cases none

/-- Behind the text of an object only white space is accepted. -/
theorem parse?_append_eq_none {ms : List (Option String × Json)}
    (denotes : Denotes cs (.object ms)) (behind : ∃ c ∈ rest, isSpace c = false) :
    parse? (cs ++ rest) = none := by
  obtain ⟨tokens, lexed, derives⟩ := denotes
  have closed : ∀ token ∈ tokens.getLast?, token.isNumber = true → Stops rest := by
    rw [derives.getLast?_object]
    rintro _ ⟨⟩ ⟨⟩
  unfold parse?
  rw [scan_append lexed derives.apart closed]
  cases read : Scanner.read ⟨tokens.reverse, .between⟩ rest with
  | none => rfl
  | some all =>
    obtain ⟨more, tail, rfl⟩ := exists_lexed read
    rw [List.reverse_reverse, Option.bind_some]
    apply ofTokens?_append_eq_none derives
    rintro rfl
    obtain ⟨c, mem, visible⟩ := behind
    rw [isSpace_of_lexed_nil tail c mem] at visible
    cases visible

end Texts

end InternetPrinting.Json
