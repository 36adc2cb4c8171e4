import InternetPrinting.Proofs.Json.Scanning

/-!
# Texts that stand for a value

Tokens build a value if they complete it wherever one has to stand, whatever arrays
and objects are open around it. A text writes a value if it is read as tokens that
build it. What is written for an object, from texts that write its keys and values,
writes the object with these members in their order.
-/

namespace InternetPrinting.Json

/-- Tokens complete a value wherever one has to stand. -/
def Builds (tokens : List Token) (value : Json) : Prop :=
  ∀ frames, tokens.foldlM Builder.step ⟨frames, .value⟩ = some ⟨frames, .complete value⟩

/-- A key, a colon, and tokens that build a value. -/
def BuildsMember (part : List Token) (member : Option String × Json) : Prop :=
  ∃ tokens, part = .text member.1 :: .colon :: tokens ∧ Builds tokens member.2

section Tokens

theorem builds_null : Builds [.null] .null := fun _ => rfl

theorem builds_bool (b : Bool) : Builds [.bool b] (.bool b) := fun _ => rfl

theorem builds_number (natural : Option Nat) : Builds [.number natural] (.number natural) :=
  fun _ => rfl

theorem builds_text (content : Option String) : Builds [.text content] (.text content) :=
  fun _ => rfl

theorem Builds.ofTokens? {tokens : List Token} {value : Json} (builds : Builds tokens value) :
    ofTokens? tokens = some value := by
  have read := builds []
  unfold Json.ofTokens?
  rw [read]
  rfl

/-- A member is read where a key has to stand, up to the end of its value. -/
theorem BuildsMember.foldlM {part : List Token} {member : Option String × Json}
    (builds : BuildsMember part member) (frames : List Frame)
    (members : List (Option String × Json)) :
    part.foldlM Builder.step ⟨frames, .key members⟩ =
      some ⟨.object members member.1 :: frames, .complete member.2⟩ := by
  obtain ⟨tokens, rfl, built⟩ := builds
  exact built (.object members member.1 :: frames)

/-- Members up to the end of their object. -/
theorem foldlM_members {part : List Token} {member : Option String × Json}
    {parts : List (List Token)} {members : List (Option String × Json)}
    (first : BuildsMember part member) (all : List.Forall₂ BuildsMember parts members)
    (frames : List Frame) (before : List (Option String × Json)) :
    ([Token.comma].intercalate (part :: parts) ++ [Token.closeBrace]).foldlM Builder.step
        ⟨frames, .key before⟩ =
      some ⟨frames, .complete (.object (before.reverse ++ member :: members))⟩ := by
  induction all generalizing part member before with
  | nil =>
    rw [List.intercalate_singleton, foldlM_append_of_some (first.foldlM frames before)]
    simp [Builder.step, Builder.after?]
  | @cons next following parts members second all ih =>
    rw [List.intercalate_cons_cons, List.append_assoc, List.append_assoc,
      foldlM_append_of_some (first.foldlM frames before)]
    have comma : Builder.step ⟨.object before member.1 :: frames, .complete member.2⟩ .comma =
        some ⟨frames, .key (member :: before)⟩ := rfl
    rw [List.singleton_append, foldlM_cons_of_some comma, ih second]
    simp

theorem builds_object {parts : List (List Token)} {members : List (Option String × Json)}
    (all : List.Forall₂ BuildsMember parts members) :
    Builds (.openBrace :: ([Token.comma].intercalate parts ++ [.closeBrace]))
      (.object members) := by
  intro frames
  have opened : Builder.step ⟨frames, .value⟩ .openBrace = some ⟨frames, .keyOrEnd⟩ := rfl
  rw [foldlM_cons_of_some opened]
  cases all with
  | nil => rfl
  | @cons part member parts members first all =>
    have read := foldlM_members first all frames []
    obtain ⟨tokens, rfl, built⟩ := first
    -- The first key is read as any further one, whatever follows its value.
    cases all <;> exact read

end Tokens

section Texts

/-- A text is read as tokens that build a value. -/
def Writes (text : List Char) (value : Json) : Prop :=
  ∃ tokens, ScansInside text tokens ∧ Builds tokens value

/-- A text for a key, a colon, and a text for a value. -/
def WritesMember (text : List Char) (member : Option String × Json) : Prop :=
  ∃ key value, text = key ++ ':' :: value ∧ Scans key [.text member.1] ∧ Writes value member.2

theorem WritesMember.exists_part {text : List Char} {member : Option String × Json}
    (writes : WritesMember text member) :
    ∃ part, ScansInside text part ∧ BuildsMember part member := by
  obtain ⟨key, value, rfl, named, tokens, inside, builds⟩ := writes
  refine ⟨.text member.1 :: .colon :: tokens, ?_, tokens, rfl, builds⟩
  have colon : Scans [':'] [.colon] := scans_punctuation rfl rfl
  exact named.append_inside (colon.append_inside inside)

theorem exists_parts {texts : List (List Char)} {members : List (Option String × Json)}
    (all : List.Forall₂ WritesMember texts members) :
    ∃ parts, List.Forall₂ ScansInside texts parts ∧ List.Forall₂ BuildsMember parts members := by
  induction all with
  | nil => exact ⟨[], .nil, .nil⟩
  | cons writes all ih =>
    obtain ⟨part, inside, builds⟩ := writes.exists_part
    obtain ⟨parts, scanned, built⟩ := ih
    exact ⟨part :: parts, .cons inside scanned, .cons builds built⟩

/-- A text that is written for an object is read as the object. -/
theorem parse?_object {texts : List (List Char)} {members : List (Option String × Json)}
    (all : List.Forall₂ WritesMember texts members) :
    parse? ('{' :: ([','].intercalate texts ++ ['}'])) = some (.object members) := by
  obtain ⟨parts, scanned, built⟩ := exists_parts all
  have openBrace : Scans ['{'] [.openBrace] := scans_punctuation rfl rfl
  have closeBrace : Scans ['}'] [.closeBrace] := scans_punctuation rfl rfl
  have inside := ScansInside.intercalate (endsNumber_of_punctuation rfl) scans_comma scanned
  have scans := openBrace.append (inside _ _ _ (endsNumber_of_punctuation rfl) closeBrace)
  change (scan ('{' :: _)).bind ofTokens? = _
  rw [← List.singleton_append, scans.scan]
  exact (builds_object built).ofTokens?

end Texts

end InternetPrinting.Json
