import InternetPrinting.Proofs.Wire.Acceptance
import InternetPrinting.Proofs.Wire.PrefixFree

/-!
# Messages that are cut or continued

A message is composed of a header, of entries, of an end tag and of a payload.
If it is cut inside the header or inside an entry, it is refused. If it is cut
between two entries, it is read as if it ended there. Behind the end tag nothing
but the payload depends on where the message ends, whatever bytes follow.
-/

namespace InternetPrinting

open Message (header)

namespace Response

/-- The message is refused as a malformed response. -/
def Refused (data : Bytes) : Prop :=
  ∃ cause : Malformed, cause.OfMessage ∧
    Client.responseIn (.ok data) = .error (.malformedResponse cause)

theorem refused_of_parse {data : Bytes} {cause : Malformed} (h : parse data = .error cause) :
    Refused data := by
  refine ⟨cause, ofMessage_of_parse h, ?_⟩
  simp only [Client.responseIn, h, Except.mapError]

theorem refused_of_short {data : Bytes} (short : data.length < 8) : Refused data := by
  cases result : parse data with
  | error cause => exact refused_of_parse result
  | ok r =>
      obtain ⟨head, attributes, ending, entries, payload, eight, -, -, rfl⟩ :=
        grammatical_iff_exists_spells.mpr ⟨r, parse_eq_ok_iff.mp result⟩
      rw [List.length_append, List.length_append] at short
      omega

/-- The parts of a message with an end tag. Each entry has the piece that spells it. -/
structure Composition where
  head : Bytes
  pieces : List (Bytes × Entry)
  payload : Bytes
  eight : head.length = 8
  spelled : ∀ piece ∈ pieces, Entry.Spells piece.1 piece.2

namespace Composition

/-- The bytes of the header and the first entries. -/
def upTo (m : Composition) (i : Nat) : Bytes :=
  m.head ++ (m.pieces.take i).flatMap (·.1)

/-- The bytes before the end tag. -/
def front (m : Composition) : Bytes :=
  m.upTo m.pieces.length

/-- The whole message. -/
def bytes (m : Composition) : Bytes :=
  m.front ++ 0x03 :: m.payload

variable (m : Composition) (i : Nat)

theorem upTo_succ : m.upTo (i + 1) = m.upTo i ++ (m.pieces[i]?.toList).flatMap (·.1) := by
  rw [upTo, upTo, List.take_add_one, List.flatMap_append, List.append_assoc]

theorem upTo_prefix_bytes : m.upTo i <+: m.bytes := by
  have whole : m.front = m.upTo i ++ (m.pieces.drop i).flatMap (·.1) := by
    rw [front, upTo, upTo, List.take_length, List.append_assoc, ← List.flatMap_append,
      List.take_append_drop]
  rw [bytes, whole, List.append_assoc]
  exact List.prefix_append _ _

/-- The entries read so far and the header settle all but what comes behind them. -/
theorem exists_parse_upTo_append :
    ∃ (a : Assembly) (part : Response), ∀ rest,
      parse (m.upTo i ++ rest) = (a.readAll ⟨rest, (m.upTo i).length⟩).map fun read =>
        { part with groups := read.1.groups, payload := payloadOf read.2 } := by
  obtain ⟨major, minor, status, requestId, same⟩ := Message.exists_header_eq_iff.mpr m.eight
  have spelled := Entry.SpellsAll.of_pieces fun piece member =>
    m.spelled piece (List.mem_of_mem_take (i := i) member)
  let entries := (m.pieces.take i).map (·.2)
  refine ⟨entries.foldl Assembly.add {}, ⟨major, minor, status, requestId, .empty, none⟩, ?_⟩
  intro rest
  rw [upTo, ← same, List.append_assoc, parse_header_append, Assembly.readAll_append spelled,
    List.length_append, Message.length_header]

/-- Between two entries a message may end, with or without an end tag, and behind
an end tag everything is payload. -/
theorem exists_parse_upTo :
    ∃ part : Response, part.payload = none ∧ parse (m.upTo i) = .ok part ∧
      ∀ payload, parse (m.upTo i ++ 0x03 :: payload) =
        .ok { part with payload := payloadOf payload } := by
  obtain ⟨a, part, parsed⟩ := m.exists_parse_upTo_append i
  refine ⟨{ part with groups := a.groups, payload := none }, rfl, ?_, fun payload => ?_⟩
  · rw [← List.append_nil (m.upTo i), parsed, Assembly.readAll_nil]
    rfl
  · rw [parsed, Assembly.readAll_endTag]
    rfl

/-- A message that is cut inside an entry is refused. -/
theorem refused_upTo_append {piece : Bytes × Entry} {cut : Bytes}
    (here : m.pieces[i]? = some piece) (part : cut <+: piece.1) (nonempty : cut ≠ [])
    (short : cut.length < piece.1.length) : Refused (m.upTo i ++ cut) := by
  obtain ⟨a, header, parsed⟩ := m.exists_parse_upTo_append i
  obtain ⟨cause, failed⟩ := Assembly.exists_readAll_eq_error
    (m.spelled piece (List.mem_of_getElem? here)) part nonempty short a (m.upTo i).length
  have refused : parse (m.upTo i ++ cut) = .error cause := by
    rw [parsed, failed]
    rfl
  exact refused_of_parse refused

variable {p : Bytes}

/-- A part of the front of a message that is longer than some first entries is
these entries and more. -/
theorem exists_eq_upTo_append (cut : p <+: m.bytes) (long : (m.upTo i).length ≤ p.length) :
    ∃ rest, p = m.upTo i ++ rest := by
  obtain ⟨rest, same⟩ := List.prefix_of_prefix_length_le (m.upTo_prefix_bytes i) cut long
  exact ⟨rest, same.symm⟩

theorem eq_upTo (cut : p <+: m.bytes) (long : p.length = (m.upTo i).length) : p = m.upTo i := by
  obtain ⟨rest, rfl⟩ := m.exists_eq_upTo_append i cut (Nat.le_of_eq long.symm)
  have none : rest = [] := by simpa using long
  rw [none, List.append_nil]

theorem refused_of_inside (cut : p <+: m.bytes) (long : (m.upTo i).length < p.length)
    (short : p.length < (m.upTo (i + 1)).length) : Refused p := by
  obtain ⟨rest, rfl⟩ := m.exists_eq_upTo_append i cut (Nat.le_of_lt long)
  have nonempty : rest ≠ [] := by
    rintro rfl
    simp at long
  have within := List.prefix_of_prefix_length_le cut (m.upTo_prefix_bytes (i + 1))
    (Nat.le_of_lt short)
  rw [upTo_succ] at within short
  cases here : m.pieces[i]? with
  | none =>
      simp only [here, Option.toList_none, List.flatMap_nil, List.append_nil] at short
      exact absurd long (Nat.lt_asymm short)
  | some piece =>
      simp only [here, Option.toList_some, List.flatMap_singleton] at within short
      apply m.refused_upTo_append i here _ nonempty
      · simpa using short
      · exact (List.prefix_append_right_inj _).mp within

theorem exists_eq_front_append (cut : p <+: m.bytes) (long : m.front.length < p.length) :
    ∃ payload, p = m.front ++ 0x03 :: payload := by
  have tagged : m.front ++ [0x03] <+: m.bytes := by
    rw [bytes, List.append_cons m.front 0x03 m.payload]
    exact List.prefix_append _ _
  have within : m.front ++ [0x03] <+: p := by
    apply List.prefix_of_prefix_length_le tagged cut
    rwa [List.length_append, List.length_singleton]
  obtain ⟨payload, same⟩ := within
  exact ⟨payload, by rw [← same, ← List.append_cons]⟩

end Composition

/-- Where a message is cut decides what is read. Inside the header and inside an
entry it is refused. Behind some first entries it has no payload and is read as if
an end tag followed. Behind its end tag it differs from the whole message in the
payload alone, which is what is left of the bytes behind the tag, and so does a
message that goes on. -/
theorem parse_prefix_exact (m : Composition) :
    ∃ response, parse m.bytes = .ok response ∧ response.payload = payloadOf m.payload ∧
      (∀ p, p <+: m.bytes →
        (p.length < 8 → Refused p) ∧
        (∀ i, (m.upTo i).length < p.length → p.length < (m.upTo (i + 1)).length → Refused p) ∧
        (∀ i, p.length = (m.upTo i).length →
          ∃ part, parse p = .ok part ∧ part.payload = none ∧ parse (p ++ [0x03]) = .ok part) ∧
        (m.front.length < p.length →
          parse p = .ok { response with payload := payloadOf (p.drop (m.front.length + 1)) })) ∧
      (∀ more, parse (m.bytes ++ more) =
        .ok { response with payload := payloadOf (m.payload ++ more) }) := by
  obtain ⟨whole, -, -, behind⟩ := m.exists_parse_upTo m.pieces.length
  refine ⟨{ whole with payload := payloadOf m.payload }, behind m.payload, rfl, ?_, ?_⟩
  · intro p cut
    refine ⟨refused_of_short, fun i => m.refused_of_inside i cut, ?_, ?_⟩
    · intro i ends
      obtain ⟨part, bare, parsed, tagged⟩ := m.exists_parse_upTo i
      rw [m.eq_upTo i cut ends]
      refine ⟨part, parsed, bare, ?_⟩
      have same : { part with payload := none } = part := by rw [← bare]
      calc
        parse (m.upTo i ++ [0x03]) = .ok { part with payload := none } := tagged []
        _ = .ok part := by rw [same]
    · intro long
      obtain ⟨payload, rfl⟩ := m.exists_eq_front_append cut long
      have left : (m.front ++ 0x03 :: payload).drop (m.front.length + 1) = payload := by
        rw [List.append_cons]
        exact List.drop_left' (by simp)
      rw [left]
      exact behind payload
  · intro more
    rw [Composition.bytes, List.append_assoc, List.cons_append]
    exact behind (m.payload ++ more)

/-- An attribute whose value is the byte of an end tag. -/
def endTagValue : Entry :=
  .attribute "a" (.octetString [0x03])

def endTagInside : Composition where
  head := header 1 1 0 7
  pieces := [(endTagValue.bytes, endTagValue)]
  payload := [0x04]
  eight := Message.length_header 1 1 0 7
  spelled := by
    intro piece member
    have writable : endTagValue.Writable := ⟨by decide, by decide⟩
    rw [List.mem_singleton.mp member]
    exact Entry.spells_bytes writable

/-- Up to its value the message is refused, although an end tag seems to follow,
up to the attribute it is read without it, and up to the real end tag it lacks the
payload alone. -/
theorem parse_prefix_exact_endTagInside :
    ∃ response, parse endTagInside.bytes = .ok response ∧
      Refused (endTagInside.bytes.take 14) ∧
      (∃ part, parse (endTagInside.bytes.take 8) = .ok part ∧ part.payload = none) ∧
      parse (endTagInside.bytes.take 16) = .ok { response with payload := none } := by
  obtain ⟨response, parsed, -, cut, -⟩ := parse_prefix_exact endTagInside
  obtain ⟨-, inside, -, -⟩ := cut _ (List.take_prefix 14 _)
  obtain ⟨-, -, between, -⟩ := cut _ (List.take_prefix 8 _)
  obtain ⟨-, -, -, behind⟩ := cut _ (List.take_prefix 16 _)
  refine ⟨response, parsed, inside 0 (by decide) (by decide), ?_, behind (by decide)⟩
  obtain ⟨part, read, bare, -⟩ := between 0 (by decide)
  exact ⟨part, read, bare⟩

end Response

end InternetPrinting
