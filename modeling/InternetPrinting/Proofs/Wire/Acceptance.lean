import InternetPrinting.Client
import InternetPrinting.Proofs.Store.Placement
import InternetPrinting.Proofs.Wire.Grammar

/-!
# The messages that are responses

A response is spelled by a header of eight bytes, entries, and an ending. The
entries place their values in groups, and the bytes behind an end tag are the
payload. Parsing accepts exactly the messages of this form and gives the one
response that the message spells; any other message is malformed.
-/

namespace InternetPrinting

namespace Message

/-- How a message ends behind its entries, and the payload that is left. -/
inductive Ending : Bytes → Option Bytes → Prop
  | message : Ending [] none
  | tag : Ending [0x03] none
  | payload {bytes : Bytes} (nonempty : bytes ≠ []) : Ending (0x03 :: bytes) (some bytes)

/-- The endings are those where the reading loop stops. -/
theorem ending_iff {ending : Bytes} {payload : Option Bytes} :
    Ending ending payload ↔
      ∃ left, payload = Response.payloadOf left ∧
        (ending = [] ∧ left = [] ∨ ending = 0x03 :: left) := by
  constructor
  · intro h
    cases h with
    | message => exact ⟨[], rfl, .inl ⟨rfl, rfl⟩⟩
    | tag => exact ⟨[], rfl, .inr rfl⟩
    | @payload bytes nonempty =>
        refine ⟨bytes, ?_, .inr rfl⟩
        simp [Response.payloadOf, nonempty]
  · rintro ⟨left, rfl, ⟨rfl, rfl⟩ | rfl⟩
    · exact .message
    · cases left with
      | nil => exact .tag
      | cons b rest => exact .payload (List.cons_ne_nil b rest)

/-- Any eight bytes are a header. -/
theorem exists_header_eq_iff {head : Bytes} :
    (∃ major minor status requestId, header major minor status requestId = head) ↔
      head.length = 8 := by
  constructor
  · rintro ⟨major, minor, status, requestId, rfl⟩
    exact length_header _ _ _ _
  · intro long
    match head, long with
    | [major, minor, s₁, s₀, i₃, i₂, i₁, i₀], _ =>
      have status := Bytes.bigEndian_ofBigEndian [s₁, s₀]
      have requestId := Bytes.bigEndian_ofBigEndian [i₃, i₂, i₁, i₀]
      have statusLt : Bytes.ofBigEndian [s₁, s₀] < 256 ^ 2 := Bytes.ofBigEndian_lt _
      have requestIdLt : Bytes.ofBigEndian [i₃, i₂, i₁, i₀] < 256 ^ 4 := Bytes.ofBigEndian_lt _
      simp only [List.length_cons, List.length_nil, Nat.zero_add, Nat.reduceAdd] at status requestId
      refine ⟨major, minor, UInt16.ofNat (Bytes.ofBigEndian [s₁, s₀]),
        UInt32.ofNat (Bytes.ofBigEndian [i₃, i₂, i₁, i₀]), ?_⟩
      rw [header, UInt16.toNat_ofNat', UInt32.toNat_ofNat', Nat.mod_eq_of_lt (by omega),
        Nat.mod_eq_of_lt (by omega), status, requestId]
      rfl

end Message

namespace Response

open Message (header Ending)

/-- The bytes that spell a response. -/
inductive Spells : Bytes → Response → Prop
  | intro (major minor : UInt8) (status : UInt16) (requestId : UInt32)
      {attributes ending : Bytes} {entries : List Entry} {payload : Option Bytes}
      (spelled : Entry.SpellsAll attributes entries) (ends : Ending ending payload) :
      Spells (header major minor status requestId ++ attributes ++ ending)
        { major, minor, status, requestId
          groups := .arranged (Entry.placements none entries)
          payload }

/-- A message of the right form: eight bytes, entries, and an ending. -/
def Grammatical (data : Bytes) : Prop :=
  ∃ head attributes ending entries payload, head.length = 8 ∧
    Entry.SpellsAll attributes entries ∧ Ending ending payload ∧
    data = head ++ attributes ++ ending

theorem grammatical_iff_exists_spells {data : Bytes} :
    Grammatical data ↔ ∃ r, Spells data r := by
  constructor
  · rintro ⟨head, attributes, ending, entries, payload, eight, spelled, ends, rfl⟩
    obtain ⟨major, minor, status, requestId, rfl⟩ := Message.exists_header_eq_iff.mpr eight
    exact ⟨_, .intro major minor status requestId spelled ends⟩
  · rintro ⟨r, ⟨major, minor, status, requestId, spelled, ends⟩⟩
    exact ⟨_, _, _, _, _, Message.length_header _ _ _ _, spelled, ends, rfl⟩

/-- The fields of the header are read back, and the loop reads what follows. -/
theorem parse_header_append (major minor : UInt8) (status : UInt16) (requestId : UInt32)
    (rest : Bytes) :
    parse (header major minor status requestId ++ rest) =
      (Assembly.readAll {} ⟨rest, 8⟩).map fun result =>
        { major, minor, status, requestId
          groups := result.1.groups
          payload := payloadOf result.2 } := by
  have statusBack : UInt16.ofNat (Bytes.ofBigEndian (Bytes.bigEndian 2 status.toNat)) = status := by
    rw [Bytes.ofBigEndian_bigEndian status.toNat_lt, UInt16.ofNat_toNat]
  have idBack : UInt32.ofNat (Bytes.ofBigEndian (Bytes.bigEndian 4 requestId.toNat)) =
      requestId := by
    rw [Bytes.ofBigEndian_bigEndian requestId.toNat_lt, UInt32.ofNat_toNat]
  change (Assembly.readAll {} ⟨rest, 8⟩).map (fun result =>
    ({ major, minor
       status := UInt16.ofNat (Bytes.ofBigEndian (Bytes.bigEndian 2 status.toNat))
       requestId := UInt32.ofNat (Bytes.ofBigEndian (Bytes.bigEndian 4 requestId.toNat))
       groups := result.1.groups
       payload := payloadOf result.2 } : Response)) = _
  rw [statusBack, idBack]

/-- A message is parsed to the response that it spells. -/
theorem parse_eq_ok_iff {data : Bytes} {r : Response} : parse data = .ok r ↔ Spells data r := by
  constructor
  · intro h
    have eight : ∃ head rest, head.length = 8 ∧ data = head ++ rest := by
      refine ⟨data.take 8, data.drop 8, ?_, (List.take_append_drop 8 data).symm⟩
      unfold parse at h
      split at h
      · simp
      · cases h
    obtain ⟨head, rest, eight, rfl⟩ := eight
    obtain ⟨major, minor, status, requestId, rfl⟩ := Message.exists_header_eq_iff.mpr eight
    rw [parse_header_append, map_eq_ok_iff] at h
    obtain ⟨⟨assembly, left⟩, read, rfl⟩ := h
    obtain ⟨attributes, entries, ending, spelled, ends, back, rfl⟩ :=
      Assembly.readAll_eq_ok_iff.mp read
    simp only at back
    subst back
    rw [← List.append_assoc, Assembly.groups_foldl_add_empty]
    exact .intro major minor status requestId spelled (Message.ending_iff.mpr ⟨left, rfl, ends⟩)
  · intro h
    cases h with
    | @intro major minor status requestId attributes ending entries payload spelled ends =>
        obtain ⟨left, rfl, stops⟩ := Message.ending_iff.mp ends
        have read : Assembly.readAll {} ⟨attributes ++ ending, 8⟩ =
            .ok (entries.foldl Assembly.add {}, left) :=
          Assembly.readAll_eq_ok_iff.mpr ⟨_, _, _, spelled, stops, rfl, rfl⟩
        rw [List.append_assoc, parse_header_append, read]
        simp only [Except.map, Assembly.groups_foldl_add_empty]

theorem ofMessage_of_parse {data : Bytes} {cause : Malformed} (h : parse data = .error cause) :
    cause.OfMessage := by
  unfold parse at h
  split at h
  · exact Assembly.ofMessage_of_readAll (map_eq_error_iff.mp h)
  · cases h
    trivial

/-- Parsing accepts exactly the messages of the right form, gives the response
that the message spells and no other, and refuses every other message as a
malformed response. -/
theorem parse_exact (data : Bytes) :
    ((∃ r, parse data = .ok r) ↔ Grammatical data) ∧
      (∀ r, parse data = .ok r ↔ Spells data r) ∧
      (Grammatical data ∨ ∃ cause : Malformed, cause.OfMessage ∧
        Client.responseIn (.ok data) = .error (.malformedResponse cause)) := by
  have accepted : (∃ r, parse data = .ok r) ↔ Grammatical data := by
    rw [grammatical_iff_exists_spells]
    apply exists_congr
    intro r
    exact parse_eq_ok_iff
  refine ⟨accepted, ?_, ?_⟩
  · intro r
    exact parse_eq_ok_iff
  · cases result : parse data with
    | ok r =>
        left
        exact accepted.mp ⟨r, result⟩
    | error cause =>
        right
        refine ⟨cause, ofMessage_of_parse result, ?_⟩
        simp only [Client.responseIn, result, Except.mapError]

end Response

end InternetPrinting
