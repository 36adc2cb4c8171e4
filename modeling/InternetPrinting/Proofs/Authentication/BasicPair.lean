import InternetPrinting.Proofs.Authentication.Exchange
import InternetPrinting.Proofs.Text.Base64
import InternetPrinting.Proofs.Text.Parting
import InternetPrinting.Text.Utf8.RoundTrip

/-!
# Pairs read back from their authorization

An authorization value is the scheme and the Base64 text of the user name, a colon and the
password. So it tells the pair, as long as the user name holds no colon: the first colon
is the one between them, since no byte inside another character is that of a colon. Whatever
the pair, the value consists of visible characters of ASCII and one space. It is allowed as a
field value, and no request and no login goes without it.
-/

namespace InternetPrinting

open Http (Headers)
open Text (utf8)

namespace Text

/-- A byte of ASCII stands for its character and is part of no other one. -/
theorem toNat_of_mem_utf8EncodeChar {c : Char} {b : UInt8} (member : b ∈ String.utf8EncodeChar c)
    (ascii : b.toNat < 128) : c.toNat = b.toNat := by
  have value : c.val.toNat = c.toNat := rfl
  unfold String.utf8EncodeChar at member
  simp only [value] at member
  generalize c.toNat = n at *
  by_cases one : n ≤ 127
  · rw [if_pos one, List.mem_singleton] at member
    rw [member, UInt8.toNat_ofNat']
    omega
  · -- All bytes of the longer forms have their highest bit set.
    have high (k : Nat) (low : 128 ≤ k) (fits : k < 256) : b ≠ UInt8.ofNat k := by
      rintro rfl
      rw [UInt8.toNat_ofNat'] at ascii
      omega
    exfalso
    rw [if_neg one] at member
    split_ifs at member with two three
    all_goals simp only [List.mem_cons, List.not_mem_nil, or_false] at member
    · rcases member with byte | byte <;> exact high _ (by omega) (by omega) byte
    · rcases member with byte | byte | byte <;> exact high _ (by omega) (by omega) byte
    · rcases member with byte | byte | byte | byte <;> exact high _ (by omega) (by omega) byte

/-- The byte of a colon. -/
def colon : UInt8 := 0x3A

theorem colon_notMem_utf8 {s : String} (plain : ':' ∉ s.toList) : colon ∉ utf8 s := by
  intro member
  obtain ⟨c, inText, inChar⟩ := List.mem_flatMap.mp member
  have code : c.toNat = ':'.toNat := toNat_of_mem_utf8EncodeChar inChar (by decide)
  obtain rfl : c = ':' := Char.toNat_inj.mp code
  exact plain inText

/-- The bytes before the first mark and those behind it, if there is one. -/
def partedAt? (mark : UInt8) (bytes : Bytes) : Option (Bytes × Bytes) :=
  if mark ∈ bytes then
    some (bytes.takeWhile (· ≠ mark), (bytes.dropWhile (· ≠ mark)).drop 1)
  else none

theorem partedAt?_append_cons {mark : UInt8} {front : Bytes} (absent : mark ∉ front)
    (back : Bytes) : partedAt? mark (front ++ mark :: back) = some (front, back) := by
  obtain ⟨taken, dropped⟩ := takeWhile_dropWhile_append_cons absent back
  rw [partedAt?, if_pos (by simp), taken, dropped]
  rfl

end Text

section Reading

variable {username password : String}

/-- What stands in front of the Base64 text. -/
def basicScheme : String := "Basic "

/-- The bytes of the user name and of the password in an authorization value. -/
def basicPair? (value : String) : Option (Bytes × Bytes) :=
  if basicScheme.toList <+: value.toList then
    (Text.Base64.decode? (value.toList.drop basicScheme.length)).bind (Text.partedAt? Text.colon)
  else none

/-- The bytes that are written in Base64. -/
def joinedPair (username password : String) : Bytes :=
  utf8 username ++ Text.colon :: utf8 password

theorem basicAuthorization_eq (username password : String) :
    basicAuthorization username password =
      basicScheme ++ String.ofList (Text.Base64.encode (joinedPair username password)) := by
  have between : utf8 ":" = [Text.colon] := by decide
  rw [basicAuthorization, Text.utf8_append, Text.utf8_append, between, List.append_assoc,
    List.singleton_append]
  rfl

theorem toList_basicAuthorization (username password : String) :
    (basicAuthorization username password).toList =
      basicScheme.toList ++ Text.Base64.encode (joinedPair username password) := by
  rw [basicAuthorization_eq, String.toList_append, String.toList_ofList]

/-- A pair is read back if its user name holds no colon. -/
theorem basicPair?_basicAuthorization (plain : ':' ∉ username.toList) (password : String) :
    basicPair? (basicAuthorization username password) = some (utf8 username, utf8 password) := by
  rw [basicPair?, toList_basicAuthorization, if_pos (List.prefix_append _ _)]
  rw [← String.length_toList, List.drop_left, Text.Base64.decode?_encode, Option.bind_some]
  exact Text.partedAt?_append_cons (Text.colon_notMem_utf8 plain) (utf8 password)

theorem basicAuthorization_inj {username' password' : String} (plain : ':' ∉ username.toList)
    (plain' : ':' ∉ username'.toList)
    (same : basicAuthorization username password = basicAuthorization username' password') :
    username = username' ∧ password = password' := by
  have read : some (utf8 username, utf8 password) = some (utf8 username', utf8 password') := by
    rw [← basicPair?_basicAuthorization plain, same, basicPair?_basicAuthorization plain']
  obtain ⟨named, secret⟩ := Prod.mk.inj (Option.some.inj read)
  exact ⟨Text.utf8_injective named, Text.utf8_injective secret⟩

end Reading

/-- Visible characters of ASCII and one space. -/
structure OneSpaced (value : String) : Prop where
  one : value.toList.count ' ' = 1
  visible : ∀ c ∈ value.toList, c = ' ' ∨ 0x21 ≤ c.toNat ∧ c.toNat ≤ 0x7E

theorem oneSpaced_basicAuthorization (username password : String) :
    OneSpaced (basicAuthorization username password) := by
  have scheme : basicScheme.toList.all
      (fun c => decide (c = ' ' ∨ 0x21 ≤ c.toNat ∧ c.toNat ≤ 0x7E)) = true := by decide
  constructor
  · have none : ' ' ∉ Text.Base64.encode (joinedPair username password) := by
      intro member
      exact absurd (Text.Base64.visible_of_mem_encode member).1 (by decide)
    rw [toList_basicAuthorization, List.count_append, List.count_eq_zero_of_not_mem none]
    rfl
  · intro c member
    rw [toList_basicAuthorization, List.mem_append] at member
    rcases member with own | token
    · exact of_decide_eq_true (List.all_eq_true.mp scheme c own)
    · exact .inr (Text.Base64.visible_of_mem_encode token)

namespace Session

/-- A value stands on all that the session sends, on requests and on the login. -/
structure Sends (s : Session) (value : String) : Prop where
  requests : ∀ h : Headers, (s.decorate h).values .authorization = [utf8 value]
  login : ∀ username password, s.username = some username → s.password = some password →
    ∃ call, s.loginCall? = some call ∧ call.headers.values .authorization = [utf8 value]

/-- The authorization of a session is never left out, whatever pair it was made of. -/
theorem sends_of_basic {s : Session} {username password : String}
    (held : s.authorization = some (basicAuthorization username password)) :
    s.Sends (basicAuthorization username password) where
  requests h := by
    rw [values_authorization_decorate, authorizationValue?_of_basic held]
    rfl
  login name secret named known := by
    simp only [loginCall?, named, known, held]
    refine ⟨_, rfl, ?_⟩
    rw [Headers.insertText, fieldValue?_basicAuthorization]
    exact (Headers.values_insert ..).trans (if_pos rfl)

end Session

/-- An authorization value tells its pair, if the user name holds no colon, so that no two
such pairs have the same one. It is the scheme and what spells the pair in Base64, and
whatever the pair holds, it is visible but for one space and goes out with every request and
with the login of a session that holds it. -/
theorem basicAuthorization_exact (username password : String) :
    (∃ digits padding,
      Text.Base64.Spells (utf8 username ++ 0x3A :: utf8 password) digits padding ∧
        basicAuthorization username password =
          "Basic " ++ String.ofList (Text.Base64.spelling digits padding)) ∧
    (':' ∉ username.toList →
      basicPair? (basicAuthorization username password) = some (utf8 username, utf8 password) ∧
      ∀ username' password', ':' ∉ username'.toList →
        basicAuthorization username' password' = basicAuthorization username password →
        username' = username ∧ password' = password) ∧
    OneSpaced (basicAuthorization username password) ∧
    (∀ s : Session, s.authorization = some (basicAuthorization username password) →
      s.Sends (basicAuthorization username password)) ∧
    ∀ s : Session, username ≠ "" → password ≠ "" →
      (s.applyCredentials username password).Sends (basicAuthorization username password) := by
  refine ⟨?_, ?_, oneSpaced_basicAuthorization username password,
    fun s held => Session.sends_of_basic held, ?_⟩
  · obtain ⟨digits, padding, spells, written⟩ :=
      Text.Base64.exists_spells_encode (joinedPair username password)
    refine ⟨digits, padding, spells, ?_⟩
    rw [basicAuthorization_eq, written]
    rfl
  · intro plain
    refine ⟨basicPair?_basicAuthorization plain password, ?_⟩
    intro username' password' plain' same
    exact basicAuthorization_inj plain' plain same
  · intro s named secret
    apply Session.sends_of_basic
    rw [Session.authorization_applyCredentials, if_neg (by simp [named, secret])]

/-- A colon in the user name cannot be told from the one behind it. -/
example : basicAuthorization "a:b" "c" = basicAuthorization "a" "b:c" := by
  decide

end InternetPrinting
