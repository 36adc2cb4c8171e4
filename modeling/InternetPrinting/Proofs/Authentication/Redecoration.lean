import InternetPrinting.Proofs.Authentication.Exchange
import Mathlib.Data.List.Induction

/-!
# Decorating over what is there

A session is changed by its operations and, but for its authorization, by anyone who
assigns to its fields. However it came about, its authorization takes the place of all
that were there, and its cookie goes with it if the cookie is allowed as a value. What
another session put there before is gone, so the last session to decorate decides, and
nothing that a session puts there ends a line.
-/

namespace InternetPrinting

open Http (Headers HeaderName)

namespace Http

/-- A text whose bytes may all stand in a field value: tabs, and what is neither a control
character nor the delete character. -/
def Allowed (text : String) : Prop :=
  ∀ b ∈ Text.utf8 text, b = 0x09 ∨ 0x20 ≤ b ∧ b ≠ 0x7F

/-- A value with a carriage return or a line feed. -/
def BreaksLine (value : Bytes) : Prop :=
  0x0D ∈ value ∨ 0x0A ∈ value

variable {text : String} {value : Bytes}

theorem allowed_iff : Allowed text ↔ (Text.utf8 text).all isValueByte = true := by
  simp [Allowed, isValueByte]

theorem fieldValue?_of_allowed (allowed : Allowed text) :
    fieldValue? text = some (Text.utf8 text) :=
  if_pos (allowed_iff.mp allowed)

theorem fieldValue?_of_not_allowed (forbidden : ¬ Allowed text) : fieldValue? text = none :=
  if_neg (mt allowed_iff.mpr forbidden)

/-- No text with a line break is allowed as a value. -/
theorem not_breaksLine_of_fieldValue? (made : fieldValue? text = some value) :
    ¬ BreaksLine value := by
  have legal : ∀ b ∈ value, isValueByte b = true := by
    unfold fieldValue? at made
    split at made
    · next all =>
      cases made
      exact List.all_eq_true.mp all
    · cases made
  rintro (carriage | feed)
  · exact absurd (legal _ carriage) (by decide)
  · exact absurd (legal _ feed) (by decide)

end Http

namespace Session

section Fields

variable (s t : Session) (h : Headers)

/-- The caller's other fields are what they were before a session decorated. -/
theorem callerFields_decorate : callerFields (s.decorate h) = callerFields h := by
  have own (name : HeaderName) (mine : name = .authorization ∨ name = .cookie)
      (value? : Option Bytes) :
      (value?.toList.map fun value => (name, value)).filter
        (fun field => field.1 ≠ .authorization ∧ field.1 ≠ .cookie) = [] := by
    rw [List.filter_eq_nil_iff]
    intro field member
    obtain ⟨value, -, rfl⟩ := List.mem_map.mp member
    rcases mine with rfl | rfl <;> simp
  rw [callerFields, fields_decorate, List.filter_append, List.filter_append,
    own _ (.inl rfl), own _ (.inr rfl), List.append_nil, List.append_nil, callerFields,
    List.filter_filter]
  simp only [Bool.and_self]

/-- The last session to decorate decides. -/
theorem decorate_decorate : s.decorate (t.decorate h) = s.decorate h := by
  ext1
  rw [fields_decorate, fields_decorate, callerFields_decorate]

/-- A field under another name than those of credentials and cookies is the caller's. -/
theorem mem_fields_of_other {field : HeaderName × Bytes}
    (member : field ∈ (s.decorate h).fields) (credentials : field.1 ≠ .authorization)
    (cookie : field.1 ≠ .cookie) : field ∈ h.fields := by
  have caller : field ∈ callerFields h := by
    rw [← callerFields_decorate s h]
    exact mem_callerFields.mpr ⟨member, credentials, cookie⟩
  exact (mem_callerFields.mp caller).1

/-- What stands under the two names of the session was made from a text of its own. -/
theorem exists_fieldValue?_of_own {value : Bytes}
    (member : value ∈ (s.decorate h).values .authorization ∨
      value ∈ (s.decorate h).values .cookie) :
    ∃ text, Http.fieldValue? text = some value := by
  rw [values_authorization_decorate, values_cookie_decorate, Option.mem_toList,
    Option.mem_toList] at member
  rcases member with authorization | cookie
  · obtain ⟨text, -, made⟩ := Option.bind_eq_some_iff.mp authorization
    exact ⟨text, made⟩
  · unfold cookieValue? at cookie
    split at cookie
    · obtain ⟨text, -, made⟩ := Option.bind_eq_some_iff.mp cookie
      exact ⟨text, made⟩
    · cases cookie

end Fields

/-- What changes a session: its operations, and assignments to the fields that are open to
everyone. -/
inductive Change
  | applyCredentials (username password : String)
  | clearCredentials
  | username (username : Option String)
  | password (password : Option String)
  | cookie (cookie : Option String)
deriving DecidableEq, Repr

def change (s : Session) : Change → Session
  | .applyCredentials username password => s.applyCredentials username password
  | .clearCredentials => cleared
  | .username username => { s with username }
  | .password password => { s with password }
  | .cookie cookie => { s with cookie }

/-- The session that some changes make of the one that knows nothing. -/
def ofChanges (changes : List Change) : Session :=
  changes.foldl change cleared

/-- The authorization, if there is one, was made of some usable pair. The pair need not be
the one that is held. -/
def MadeOfPair (s : Session) : Prop :=
  ∀ value, s.authorization = some value →
    ∃ username password, username ≠ "" ∧ password ≠ "" ∧
      value = basicAuthorization username password

theorem MadeOfPair.change {s : Session} (made : s.MadeOfPair) (c : Change) :
    (s.change c).MadeOfPair := by
  cases c with
  | applyCredentials username password =>
      intro value held
      have applied : (s.applyCredentials username password).authorization = some value := held
      rw [authorization_applyCredentials] at applied
      split at applied
      · cases applied
      · next usable =>
        cases applied
        obtain ⟨named, secret⟩ := not_or.mp usable
        exact ⟨username, password, named, secret, rfl⟩
  | clearCredentials =>
      intro value held
      cases held
  | username | password | cookie => exact made

theorem madeOfPair_ofChanges (changes : List Change) : (ofChanges changes).MadeOfPair := by
  induction changes using List.reverseRecOn with
  | nil =>
      intro value held
      cases held
  | append_singleton changes c ih =>
      rw [ofChanges, List.foldl_append]
      exact ih.change c

/-- How the fields `g` come out that a session makes of the fields `h`. -/
structure Decorates (s : Session) (h g : Headers) : Prop where
  bare : s.authorization = none → g.values .authorization = [] ∧ g.values .cookie = []
  authorized : ∀ value, s.authorization = some value →
    g.values .authorization = [Text.utf8 value]
  withoutCookie : s.cookie = none → g.values .cookie = []
  withCookie : s.authorization ≠ none → ∀ cookie, s.cookie = some cookie →
    Http.Allowed ("org.cups.sid=" ++ cookie) →
      g.values .cookie = [Text.utf8 ("org.cups.sid=" ++ cookie)]
  forbidden : ∀ cookie, s.cookie = some cookie →
    ¬ Http.Allowed ("org.cups.sid=" ++ cookie) → g.values .cookie = []
  others : ∀ name, name ≠ .authorization → name ≠ .cookie → g.values name = h.values name
  callers : ∀ field ∈ g.fields, field.1 ≠ .authorization → field.1 ≠ .cookie → field ∈ h.fields
  unbroken : ∀ value, value ∈ g.values .authorization ∨ value ∈ g.values .cookie →
    ¬ Http.BreaksLine value

theorem MadeOfPair.decorates {s : Session} (made : s.MadeOfPair) (h : Headers) :
    s.Decorates h (s.decorate h) where
  bare none := by
    have bare : s.hasCredentials = false := by simp [hasCredentials, none]
    rw [values_authorization_decorate, values_cookie_decorate, authorizationValue?_of_bare bare,
      cookieValue?, bare]
    exact ⟨rfl, rfl⟩
  authorized value held := by
    obtain ⟨username, password, -, -, rfl⟩ := made value held
    rw [values_authorization_decorate, authorizationValue?_of_basic held]
    rfl
  withoutCookie none := by
    rw [values_cookie_decorate]
    simp [cookieValue?, cookieField?, none]
  withCookie credentials cookie held allowed := by
    have keyed : s.hasCredentials = true := Option.isSome_iff_ne_none.mpr credentials
    rw [values_cookie_decorate, cookieValue?, if_pos keyed, cookieField?_of_cookie held,
      Option.bind_some, Http.fieldValue?_of_allowed allowed]
    rfl
  forbidden cookie held forbidden := by
    rw [values_cookie_decorate]
    simp [cookieValue?, cookieField?_of_cookie held, Http.fieldValue?_of_not_allowed forbidden]
  others name credentials cookie := by
    rw [values_decorate, if_neg credentials, if_neg cookie]
  callers field member := s.mem_fields_of_other h member
  unbroken value member := by
    obtain ⟨text, formed⟩ := s.exists_fieldValue?_of_own h member
    exact Http.not_breaksLine_of_fieldValue? formed

/-- Decorating puts exactly what a session has to send in the place of what was there,
whatever was done to the session and whichever session decorated before, itself included. -/
theorem decorate_exact (changes : List Change) (h : Headers) :
    (ofChanges changes).Decorates h ((ofChanges changes).decorate h) ∧
      ∀ before : Session,
        (ofChanges changes).decorate (before.decorate h) = (ofChanges changes).decorate h := by
  constructor
  · exact (madeOfPair_ofChanges changes).decorates h
  · intro before
    exact decorate_decorate _ before h

/-- A pair that is taken away again leaves its authorization behind, and a cookie that ends
a line is not sent. -/
example :
    let s := ofChanges [.applyCredentials "lp" "pw", .username none, .cookie (some "a\nb")]
    (s.decorate ⟨[(.cookie, [0x61]), (.accept, [0x2A]), (.authorization, [0x62])]⟩).fields =
      [(.accept, [0x2A]), (.authorization, Text.utf8 "Basic bHA6cHc=")] := by
  decide

end Session

end InternetPrinting
