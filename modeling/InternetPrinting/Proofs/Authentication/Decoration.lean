import InternetPrinting.Proofs.Authentication.FieldText

/-!
# Decorated header fields

What a session puts in the place of the caller's credentials and cookies, as
one equation for the whole list of header fields. The values of a name and the
fields left when a name is erased are read off that list.
-/

namespace InternetPrinting

open Http (Headers HeaderName Call)

namespace Http.Headers

variable {h : Headers} {name other : HeaderName} {text : String} {value : Bytes}

@[ext] theorem ext {g h : Headers} (same : g.fields = h.fields) : g = h := by
  cases g
  cases h
  cases same
  rfl

@[simp] theorem fields_erase :
    (h.erase name).fields = h.fields.filter fun field => field.1 ≠ name := rfl

theorem erase_of_notMem (absent : ∀ field ∈ h.fields, field.1 ≠ name) : h.erase name = h := by
  ext1
  rw [fields_erase, List.filter_eq_self]
  intro field member
  simpa using absent field member

/-- A text goes behind fields of other names, if it is allowed as a value. -/
theorem fields_insertText (absent : ∀ field ∈ h.fields, field.1 ≠ name) :
    (h.insertText name text).fields =
      h.fields ++ (fieldValue? text).toList.map fun value => (name, value) := by
  unfold insertText
  cases fieldValue? text with
  | none => simp
  | some value => simp [insert, append, erase_of_notMem absent]

end Http.Headers

namespace Session

variable {s : Session} {h : Headers}

/-- The authorization value that is sent. -/
def authorizationValue? (s : Session) : Option Bytes :=
  s.authorization.bind Http.fieldValue?

/-- The cookie value that is sent, which takes an authorization. -/
def cookieValue? (s : Session) : Option Bytes :=
  if s.hasCredentials then s.cookieField?.bind Http.fieldValue? else none

theorem cookieField?_of_cookie {cookie : String} (held : s.cookie = some cookie) :
    s.cookieField? = some ("org.cups.sid=" ++ cookie) := by
  rw [cookieField?, held]
  rfl

theorem authorizationValue?_of_bare (bare : s.hasCredentials = false) :
    s.authorizationValue? = none := by
  have absent : s.authorization = none := by simpa [hasCredentials] using bare
  simp [authorizationValue?, absent]

/-- The caller's fields but for credentials and cookies. -/
def callerFields (h : Headers) : List (HeaderName × Bytes) :=
  h.fields.filter fun field => field.1 ≠ .authorization ∧ field.1 ≠ .cookie

theorem mem_callerFields {field : HeaderName × Bytes} :
    field ∈ callerFields h ↔
      field ∈ h.fields ∧ field.1 ≠ .authorization ∧ field.1 ≠ .cookie := by
  simp [callerFields]

theorem fields_bare (h : Headers) :
    ((h.erase .authorization).erase .cookie).fields = callerFields h := by
  simp [callerFields, List.filter_filter, Bool.and_comm]

/-- Decorating keeps the caller's other fields in order and puts the
authorization and the cookie behind them. -/
theorem fields_decorate (s : Session) (h : Headers) :
    (s.decorate h).fields =
      callerFields h ++ s.authorizationValue?.toList.map (fun value => (.authorization, value)) ++
        s.cookieValue?.toList.map (fun value => (.cookie, value)) := by
  have bare := fields_bare h
  rw [decorate]
  generalize (h.erase .authorization).erase .cookie = plain at bare
  cases credentials : s.authorization with
  | none => simp [authorizationValue?, cookieValue?, hasCredentials, credentials, bare]
  | some authorization =>
      have inserted : (plain.insertText .authorization authorization).fields =
          callerFields h ++
            s.authorizationValue?.toList.map (fun value => (.authorization, value)) := by
        rw [Headers.fields_insertText, bare]
        · simp [authorizationValue?, credentials]
        · intro field member
          rw [bare] at member
          exact (mem_callerFields.mp member).2.1
      cases held : s.cookieField? with
      | none => simp [cookieValue?, held, inserted]
      | some cookie =>
          simp only
          rw [Headers.fields_insertText, inserted]
          · simp [cookieValue?, hasCredentials, credentials, held]
          · intro field member
            rw [inserted, List.mem_append] at member
            rcases member with caller | own
            · exact (mem_callerFields.mp caller).2.2
            · obtain ⟨value, -, rfl⟩ := List.mem_map.mp own
              simp only
              decide

theorem values_decorate (s : Session) (h : Headers) (name : HeaderName) :
    (s.decorate h).values name =
      if name = .authorization then s.authorizationValue?.toList
      else if name = .cookie then s.cookieValue?.toList
      else h.values name := by
  have caller : (callerFields h).filter (fun field => field.1 = name) =
      if name = .authorization ∨ name = .cookie then []
      else h.fields.filter fun field => field.1 = name := by
    rw [callerFields, List.filter_filter]
    split
    · next own =>
      apply List.filter_eq_nil_iff.mpr
      grind
    · next other =>
      apply List.filter_congr
      grind
  have apart : HeaderName.authorization ≠ HeaderName.cookie := by decide
  rw [Headers.values, fields_decorate, List.filter_append, List.filter_append, caller]
  by_cases credentials : name = .authorization
  · subst credentials
    cases s.authorizationValue? <;> cases s.cookieValue? <;> simp [apart.symm]
  by_cases cookie : name = .cookie
  · subst cookie
    cases s.authorizationValue? <;> cases s.cookieValue? <;> simp [apart, apart.symm]
  · cases s.authorizationValue? <;> cases s.cookieValue? <;>
      simp [credentials, cookie, Ne.symm credentials, Ne.symm cookie, Headers.values]

theorem values_authorization_decorate (s : Session) (h : Headers) :
    (s.decorate h).values .authorization = s.authorizationValue?.toList := by
  rw [values_decorate, if_pos rfl]

theorem values_cookie_decorate (s : Session) (h : Headers) :
    (s.decorate h).values .cookie = s.cookieValue?.toList := by
  rw [values_decorate, if_neg (by decide), if_pos rfl]

/-- Without its cookie, what is sent does not depend on the cookie of the session. -/
theorem erase_cookie_decorate (s : Session) (h : Headers) :
    ((s.decorate h).erase .cookie).fields =
      callerFields h ++
        s.authorizationValue?.toList.map (fun value => (.authorization, value)) := by
  have caller : (callerFields h).filter (fun field => field.1 ≠ .cookie) = callerFields h := by
    apply List.filter_eq_self.mpr
    intro field member
    simpa using (mem_callerFields.mp member).2.2
  rw [Headers.fields_erase, fields_decorate, List.filter_append, List.filter_append, caller]
  cases s.authorizationValue? <;> cases s.cookieValue? <;> simp [HeaderName.authorization,
    HeaderName.cookie]

end Session

end InternetPrinting
