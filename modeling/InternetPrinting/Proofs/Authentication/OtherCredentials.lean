import InternetPrinting.Proofs.Authentication.Exchange
import InternetPrinting.Proofs.Http.Lockstep

/-!
# Other credentials

Two authentications that hold usable pairs of their own and the same cookie, or
that both know nothing, do the same with the same calls. What they send differs
in the authorization values and in the forms of the logins alone.
-/

namespace InternetPrinting

open Http (Call Dialogue HeaderName Headers Outcome)

/-- A pair with no empty half. -/
structure Credentials where
  username : String
  password : String
  username_ne : username ≠ ""
  password_ne : password ≠ ""

namespace Http.Call

/-- A header field without the value of an authorization. -/
def blankedField (field : HeaderName × Bytes) : HeaderName × Bytes :=
  if field.1 = .authorization then (field.1, []) else field

/-- A call without its authorization values, and without its form if it is a
login. -/
def blanked (c : Call) : Call :=
  { c with
    headers := ⟨c.headers.fields.map blankedField⟩
    body := if c.method = .post ∧ c.path = "/admin" then [] else c.body }

/-- Calls that differ in no more than the values of their authorizations and
the forms of logins. -/
structure Alike (c d : Call) : Prop where
  blanked : c.blanked = d.blanked
  authorized : c.headers.values .authorization = [] ↔ d.headers.values .authorization = []

end Http.Call

namespace Session

/-- A session that holds a usable pair. -/
def ofCredentials (own : Credentials) (cookie : Option String) : Session where
  username := some own.username
  password := some own.password
  cookie := cookie
  authorization := some (basicAuthorization own.username own.password)

@[simp] theorem hasCredentials_ofCredentials (own : Credentials) (cookie : Option String) :
    (ofCredentials own cookie).hasCredentials = true := rfl

@[simp] theorem authorizationValue?_ofCredentials (own : Credentials) (cookie : Option String) :
    (ofCredentials own cookie).authorizationValue? =
      some (Text.utf8 (basicAuthorization own.username own.password)) :=
  authorizationValue?_of_basic rfl

@[simp] theorem cookieValue?_ofCredentials (own : Credentials) (cookie : Option String) :
    (ofCredentials own cookie).cookieValue? =
      (cookie.map fun value => "org.cups.sid=" ++ value).bind Http.fieldValue? := rfl

/-- Sessions that differ in their usable pairs alone. -/
inductive Alike : Session → Session → Prop
  | keyed (own other : Credentials) (cookie : Option String) :
      Alike (ofCredentials own cookie) (ofCredentials other cookie)
  | cleared : Alike .cleared .cleared

variable {s s' : Session}

theorem Alike.hasCredentials_eq (alike : s.Alike s') : s.hasCredentials = s'.hasCredentials := by
  cases alike with
  | keyed own other cookie => simp
  | cleared => rfl

/-- Sessions that are alike decorate a call alike. The authorization values
differ, but either pair makes one that is allowed as a value. -/
theorem Alike.decorateCall (alike : s.Alike s') (c : Call) :
    (s.decorateCall c).Alike (s'.decorateCall c) := by
  cases alike with
  | cleared => exact ⟨rfl, Iff.rfl⟩
  | keyed own other cookie =>
      have fields : ((ofCredentials own cookie).decorate c.headers).fields.map Call.blankedField =
          ((ofCredentials other cookie).decorate c.headers).fields.map Call.blankedField := by
        simp [fields_decorate, Call.blankedField]
      constructor
      · exact congrArg (fun fields => { c.blanked with headers := ⟨fields⟩ }) fields
      · simp [Session.decorateCall, values_decorate]

/-- Logins differ in their forms and their authorization values. -/
theorem login_alike (own other : Credentials) :
    (login own.username own.password).Alike (login other.username other.password) := by
  constructor
  · simp [Call.blanked, login, Call.blankedField]
  · simp [login, Headers.values]

end Session

namespace Authentication

variable {a a' : Authentication}

/-- Authentications that differ in their usable pairs alone. -/
structure Alike (a a' : Authentication) : Prop where
  session : a.session.Alike a'.session
  logsIn : a.logsIn = a'.logsIn

theorem setCredentials_eq_ofCredentials (a : Authentication) (own : Credentials) :
    a.setCredentials own.username own.password = ⟨.ofCredentials own none, a.logsIn⟩ := by
  simp [setCredentials, Session.applyCredentials, Session.ofCredentials, own.username_ne,
    own.password_ne]

/-- Renewals end with the same cookie whatever the pairs. -/
theorem lockstep_renewal (logsIn : Bool) (own other : Credentials) :
    Dialogue.Lockstep Call.Alike (· = ·) (renewal logsIn own.username own.password)
      (renewal logsIn other.username other.password) := by
  cases logsIn with
  | false => exact .done rfl
  | true => exact .call (Session.login_alike own other) fun outcome => .done rfl

/-- Whatever was held before, applying usable pairs goes in lockstep. -/
theorem lockstep_applyCredentials (same : a.logsIn = a'.logsIn) (own other : Credentials) :
    Dialogue.Lockstep Call.Alike Alike (a.applyCredentials own.username own.password)
      (a'.applyCredentials other.username other.password) := by
  rw [applyCredentials_of_usable own.username_ne own.password_ne,
    applyCredentials_of_usable other.username_ne other.password_ne, same,
    setCredentials_eq_ofCredentials, setCredentials_eq_ofCredentials]
  apply (lockstep_renewal a'.logsIn own other).bind
  rintro cookie _ rfl
  exact .done ⟨.keyed own other cookie, same⟩

/-- What exchanges come to: the same outcome, and authentications that are
alike again. -/
def AlikeResults (result result' : Outcome × Authentication) : Prop :=
  result.1 = result'.1 ∧ result.2.Alike result'.2

theorem Alike.lockstep_ask (alike : a.Alike a') (c : Call) :
    Dialogue.Lockstep Call.Alike AlikeResults (a.ask c) (a'.ask c) :=
  .call (alike.session.decorateCall c) fun _ => .done ⟨rfl, alike⟩

/-- A call goes through the exchanges of both in lockstep, for a refusal meets
credentials in both or in neither. -/
theorem Alike.lockstep_exchange (alike : a.Alike a') (c : Call) :
    Dialogue.Lockstep Call.Alike AlikeResults (a.exchange c) (a'.exchange c) := by
  apply Dialogue.Lockstep.call (alike.session.decorateCall c)
  intro outcome
  cases outcome with
  | error fault => exact .done ⟨rfl, alike⟩
  | ok reply =>
      dsimp only
      rw [← alike.session.hasCredentials_eq]
      split
      · next refused =>
        obtain ⟨session, logsIn⟩ := a
        obtain ⟨session', logsIn'⟩ := a'
        obtain ⟨sessions, same⟩ := alike
        cases sessions with
        | keyed own other cookie =>
            apply (lockstep_applyCredentials same own other).bind
            intro after after' alike
            exact alike.lockstep_ask c
        | cleared => cases refused.2
      · exact .done ⟨rfl, alike⟩

end Authentication

end InternetPrinting
