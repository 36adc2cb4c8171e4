import InternetPrinting.Authentication
import InternetPrinting.Proofs.Authentication.Decoration
import InternetPrinting.Proofs.Text.FormBody

/-!
# Renewing credentials

Applying a usable pair is setting it and then holding the cookie that a login
with it brings. When a call is refused, the pair is the one that is held, so
all that changes before the call is made once more is the cookie.
-/

namespace InternetPrinting

open Http (Call Dialogue Outcome Transport)

namespace Session

variable {s : Session} {username password : String}

/-- The session holds a pair with no empty half. -/
structure Holds (s : Session) (username password : String) : Prop where
  username_eq : s.username = some username
  password_eq : s.password = some password
  username_ne : username ≠ ""
  password_ne : password ≠ ""

/-- The login with a pair. -/
def login (username password : String) : Call where
  method := .post
  path := "/admin"
  headers := ⟨[(.contentType, Text.utf8 "application/x-www-form-urlencoded"),
    (.authorization, Text.utf8 (basicAuthorization username password))]⟩
  body := Text.utf8 (Text.Percent.formBody
    [("org.cups.sid", "1"), ("OP", "login"), ("USERID", username), ("PASSWD", password)])

/-- The body of a login is read as its four fields. -/
theorem formTexts?_login (username password : String) :
    (Text.strict? (login username password).body).bind Text.Percent.formTexts? =
      some [("org.cups.sid", "1"), ("OP", "login"), ("USERID", username),
        ("PASSWD", password)] := by
  rw [login, Text.strict?_utf8, Option.bind_some]
  exact Text.Percent.formTexts?_formBody (List.cons_ne_nil _ _)

theorem authorization_applyCredentials (s : Session) (username password : String) :
    (s.applyCredentials username password).authorization =
      if username = "" ∨ password = "" then none
      else some (basicAuthorization username password) := by
  simp [applyCredentials]

/-- The login call of a session with a usable pair carries the pair both in its
form and as authorization. -/
theorem loginCall?_of_holds (holds : s.Holds username password)
    (authorization : s.authorization = some (basicAuthorization username password)) :
    s.loginCall? = some (login username password) := by
  have sent : ((Http.Headers.empty.insert .contentType Call.formType).insertText .authorization
      (basicAuthorization username password)) = (login username password).headers := by
    ext1
    rw [Http.Headers.fields_insertText, fieldValue?_basicAuthorization]
    · rfl
    · decide
  simp only [loginCall?, holds.username_eq, holds.password_eq, authorization, Call.form, sent]
  rfl

end Session

namespace Authentication

variable {a : Authentication} {logsIn : Bool} {username password : String}

/-- The cookie that the outcome of a login brings. -/
def cookieFrom : Outcome → Option String
  | .ok reply => SessionCookie.ofHeaders? reply.headers
  | .error _ => none

/-- A login with a pair if logins are on, which ends with the cookie to hold. -/
def renewal (logsIn : Bool) (username password : String) : Dialogue (Option String) :=
  if logsIn then
    .call (Session.login username password) fun outcome => .done (cookieFrom outcome)
  else .done none

theorem setCredentials_holds (named : username ≠ "") (secret : password ≠ "") :
    (a.setCredentials username password).session.Holds username password ∧
      (a.setCredentials username password).session.authorization =
        some (basicAuthorization username password) := by
  refine ⟨⟨rfl, rfl, named, secret⟩, ?_⟩
  change (a.session.applyCredentials username password).authorization = _
  rw [Session.authorization_applyCredentials, if_neg (by simp [named, secret])]

/-- A usable pair is kept with the cookie that a login brings, if there is one. -/
theorem applyCredentials_of_usable (named : username ≠ "") (secret : password ≠ "") :
    a.applyCredentials username password =
      (renewal a.logsIn username password).bind fun cookie =>
        .done ((a.setCredentials username password).withCookie cookie) := by
  obtain ⟨holds, authorization⟩ := setCredentials_holds (a := a) named secret
  have login := Session.loginCall?_of_holds holds authorization
  have credentials : (a.setCredentials username password).session.hasCredentials = true := by
    simp [Session.hasCredentials, authorization]
  have setting : (a.setCredentials username password).logsIn = a.logsIn := rfl
  cases on : a.logsIn with
  | false => simp [applyCredentials, renewal, setting, on]; rfl
  | true =>
      simp only [applyCredentials, renewal, setting, on, credentials, login, Bool.and_self,
        if_true, Dialogue.bind_call, Dialogue.bind_done]
      congr 1
      funext outcome
      cases outcome <;> rfl

/-- A pair with an empty half is kept without a word to the server. -/
theorem applyCredentials_of_unusable (empty : username = "" ∨ password = "") :
    a.applyCredentials username password = .done (a.setCredentials username password) := by
  have none : (a.setCredentials username password).session.hasCredentials = false := by
    change (a.session.applyCredentials username password).authorization.isSome = false
    rw [Session.authorization_applyCredentials, if_pos empty]
    rfl
  simp [applyCredentials, none]

/-- Setting the pair that is held only drops the cookie. -/
theorem setCredentials_self (holds : a.session.Holds username password)
    (authorization : a.session.authorization = some (basicAuthorization username password)) :
    a.setCredentials username password = a.withCookie none := by
  have same := (setCredentials_holds (a := a) holds.username_ne holds.password_ne).2
  rw [← authorization] at same
  simp only [setCredentials, Session.applyCredentials, withCookie] at same ⊢
  simp only [same, ← holds.username_eq, ← holds.password_eq]

section Exchange

variable {σ : Type} (t : Transport σ) (state : σ) (c : Call)

/-- A call that fails is the end of the exchange. -/
theorem run_exchange_of_error {fault : Fault}
    (failed : (t.send state (a.session.decorateCall c)).1 = .error fault) :
    (a.exchange c).run t state =
      ⟨(.error fault, a), [(a.session.decorateCall c, .error fault)],
        (t.send state (a.session.decorateCall c)).2⟩ := by
  simp [exchange, Dialogue.run, failed]

/-- So is a reply that does not ask for authorization, and any reply where
there are no credentials to give. -/
theorem run_exchange_of_reply {reply : Http.Reply}
    (replied : (t.send state (a.session.decorateCall c)).1 = .ok reply)
    (settled : reply.status ≠ unauthorized ∨ a.session.hasCredentials = false) :
    (a.exchange c).run t state =
      ⟨(.ok reply, a), [(a.session.decorateCall c, .ok reply)],
        (t.send state (a.session.decorateCall c)).2⟩ := by
  have final : ¬(reply.status = unauthorized ∧ a.session.hasCredentials = true) := by
    rintro ⟨refused, credentials⟩
    rcases settled with accepted | bare
    · exact accepted refused
    · simp [credentials] at bare
  simp [exchange, Dialogue.run, replied, final]

theorem settled_or_refused (a : Authentication) (reply : Http.Reply) :
    (reply.status ≠ unauthorized ∨ a.session.hasCredentials = false) ∨
      reply.status = unauthorized ∧ a.session.hasCredentials = true := by
  cases a.session.hasCredentials <;> simp [em']

/-- A call that is refused is made once more with the cookie of the renewal,
and its outcome then is the outcome of the exchange. -/
theorem run_exchange_of_refused {reply : Http.Reply}
    (replied : (t.send state (a.session.decorateCall c)).1 = .ok reply)
    (refused : reply.status = unauthorized)
    (holds : a.session.Holds username password)
    (authorization : a.session.authorization = some (basicAuthorization username password)) :
    (a.exchange c).run t state =
      let first := a.session.decorateCall c
      let renewed := (renewal a.logsIn username password).run t (t.send state first).2
      let replay := (a.withCookie renewed.result).session.decorateCall c
      let again := t.send renewed.state replay
      ⟨(again.1, a.withCookie renewed.result),
        (first, .ok reply) :: renewed.exchanges ++ [(replay, again.1)], again.2⟩ := by
  have credentials : a.session.hasCredentials = true := by
    simp [Session.hasCredentials, authorization]
  have applied := applyCredentials_of_usable (a := a) holds.username_ne holds.password_ne
  rw [setCredentials_self holds authorization] at applied
  simp only [exchange, Dialogue.run, replied, refused, credentials, and_self, if_true,
    holds.username_eq, holds.password_eq, applied, Dialogue.bind_assoc, Dialogue.bind_done,
    Dialogue.run_bind]
  rfl

end Exchange

end Authentication

end InternetPrinting
