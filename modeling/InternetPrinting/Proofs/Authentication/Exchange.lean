import InternetPrinting.Http.Script
import InternetPrinting.Proofs.Authentication.Reachable

/-!
# The authentication exchange

The whole run of an exchange, for every state that can be reached and every
transport: which calls go out in which order, with which outcome the exchange
ends and what is known afterwards. A call is made once more at most, and then
it differs from the first time in the cookie alone.
-/

namespace InternetPrinting

open Http (Call Dialogue Outcome Reply Run Script Transport)

namespace Session

variable {s : Session}

theorem authorizationValue?_of_basic {username password : String}
    (held : s.authorization = some (basicAuthorization username password)) :
    s.authorizationValue? = some (Text.utf8 (basicAuthorization username password)) := by
  simp only [authorizationValue?, held, Option.bind_some, fieldValue?_basicAuthorization]

/-- A clean cookie is sent back under its name. -/
theorem cookieValue?_of_clean (credentials : s.hasCredentials = true)
    (clean : ∀ cookie, s.cookie = some cookie → SessionCookie.Clean cookie) :
    s.cookieValue? =
      s.cookie.map fun cookie => Text.utf8 ("org.cups.sid=" ++ cookie) := by
  rw [cookieValue?, if_pos credentials, cookieField?]
  cases held : s.cookie with
  | none => rfl
  | some cookie => exact (clean cookie held).fieldValue?

end Session

namespace Authentication

variable {a : Authentication} {logsIn : Bool} {username password : String}

/-- A call made once more: the same but for the cookie, which is the given one
or none, with the given authorization. -/
structure Replays (first replay : Call) (authorization : String) (cookie : Option String) :
    Prop where
  method : replay.method = first.method
  path : replay.path = first.path
  body : replay.body = first.body
  others : replay.headers.erase .cookie = first.headers.erase .cookie
  authorization : replay.headers.values .authorization = [Text.utf8 authorization]
  cookie : replay.headers.values .cookie =
    (cookie.map fun value => Text.utf8 ("org.cups.sid=" ++ value)).toList

theorem replays_withCookie {cookie : Option String}
    (held : a.session.authorization = some (basicAuthorization username password))
    (clean : ∀ value, cookie = some value → SessionCookie.Clean value) (c : Call) :
    Replays (a.session.decorateCall c) ((a.withCookie cookie).session.decorateCall c)
      (basicAuthorization username password) cookie where
  method := rfl
  path := rfl
  body := rfl
  others := by
    ext1
    change (((a.withCookie cookie).session.decorate c.headers).erase .cookie).fields =
      ((a.session.decorate c.headers).erase .cookie).fields
    rw [Session.erase_cookie_decorate, Session.erase_cookie_decorate]
    rfl
  authorization := by
    change ((a.withCookie cookie).session.decorate c.headers).values .authorization = _
    have sent : (a.withCookie cookie).session.authorizationValue? =
        some (Text.utf8 (basicAuthorization username password)) :=
      Session.authorizationValue?_of_basic held
    rw [Session.values_authorization_decorate, sent]
    rfl
  cookie := by
    have credentials : (a.withCookie cookie).session.hasCredentials = true := by
      simp [withCookie, Session.hasCredentials, held]
    change ((a.withCookie cookie).session.decorate c.headers).values .cookie = _
    rw [Session.values_cookie_decorate, Session.cookieValue?_of_clean credentials clean]
    rfl

theorem run_renewal {σ : Type} (t : Transport σ) (state : σ) :
    (renewal logsIn username password).run t state =
      if logsIn then
        ⟨cookieFrom (t.send state (Session.login username password)).1,
          [(Session.login username password,
            (t.send state (Session.login username password)).1)],
          (t.send state (Session.login username password)).2⟩
      else ⟨none, [], state⟩ := by
  cases logsIn <;> rfl

theorem length_renewal_le (logsIn : Bool) (username password : String) {σ : Type}
    (t : Transport σ) (state : σ) :
    ((renewal logsIn username password).run t state).exchanges.length ≤ 1 := by
  rw [run_renewal]
  split <;> simp

namespace Consistent

/-- A request carries the cookie that is held, in the only field for cookies, and none
if none is held. -/
theorem values_cookie_decorate (consistent : a.Consistent logsIn) (h : Http.Headers) :
    (a.session.decorate h).values .cookie =
      (a.session.cookie.map fun value =>
        Text.utf8 ("org.cups.sid=" ++ value)).toList := by
  rw [Session.values_cookie_decorate]
  cases held : a.session.cookie with
  | none => simp [Session.cookieValue?, Session.cookieField?, held]
  | some cookie =>
      have credentials : a.session.hasCredentials = true :=
        (consistent.loggedIn (by simp [held])).1
      rw [Session.cookieValue?_of_clean credentials consistent.clean, held]

variable {σ : Type} (t : Transport σ) (state : σ) (c : Call)

/-- A refused call is followed by a renewal with the pair that is held, and
then by the same call with the cookie of that renewal. -/
theorem run_exchange_of_unauthorized (consistent : a.Consistent logsIn) {reply : Reply}
    (replied : (t.send state (a.session.decorateCall c)).1 = .ok reply)
    (refused : reply.status = unauthorized) (credentials : a.session.hasCredentials = true) :
    ∃ username password, a.session.Holds username password ∧
      let first := a.session.decorateCall c
      let renewed := (renewal logsIn username password).run t (t.send state first).2
      let replay := (a.withCookie renewed.result).session.decorateCall c
      let again := t.send renewed.state replay
      Replays first replay (basicAuthorization username password) renewed.result ∧
      (a.exchange c).run t state = ⟨(again.1, a.withCookie renewed.result),
        (first, .ok reply) :: renewed.exchanges ++ [(replay, again.1)], again.2⟩ := by
  obtain ⟨username, password, holds, authorization⟩ := consistent.exists_holds credentials
  refine ⟨username, password, holds, ?_, ?_⟩
  · apply replays_withCookie authorization
    intro value brought
    exact (cookie_of_renewal t _ brought).2
  · have ran := run_exchange_of_refused t state c replied refused holds authorization
    rw [consistent.setting] at ran
    exact ran

theorem length_calls_exchange_le (consistent : a.Consistent logsIn) :
    ((a.exchange c).run t state).calls.length ≤ 3 := by
  rcases consistent.run_exchange_cases t state c with
    ⟨outcome, ran⟩ | ⟨username, password, reply, -, -, ran⟩
  · simp [ran, Run.calls]
  · have short := length_renewal_le logsIn username password t
      (t.send state (a.session.decorateCall c)).2
    simp only [ran, Run.calls, List.length_map, List.length_append, List.length_cons,
      List.length_nil]
    omega

end Consistent

section Calls

variable {c : Call} {σ : Type} {t : Transport σ} {state : σ}

/-- The server asks for authorization, and there are credentials to give. -/
def Refused (a : Authentication) (outcome : Outcome) : Prop :=
  ∃ reply, outcome = .ok reply ∧ reply.status = 401 ∧ a.session.hasCredentials = true

theorem calls_exchange_of_settled
    (settled : ¬a.Refused (t.send state (a.session.decorateCall c)).1) :
    ((a.exchange c).run t state).calls = [a.session.decorateCall c] := by
  cases replied : (t.send state (a.session.decorateCall c)).1 with
  | error fault => rw [run_exchange_of_error t state c replied, Run.calls]; rfl
  | ok reply =>
      rcases a.settled_or_refused reply with final | ⟨refused, credentials⟩
      · rw [run_exchange_of_reply t state c replied final, Run.calls]
        rfl
      · exact absurd ⟨reply, replied, refused, credentials⟩ settled

namespace Consistent

/-- A refused call is made once more, behind the login if logins are on. -/
theorem calls_exchange_of_refused (consistent : a.Consistent logsIn)
    (refused : a.Refused (t.send state (a.session.decorateCall c)).1) :
    let course := (a.exchange c).run t state
    ∃ username password, a.session.Holds username password ∧
      course.calls = a.session.decorateCall c ::
        (if logsIn then [Session.login username password] else []) ++
          [course.result.2.session.decorateCall c] := by
  obtain ⟨reply, replied, status, credentials⟩ := refused
  obtain ⟨username, password, holds, -, ran⟩ :=
    consistent.run_exchange_of_unauthorized t state c replied status credentials
  refine ⟨username, password, holds, ?_⟩
  rw [ran, run_renewal]
  cases logsIn <;> rfl

/-- Whatever an exchange makes of a call, it posts nothing of its own but the login. -/
theorem login_of_post (consistent : a.Consistent logsIn) (asks : c.method ≠ .post) {call : Call}
    (sent : call ∈ ((a.exchange c).run t state).calls) (posts : call.method = .post) :
    logsIn = true ∧
      ∃ username password, a.session.Holds username password ∧
        call = Session.login username password := by
  by_cases refused : a.Refused (t.send state (a.session.decorateCall c)).1
  · obtain ⟨username, password, holds, calls⟩ := consistent.calls_exchange_of_refused refused
    rw [calls, List.mem_append, List.mem_cons, List.mem_singleton] at sent
    rcases sent with (rfl | login) | rfl
    · exact absurd posts asks
    · split at login
      · next on => exact ⟨on, username, password, holds, List.mem_singleton.mp login⟩
      · cases login
    · exact absurd posts asks
  · rw [calls_exchange_of_settled refused, List.mem_singleton] at sent
    subst sent
    exact absurd posts asks

end Consistent

end Calls

/-- An exchange begins with the call as the session decorates it. A failure
ends it, and so does a reply that does not ask for authorization or meets no
credentials; then the authentication is as before. Otherwise the pair that is
held logs in once if logins are on, with a form that is read as that pair, and
the call is made once more with the cookie of that login, whose outcome is passed
on as it is. -/
theorem run_exchange_exact (reachable : Reachable logsIn a) {σ : Type} (t : Transport σ)
    (state : σ) (c : Call) :
    let first := a.session.decorateCall c
    let sent := t.send state first
    let run := (a.exchange c).run t state
    (a.session.hasCredentials = true ↔
      ∃ username password, a.session.Holds username password) ∧
    (∀ fault, sent.1 = .error fault →
      run = ⟨(.error fault, a), [(first, .error fault)], sent.2⟩) ∧
    (∀ reply, sent.1 = .ok reply →
      reply.status ≠ 401 ∨ a.session.hasCredentials = false →
      run = ⟨(.ok reply, a), [(first, .ok reply)], sent.2⟩) ∧
    (∀ reply, sent.1 = .ok reply →
      reply.status = 401 → a.session.hasCredentials = true →
      ∃ username password, a.session.Holds username password ∧
        let login := Session.login username password
        let answered := t.send sent.2 login
        let renewed : Run σ (Option String) :=
          if logsIn then ⟨cookieFrom answered.1, [(login, answered.1)], answered.2⟩
          else ⟨none, [], sent.2⟩
        let replay := (a.withCookie renewed.result).session.decorateCall c
        let again := t.send renewed.state replay
        (Text.strict? login.body).bind Text.Percent.formTexts? =
          some [("org.cups.sid", "1"), ("OP", "login"), ("USERID", username),
            ("PASSWD", password)] ∧
        Replays first replay (basicAuthorization username password) renewed.result ∧
        run = ⟨(again.1, a.withCookie renewed.result),
          (first, .ok reply) :: renewed.exchanges ++ [(replay, again.1)], again.2⟩) ∧
    run.calls.length ≤ 3 := by
  have consistent := reachable.consistent
  intro first sent run
  refine ⟨consistent.hasCredentials_iff, ?_, ?_, ?_,
    consistent.length_calls_exchange_le t state c⟩
  · intro fault failed
    exact run_exchange_of_error t state c failed
  · intro reply replied settled
    exact run_exchange_of_reply t state c replied settled
  · intro reply replied refused credentials
    obtain ⟨username, password, holds, same, ran⟩ :=
      consistent.run_exchange_of_unauthorized t state c replied refused credentials
    rw [run_renewal] at same ran
    exact ⟨username, password, holds, Session.formTexts?_login username password, same, ran⟩

/-- The user lp, who has not logged in yet. -/
def keyed : Authentication :=
  (initial true).setCredentials "lp" "secret"

/-- A reply that refuses a call. -/
def refusalReply : Reply :=
  ⟨401, .empty, []⟩

/-- A reply to a login, which sets the session cookie. -/
def grantReply : Reply :=
  ⟨200, Http.Headers.empty.append .setCookie (Text.utf8 "org.cups.sid=feedface; path=/"), []⟩

theorem reachable_keyed : Reachable true keyed :=
  .act .initial (.setCredentials "lp" "secret") Script.transport { outcomes := [] }

/-- A call that is refused twice goes out with the cookie of the login between
and is not made a third time. -/
theorem run_exchange_exact_keyed :
    Reachable true keyed ∧
      ∃ login replay : Call,
        (keyed.exchange (.get "/")).run Script.transport
            ⟨[.ok refusalReply, .ok grantReply, .ok refusalReply], 0, false⟩ =
          ⟨(.ok refusalReply, keyed.withCookie (some "feedface")),
            [(keyed.session.decorateCall (.get "/"), .ok refusalReply),
              (login, .ok grantReply), (replay, .ok refusalReply)], ⟨[], 0, true⟩⟩ ∧
        login = Session.login "lp" "secret" ∧
        replay.headers.values .cookie = [Text.utf8 "org.cups.sid=feedface"] := by
  refine ⟨reachable_keyed, ?_⟩
  obtain ⟨-, -, -, refused, -⟩ := run_exchange_exact reachable_keyed Script.transport
    ⟨[.ok refusalReply, .ok grantReply, .ok refusalReply], 0, false⟩ (.get "/")
  obtain ⟨username, password, holds, -, same, ran⟩ := refused refusalReply rfl rfl rfl
  have named : username = "lp" := (Option.some.inj holds.username_eq).symm
  have secret : password = "secret" := (Option.some.inj holds.password_eq).symm
  subst named secret
  have cookie : cookieFrom (.ok grantReply) = some "feedface" := by decide
  simp only [if_true, Script.transport, Script.send, cookie] at same ran
  exact ⟨_, _, ran, rfl, same.cookie⟩

end Authentication

end InternetPrinting
