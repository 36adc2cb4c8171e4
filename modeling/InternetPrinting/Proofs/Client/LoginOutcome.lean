import InternetPrinting.Proofs.Authentication.CookieOrigin
import InternetPrinting.Proofs.Client.Commands

/-!
# What a login leaves behind

A pair is applied in three ways: by the owner of an authentication, through a
client, and once more when a call is refused. Each makes one login at most, and
the cookie that its outcome brings is the one that is held afterwards. Requests
carry it until there is another login or another pair.

The status of the reply to a login is not looked at. A login without a reply
leaves the session with its authorization alone, but one that the server refuses
does so only if the refusal does not set a session cookie.
-/

namespace InternetPrinting

open Http (Call Dialogue Outcome Reply Run Script Transport)

/-- A call has one field for cookies, with the session cookie alone, or none. -/
def Http.Call.Carries (call : Call) (cookie : Option String) : Prop :=
  call.headers.values .cookie =
    (cookie.map fun value => Text.utf8 ("org.cups.sid=" ++ value)).toList

/-- A session with the authorization of a pair and without a cookie. -/
structure Session.BasicOnly (s : Session) (username password : String) : Prop where
  holds : s.Holds username password
  authorization : s.authorization = some (basicAuthorization username password)
  cookie : s.cookie = none

theorem Client.run_setCredentials (c : Client) (username password : String) {σ : Type}
    (t : Transport σ) (state : σ) :
    let applied := (c.authentication.applyCredentials username password).run t state
    (c.setCredentials username password).run t state =
      ⟨{ c with authentication := applied.result }, applied.exchanges, applied.state⟩ := by
  simp only [Client.setCredentials, Dialogue.run_bind, Dialogue.run_done, List.append_nil]

namespace Authentication

variable {a after : Authentication} {logsIn : Bool} {username password : String}
  {cookie last : Option String} {exchanges : List (Call × Outcome)}

/-- A login failed. It got no reply, or one whose status tells of an error. -/
def LoginFailed : Outcome → Prop
  | .error _ => True
  | .ok reply => 400 ≤ reply.status

theorem cookieFrom_eq_none_iff {outcome : Outcome} :
    cookieFrom outcome = none ↔
      ∀ reply, outcome = .ok reply → SessionCookie.ofHeaders? reply.headers = none := by
  cases outcome with
  | error fault => simp [cookieFrom]
  | ok reply => simp [cookieFrom]

/-- How a pair is applied: without a word to the server, or with one login whose
outcome says which cookie is held next to the authorization of the pair. -/
inductive Course (logsIn : Bool) (username password : String) :
    List (Call × Outcome) → Session → Prop
  | silent {s : Session} (quiet : logsIn = false ∨ username = "" ∨ password = "")
      (bare : s.cookie = none) : Course logsIn username password [] s
  | login {s : Session} {outcome : Outcome} (on : logsIn = true)
      (holds : s.Holds username password)
      (authorization : s.authorization = some (basicAuthorization username password))
      (brought : s.cookie = cookieFrom outcome) :
      Course logsIn username password [(Session.login username password, outcome)] s

section Course

variable {σ : Type} (t : Transport σ) (state : σ)

theorem course_renewal (holds : a.session.Holds username password)
    (authorization : a.session.authorization = some (basicAuthorization username password)) :
    let renewed := (renewal logsIn username password).run t state
    Course logsIn username password renewed.exchanges (a.withCookie renewed.result).session := by
  rw [run_renewal]
  split
  · next on => exact .login on (holds_withCookie.mpr holds) authorization rfl
  · next off => exact .silent (.inl (Bool.eq_false_iff.mpr off)) rfl

theorem course_applyCredentials (a : Authentication) (username password : String) :
    let course := (a.applyCredentials username password).run t state
    Course a.logsIn username password course.exchanges course.result.session := by
  by_cases empty : username = "" ∨ password = ""
  · rw [applyCredentials_of_unusable empty]
    exact .silent (.inr empty) rfl
  · obtain ⟨named, secret⟩ := not_or.mp empty
    obtain ⟨holds, authorization⟩ := setCredentials_holds (a := a) named secret
    simp only [applyCredentials_of_usable named secret, Dialogue.run_bind, Dialogue.run_done,
      List.append_nil]
    exact course_renewal t state holds authorization

theorem Reachable.course_applyCredentials (reachable : Reachable logsIn a)
    (username password : String) :
    let course := (a.applyCredentials username password).run t state
    Reachable logsIn course.result ∧
      Course logsIn username password course.exchanges course.result.session := by
  have course := Authentication.course_applyCredentials t state a username password
  rw [reachable.consistent.setting] at course
  exact ⟨.act reachable (.applyCredentials username password) t state, course⟩

/-- A call that is made twice has an application of the pair that is held between. -/
theorem Consistent.course_exchange (consistent : a.Consistent logsIn) (c : Call)
    (holds : a.session.Holds username password) {first again : Call × Outcome}
    (twice : ((a.exchange c).run t state).exchanges = first :: exchanges ++ [again]) :
    let course := (a.exchange c).run t state
    Course logsIn username password exchanges course.result.2.session ∧
      again.1 = course.result.2.session.decorateCall c := by
  rcases consistent.run_exchange_cases t state c with
    ⟨outcome, ran⟩ | ⟨name, word, reply, held, authorization, ran⟩
  · rw [ran] at twice
    simp at twice
  · obtain rfl : name = username := Option.some.inj (held.username_eq.symm.trans holds.username_eq)
    obtain rfl : word = password := Option.some.inj (held.password_eq.symm.trans holds.password_eq)
    rw [ran] at twice ⊢
    obtain ⟨firsts, lasts⟩ := List.append_inj' twice rfl
    cases firsts
    cases lasts
    exact ⟨course_renewal t _ holds authorization, rfl⟩

end Course

/-- A pair is applied, with these exchanges between and this authentication after it.
Where a call is made once more, it is a request that has left with the new session. -/
inductive Applied (logsIn : Bool) :
    String → String → List (Call × Outcome) → List Call → Authentication → Prop
  | direct {a : Authentication} {username password : String} {σ : Type} {t : Transport σ}
      {state : σ} {course : Run σ Authentication} (reachable : Reachable logsIn a)
      (ran : (a.applyCredentials username password).run t state = course) :
      Applied logsIn username password course.exchanges [] course.result
  | bySetting {c : Client} {username password : String} {σ : Type} {t : Transport σ} {state : σ}
      {course : Run σ Client} (reachable : Reachable logsIn c.authentication)
      (ran : (c.setCredentials username password).run t state = course) :
      Applied logsIn username password course.exchanges [] course.result.authentication
  | byLogin {c : Client} {username password : String} {σ : Type} {t : Transport σ} {state : σ}
      {course : Run σ Client} (reachable : Reachable logsIn c.authentication)
      (configured : c.settings.pair? = some (username, password))
      (ran : c.login.run t state = course) :
      Applied logsIn username password course.exchanges [] course.result.authentication
  | again {a : Authentication} {c : Call} {username password : String} {σ : Type}
      {t : Transport σ} {state : σ} {course : Run σ (Outcome × Authentication)}
      {first last : Call × Outcome} {middle : List (Call × Outcome)}
      (reachable : Reachable logsIn a) (holds : a.session.Holds username password)
      (ran : (a.exchange c).run t state = course)
      (twice : course.exchanges = first :: middle ++ [last]) :
      Applied logsIn username password middle [last.1] course.result.2

namespace Applied

variable {sent : List Call}

/-- On every way the pair is applied as it is by the owner of the authentication, and
what has left already is a call as the new session decorates it. -/
theorem course (applied : Applied logsIn username password exchanges sent after) :
    Reachable logsIn after ∧ Course logsIn username password exchanges after.session ∧
      ∀ call ∈ sent, ∃ plain, call = after.session.decorateCall plain := by
  cases applied with
  | direct reachable ran =>
      subst ran
      obtain ⟨reached, course⟩ := reachable.course_applyCredentials _ _ username password
      exact ⟨reached, course, by simp⟩
  | bySetting reachable ran =>
      subst ran
      rw [Client.run_setCredentials]
      obtain ⟨reached, course⟩ := reachable.course_applyCredentials _ _ username password
      exact ⟨reached, course, by simp⟩
  | byLogin reachable configured ran =>
      subst ran
      rw [Client.login_eq, configured, Client.run_setCredentials]
      obtain ⟨reached, course⟩ := reachable.course_applyCredentials _ _ username password
      exact ⟨reached, course, by simp⟩
  | @again a c _ _ σ t state course first last middle reachable holds ran twice =>
      subst ran
      have ended : ((a.act (.exchange c)).run t state).result =
          ((a.exchange c).run t state).result.2 := by
        simp only [act, Dialogue.run_bind, Dialogue.run_done]
      obtain ⟨course, replay⟩ := reachable.consistent.course_exchange t state c holds twice
      refine ⟨ended ▸ .act reachable (.exchange c) t state, course, ?_⟩
      intro call member
      exact ⟨c, (List.mem_singleton.mp member).trans replay⟩

end Applied

/-- What an event makes of the cookie that is held. A request has to carry it. -/
inductive Event.Turns : Option String → Event → Option String → Prop
  | given (cookie : Option String) (username password : String) :
      Turns cookie (.given username password) none
  | cleared (cookie : Option String) : Turns cookie .cleared none
  | login (cookie : Option String) (exchange : Call × Outcome) :
      Turns cookie (.login exchange) (cookieFrom exchange.2)
  | request {cookie : Option String} {exchange : Call × Outcome} (session : Session)
      (carries : exchange.1.Carries cookie) : Turns cookie (.request session exchange) cookie

/-- Events follow one another, with a cookie held before and one held after them. -/
inductive Followed : Option String → List Event → Option String → Prop
  | nil (cookie : Option String) : Followed cookie [] cookie
  | cons {cookie between last : Option String} {event : Event} {events : List Event}
      (first : event.Turns cookie between) (rest : Followed between events last) :
      Followed cookie (event :: events) last

namespace Followed

variable {between : Option String} {events more : List Event}

theorem append (first : Followed cookie events between) (second : Followed between more last) :
    Followed cookie (events ++ more) last := by
  induction first with
  | nil cookie => exact second
  | cons turn rest ih => exact .cons turn (ih second)

theorem singleton {event : Event} (turns : event.Turns cookie last) :
    Followed cookie [event] last :=
  .cons turns (.nil last)

/-- With nothing but requests before it, a request carries the cookie held at first. -/
theorem carries {since rest : List Event} {session : Session} {exchange : Call × Outcome}
    (followed : Followed cookie (since ++ .request session exchange :: rest) last)
    (requests : ∀ event ∈ since, ∃ session exchange, event = .request session exchange) :
    exchange.1.Carries cookie := by
  induction since with
  | nil =>
      cases followed with
      | cons turns _ =>
          cases turns with
          | request _ carries => exact carries
  | cons event since ih =>
      obtain ⟨⟨other, request, rfl⟩, others⟩ := List.forall_mem_cons.mp requests
      cases followed with
      | cons turns rest =>
          cases turns with
          | request => exact ih rest others

end Followed

/-- Applying a pair turns the cookie into the one of the login, if there is one. -/
theorem Course.followed {s : Session}
    (course : Course logsIn username password exchanges s)
    (bare : exchanges = [] → cookie = none) :
    Followed cookie (exchanges.map .login) s.cookie := by
  cases course with
  | silent quiet gone =>
      rw [gone, bare rfl]
      exact .nil none
  | login on holds authorization brought =>
      rw [brought]
      exact .singleton (.login cookie (Session.login username password, _))

namespace Consistent

variable {σ : Type} (t : Transport σ) (state : σ)

/-- An exchange turns the cookie as its events say, and so does every other action. -/
theorem followed_exchange (consistent : a.Consistent logsIn) (c : Call) :
    let course := (a.exchange c).run t state
    Followed a.session.cookie (Event.ofExchanges a.session course.result.2.session course.exchanges)
      course.result.2.session.cookie := by
  have carries : ∀ outcome, Event.Turns a.session.cookie
      (.request a.session (a.session.decorateCall c, outcome)) a.session.cookie :=
    fun _ => .request a.session (consistent.values_cookie_decorate c.headers)
  have after := consistent.run_exchange t state c
  rcases consistent.run_exchange_cases t state c with
    ⟨outcome, ran⟩ | ⟨username, password, reply, holds, authorization, ran⟩
  · rw [ran]
    exact .singleton (carries outcome)
  · rw [ran] at after ⊢
    simp only [Event.ofExchanges_concat]
    apply Followed.cons (carries _)
    apply Followed.append
    · apply (course_renewal t _ holds authorization).followed
      -- Without a login there was no cookie to begin with.
      intro quiet
      by_contra held
      rw [run_renewal, if_pos (consistent.loggedIn held).2] at quiet
      cases quiet
    · apply Followed.singleton
      exact .request _ (after.values_cookie_decorate c.headers)

theorem followed_act (consistent : a.Consistent logsIn) (action : Action) :
    let course := (a.act action).run t state
    Followed a.session.cookie (a.events course action) course.result.session.cookie := by
  cases action with
  | setCredentials username password => exact .singleton (.given _ username password)
  | clearCredentials => exact .singleton (.cleared _)
  | applyCredentials username password =>
      apply Followed.cons (.given _ username password)
      exact (course_applyCredentials t state a username password).followed fun _ => rfl
  | exchange call =>
      have followed := consistent.followed_exchange t state call
      simp only [act, events, Dialogue.run_bind, Dialogue.run_done, List.append_nil] at followed ⊢
      exact followed

/-- So does a whole run. -/
theorem followed_history (consistent : a.Consistent logsIn) (actions : List Action) :
    ∃ last, Followed a.session.cookie (a.history t state actions) last := by
  induction actions generalizing a state with
  | nil => exact ⟨_, .nil _⟩
  | cons action rest ih =>
      obtain ⟨last, followed⟩ := ih _ (consistent.run_act t state action)
      exact ⟨last, (consistent.followed_act t state action).append followed⟩

end Consistent

/-- What applying a pair leads to, on every way and whatever the server answers. It is
silent if logins are off or the pair has an empty half, and then no cookie is held. Else
there is one login, and the cookie is the one that its outcome brings. A login without a
reply leaves the session with its authorization alone. One that fails with a reply does so
exactly if the reply sets no session cookie. A call that the session decorates carries the
cookie that is held, and so do all requests that follow with only requests before them. -/
theorem applied_exact {sent : List Call}
    (applied : Applied logsIn username password exchanges sent after) :
    (logsIn = false ∨ username = "" ∨ password = "" →
      exchanges = [] ∧ after.session.cookie = none) ∧
    (logsIn = true → username ≠ "" → password ≠ "" →
      ∃ outcome, exchanges = [(Session.login username password, outcome)] ∧
        after.session.cookie = cookieFrom outcome ∧
        (∀ fault, outcome = .error fault → after.session.BasicOnly username password) ∧
        (LoginFailed outcome → (after.session.BasicOnly username password ↔
          ∀ reply, outcome = .ok reply → SessionCookie.ofHeaders? reply.headers = none))) ∧
    (∀ call ∈ sent, call.Carries after.session.cookie) ∧
    (∀ plain, (after.session.decorateCall plain).Carries after.session.cookie) ∧
    (∀ (actions : List Action) (σ : Type) (t : Transport σ) (state : σ) (since rest : List Event)
      (session : Session) (exchange : Call × Outcome),
      after.history t state actions = since ++ .request session exchange :: rest →
      (∀ event ∈ since, ∃ session exchange, event = .request session exchange) →
        exchange.1.Carries after.session.cookie) := by
  obtain ⟨reachable, course, replays⟩ := applied.course
  have consistent := reachable.consistent
  refine ⟨?_, ?_, ?_, fun plain => consistent.values_cookie_decorate plain.headers, ?_⟩
  · intro quiet
    cases course with
    | silent _ bare => exact ⟨rfl, bare⟩
    | login on holds _ _ =>
        rcases quiet with off | empty | empty
        · exact absurd (on.symm.trans off) (by decide)
        · exact absurd empty holds.username_ne
        · exact absurd empty holds.password_ne
  · intro on named secret
    cases course with
    | silent quiet _ => simp [on, named, secret] at quiet
    | @login _ outcome _ holds authorization brought =>
        refine ⟨outcome, rfl, brought, ?_, fun _ => ?_⟩
        · rintro fault rfl
          exact ⟨holds, authorization, brought⟩
        · rw [← cookieFrom_eq_none_iff, ← brought]
          constructor
          · exact fun basic => basic.cookie
          · exact fun bare => ⟨holds, authorization, bare⟩
  · intro call member
    obtain ⟨plain, rfl⟩ := replays call member
    exact consistent.values_cookie_decorate plain.headers
  · intro actions σ t state since rest session exchange happened requests
    obtain ⟨last, followed⟩ := consistent.followed_history t state actions
    rw [happened] at followed
    exact followed.carries requests

/-- A reply that forbids a login. -/
def forbiddenReply : Reply :=
  ⟨403, .empty, []⟩

/-- A login that is forbidden, with no cookie set, leaves the authorization alone. -/
theorem applied_exact_forbidden :
    ∃ after, Applied true "lp" "secret"
        [(Session.login "lp" "secret", .ok forbiddenReply)] [] after ∧
      after.session.BasicOnly "lp" "secret" := by
  have applied := Applied.direct reachable_keyed
    (rfl : (keyed.applyCredentials "lp" "secret").run Script.transport
      ⟨[.ok forbiddenReply], 0, false⟩ = _)
  obtain ⟨-, answered, -⟩ := applied_exact applied
  obtain ⟨outcome, login, -, -, failed⟩ := answered rfl (by decide) (by decide)
  obtain rfl : Except.ok forbiddenReply = outcome := congrArg Prod.snd (List.cons.inj login).1
  refine ⟨_, applied, (failed ?_).mpr ?_⟩
  · simp [LoginFailed, forbiddenReply]
  · rintro _ ⟨⟩
    rfl

/-- A reply that forbids a login and sets a cookie all the same. -/
def forbiddenGrant : Reply :=
  ⟨403, grantReply.headers, []⟩

/-- The cookie of a login that was forbidden is held, and the next request carries it. -/
theorem applyCredentials_forbiddenGrant :
    LoginFailed (.ok forbiddenGrant) ∧
      ∃ after, Applied true "lp" "secret"
          [(Session.login "lp" "secret", .ok forbiddenGrant)] [] after ∧
        after.session.cookie = some "feedface" ∧
        (after.session.decorateCall (.get "/")).headers.values .cookie =
          [Text.utf8 "org.cups.sid=feedface"] := by
  have applied := Applied.direct reachable_keyed
    (rfl : (keyed.applyCredentials "lp" "secret").run Script.transport
      ⟨[.ok forbiddenGrant], 0, false⟩ = _)
  refine ⟨?_, _, applied, by decide, by decide⟩
  simp [LoginFailed, forbiddenGrant]

end Authentication

end InternetPrinting
