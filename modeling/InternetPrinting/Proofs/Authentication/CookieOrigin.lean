import InternetPrinting.Proofs.Authentication.Exchange

/-!
# Where cookies come from

The history of an authentication lists what its owner gave it, the logins it
made of its own accord, and the requests that left, each with the session that
was held. A request carries a cookie only if the latest login brought it, if
that login was made with the pair that is still held, and if nothing but
requests has happened since.

## Implementation notes

The exchanges of a run do not say who wanted them, and a request of the owner
may look like a login. An exchange of a call begins and ends with the call, so
what a history calls a login is what stands between the two.
-/

namespace InternetPrinting

open Http (Call Dialogue Outcome Reply Run Script Transport)

namespace Authentication

/-- Something that happens to an authentication. -/
inductive Event
  /-- Its owner gives it a pair. -/
  | given (username password : String)
  /-- Its owner makes it forget everything. -/
  | cleared
  /-- It makes a login of its own. -/
  | login (exchange : Call × Outcome)
  /-- A request of its owner leaves, on the first try or once more, while a
  session is held. -/
  | request (session : Session) (exchange : Call × Outcome)

namespace Event

/-- The exchange with the server in an event, if there is one. -/
def exchange? : Event → Option (Call × Outcome)
  | .given _ _ | .cleared => none
  | .login exchange | .request _ exchange => some exchange

/-- The events in the exchanges of a call, under the session before and the
session after. -/
def ofExchanges (before after : Session) : List (Call × Outcome) → List Event
  | [] => []
  | first :: rest =>
    .request before first ::
      (rest.dropLast.map .login ++ rest.getLast?.toList.map (.request after))

theorem ofExchanges_concat (before after : Session) (first last : Call × Outcome)
    (middle : List (Call × Outcome)) :
    ofExchanges before after (first :: middle ++ [last]) =
      .request before first :: (middle.map .login ++ [.request after last]) := by
  simp [ofExchanges]

@[simp] theorem filterMap_exchange?_login (exchanges : List (Call × Outcome)) :
    (exchanges.map login).filterMap exchange? = exchanges := by
  simp [List.filterMap_map, Function.comp_def, exchange?]

end Event

/-- The events in an action that took a course. -/
def events (a : Authentication) {σ : Type} (course : Run σ Authentication) :
    Action → List Event
  | .setCredentials username password => [.given username password]
  | .applyCredentials username password =>
    .given username password :: course.exchanges.map .login
  | .clearCredentials => [.cleared]
  | .exchange _ => Event.ofExchanges a.session course.result.session course.exchanges

/-- The events of actions one after another over one transport. -/
def history {σ : Type} (t : Transport σ) (state : σ) (a : Authentication) :
    List Action → List Event
  | [] => []
  | action :: rest =>
    let course := (a.act action).run t state
    a.events course action ++ history t course.state course.result rest

/-- The events of an action hold its exchanges, all of them and in order. -/
theorem filterMap_exchange?_events (a : Authentication) (action : Action) {σ : Type}
    (t : Transport σ) (state : σ) :
    (a.events ((a.act action).run t state) action).filterMap Event.exchange? =
      ((a.act action).run t state).exchanges := by
  cases action with
  | setCredentials username password => rfl
  | clearCredentials => rfl
  | applyCredentials username password => exact Event.filterMap_exchange?_login _
  | exchange call =>
      simp only [events]
      generalize ((a.act (.exchange call)).run t state).exchanges = exchanges
      cases exchanges with
      | nil => rfl
      | cons first rest =>
          rcases List.eq_nil_or_concat rest with rfl | ⟨middle, last, rfl⟩
          · rfl
          · rw [List.concat_eq_append, ← List.cons_append, Event.ofExchanges_concat]
            simp [Event.exchange?, -List.filterMap_map]

/-- A cookie that the latest login of a history brought, made with the pair
that a session holds, with nothing but requests since. -/
inductive Granted : List Event → Session → String → Prop
  | login {earlier since : List Event} {session : Session} {username password cookie : String}
      {reply : Reply} (holds : session.Holds username password)
      (brought : SessionCookie.ofHeaders? reply.headers = some cookie)
      (requests : ∀ event ∈ since, ∃ session exchange, event = .request session exchange) :
      Granted (earlier ++ .login (Session.login username password, .ok reply) :: since)
        session cookie

/-- Another request takes nothing away from a grant. -/
theorem Granted.concat {past : List Event} {session : Session} {cookie : String}
    (granted : Granted past session cookie) (other : Session) (exchange : Call × Outcome) :
    Granted (past ++ [.request other exchange]) session cookie := by
  cases granted with
  | login holds brought requests =>
      rw [List.append_assoc, List.cons_append]
      apply Granted.login holds brought
      intro event member
      rcases List.mem_append.mp member with before | last
      · exact requests event before
      · exact ⟨other, exchange, List.mem_singleton.mp last⟩

/-- A request is a call as its session decorates it, so that it carries the
cookie of the session and no other, and if it carries one, then the events
before it grant it. -/
structure Accounted (past : List Event) (session : Session) (call : Call) : Prop where
  decorated : ∃ plain, call = session.decorateCall plain
  own : call.headers.values .cookie = session.cookieValue?.toList
  granted : call.headers.values .cookie = [] ∨
    ∃ cookie, Granted past session cookie ∧
      call.headers.values .cookie = [Text.utf8 ("org.cups.sid=" ++ cookie)]

/-- Every request among events is accounted for by the events before it. -/
def AllAccounted (past : List Event) : List Event → Prop
  | [] => True
  | event :: rest =>
    (∀ session exchange, event = .request session exchange →
      Accounted past session exchange.1) ∧ AllAccounted (past ++ [event]) rest

theorem allAccounted_append {past earlier later : List Event} :
    AllAccounted past (earlier ++ later) ↔
      AllAccounted past earlier ∧ AllAccounted (past ++ earlier) later := by
  induction earlier generalizing past with
  | nil => simp [AllAccounted]
  | cons event rest ih => simp [AllAccounted, ih, and_assoc]

theorem allAccounted_request {past : List Event} {session : Session}
    {exchange : Call × Outcome} :
    AllAccounted past [.request session exchange] ↔ Accounted past session exchange.1 := by
  simp [AllAccounted]

theorem AllAccounted.accounted {past before after : List Event} {session : Session}
    {exchange : Call × Outcome}
    (all : AllAccounted past (before ++ .request session exchange :: after)) :
    Accounted (past ++ before) session exchange.1 :=
  (allAccounted_append.mp all).2.1 session exchange rfl

/-- Logins carry no cookie of a session. -/
theorem allAccounted_login (past : List Event) (exchanges : List (Call × Outcome)) :
    AllAccounted past (exchanges.map .login) := by
  induction exchanges generalizing past with
  | nil => trivial
  | cons exchange rest ih =>
      refine ⟨?_, ih _⟩
      rintro session exchange ⟨⟩

/-- What a history says about the authentication at its end. -/
structure Tracked (logsIn : Bool) (past : List Event) (a : Authentication) : Prop where
  consistent : a.Consistent logsIn
  granted : ∀ cookie, a.session.cookie = some cookie → Granted past a.session cookie

namespace Tracked

variable {a : Authentication} {logsIn : Bool} {past : List Event}

theorem of_cookie_eq_none (consistent : a.Consistent logsIn) (bare : a.session.cookie = none) :
    Tracked logsIn past a where
  consistent := consistent
  granted cookie held := by
    rw [bare] at held
    cases held

/-- Requests do not change what is known. -/
theorem concat (tracked : Tracked logsIn past a) (session : Session)
    (exchange : Call × Outcome) : Tracked logsIn (past ++ [.request session exchange]) a where
  consistent := tracked.consistent
  granted cookie held := (tracked.granted cookie held).concat session exchange

/-- Whatever its caller put into a call, the session accounts for its cookie. -/
theorem accounted (tracked : Tracked logsIn past a) (c : Call) :
    Accounted past a.session (a.session.decorateCall c) := by
  have own : (a.session.decorateCall c).headers.values .cookie =
      a.session.cookieValue?.toList := Session.values_cookie_decorate a.session c.headers
  have carried : (a.session.decorateCall c).headers.values .cookie = _ :=
    tracked.consistent.values_cookie_decorate c.headers
  refine ⟨⟨c, rfl⟩, own, ?_⟩
  rw [carried]
  cases held : a.session.cookie with
  | none => exact .inl rfl
  | some cookie => exact .inr ⟨cookie, tracked.granted cookie held, rfl⟩

end Tracked

/-- A renewal grants the cookie that it brings. -/
theorem granted_of_renewal {past : List Event} {session : Session} {logsIn : Bool}
    {username password cookie : String} (holds : session.Holds username password) {σ : Type}
    (t : Transport σ) (state : σ)
    (brought : ((renewal logsIn username password).run t state).result = some cookie) :
    Granted
      (past ++ ((renewal logsIn username password).run t state).exchanges.map .login)
      session cookie := by
  rw [run_renewal] at brought ⊢
  split at brought
  · next on =>
    rw [if_pos on]
    simp only at brought ⊢
    generalize (t.send state (Session.login username password)).1 = outcome at brought ⊢
    cases outcome with
    | error fault => cases brought
    | ok reply => exact .login holds brought (by simp)
  · cases brought

namespace Tracked

variable {a : Authentication} {logsIn : Bool} {past : List Event} {σ : Type}
  (t : Transport σ) (state : σ)

theorem applyCredentials (consistent : a.Consistent logsIn) (username password : String) :
    let course := (a.applyCredentials username password).run t state
    Tracked logsIn (past ++ course.exchanges.map .login) course.result := by
  intro course
  have after : course.result.Consistent logsIn :=
    consistent.run_applyCredentials t state username password
  by_cases empty : username = "" ∨ password = ""
  · apply of_cookie_eq_none after
    change ((a.applyCredentials username password).run t state).result.session.cookie = none
    rw [applyCredentials_of_unusable empty]
    rfl
  · obtain ⟨named, secret⟩ := not_or.mp empty
    refine ⟨after, ?_⟩
    intro cookie held
    have holds := (setCredentials_holds (a := a) named secret).1
    simp only [course, applyCredentials_of_usable named secret, Dialogue.run_bind,
      Dialogue.run_done, List.append_nil] at held ⊢
    exact granted_of_renewal (holds_withCookie.mpr holds) t state held

/-- A renewal with the pair that is held replaces the cookie by one that it
grants. -/
theorem withCookie_renewal (consistent : a.Consistent logsIn)
    (credentials : a.session.hasCredentials = true) {username password : String}
    (holds : a.session.Holds username password) :
    Tracked logsIn
      (past ++ ((renewal logsIn username password).run t state).exchanges.map .login)
      (a.withCookie ((renewal logsIn username password).run t state).result) where
  consistent := consistent.withCookie credentials fun _ brought =>
    Consistent.cookie_of_renewal t state brought
  granted _ held := granted_of_renewal (holds_withCookie.mpr holds) t state held

/-- What happens in an exchange is accounted for, and so is what it leaves. -/
theorem exchange (tracked : Tracked logsIn past a) (c : Call) :
    let run := (a.exchange c).run t state
    let events := Event.ofExchanges a.session run.result.2.session run.exchanges
    AllAccounted past events ∧ Tracked logsIn (past ++ events) run.result.2 := by
  have first := tracked.accounted c
  rcases tracked.consistent.run_exchange_cases t state c with
    ⟨outcome, ran⟩ | ⟨username, password, reply, holds, authorization, ran⟩
  · rw [ran]
    exact ⟨allAccounted_request.mpr first, tracked.concat _ _⟩
  · rw [ran]
    simp only [Event.ofExchanges_concat]
    -- The replay is accounted for by the login between it and the first request.
    let now := (t.send state (a.session.decorateCall c)).2
    have credentials : a.session.hasCredentials = true := by
      simp [Session.hasCredentials, authorization]
    have renewed : Tracked logsIn
        (past ++ [.request a.session (a.session.decorateCall c, .ok reply)] ++
          ((renewal logsIn username password).run t now).exchanges.map .login)
        (a.withCookie ((renewal logsIn username password).run t now).result) :=
      withCookie_renewal t now tracked.consistent credentials holds
    constructor
    · refine ⟨(allAccounted_request.mpr first).1, allAccounted_append.mpr ⟨?_, ?_⟩⟩
      · exact allAccounted_login _ _
      · exact allAccounted_request.mpr (renewed.accounted c)
    · rw [List.append_cons, ← List.append_assoc]
      exact renewed.concat _ _

/-- Every action accounts for its requests and for the cookie that is held
behind it. -/
theorem act (tracked : Tracked logsIn past a) (action : Action) :
    let course := (a.act action).run t state
    AllAccounted past (a.events course action) ∧
      Tracked logsIn (past ++ a.events course action) course.result := by
  have consistent := tracked.consistent.run_act t state action
  cases action with
  | setCredentials username password =>
      refine ⟨⟨?_, trivial⟩, of_cookie_eq_none consistent rfl⟩
      rintro session exchange ⟨⟩
  | clearCredentials =>
      refine ⟨⟨?_, trivial⟩, of_cookie_eq_none consistent rfl⟩
      rintro session exchange ⟨⟩
  | applyCredentials username password =>
      refine ⟨⟨?_, allAccounted_login _ _⟩, ?_⟩
      · rintro session exchange ⟨⟩
      · rw [events, List.append_cons]
        exact applyCredentials t state tracked.consistent username password
  | exchange call =>
      have exchanged := tracked.exchange t state call
      simp only [Authentication.act, events, Dialogue.run_bind, Dialogue.run_done,
        List.append_nil] at exchanged ⊢
      exact exchanged

/-- The whole run accounts for its requests. -/
theorem history (tracked : Tracked logsIn past a) (actions : List Action) :
    AllAccounted past (a.history t state actions) := by
  induction actions generalizing past a state with
  | nil => trivial
  | cons action rest ih =>
      obtain ⟨accounted, after⟩ := tracked.act t state action
      exact allAccounted_append.mpr ⟨accounted, ih _ after⟩

end Tracked

/-- No request leaves with a cookie of somebody else. In whatever order an
authentication is given pairs, cleared and made to send calls, and whatever its
calls meet with: a request is decorated by the session of its time and carries
the cookie of that session alone, none of its caller's. Either that is none, or
it is the one value that the latest login brought. That login was made with the
pair that is held when the request leaves, and only requests have happened
since. -/
theorem history_cookie_granted (logsIn : Bool) (actions : List Action) {σ : Type}
    (t : Transport σ) (state : σ) {before after : List Event} {session : Session} {call : Call}
    {outcome : Outcome}
    (left : (initial logsIn).history t state actions =
      before ++ .request session (call, outcome) :: after) :
    (∃ plain, call = session.decorateCall plain) ∧
    call.headers.values .cookie = session.cookieValue?.toList ∧
    (call.headers.values .cookie = [] ∨
      ∃ cookie, Granted before session cookie ∧
        call.headers.values .cookie = [Text.utf8 ("org.cups.sid=" ++ cookie)]) := by
  have tracked : Tracked logsIn [] (initial logsIn) :=
    .of_cookie_eq_none (.initial logsIn) rfl
  have all := tracked.history t state actions
  rw [left] at all
  have accounted := all.accounted
  exact ⟨accounted.decorated, accounted.own, accounted.granted⟩

/-- A call whose caller put a cookie of his own into it. -/
def forgedCall : Call :=
  { Call.get "/" with headers := Http.Headers.empty.append .cookie (Text.utf8 "org.cups.sid=mine") }

/-- After a refusal the call of a caller with a cookie of his own leaves with
the cookie of the login between. -/
theorem history_cookie_granted_forgedCall :
    ∃ (before : List Event) (session : Session) (call : Call),
      (initial true).history Script.transport
          ⟨[.ok refusalReply, .ok grantReply, .ok refusalReply], 0, false⟩
          [.setCredentials "lp" "secret", .exchange forgedCall] =
        before ++ .request session (call, .ok refusalReply) :: [] ∧
      ∃ cookie, Granted before session cookie ∧
        call.headers.values .cookie = [Text.utf8 ("org.cups.sid=" ++ cookie)] := by
  let first := keyed.session.decorateCall forgedCall
  let session := (keyed.withCookie (some "feedface")).session
  let before : List Event :=
    [.given "lp" "secret", .request keyed.session (first, .ok refusalReply),
      .login (Session.login "lp" "secret", .ok grantReply)]
  have left : (initial true).history Script.transport
      ⟨[.ok refusalReply, .ok grantReply, .ok refusalReply], 0, false⟩
      [.setCredentials "lp" "secret", .exchange forgedCall] =
        before ++ .request session (session.decorateCall forgedCall, .ok refusalReply) :: [] := by
    rfl
  refine ⟨before, session, session.decorateCall forgedCall, left, ?_⟩
  obtain ⟨-, own, granted⟩ := history_cookie_granted true _ Script.transport _ left
  apply granted.resolve_left
  rw [own]
  decide

end Authentication

end InternetPrinting
