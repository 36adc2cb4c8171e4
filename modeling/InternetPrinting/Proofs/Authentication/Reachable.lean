import InternetPrinting.Proofs.Authentication.Renewal

/-!
# Reachable authentications

An authentication starts with nothing known and is changed by four actions, two
of which talk to a server. Whatever the servers answer, the authorization value
belongs to the pair that is held, and a cookie is held only next to it, only if
logins are on, and only in a form that can be sent back.
-/

namespace InternetPrinting

open Http (Call Dialogue Outcome Transport)

namespace Authentication

variable {a : Authentication} {logsIn : Bool} {username password : String}

/-- What its owner does with an authentication. -/
inductive Action
  | setCredentials (username password : String)
  | applyCredentials (username password : String)
  | clearCredentials
  | exchange (call : Call)

/-- An action as a dialogue that ends with the authentication after it. -/
def act (a : Authentication) : Action → Dialogue Authentication
  | .setCredentials username password => .done (a.setCredentials username password)
  | .applyCredentials username password => a.applyCredentials username password
  | .clearCredentials => .done a.clearCredentials
  | .exchange call => (a.exchange call).bind fun ended => .done ended.2

/-- What actions lead to, each over some transport in any state. -/
inductive Reachable (logsIn : Bool) : Authentication → Prop
  | initial : Reachable logsIn (.initial logsIn)
  | act {a : Authentication} {σ : Type} (before : Reachable logsIn a) (action : Action)
      (t : Transport σ) (state : σ) : Reachable logsIn ((a.act action).run t state).result

/-- What all actions preserve. -/
structure Consistent (logsIn : Bool) (a : Authentication) : Prop where
  setting : a.logsIn = logsIn
  authorization : ∀ value, a.session.authorization = some value ↔
    ∃ username password, a.session.Holds username password ∧
      value = basicAuthorization username password
  loggedIn : a.session.cookie ≠ none → a.session.hasCredentials = true ∧ logsIn = true
  clean : ∀ cookie, a.session.cookie = some cookie → SessionCookie.Clean cookie

@[simp] theorem holds_withCookie {cookie : Option String} :
    (a.withCookie cookie).session.Holds username password ↔
      a.session.Holds username password := by
  constructor <;> exact fun ⟨name, word, named, secret⟩ => ⟨name, word, named, secret⟩

namespace Consistent

theorem exists_holds (consistent : a.Consistent logsIn)
    (credentials : a.session.hasCredentials = true) :
    ∃ username password, a.session.Holds username password ∧
      a.session.authorization = some (basicAuthorization username password) := by
  obtain ⟨value, held⟩ := Option.isSome_iff_exists.mp credentials
  obtain ⟨username, password, holds, rfl⟩ := (consistent.authorization value).mp held
  exact ⟨username, password, holds, held⟩

theorem authorization_of_holds (consistent : a.Consistent logsIn)
    (holds : a.session.Holds username password) :
    a.session.authorization = some (basicAuthorization username password) :=
  (consistent.authorization _).mpr ⟨username, password, holds, rfl⟩

/-- There are credentials exactly if a pair is held of which neither half is empty. -/
theorem hasCredentials_iff (consistent : a.Consistent logsIn) :
    a.session.hasCredentials = true ↔
      ∃ username password, a.session.Holds username password := by
  constructor
  · intro credentials
    obtain ⟨username, password, holds, -⟩ := consistent.exists_holds credentials
    exact ⟨username, password, holds⟩
  · rintro ⟨username, password, holds⟩
    exact Option.isSome_iff_exists.mpr ⟨_, consistent.authorization_of_holds holds⟩

theorem initial (logsIn : Bool) : (Authentication.initial logsIn).Consistent logsIn where
  setting := rfl
  authorization value := by
    constructor
    · rintro ⟨⟩
    · rintro ⟨username, password, holds, -⟩
      cases holds.username_eq
  loggedIn cookie := absurd rfl cookie
  clean cookie held := by cases held

theorem setCredentials (consistent : a.Consistent logsIn) (username password : String) :
    (a.setCredentials username password).Consistent logsIn where
  setting := consistent.setting
  authorization value := by
    change (a.session.applyCredentials username password).authorization = some value ↔ _
    rw [Session.authorization_applyCredentials]
    constructor
    · intro made
      split at made
      · cases made
      · next usable =>
        cases made
        obtain ⟨named, secret⟩ := not_or.mp usable
        exact ⟨username, password, ⟨rfl, rfl, named, secret⟩, rfl⟩
    · rintro ⟨_, _, ⟨⟨⟩, ⟨⟩, named, secret⟩, rfl⟩
      rw [if_neg (by simp [named, secret])]
  loggedIn cookie := absurd rfl cookie
  clean cookie held := by cases held

theorem clearCredentials (consistent : a.Consistent logsIn) :
    a.clearCredentials.Consistent logsIn where
  setting := consistent.setting
  authorization := (initial logsIn).authorization
  loggedIn cookie := absurd rfl cookie
  clean cookie held := by cases held

/-- A clean cookie may be held next to credentials if logins are on. -/
theorem withCookie (consistent : a.Consistent logsIn)
    (credentials : a.session.hasCredentials = true) {cookie : Option String}
    (brought : ∀ value, cookie = some value → logsIn = true ∧ SessionCookie.Clean value) :
    (a.withCookie cookie).Consistent logsIn where
  setting := consistent.setting
  authorization value := by
    simp only [holds_withCookie]
    exact consistent.authorization value
  loggedIn held := by
    obtain ⟨value, held⟩ := Option.ne_none_iff_exists'.mp held
    exact ⟨credentials, (brought value held).1⟩
  clean value held := (brought value held).2

variable {σ : Type} (t : Transport σ) (state : σ)

/-- A renewal brings a cookie only if logins are on, and then a clean one. -/
theorem cookie_of_renewal {value : String}
    (brought : ((renewal logsIn username password).run t state).result = some value) :
    logsIn = true ∧ SessionCookie.Clean value := by
  unfold renewal at brought
  split at brought
  · next on =>
    simp only [Dialogue.run] at brought
    generalize (t.send state (Session.login username password)).1 = outcome at brought
    cases outcome with
    | error fault => cases brought
    | ok reply => exact ⟨on, SessionCookie.clean_of_ofHeaders? brought⟩
  · cases brought

theorem run_applyCredentials (consistent : a.Consistent logsIn) (username password : String) :
    ((a.applyCredentials username password).run t state).result.Consistent logsIn := by
  by_cases empty : username = "" ∨ password = ""
  · rw [applyCredentials_of_unusable empty]
    exact consistent.setCredentials username password
  · obtain ⟨named, secret⟩ := not_or.mp empty
    rw [applyCredentials_of_usable named secret, Dialogue.run_bind]
    apply (consistent.setCredentials username password).withCookie
    · simp [Session.hasCredentials, (setCredentials_holds named secret).2]
    · intro value brought
      rw [consistent.setting] at brought
      exact cookie_of_renewal t state brought

/-- An exchange makes its call once and changes nothing, or it makes the call once more
with the cookie of a renewal between. -/
theorem run_exchange_cases (consistent : a.Consistent logsIn) (c : Call) :
    let first := a.session.decorateCall c
    let sent := t.send state first
    (∃ outcome, (a.exchange c).run t state = ⟨(outcome, a), [(first, outcome)], sent.2⟩) ∨
    ∃ username password reply, a.session.Holds username password ∧
      a.session.authorization = some (basicAuthorization username password) ∧
      let renewed := (renewal logsIn username password).run t sent.2
      let replay := (a.withCookie renewed.result).session.decorateCall c
      let again := t.send renewed.state replay
      (a.exchange c).run t state = ⟨(again.1, a.withCookie renewed.result),
        (first, .ok reply) :: renewed.exchanges ++ [(replay, again.1)], again.2⟩ := by
  cases replied : (t.send state (a.session.decorateCall c)).1 with
  | error fault => exact .inl ⟨.error fault, run_exchange_of_error t state c replied⟩
  | ok reply =>
      rcases a.settled_or_refused reply with settled | ⟨refused, credentials⟩
      · exact .inl ⟨.ok reply, run_exchange_of_reply t state c replied settled⟩
      · obtain ⟨username, password, holds, authorization⟩ := consistent.exists_holds credentials
        have ran := run_exchange_of_refused t state c replied refused holds authorization
        rw [consistent.setting] at ran
        exact .inr ⟨username, password, reply, holds, authorization, ran⟩

theorem run_exchange (consistent : a.Consistent logsIn) (c : Call) :
    ((a.exchange c).run t state).result.2.Consistent logsIn := by
  rcases consistent.run_exchange_cases t state c with
    ⟨outcome, ran⟩ | ⟨username, password, reply, holds, authorization, ran⟩
  · rw [ran]
    exact consistent
  · rw [ran]
    apply consistent.withCookie
    · simp [Session.hasCredentials, authorization]
    · exact fun _ brought => cookie_of_renewal t _ brought

/-- Every action preserves consistency, whatever its calls meet with. -/
theorem run_act (consistent : a.Consistent logsIn) (action : Action) :
    ((a.act action).run t state).result.Consistent logsIn := by
  cases action with
  | setCredentials username password => exact consistent.setCredentials username password
  | applyCredentials username password =>
      exact consistent.run_applyCredentials t state username password
  | clearCredentials => exact consistent.clearCredentials
  | exchange call =>
      rw [act, Dialogue.run_bind]
      exact consistent.run_exchange t state call

end Consistent

theorem Reachable.consistent (reachable : Reachable logsIn a) : a.Consistent logsIn := by
  induction reachable with
  | initial => exact .initial logsIn
  | act before action t state ih => exact ih.run_act t state action

end Authentication

end InternetPrinting
