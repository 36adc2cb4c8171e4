import InternetPrinting.Http.Script
import InternetPrinting.Proofs.Authentication.CookieField
import InternetPrinting.Proofs.Client.Commands
import Mathlib.Data.List.Induction

/-!
# What a session holds

A session that can come about holds an authorization exactly for a usable pair,
and a cookie only next to it; all of that is what a call carries. Whether there
are credentials is asked of settings and of sessions, and the answers agree for
a client that was made from the settings or has just logged in. A login takes
the pair of the settings; where they hold none it is no login at all, and the
client goes on with what its user gave it.
-/

namespace InternetPrinting

open Http (Call Dialogue Headers Run Script Transport)

theorem usable_some_iff {username password : String} :
    Usable (some (username, password)) ↔ username ≠ "" ∧ password ≠ "" := by
  constructor
  · rintro ⟨_, _, ⟨⟩, usable⟩
    exact usable
  · intro usable
    exact ⟨username, password, rfl, usable⟩

theorem Settings.hasCredentials_iff (s : Settings) :
    s.hasCredentials = true ↔ Usable s.pair? := by
  unfold hasCredentials pair?
  cases s.username with
  | none => simp [Usable]
  | some username =>
      cases s.password with
      | none => simp [Usable]
      | some password => simp [usable_some_iff]

/-- Without a pair of the user's own, the pair that is held is that of the
settings or none. -/
theorem heldPair_of_notMem {settings : Settings} {commands : List Command}
    (own : ∀ username password, Command.setCredentials username password ∉ commands) :
    heldPair settings commands = settings.pair? ∨ heldPair settings commands = none := by
  induction commands using List.reverseRecOn with
  | nil => exact .inl rfl
  | append_singleton commands command ih =>
      have before := ih fun username password member =>
        own username password (List.mem_append_left _ member)
      have last : heldPair settings (commands ++ [command]) =
          command.pairAfter settings (heldPair settings commands) := List.foldl_concat ..
      rw [last]
      cases command with
      | setCredentials username password => exact absurd (by simp) (own username password)
      | login =>
          left
          rcases before with held | held <;> simp [Command.pairAfter, held]
      | clearCredentials => exact .inr rfl
      | _ => exact before

namespace Client

variable {σ : Type} {c : Client}

/-- After a login with the pair of the settings, whatever came before, the
session has credentials exactly if the settings do. -/
theorem hasCredentials_login (paired : c.settings.pair? ≠ none) (t : Transport σ) (state : σ) :
    (c.login.run t state).result.session.hasCredentials = c.settings.hasCredentials := by
  obtain ⟨⟨username, password⟩, held⟩ := Option.ne_none_iff_exists'.mp paired
  obtain ⟨cookie, applied⟩ :=
    c.authentication.exists_withCookie_applyCredentials username password t state
  have authorization : (c.login.run t state).result.session.authorization =
      (c.session.applyCredentials username password).authorization := by
    rw [login_eq, held]
    simp only [setCredentials, Dialogue.run_bind, Dialogue.run_done, session, applied]
    rfl
  rw [Bool.eq_iff_iff, Settings.hasCredentials_iff, held, usable_some_iff, Session.hasCredentials,
    authorization, Session.authorization_applyCredentials]
  by_cases empty : username = "" ∨ password = ""
  · rw [if_pos empty]
    rcases empty with rfl | rfl <;> simp
  · rw [if_neg empty]
    simpa using not_or.mp empty

theorem length_performAll (t : Transport σ) (state : σ) (c : Client) (commands : List Command) :
    (c.performAll t state commands).length = commands.length := by
  induction commands generalizing c state with
  | nil => rfl
  | cons command rest ih => simp [performAll, ih]

/-- A login at the end leaves a client that bears the pair of the settings, or
else the pair that the commands before it left. -/
theorem exists_run_login (settings : Settings) (environment : Environment) (t : Transport σ)
    (state : σ) (commands : List Command) :
    ∃ run : Run σ (Answer × Client),
      ((ofSettings settings environment).performAll t state
          (commands ++ [.login]))[commands.length]? = some run ∧
        run.result.2.Bears settings (settings.pair?.or (heldPair settings commands)) := by
  have within : commands.length <
      ((ofSettings settings environment).performAll t state (commands ++ [.login])).length := by
    rw [length_performAll, List.length_append]
    exact Nat.lt_succ_self _
  have performed := List.getElem?_eq_getElem within
  obtain ⟨command, before, now, told, bears, run⟩ :=
    (Bears.ofSettings settings environment).getElem?_performAll performed
  refine ⟨_, performed, ?_⟩
  rw [List.getElem?_concat_length] at told
  cases told
  rw [List.take_left' rfl] at bears
  rw [run, result_perform]
  exact bears.tell .login t now

/-- What a session can hold. Whatever was done with an authentication over whatever
transports, it has an authorization exactly if it holds a user name and a password
with no empty half, and then the one for this pair. A cookie is held only next to
it and only if logins are on, and is clean. All of it, and nothing else of the
kind, is carried by decorated header fields. The session of a client that was
just made has credentials if its settings do, and so it is after a login with the
pair of the settings; without one a login changes nothing and calls nobody. As
long as its user gives a client no other pair, that means after every login. -/
theorem heldSession_exact :
    (∀ (logsIn : Bool) (a : Authentication), Authentication.Reachable logsIn a →
      (a.session.hasCredentials = true ↔
        ∃ username password, a.session.Holds username password) ∧
      (∀ username password, a.session.Holds username password →
        a.session.authorization = some (basicAuthorization username password)) ∧
      (∀ cookie, a.session.cookie = some cookie →
        a.session.hasCredentials = true ∧ logsIn = true ∧ SessionCookie.Clean cookie) ∧
      ∀ h : Headers, a.session.CarriedBy (a.session.decorate h)) ∧
    (∀ (settings : Settings) (environment : Environment),
      (ofSettings settings environment).session.hasCredentials = settings.hasCredentials) ∧
    (∀ (c : Client) {σ : Type} (t : Transport σ) (state : σ),
      let run := c.login.run t state
      (c.settings.pair? ≠ none →
        run.result.session.hasCredentials = c.settings.hasCredentials) ∧
      (c.settings.pair? = none →
        c.settings.hasCredentials = false ∧ run = ⟨c, [], state⟩)) ∧
    (∀ (settings : Settings) (environment : Environment) {σ : Type} (t : Transport σ) (state : σ)
      (commands : List Command),
      (∀ username password, Command.setCredentials username password ∉ commands) →
      ∃ run : Run σ (Answer × Client),
        ((ofSettings settings environment).performAll t state
            (commands ++ [.login]))[commands.length]? = some run ∧
          run.result.2.session.hasCredentials = settings.hasCredentials) := by
  refine ⟨?_, ?_, ?_, ?_⟩
  · intro logsIn a reachable
    have consistent := reachable.consistent
    refine ⟨⟨?_, ?_⟩, fun _ _ => consistent.authorization_of_holds, ?_, consistent.carriedBy⟩
    · intro credentials
      obtain ⟨username, password, holds, -⟩ := consistent.exists_holds credentials
      exact ⟨username, password, holds⟩
    · rintro ⟨username, password, holds⟩
      exact Option.isSome_of_eq_some (consistent.authorization_of_holds holds)
    · intro cookie held
      obtain ⟨credentials, on⟩ := consistent.loggedIn (by simp [held])
      exact ⟨credentials, on, consistent.clean cookie held⟩
  · intro settings environment
    rw [Bool.eq_iff_iff, (Bears.ofSettings settings environment).hasCredentials_iff,
      settings.hasCredentials_iff]
  · intro c σ t state run
    refine ⟨fun paired => hasCredentials_login paired t state, ?_⟩
    intro unpaired
    constructor
    · rw [← Bool.not_eq_true, Settings.hasCredentials_iff, unpaired]
      simp [Usable]
    · simp only [run, login_eq, unpaired, Dialogue.run_done]
  · intro settings environment σ t state commands own
    obtain ⟨run, performed, bears⟩ := exists_run_login settings environment t state commands
    refine ⟨run, performed, ?_⟩
    have held : settings.pair?.or (heldPair settings commands) = settings.pair? := by
      rcases heldPair_of_notMem own with same | cleared
      · rw [same, Option.or_self]
      · rw [cleared, Option.or_none]
    rw [Bool.eq_iff_iff, bears.hasCredentials_iff, held, settings.hasCredentials_iff]

/-- The user lp, who has logged in. -/
def loggedIn : Authentication :=
  (((Authentication.initial true).act (.applyCredentials "lp" "secret")).run Script.transport
    ⟨[.ok Authentication.grantReply], 0, false⟩).result

/-- The call of a user who has logged in carries the pair and the cookie in place
of the authorization that the caller had put there. -/
theorem heldSession_exact_loggedIn :
    Authentication.Reachable true loggedIn ∧
      let forged := Headers.empty.append .authorization [0x78]
      let sent := loggedIn.session.decorate forged
      sent.values .authorization = [Text.utf8 "Basic bHA6c2VjcmV0"] ∧
      ∃ value text, sent.values .cookie = [value] ∧ Http.visibleText? value = some text ∧
        SessionCookie.pairs text = [("org.cups.sid".toList, "feedface".toList)] := by
  have reachable : Authentication.Reachable true loggedIn := .act .initial _ _ _
  obtain ⟨-, -, -, carried⟩ := heldSession_exact.1 true loggedIn reachable
  have holds : loggedIn.session.Holds "lp" "secret" := ⟨rfl, rfl, by decide, by decide⟩
  have cookie : loggedIn.session.cookie = some "feedface" := by decide +kernel
  have value : basicAuthorization "lp" "secret" = "Basic bHA6c2VjcmV0" := by decide +kernel
  refine ⟨reachable, ?_, (carried _).cookie "feedface" cookie⟩
  rw [← value]
  exact (carried _).authorization "lp" "secret" holds

end Client

end InternetPrinting
