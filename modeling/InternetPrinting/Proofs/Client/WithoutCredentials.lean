import InternetPrinting.Proofs.Client.Commands
import InternetPrinting.Proofs.Client.Inquiry

/-!
# Clients without credentials

A client that holds no usable pair makes each call of a command once and plain:
with no authorization and no cookie, and never as a login. It does not matter
which pairs were held before and what cookies their logins brought.
-/

namespace InternetPrinting

open Http (Call Dialogue Method Outcome Run Script Transport)

/-- Calls without authorization and cookies, to some of the given targets in
order and to each of them once at most. -/
structure Plain (targets : List (Method × String)) (calls : List Call) : Prop where
  headers : ∀ call ∈ calls,
    call.headers.values .authorization = [] ∧ call.headers.values .cookie = []
  targets : (calls.map fun call => (call.method, call.path)).Sublist targets

namespace Plain

variable {targets others : List (Method × String)} {calls more : List Call}

theorem none (targets : List (Method × String)) : Plain targets [] where
  headers := by simp
  targets := List.nil_sublist targets

theorem append (first : Plain targets calls) (second : Plain others more) :
    Plain (targets ++ others) (calls ++ more) where
  headers call member := by
    rcases List.mem_append.mp member with before | behind
    · exact first.headers call before
    · exact second.headers call behind
  targets := by
    rw [List.map_append]
    exact first.targets.append second.targets

/-- Without an authorization a session leaves calls plain. -/
theorem decorateCall {s : Session} (bare : s.hasCredentials = false) (call : Call) :
    Plain [(call.method, call.path)] [s.decorateCall call] where
  headers := by
    have cookie : s.cookieValue? = .none := by simp [Session.cookieValue?, bare]
    rw [List.forall_mem_singleton]
    change (s.decorate call.headers).values _ = [] ∧ (s.decorate call.headers).values _ = []
    rw [Session.values_authorization_decorate, Session.values_cookie_decorate,
      Session.authorizationValue?_of_bare bare, cookie]
    exact ⟨rfl, rfl⟩
  targets := List.Sublist.refl _

end Plain

namespace Authentication

/-- Without credentials a call is made once, whatever the reply. -/
theorem exchange_of_bare {a : Authentication} (bare : a.session.hasCredentials = false)
    (c : Call) : a.exchange c = a.ask c := by
  unfold exchange ask
  congr 1
  funext outcome
  cases outcome with
  | error fault => rfl
  | ok reply => exact if_neg (by simp [bare])

end Authentication

namespace Client

variable {α β : Type} {c : Client} {targets others : List (Method × String)}

/-- A dialogue of a client that makes plain calls and leaves the client alone. -/
def StaysPlain (c : Client) (targets : List (Method × String)) (d : Dialogue (α × Client)) :
    Prop :=
  ∀ ⦃σ : Type⦄ (t : Transport σ) (state : σ),
    Plain targets (d.run t state).calls ∧ (d.run t state).result.2 = c

namespace StaysPlain

theorem done (targets : List (Method × String)) (result : α) :
    c.StaysPlain targets (.done (result, c)) :=
  fun _ _ _ => ⟨.none targets, rfl⟩

theorem bind {d : Dialogue (α × Client)} {f : α × Client → Dialogue (β × Client)}
    (first : c.StaysPlain targets d)
    (second : ∀ result, c.StaysPlain others (f (result, c))) :
    c.StaysPlain (targets ++ others) (d.bind f) := by
  intro σ t state
  obtain ⟨calls, same⟩ := first t state
  obtain ⟨more, last⟩ := second (d.run t state).result.1 t (d.run t state).state
  rw [← same] at more last
  rw [Dialogue.run_bind]
  refine ⟨?_, last.trans same⟩
  rw [Run.calls, List.map_append]
  exact calls.append more

/-- What is made of a result needs no calls. -/
theorem map {d : Dialogue (α × Client)} (first : c.StaysPlain targets d) (wrap : α → β) :
    c.StaysPlain targets (d.bind fun result => .done (wrap result.1, result.2)) := by
  rw [← List.append_nil targets]
  exact first.bind fun result => .done [] (wrap result)

end StaysPlain

variable (bare : c.session.hasCredentials = false)
include bare

theorem staysPlain_exchange (call : Call) :
    c.StaysPlain [(call.method, call.path)] (c.exchange call) := by
  intro σ t state
  rw [exchange, Authentication.exchange_of_bare bare]
  exact ⟨.decorateCall bare call, rfl⟩

/-- A message that cannot be built is not even sent once. -/
theorem staysPlain_request (path : String) (message : Except Fault Bytes) :
    c.StaysPlain [(.post, path)] (c.request path message) := by
  cases message with
  | error fault => exact .done _ _
  | ok body => exact (staysPlain_exchange bare (.message path body)).map responseIn

/-- A look at the credentials is one plain call. -/
theorem staysPlain_debugAuth (wrap : Except Fault AuthProbe → α) :
    c.StaysPlain [(.get, "/admin")] (c.debugAuth.bind fun probe => .done (wrap probe, c)) := by
  intro σ t state
  rw [Dialogue.run_bind, run_debugAuth]
  exact ⟨.decorateCall bare (.get "/admin"), rfl⟩

theorem staysPlain_getPrinters (id : RequestId) :
    c.StaysPlain [(.post, "/"), (.get, "/admin")] (c.getPrinters id) := by
  apply (staysPlain_request bare "/" _).bind
  intro result
  dsimp only
  split
  · exact staysPlain_debugAuth bare fun _ => _
  · exact .done _ result

theorem staysPlain_getVersionByMessage (id : RequestId) :
    c.StaysPlain [(.post, "/admin/")] (c.getVersionByMessage id) :=
  (staysPlain_request bare "/admin/" _).map fun result => result.bind versionIn

theorem staysPlain_getVersionFromPage :
    c.StaysPlain [(.get, "/")] c.getVersionFromPage :=
  (staysPlain_exchange bare (.get "/")).map fun result => result.bind versionOn

theorem staysPlain_getVersion (id : RequestId) :
    c.StaysPlain [(.post, "/admin/"), (.get, "/")] (c.getVersion id) := by
  apply (staysPlain_getVersionByMessage bare id).bind
  intro byMessage
  cases byMessage with
  | ok version => exact .done _ _
  | error ipp =>
      apply (staysPlain_getVersionFromPage bare).bind
      intro fromPage
      cases fromPage with
      | ok version => exact .done [] _
      | error http => exact .done [] _

omit bare

/-- A pair with an empty half is kept without a call. -/
theorem setCredentials_of_unusable {username password : String}
    (unusable : ¬ Usable (some (username, password))) :
    c.setCredentials username password =
      .done { c with authentication := c.authentication.setCredentials username password } := by
  have empty : username = "" ∨ password = "" := by
    by_contra full
    obtain ⟨named, secret⟩ := not_or.mp full
    exact unusable ⟨username, password, rfl, named, secret⟩
  rw [setCredentials, Authentication.applyCredentials_of_unusable empty]
  rfl

end Client

/-- Where the calls of a command go if there are no credentials. -/
def Command.targets : Command → List (Method × String)
  | .printJob _ printer _ _ _ | .getJobs _ printer | .getPrinterAttributes _ printer =>
    [(.post, printerPath printer)]
  | .getPrinters _ => [(.post, "/"), (.get, "/admin")]
  | .getVersion _ => [(.post, "/admin/"), (.get, "/")]
  | .getVersionByMessage _ => [(.post, "/admin/")]
  | .getVersionFromPage => [(.get, "/")]
  | .debugAuth => [(.get, "/admin")]
  | .setCredentials _ _ | .login | .clearCredentials | .disconnect => []

theorem printerPath_ne_loginPath (printer : String) : printerPath printer ≠ "/admin" := by
  intro same
  have characters := congrArg String.toList same
  simp [printerPath, String.toList_append] at characters

namespace Command

theorem nodup_targets (command : Command) : command.targets.Nodup := by
  cases command <;> simp [targets]

/-- None of the calls is a login. -/
theorem login_notMem_targets (command : Command) :
    (Method.post, "/admin") ∉ command.targets := by
  cases command with
  | printJob _ printer | getJobs _ printer | getPrinterAttributes _ printer =>
      simpa [targets] using (printerPath_ne_loginPath printer).symm
  | _ => simp [targets]

end Command

namespace Client.Bears

variable {c : Client} {settings : Settings} {pair : Option (String × String)}

theorem bare (bears : c.Bears settings pair) (unusable : ¬ Usable pair) :
    c.session.hasCredentials = false :=
  Bool.eq_false_iff.mpr fun credentials => unusable (bears.hasCredentials_iff.mp credentials)

/-- A command after which no usable pair is held makes each of its calls once
at most, and plain. -/
theorem plain_tell (bears : c.Bears settings pair) {command : Command}
    (unusable : ¬ Usable (command.pairAfter settings pair)) {σ : Type} (t : Transport σ)
    (state : σ) : Plain command.targets ((c.tell command).run t state).calls := by
  cases command with
  | printJob | getJobs | getPrinterAttributes =>
      exact ((staysPlain_request (bears.bare unusable) _ _).map Answer.response t state).1
  | getPrinters id =>
      exact ((staysPlain_getPrinters (bears.bare unusable) id).map Answer.response t state).1
  | getVersion id =>
      exact ((staysPlain_getVersion (bears.bare unusable) id).map Answer.version t state).1
  | getVersionByMessage id =>
      exact ((staysPlain_getVersionByMessage (bears.bare unusable) id).map Answer.version t state).1
  | getVersionFromPage =>
      exact ((staysPlain_getVersionFromPage (bears.bare unusable)).map Answer.version t state).1
  | debugAuth => exact (staysPlain_debugAuth (bears.bare unusable) Answer.probe t state).1
  | setCredentials username password =>
      rw [Client.tell, setCredentials_of_unusable unusable]
      exact .none _
  | login =>
      rw [Client.tell, login_eq, bears.settings_eq]
      cases held : settings.pair? with
      | none => exact .none _
      | some own =>
          simp only [Command.pairAfter, held, Option.some_or] at unusable
          dsimp only
          rw [setCredentials_of_unusable unusable]
          exact .none _
  | clearCredentials => exact .none _
  | disconnect => exact .none _

end Client.Bears

namespace Client

/-- Credentials that are cleared or were never whole do not reach the server.
As long as the commands to a client leave it without a usable pair, no call of
any command carries an authorization or a cookie, none is a login, and a command
makes none of its calls twice, whatever the replies to them and whatever pairs
and cookies were held earlier. -/
theorem calls_performAll_of_unusable (settings : Settings) (environment : Environment) {σ : Type}
    (t : Transport σ) (state : σ) (commands : List Command) {i : Nat}
    {run : Run σ (Answer × Client)}
    (performed : ((ofSettings settings environment).performAll t state commands)[i]? = some run)
    (unusable : ¬ Usable (heldPair settings (commands.take (i + 1)))) :
    (∀ call ∈ run.calls,
      call.headers.values .authorization = [] ∧ call.headers.values .cookie = [] ∧
        ¬ (call.method = .post ∧ call.path = "/admin")) ∧
    (run.calls.map fun call => (call.method, call.path)).Nodup := by
  obtain ⟨command, before, now, told, bears, rfl⟩ :=
    (Bears.ofSettings settings environment).getElem?_performAll performed
  have held : heldPair settings (commands.take (i + 1)) =
      command.pairAfter settings
        ((commands.take i).foldl (Command.pairAfter settings) settings.pair?) := by
    rw [heldPair, List.take_add_one, told, Option.toList_some, List.foldl_append]
    rfl
  rw [held] at unusable
  have plain := bears.plain_tell unusable t now
  rw [Run.calls, ← exchanges_perform, ← Run.calls] at plain
  constructor
  · intro call member
    obtain ⟨authorization, cookie⟩ := plain.headers call member
    refine ⟨authorization, cookie, ?_⟩
    rintro ⟨posted, path⟩
    apply command.login_notMem_targets
    rw [← posted, ← path]
    exact plain.targets.subset (List.mem_map_of_mem member)
  · exact command.nodup_targets.sublist plain.targets

/-- Settings of the user lp, who is about to log in. -/
def lpSettings : Settings :=
  Settings.standard.withCredentials "lp" "secret"

/-- A client that got a cookie and is told to forget its pair makes its next
call once when that is refused. -/
theorem calls_performAll_of_unusable_refused :
    let commands : List Command :=
      [.getPrinters ⟨1, by decide⟩, .clearCredentials, .getPrinters ⟨2, by decide⟩]
    let refusal : Outcome := .ok Authentication.refusalReply
    let script : Script :=
      ⟨[refusal, .ok Authentication.grantReply, refusal, refusal, refusal, refusal], 0, false⟩
    ∃ run, ((ofSettings lpSettings {}).performAll Script.transport script commands)[2]? =
        some run ∧
      ¬ Usable (heldPair lpSettings commands) ∧
      run.calls.map (·.path) = ["/", "/admin"] ∧
      (∀ call ∈ run.calls,
        call.headers.values .authorization = [] ∧ call.headers.values .cookie = [] ∧
          ¬ (call.method = .post ∧ call.path = "/admin")) ∧
      (run.calls.map fun call => (call.method, call.path)).Nodup := by
  intro commands refusal script
  have unusable : ¬ Usable (heldPair lpSettings commands) := by
    rintro ⟨username, password, held, -⟩
    cases held
  refine ⟨_, rfl, unusable, by decide +kernel, ?_⟩
  exact calls_performAll_of_unusable lpSettings {} Script.transport script commands (i := 2) rfl
    unusable

end Client

end InternetPrinting
