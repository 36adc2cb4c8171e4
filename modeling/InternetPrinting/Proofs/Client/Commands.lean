import InternetPrinting.Client.Command
import InternetPrinting.Proofs.Authentication.Reachable

/-!
# Runs of commands

A command is a dialogue, but for closing the transport, and commands are carried
out one after another over the transport that each of them leaves to the next.
Whatever the server answers, the pair that a client holds is the one its user
gave it last, and the client has credentials exactly if that pair is usable.
-/

namespace InternetPrinting

open Http (Call Dialogue Run Transport)

namespace Http.Dialogue

variable {α β : Type} {post : β → Prop} {between : α → Prop}

/-- Every run of a dialogue has a result of one kind. -/
def Ensures (post : α → Prop) (d : Dialogue α) : Prop :=
  ∀ ⦃σ : Type⦄ (t : Transport σ) (state : σ), post (d.run t state).result

theorem Ensures.bind {d : Dialogue α} {f : α → Dialogue β} (first : d.Ensures between)
    (second : ∀ result, between result → (f result).Ensures post) : (d.bind f).Ensures post := by
  intro σ t state
  rw [run_bind]
  exact second _ (first t state) t _

end Http.Dialogue

namespace Authentication

variable {a : Authentication} {logsIn : Bool}

/-- An exchange changes the cookie at most. -/
theorem Consistent.exists_withCookie_exchange (consistent : a.Consistent logsIn) (c : Call)
    {σ : Type} (t : Transport σ) (state : σ) :
    ∃ cookie, ((a.exchange c).run t state).result.2 = a.withCookie cookie := by
  rcases consistent.run_exchange_cases t state c with
    ⟨outcome, ran⟩ | ⟨username, password, reply, -, -, ran⟩
  · exact ⟨a.session.cookie, by rw [ran]; rfl⟩
  · exact ⟨_, by rw [ran]⟩

/-- Applying a pair is keeping it with some cookie. -/
theorem exists_withCookie_applyCredentials (a : Authentication) (username password : String)
    {σ : Type} (t : Transport σ) (state : σ) :
    ∃ cookie, ((a.applyCredentials username password).run t state).result =
      (a.setCredentials username password).withCookie cookie := by
  by_cases empty : username = "" ∨ password = ""
  · rw [applyCredentials_of_unusable empty]
    exact ⟨none, rfl⟩
  · obtain ⟨named, secret⟩ := not_or.mp empty
    rw [applyCredentials_of_usable named secret, Dialogue.run_bind]
    exact ⟨_, rfl⟩

end Authentication

/-- A pair of which neither half is empty. -/
def Usable (pair : Option (String × String)) : Prop :=
  ∃ username password, pair = some (username, password) ∧ username ≠ "" ∧ password ≠ ""

namespace Settings

/-- The pair that settings hold, if they hold both halves. -/
def pair? (s : Settings) : Option (String × String) :=
  match s.username, s.password with
  | some username, some password => some (username, password)
  | _, _ => none

end Settings

/-- The pair that is held after a command, when one may be held before. -/
def Command.pairAfter (settings : Settings) (pair : Option (String × String)) :
    Command → Option (String × String)
  | .setCredentials username password => some (username, password)
  | .login => settings.pair?.or pair
  | .clearCredentials => none
  | _ => pair

/-- The pair that is held after commands to a client with the given settings. -/
def heldPair (settings : Settings) (commands : List Command) : Option (String × String) :=
  commands.foldl (Command.pairAfter settings) settings.pair?

namespace Client

variable {σ : Type}

/-- The dialogue of a command. -/
def tell (c : Client) : Command → Dialogue (Answer × Client)
  | .printJob id printer document jobName options =>
    (c.printJob id printer document jobName options).bind fun result =>
      .done (.response result.1, result.2)
  | .getPrinters id =>
    (c.getPrinters id).bind fun result => .done (.response result.1, result.2)
  | .getJobs id printer =>
    (c.getJobs id printer).bind fun result => .done (.response result.1, result.2)
  | .getPrinterAttributes id printer =>
    (c.getPrinterAttributes id printer).bind fun result => .done (.response result.1, result.2)
  | .getVersion id =>
    (c.getVersion id).bind fun result => .done (.version result.1, result.2)
  | .getVersionByMessage id =>
    (c.getVersionByMessage id).bind fun result => .done (.version result.1, result.2)
  | .getVersionFromPage =>
    c.getVersionFromPage.bind fun result => .done (.version result.1, result.2)
  | .debugAuth => c.debugAuth.bind fun probe => .done (.probe probe, c)
  | .setCredentials username password =>
    (c.setCredentials username password).bind fun c => .done (.nothing, c)
  | .login => c.login.bind fun c => .done (.nothing, c)
  | .clearCredentials => .done (.nothing, c.clearCredentials)
  | .disconnect => .done (.nothing, c)

/-- What a command comes to is what its dialogue comes to. -/
theorem result_perform (t : Transport σ) (state : σ) (c : Client) (command : Command) :
    (c.perform t state command).result = ((c.tell command).run t state).result := by
  cases command <;> rfl

theorem exchanges_perform (t : Transport σ) (state : σ) (c : Client) (command : Command) :
    (c.perform t state command).exchanges = ((c.tell command).run t state).exchanges := by
  cases command <;> rfl

/-- A new client is given the pair of its settings, if they hold one. -/
theorem authentication_ofSettings (settings : Settings) (environment : Environment) :
    (ofSettings settings environment).authentication =
      match settings.pair? with
      | some (username, password) =>
        (Authentication.initial settings.sessionLogin).setCredentials username password
      | none => .initial settings.sessionLogin := by
  unfold ofSettings Settings.pair?
  cases settings.username <;> cases settings.password <;> rfl

theorem login_eq (c : Client) :
    c.login =
      match c.settings.pair? with
      | some (username, password) => c.setCredentials username password
      | none => .done c := by
  unfold login Settings.pair?
  cases c.settings.username <;> cases c.settings.password <;> rfl

/-- The runs of commands one after another over one transport. -/
def performAll (t : Transport σ) (state : σ) (c : Client) :
    List Command → List (Run σ (Answer × Client))
  | [] => []
  | command :: rest =>
    let run := c.perform t state command
    run :: performAll t run.state run.result.2 rest

/-- A client with the given settings, however it came about, that holds a pair. -/
structure Bears (c : Client) (settings : Settings) (pair : Option (String × String)) : Prop where
  settings_eq : c.settings = settings
  consistent : c.authentication.Consistent settings.sessionLogin
  username_eq : c.session.username = pair.map (·.1)
  password_eq : c.session.password = pair.map (·.2)

namespace Bears

variable {c : Client} {settings : Settings} {pair : Option (String × String)}

/-- A client has credentials exactly if the pair it holds is usable. -/
theorem hasCredentials_iff (bears : c.Bears settings pair) :
    c.session.hasCredentials = true ↔ Usable pair := by
  constructor
  · intro credentials
    obtain ⟨username, password, holds⟩ := bears.consistent.hasCredentials_iff.mp credentials
    have named : pair.map (·.1) = some username := bears.username_eq.symm.trans holds.username_eq
    have secret : pair.map (·.2) = some password := bears.password_eq.symm.trans holds.password_eq
    obtain ⟨held, rfl, rfl⟩ := Option.map_eq_some_iff.mp named
    rw [Option.map_some] at secret
    cases secret
    exact ⟨held.1, held.2, rfl, holds.username_ne, holds.password_ne⟩
  · rintro ⟨username, password, rfl, named, secret⟩
    exact bears.consistent.hasCredentials_iff.mpr
      ⟨username, password, bears.username_eq, bears.password_eq, named, secret⟩

theorem ofSettings (settings : Settings) (environment : Environment) :
    (Client.ofSettings settings environment).Bears settings settings.pair? := by
  have initial : (Authentication.initial settings.sessionLogin).Consistent settings.sessionLogin :=
    .initial settings.sessionLogin
  have start := authentication_ofSettings settings environment
  cases held : settings.pair? with
  | none =>
      rw [held] at start
      exact ⟨rfl, start ▸ initial, by rw [session, start]; rfl, by rw [session, start]; rfl⟩
  | some pair =>
      rw [held] at start
      exact ⟨rfl, start ▸ initial.setCredentials _ _, by rw [session, start]; rfl,
        by rw [session, start]; rfl⟩

/-- An exchange leaves the pair alone, for it changes the cookie at most. -/
theorem exchange (bears : c.Bears settings pair) (call : Call) :
    (c.exchange call).Ensures fun result => result.2.Bears settings pair := by
  intro σ t state
  have consistent := bears.consistent.run_exchange t state call
  obtain ⟨cookie, after⟩ := bears.consistent.exists_withCookie_exchange call t state
  simp only [Client.exchange, Dialogue.run_bind, Dialogue.run_done]
  rw [after] at consistent ⊢
  exact ⟨bears.settings_eq, consistent, bears.username_eq, bears.password_eq⟩

theorem request (bears : c.Bears settings pair) (path : String) (message : Except Fault Bytes) :
    (c.request path message).Ensures fun result => result.2.Bears settings pair := by
  cases message with
  | error fault => exact fun _ _ _ => bears
  | ok body => exact (bears.exchange _).bind fun result after _ _ _ => after

/-- A look at the credentials does not touch the client. -/
theorem debugAuth (bears : c.Bears settings pair) :
    c.debugAuth.Ensures fun _ => c.Bears settings pair :=
  fun _ _ _ => bears

theorem getPrinters (bears : c.Bears settings pair) (id : RequestId) :
    (c.getPrinters id).Ensures fun result => result.2.Bears settings pair := by
  refine (bears.request _ _).bind fun result after => ?_
  split
  · exact after.debugAuth.bind fun _ last _ _ _ => last
  · exact fun _ _ _ => after

theorem getVersionFromPage (bears : c.Bears settings pair) :
    c.getVersionFromPage.Ensures fun result => result.2.Bears settings pair :=
  (bears.exchange _).bind fun _ after _ _ _ => after

theorem getVersionByMessage (bears : c.Bears settings pair) (id : RequestId) :
    (c.getVersionByMessage id).Ensures fun result => result.2.Bears settings pair :=
  (bears.request _ _).bind fun _ after _ _ _ => after

theorem getVersion (bears : c.Bears settings pair) (id : RequestId) :
    (c.getVersion id).Ensures fun result => result.2.Bears settings pair := by
  refine (bears.getVersionByMessage id).bind fun byMessage after => ?_
  split
  · exact fun _ _ _ => after
  · refine after.getVersionFromPage.bind fun fromPage last => ?_
    split <;> exact fun _ _ _ => last

theorem setCredentials (bears : c.Bears settings pair) (username password : String) :
    (c.setCredentials username password).Ensures fun after =>
      after.Bears settings (some (username, password)) := by
  intro σ t state
  have consistent := bears.consistent.run_applyCredentials t state username password
  obtain ⟨cookie, applied⟩ :=
    c.authentication.exists_withCookie_applyCredentials username password t state
  simp only [Client.setCredentials, Dialogue.run_bind, Dialogue.run_done]
  rw [applied] at consistent ⊢
  exact ⟨bears.settings_eq, consistent, rfl, rfl⟩

theorem login (bears : c.Bears settings pair) :
    c.login.Ensures fun after => after.Bears settings (settings.pair?.or pair) := by
  rw [login_eq, bears.settings_eq]
  cases settings.pair? with
  | none => exact fun _ _ _ => bears
  | some pair => exact bears.setCredentials _ _

theorem clearCredentials (bears : c.Bears settings pair) :
    c.clearCredentials.Bears settings none where
  settings_eq := bears.settings_eq
  consistent := bears.consistent.clearCredentials
  username_eq := rfl
  password_eq := rfl

/-- Wrapping a result up as an answer does not touch the client. -/
theorem answer {α : Type} {d : Dialogue (α × Client)} (wrap : α → Answer)
    (after : d.Ensures fun result => result.2.Bears settings pair) :
    (d.bind fun result => .done (wrap result.1, result.2)).Ensures fun result =>
      result.2.Bears settings pair :=
  after.bind fun _ last _ _ _ => last

/-- After a command the pair is the one that the command is about, or else the
one that was held. -/
theorem tell (bears : c.Bears settings pair) (command : Command) :
    (c.tell command).Ensures fun result =>
      result.2.Bears settings (command.pairAfter settings pair) := by
  cases command with
  | printJob id printer document jobName options => exact answer _ (bears.request _ _)
  | getPrinters id => exact answer _ (bears.getPrinters id)
  | getJobs id printer => exact answer _ (bears.request _ _)
  | getPrinterAttributes id printer => exact answer _ (bears.request _ _)
  | getVersion id => exact answer _ (bears.getVersion id)
  | getVersionByMessage id => exact answer _ (bears.getVersionByMessage id)
  | getVersionFromPage => exact answer _ bears.getVersionFromPage
  | debugAuth => exact bears.debugAuth.bind fun _ after _ _ _ => after
  | setCredentials username password =>
      exact (bears.setCredentials username password).bind fun _ after _ _ _ => after
  | login => exact bears.login.bind fun _ after _ _ _ => after
  | clearCredentials => exact fun _ _ _ => bears.clearCredentials
  | disconnect => exact fun _ _ _ => bears

/-- Every run among those of commands is the run of its command by a client that
bears the pair of the commands before it. -/
theorem getElem?_performAll (bears : c.Bears settings pair) {t : Transport σ} {state : σ}
    {commands : List Command} {i : Nat} {run : Run σ (Answer × Client)}
    (performed : (c.performAll t state commands)[i]? = some run) :
    ∃ (command : Command) (before : Client) (now : σ), commands[i]? = some command ∧
      before.Bears settings ((commands.take i).foldl (Command.pairAfter settings) pair) ∧
      run = before.perform t now command := by
  induction commands generalizing c pair state i with
  | nil => cases performed
  | cons command rest ih =>
      cases i with
      | zero =>
          cases performed
          exact ⟨command, c, state, rfl, bears, rfl⟩
      | succ i =>
          have after := bears.tell command t state
          rw [← result_perform] at after
          exact ih after performed

end Bears

/-- What commands make of a new client, each over some transport in any state. -/
inductive Reachable (settings : Settings) (environment : Environment) : Client → Prop
  | made : Reachable settings environment (ofSettings settings environment)
  | told {c : Client} {σ : Type} (before : Reachable settings environment c) (t : Transport σ)
      (state : σ) (command : Command) :
      Reachable settings environment (c.perform t state command).result.2

theorem Reachable.exists_bears {settings : Settings} {environment : Environment} {c : Client}
    (reachable : Reachable settings environment c) :
    ∃ pair, c.Bears settings pair := by
  induction reachable with
  | made => exact ⟨settings.pair?, .ofSettings settings environment⟩
  | told before t state command ih =>
      obtain ⟨pair, bears⟩ := ih
      rw [result_perform]
      exact ⟨command.pairAfter settings pair, bears.tell command t state⟩

end Client

end InternetPrinting
