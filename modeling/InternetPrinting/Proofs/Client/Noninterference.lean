import InternetPrinting.Proofs.Authentication.OtherCredentials
import InternetPrinting.Proofs.Client.Commands

/-!
# Noninterference of credentials

Take two clients with settings that differ in their usable pairs alone, and tell
both the same, but for the usable pairs that they are told to use. As long as
their calls have the same outcomes, they make the same calls, but for the
authorization values and the forms of logins, and give the same answers.
-/

namespace InternetPrinting

open Http (Call Comparable Dialogue Outcome Run Script Transport)

namespace Settings

/-- The settings with a usable pair. -/
def bearing (settings : Settings) (own : Credentials) : Settings :=
  settings.withCredentials own.username own.password

end Settings

/-- Commands that differ at most in the usable pairs that they are about. -/
inductive Command.Alike : Command → Command → Prop
  | same {command : Command}
      (other : ∀ username password, command ≠ .setCredentials username password) :
      Alike command command
  | setCredentials (own other : Credentials) :
      Alike (.setCredentials own.username own.password)
        (.setCredentials other.username other.password)

namespace Client

/-- Clients that differ in their usable pairs alone. -/
structure Alike (c c' : Client) : Prop where
  settings : ∃ (settings : Settings) (own other : Credentials),
    c.settings = settings.bearing own ∧ c'.settings = settings.bearing other
  environment : c.environment = c'.environment
  authentication : c.authentication.Alike c'.authentication

variable {α β : Type} {c c' : Client}

/-- Results that are the same, with clients that are alike. -/
def AlikeResults (result result' : α × Client) : Prop :=
  result.1 = result'.1 ∧ result.2.Alike result'.2

/-- Dialogues of two clients in lockstep, with the same results. -/
abbrev Together (d d' : Dialogue (α × Client)) : Prop :=
  Dialogue.Lockstep Call.Alike AlikeResults d d'

/-- What is made of a result does not depend on who made it. -/
theorem Together.map {d d' : Dialogue (α × Client)} (together : Together d d') (wrap : α → β) :
    Together (d.bind fun result => .done (wrap result.1, result.2))
      (d'.bind fun result => .done (wrap result.1, result.2)) := by
  apply together.bind
  rintro result result' ⟨same, alike⟩
  exact .done ⟨congrArg wrap same, alike⟩

namespace Alike

theorem ofSettings (settings : Settings) (environment : Environment) (own other : Credentials) :
    (ofSettings (settings.bearing own) environment).Alike
      (ofSettings (settings.bearing other) environment) where
  settings := ⟨settings, own, other, rfl, rfl⟩
  environment := rfl
  authentication := by
    change ((Authentication.initial settings.sessionLogin).setCredentials own.username
      own.password).Alike ((Authentication.initial settings.sessionLogin).setCredentials
        other.username other.password)
    rw [Authentication.setCredentials_eq_ofCredentials,
      Authentication.setCredentials_eq_ofCredentials]
    exact ⟨.keyed own other none, rfl⟩

theorem withAuthentication (alike : c.Alike c') {a a' : Authentication} (after : a.Alike a') :
    { c with authentication := a }.Alike { c' with authentication := a' } :=
  ⟨alike.settings, alike.environment, after⟩

/-- Messages do not tell the credentials. -/
theorem message_eq (alike : c.Alike c') (keyword : String) (id : RequestId)
    (printer jobName : Option String) (document : Option Bytes) (options : RequestAttributes) :
    c.message keyword id printer jobName document options =
      c'.message keyword id printer jobName document options := by
  obtain ⟨settings, own, other, first, second⟩ := alike.settings
  simp only [message, operationAttributes, first, second, alike.environment]
  rfl

theorem exchange (alike : c.Alike c') (call : Call) :
    Together (c.exchange call) (c'.exchange call) := by
  apply (alike.authentication.lockstep_exchange call).bind
  rintro ⟨outcome, a⟩ ⟨_, a'⟩ ⟨rfl, after⟩
  exact .done ⟨rfl, alike.withAuthentication after⟩

theorem request (alike : c.Alike c') (path : String) (message : Except Fault Bytes) :
    Together (c.request path message) (c'.request path message) := by
  cases message with
  | error fault => exact .done ⟨rfl, alike⟩
  | ok body => exact (alike.exchange (.message path body)).map responseIn

/-- A message and where it goes do not depend on the credentials. -/
theorem request_message (alike : c.Alike c') (path keyword : String) (id : RequestId)
    (printer jobName : Option String) (document : Option Bytes) (options : RequestAttributes) :
    Together (c.request path (c.message keyword id printer jobName document options))
      (c'.request path (c'.message keyword id printer jobName document options)) := by
  rw [alike.message_eq]
  exact alike.request path _

theorem debugAuth (alike : c.Alike c') (wrap : Except Fault AuthProbe → α) :
    Together (c.debugAuth.bind fun probe => .done (wrap probe, c))
      (c'.debugAuth.bind fun probe => .done (wrap probe, c')) := by
  apply Dialogue.Lockstep.call (alike.authentication.session.decorateCall _)
  intro outcome
  cases outcome <;> exact .done ⟨rfl, alike⟩

theorem getPrinters (alike : c.Alike c') (id : RequestId) :
    Together (c.getPrinters id) (c'.getPrinters id) := by
  apply (alike.request_message "/" _ id none none none .empty).bind
  rintro ⟨answer, after⟩ ⟨_, after'⟩ ⟨rfl, still⟩
  dsimp only
  split
  · exact still.debugAuth fun _ => _
  · exact .done ⟨rfl, still⟩

theorem getVersionByMessage (alike : c.Alike c') (id : RequestId) :
    Together (c.getVersionByMessage id) (c'.getVersionByMessage id) :=
  (alike.request_message "/admin/" _ id none none none .empty).map fun result =>
    result.bind versionIn

theorem getVersionFromPage (alike : c.Alike c') :
    Together c.getVersionFromPage c'.getVersionFromPage :=
  (alike.exchange (.get "/")).map fun result => result.bind versionOn

theorem getVersion (alike : c.Alike c') (id : RequestId) :
    Together (c.getVersion id) (c'.getVersion id) := by
  apply (alike.getVersionByMessage id).bind
  rintro ⟨byMessage, after⟩ ⟨_, after'⟩ ⟨rfl, still⟩
  cases byMessage with
  | ok version => exact .done ⟨rfl, still⟩
  | error ipp =>
      apply still.getVersionFromPage.bind
      rintro ⟨fromPage, last⟩ ⟨_, last'⟩ ⟨rfl, stillAlike⟩
      cases fromPage <;> exact .done ⟨rfl, stillAlike⟩

/-- Using another usable pair goes in lockstep, whatever the pairs. -/
theorem setCredentials (alike : c.Alike c') (own other : Credentials) :
    Dialogue.Lockstep Call.Alike Alike (c.setCredentials own.username own.password)
      (c'.setCredentials other.username other.password) := by
  apply (Authentication.lockstep_applyCredentials alike.authentication.logsIn own other).bind
  intro a a' after
  exact .done (alike.withAuthentication after)

theorem login (alike : c.Alike c') : Dialogue.Lockstep Call.Alike Alike c.login c'.login := by
  obtain ⟨settings, own, other, first, second⟩ := alike.settings
  rw [login_eq, login_eq, first, second]
  exact alike.setCredentials own other

theorem clearCredentials (alike : c.Alike c') : c.clearCredentials.Alike c'.clearCredentials :=
  alike.withAuthentication ⟨.cleared, alike.authentication.logsIn⟩

/-- Commands that are alike are carried out in lockstep. -/
theorem tell (alike : c.Alike c') {command command' : Command}
    (same : command.Alike command') : Together (c.tell command) (c'.tell command') := by
  cases same with
  | setCredentials own other =>
      apply (alike.setCredentials own other).bind
      intro after after' still
      exact .done ⟨rfl, still⟩
  | same different =>
      cases command with
      | printJob id printer document jobName options =>
          exact (alike.request_message _ _ id _ _ _ _).map Answer.response
      | getPrinters id => exact (alike.getPrinters id).map Answer.response
      | getJobs id printer => exact (alike.request_message _ _ id _ _ _ _).map Answer.response
      | getPrinterAttributes id printer =>
          exact (alike.request_message _ _ id _ _ _ _).map Answer.response
      | getVersion id => exact (alike.getVersion id).map Answer.version
      | getVersionByMessage id => exact (alike.getVersionByMessage id).map Answer.version
      | getVersionFromPage => exact alike.getVersionFromPage.map Answer.version
      | debugAuth => exact alike.debugAuth Answer.probe
      | setCredentials username password => exact absurd rfl (different username password)
      | login =>
          apply alike.login.bind
          intro after after' still
          exact .done ⟨rfl, still⟩
      | clearCredentials => exact .done ⟨rfl, alike.clearCredentials⟩
      | disconnect => exact .done ⟨rfl, alike⟩

end Alike

/-- Runs with the same answer and, blanked, the same calls, of which the same
ones carry an authorization. -/
structure AlikeRuns {σ τ : Type} (run : Run σ (Answer × Client)) (run' : Run τ (Answer × Client)) :
    Prop where
  answer : run.result.1 = run'.result.1
  calls : List.Forall₂ Call.Alike run.calls run'.calls

/-- Sequences of commands that are alike have runs that are alike, as long as
the outcomes are the same. -/
theorem Alike.performAll (alike : c.Alike c') {commands commands' : List Command}
    (same : List.Forall₂ Command.Alike commands commands') {σ τ : Type} (t : Transport σ)
    (u : Transport τ) (s : σ) (s' : τ)
    (agree : Comparable ((c.performAll t s commands).flatMap Run.outcomes)
      ((c'.performAll u s' commands').flatMap Run.outcomes)) :
    List.Forall₂ AlikeRuns (c.performAll t s commands) (c'.performAll u s' commands') := by
  induction same generalizing c c' s s' with
  | nil => exact .nil
  | @cons command command' rest rest' first _ ih =>
      let run := c.perform t s command
      let run' := c'.perform u s' command'
      have outcomes : Comparable
          (((c.tell command).run t s).outcomes ++
            (Client.performAll t run.state run.result.2 rest).flatMap Run.outcomes)
          (((c'.tell command').run u s').outcomes ++
            (Client.performAll u run'.state run'.result.2 rest').flatMap Run.outcomes) := by
        rw [Run.outcomes, Run.outcomes, ← exchanges_perform, ← exchanges_perform]
        exact agree
      obtain ⟨⟨answer, still⟩, calls, behind⟩ := (alike.tell first).run t u s s' outcomes
      rw [← result_perform, ← result_perform] at answer still
      rw [Run.calls, Run.calls, ← exchanges_perform, ← exchanges_perform] at calls
      exact .cons ⟨answer, calls⟩ (ih still _ _ behind)

/-- Credentials influence nothing but what is made of them. Let the settings of
two clients differ in their usable pairs alone, let both be told the same but
for the usable pairs that they are told to use, and let their calls have the
same outcomes one after another, over transports of whatever kind. Then every
command gives the same answer in both, and makes the same calls but for the
values of authorizations and the forms of logins, and a call carries an
authorization in one exactly if it does in the other. -/
theorem performAll_noninterference (settings : Settings) (environment : Environment)
    (own other : Credentials) {commands commands' : List Command}
    (same : List.Forall₂ Command.Alike commands commands') {σ τ : Type} (t : Transport σ)
    (u : Transport τ) (s : σ) (s' : τ) :
    let runs := (ofSettings (settings.withCredentials own.username own.password)
      environment).performAll t s commands
    let runs' := (ofSettings (settings.withCredentials other.username other.password)
      environment).performAll u s' commands'
    Comparable (runs.flatMap Run.outcomes) (runs'.flatMap Run.outcomes) →
      List.Forall₂ (fun run run' => run.result.1 = run'.result.1 ∧
        run.calls.map Call.blanked = run'.calls.map Call.blanked ∧
        List.Forall₂ (fun call call' =>
          call.headers.values .authorization = [] ↔ call'.headers.values .authorization = [])
          run.calls run'.calls) runs runs' := by
  intro runs runs' agree
  have start := Alike.ofSettings settings environment own other
  apply (start.performAll same t u s s' agree).imp
  rintro run run' ⟨answer, calls⟩
  refine ⟨answer, ?_, calls.imp fun _ _ alike => alike.authorized⟩
  rw [← List.forall₂_eq_eq_eq, List.forall₂_map_left_iff, List.forall₂_map_right_iff]
  exact calls.imp fun _ _ alike => alike.blanked

/-- Two users ask for the printers, are refused and log in, are refused again,
and log in as each other. -/
theorem performAll_noninterference_twoUsers :
    let lp : Credentials := ⟨"lp", "secret", by decide, by decide⟩
    let guest : Credentials := ⟨"guest", "of:honour", by decide, by decide⟩
    let refusal : Outcome := .ok Authentication.refusalReply
    let grant : Outcome := .ok Authentication.grantReply
    let script : Script := ⟨[refusal, grant, refusal, refusal, grant], 0, false⟩
    let asking : Command := .getPrinters ⟨1, by decide⟩
    let runs := (ofSettings (Settings.standard.withCredentials lp.username lp.password)
      {}).performAll Script.transport script
        [asking, .setCredentials guest.username guest.password]
    let runs' := (ofSettings (Settings.standard.withCredentials guest.username guest.password)
      {}).performAll Script.transport script [asking, .setCredentials lp.username lp.password]
    Comparable (runs.flatMap Run.outcomes) (runs'.flatMap Run.outcomes) ∧
      runs.map (·.calls.length) = [4, 1] ∧
      List.Forall₂ (fun run run' => run.result.1 = run'.result.1 ∧
        run.calls.map Call.blanked = run'.calls.map Call.blanked ∧
        List.Forall₂ (fun call call' =>
          call.headers.values .authorization = [] ↔ call'.headers.values .authorization = [])
          run.calls run'.calls) runs runs' := by
  intro lp guest refusal grant script asking runs runs'
  have same : List.Forall₂ Command.Alike
      [asking, .setCredentials guest.username guest.password]
      [asking, .setCredentials lp.username lp.password] :=
    .cons (.same (by simp [asking])) (.cons (.setCredentials guest lp) .nil)
  have agree : Comparable (runs.flatMap Run.outcomes) (runs'.flatMap Run.outcomes) :=
    .inl (by decide +kernel)
  exact ⟨agree, by decide +kernel,
    performAll_noninterference Settings.standard {} lp guest same Script.transport
      Script.transport script script agree⟩

end Client

end InternetPrinting
