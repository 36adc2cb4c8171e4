import InternetPrinting.Proofs.Client.Commands
import InternetPrinting.Proofs.Client.Inquiry
import InternetPrinting.Proofs.Wire.RequestBuilding

/-!
# Looking up the version

No operation has the keyword that asks for the version, and that is found out
before anything else about the message. So asking by a message reaches nobody,
however long the names in it are, and all that a look-up sends is one exchange
for the front page. Its last reply decides: it shows a version, or the failure
tells both causes.
-/

namespace InternetPrinting

open Http (Call Dialogue Outcome Reply Run Script Transport)

namespace Client

variable {c : Client} {settings : Settings} {environment : Environment}

/-- What the outcome of a call for the front page tells about the version. -/
def versionFrom (outcome : Outcome) : Except Fault String :=
  (acceptedBody outcome).bind versionOn

theorem versionOn_eq_ok_iff {page : Bytes} {version : String} :
    versionOn page = .ok version ↔ Version.inPage? (Text.lossy page) = some version := by
  unfold versionOn
  cases Version.inPage? (Text.lossy page) <;> simp

theorem versionFrom_of_accepted {reply : Reply} (accepted : reply.status = 200) :
    versionFrom (.ok reply) = versionOn reply.body := by
  rw [versionFrom, acceptedBody_of_accepted accepted]
  rfl

theorem versionFrom_of_declined {reply : Reply} (other : reply.status ≠ 200) :
    versionFrom (.ok reply) =
      .error (.transportFailure (some reply.status) (reasonIn reply)) := by
  rw [versionFrom, acceptedBody_of_declined other]
  rfl

theorem versionFrom_of_bare {reply : Reply} (accepted : reply.status = 200)
    (bare : Version.inPage? (Text.lossy reply.body) = none) :
    versionFrom (.ok reply) = .error (.malformedResponse .noBanner) := by
  rw [versionFrom_of_accepted accepted, versionOn, bare]

/-- Only a version that a reply with status 200 shows is an answer. -/
theorem versionFrom_eq_ok_iff {outcome : Outcome} {version : String} :
    versionFrom outcome = .ok version ↔
      ∃ reply, outcome = .ok reply ∧ reply.status = 200 ∧
        Version.inPage? (Text.lossy reply.body) = some version := by
  cases outcome with
  | error fault => simp [versionFrom, acceptedBody, Except.bind]
  | ok reply =>
      by_cases accepted : reply.status = 200
      · rw [versionFrom_of_accepted accepted, versionOn_eq_ok_iff]
        simp [accepted]
      · rw [versionFrom_of_declined accepted]
        simp [accepted]

/-- The keyword is looked up before the attributes are, so their lengths do not
matter. -/
theorem message_versionKeyword (c : Client) (id : RequestId) (printer jobName : Option String)
    (document : Option Bytes) (options : RequestAttributes) :
    c.message versionKeyword id printer jobName document options =
      .error (.unsupportedOperation versionKeyword) := by
  apply Request.build_eq_unsupportedOperation_iff.mpr
  intro operation
  cases operation <;> decide

/-- Asking by a message reaches nobody and leaves the client as it is. -/
theorem getVersionByMessage_eq (c : Client) (id : RequestId) :
    c.getVersionByMessage id = .done (.error (.unsupportedOperation versionKeyword), c) := by
  rw [getVersionByMessage, message_versionKeyword]
  rfl

/-- What is reported when the front page has come to this: its version, or both
causes of the failure. -/
def reported (page : Except Fault String) : Except Fault String :=
  page.mapError fun http =>
    .versionUnavailable (Fault.unsupportedOperation versionKeyword).message http.message

theorem reported_eq_ok_iff {page : Except Fault String} {version : String} :
    reported page = .ok version ↔ page = .ok version := by
  cases page <;> simp [reported, Except.mapError]

theorem reported_eq_error_iff {page : Except Fault String} {fault : Fault} :
    reported page = .error fault ↔
      ∃ http, page = .error http ∧ fault =
        .versionUnavailable (Fault.unsupportedOperation versionKeyword).message http.message := by
  cases page with
  | ok version => simp [reported, Except.mapError]
  | error http => simp [reported, Except.mapError, eq_comm]

/-- How a failed exchange is worded: by the status of a reply, if one arrived, and by what
went wrong. -/
def failureText : Option UInt16 → String → String
  | none, text => "transport failure: " ++ text
  | some status, text => "transport failure (HTTP " ++ toString status.toNat ++ "): " ++ text

/-- The failure of an exchange is reported in these words. -/
theorem reported_of_transportFailure (status : Option UInt16) (text : String) :
    reported (.error (.transportFailure status text)) =
      .error (.versionUnavailable "unsupported IPP operation: get-version"
        (failureText status text)) := by
  cases status <;> rfl

theorem reported_of_noBanner :
    reported (.error (.malformedResponse .noBanner)) =
      .error (.versionUnavailable "unsupported IPP operation: get-version"
        "malformed IPP response: no CUPS version in HTTP response") :=
  rfl

/-- A look-up is a look at the front page, but for the report. -/
theorem getVersion_eq (c : Client) (id : RequestId) :
    c.getVersion id = c.getVersionFromPage.bind fun page => .done (reported page.1, page.2) := by
  rw [getVersion, getVersionByMessage_eq, Dialogue.bind_done]
  apply congrArg c.getVersionFromPage.bind
  funext page
  obtain ⟨answer, after⟩ := page
  cases answer <;> rfl

theorem run_getVersionFromPage (c : Client) {σ : Type} (t : Transport σ) (state : σ) :
    let sent := (c.authentication.exchange (.get "/")).run t state
    c.getVersionFromPage.run t state =
      ⟨(versionFrom sent.result.1, { c with authentication := sent.result.2 }), sent.exchanges,
        sent.state⟩ := by
  simp only [getVersionFromPage, exchange, versionFrom, Dialogue.run_bind, Dialogue.run_done,
    List.append_nil]

theorem run_getVersion (c : Client) (id : RequestId) {σ : Type} (t : Transport σ) (state : σ) :
    let page := c.getVersionFromPage.run t state
    (c.getVersion id).run t state =
      ⟨(reported page.result.1, page.result.2), page.exchanges, page.state⟩ := by
  simp only [getVersion_eq, Dialogue.run_bind, Dialogue.run_done, List.append_nil]

/-- What a look-up of the version comes to, for every client that commands can lead
to. Asking by a message is an unsupported operation and sends nothing, whatever the
settings are. The look-up sends what one exchange for the front page sends: the call,
and if that is refused and there are credentials, the login where logins are on and the
call once more; it posts nothing else. The final outcome decides. A version on a page
with status 200 is the answer, and nothing else is. Any failure is the one of the look
at the front page in the same situation, reported with the wording of both causes: the
operation that is unsupported, and the exchange that failed, the status and the body of
another reply, or the page without a banner. -/
theorem run_getVersion_exact (reachable : Reachable settings environment c) (id : RequestId)
    {σ : Type} (t : Transport σ) (state : σ) :
    let unsupported := Fault.unsupportedOperation "get-version"
    let ipp := "unsupported IPP operation: get-version"
    let front : Call := ⟨.get, "/", ⟨[]⟩, []⟩
    let sent := (c.authentication.exchange front).run t state
    let final := sent.result.1
    let page := c.getVersionFromPage.run t state
    let run := (c.getVersion id).run t state
    let first := c.session.decorateCall front
    let again := run.result.2.session.decorateCall front
    let answered := (t.send state first).1
    (c.getVersionByMessage id).run t state = ⟨(.error unsupported, c), [], state⟩ ∧
    (run.exchanges = sent.exchanges ∧ run.state = sent.state ∧ run.result.2 = page.result.2) ∧
    (¬c.authentication.Refused answered → run.calls = [first]) ∧
    (c.authentication.Refused answered →
      ∃ username password, c.session.Holds username password ∧
        run.calls =
          first :: (if settings.sessionLogin then [Session.login username password] else []) ++
            [again]) ∧
    (∀ call ∈ run.calls, call.method = .post →
      settings.sessionLogin = true ∧
        ∃ username password, c.session.Holds username password ∧
          call = Session.login username password) ∧
    run.exchanges.getLast? = some (again, final) ∧
    (∀ version, run.result.1 = .ok version ↔
      ∃ reply, final = .ok reply ∧ reply.status = 200 ∧
        Version.inPage? (Text.lossy reply.body) = some version) ∧
    (∀ fault, run.result.1 = .error fault ↔
      ∃ http, page.result.1 = .error http ∧
        fault = .versionUnavailable unsupported.message http.message) ∧
    (∀ fault, final = .error fault → page.result.1 = .error fault) ∧
    (∀ status text, final = .error (.transportFailure status text) →
      run.result.1 = .error (.versionUnavailable ipp (failureText status text))) ∧
    (∀ reply, final = .ok reply → reply.status ≠ 200 →
      page.result.1 = .error (.transportFailure (some reply.status) (reasonIn reply)) ∧
        run.result.1 =
          .error (.versionUnavailable ipp (failureText (some reply.status) (reasonIn reply)))) ∧
    (∀ reply, final = .ok reply → reply.status = 200 →
      Version.inPage? (Text.lossy reply.body) = none →
      page.result.1 = .error (.malformedResponse .noBanner) ∧
        run.result.1 =
          .error (.versionUnavailable ipp
            "malformed IPP response: no CUPS version in HTTP response")) := by
  obtain ⟨pair, bears⟩ := reachable.exists_bears
  intro unsupported ipp front sent final page run first again answered
  have looked : page = ⟨(versionFrom final, { c with authentication := sent.result.2 }),
      sent.exchanges, sent.state⟩ := run_getVersionFromPage c t state
  have ran : run = ⟨(reported page.result.1, page.result.2), page.exchanges, page.state⟩ :=
    run_getVersion c id t state
  have answer : page.result.1 = versionFrom final := by rw [looked]
  have report : run.result.1 = reported (versionFrom final) := by rw [ran, answer]
  have exchanges : run.exchanges = sent.exchanges := by rw [ran, looked]
  have calls : run.calls = sent.calls := by rw [Run.calls, exchanges, Run.calls]
  have after : again = sent.result.2.session.decorateCall front := by
    simp only [again, ran, looked]
    rfl
  refine ⟨?_, ⟨exchanges, by rw [ran, looked], by rw [ran]⟩, ?_, ?_, ?_, ?_, ?_, ?_, ?_, ?_, ?_,
    ?_⟩
  · rw [getVersionByMessage_eq]
    rfl
  · intro settled
    rw [calls]
    exact Authentication.calls_exchange_of_settled settled
  · intro refused
    rw [calls, after]
    exact bears.consistent.calls_exchange_of_refused refused
  · rw [calls]
    intro call member posts
    exact bears.consistent.login_of_post (by decide) member posts
  · rw [exchanges, after]
    exact c.authentication.getLast?_exchange front t state
  · intro version
    rw [report, reported_eq_ok_iff]
    exact versionFrom_eq_ok_iff
  · intro fault
    rw [ran]
    exact reported_eq_error_iff
  · intro fault failed
    rw [answer, failed]
    rfl
  · intro status text failed
    rw [report, failed]
    exact reported_of_transportFailure status text
  · intro reply replied other
    rw [report, answer, replied, versionFrom_of_declined other]
    exact ⟨rfl, reported_of_transportFailure _ _⟩
  · intro reply replied accepted bare
    rw [report, answer, replied, versionFrom_of_bare accepted bare]
    exact ⟨rfl, reported_of_noBanner⟩

/-- A host whose name is longer than a field can be. -/
def longHost : Settings :=
  (Settings.ofServer (String.ofList (List.replicate 70000 'h')) 631).withCredentials "lp" "secret"

/-- A page that shows a version. -/
def bannerReply : Reply :=
  ⟨200, .empty, Text.utf8 "<title>Home - CUPS/2.4.7</title>"⟩

/-- The page that is shown after a login has the version, although no message to
the host could be built. -/
theorem run_getVersion_exact_longHost :
    let c := ofSettings longHost {}
    let script : Script :=
      ⟨[.ok Authentication.refusalReply, .ok Authentication.grantReply, .ok bannerReply], 0, false⟩
    let run := (c.getVersion ⟨1, by decide⟩).run Script.transport script
    Reachable longHost {} c ∧
      (c.getVersionByMessage ⟨1, by decide⟩).run Script.transport script =
        ⟨(.error (.unsupportedOperation "get-version"), c), [], script⟩ ∧
      run.calls.map (·.path) = ["/", "/admin", "/"] ∧ run.result.1 = .ok "2.4.7" := by
  intro c script run
  have reachable : Reachable longHost {} c := .made
  obtain ⟨byMessage, ⟨exchanges, -⟩, -, -, -, -, answer, -⟩ :=
    run_getVersion_exact reachable ⟨1, by decide⟩ Script.transport script
  have keyed : c.authentication = Authentication.keyed := rfl
  rw [keyed] at exchanges answer
  refine ⟨reachable, byMessage, ?_, (answer "2.4.7").mpr ?_⟩
  · rw [Run.calls, exchanges]
    decide +kernel
  · exact ⟨bannerReply, by decide +kernel, rfl, by decide +kernel⟩

end Client

end InternetPrinting
