import InternetPrinting.Client
import InternetPrinting.Proofs.Authentication.Exchange
import InternetPrinting.Proofs.Text.PathSegment

/-!
# Inquiries

Printing a document and asking for printers, jobs or attributes are operations
of one kind: a message is built, it goes through the authentication exchange
once, and the final reply is read. The answer is told by how the exchange ended
alone. Asking for the printers adds a look at the credentials, which comes last
and changes nothing but the traffic.
-/

namespace InternetPrinting

open Http (Call Dialogue Outcome Reply Run Script Transport)

namespace Authentication

/-- The last thing an exchange does is to make the call as the session
decorates it afterwards, and the outcome of that is the outcome of the exchange. -/
theorem getLast?_exchange (a : Authentication) (c : Call) {σ : Type} (t : Transport σ)
    (state : σ) :
    let run := (a.exchange c).run t state
    run.exchanges.getLast? = some (run.result.2.session.decorateCall c, run.result.1) := by
  simp only [exchange, Dialogue.run]
  cases (t.send state (a.session.decorateCall c)).1 with
  | error fault => rfl
  | ok reply =>
      by_cases refused : reply.status = unauthorized ∧ a.session.hasCredentials = true
      · simp only [if_pos refused]
        cases a.session.username with
        | none => rfl
        | some username =>
            cases a.session.password with
            | none => rfl
            | some password =>
                simp only [Dialogue.run_bind, ask, Dialogue.run]
                rw [← List.cons_append, List.getLast?_concat]
      · simp only [if_neg refused]
        rfl

end Authentication

namespace Client

theorem acceptedBody_of_accepted {reply : Reply} (accepted : reply.status = 200) :
    acceptedBody (.ok reply) = .ok reply.body :=
  if_pos accepted

/-- Why a reply with another status than 200 is no answer: its body says so, or if it is
empty, its status. -/
def reasonIn (reply : Reply) : String :=
  if reply.body = [] then "status code " ++ toString reply.status.toNat
  else Text.lossy reply.body

theorem httpStatus_eq (reply : Reply) :
    Fault.httpStatus reply.status reply.body =
      .transportFailure (some reply.status) (reasonIn reply) := by
  simp only [Fault.httpStatus, reasonIn, List.isEmpty_iff]

theorem acceptedBody_of_declined {reply : Reply} (other : reply.status ≠ 200) :
    acceptedBody (.ok reply) =
      .error (.transportFailure (some reply.status) (reasonIn reply)) := by
  rw [← httpStatus_eq]
  exact if_neg other

/-- The answer of an operation whose call ended with an outcome. -/
def answerTo (outcome : Outcome) : Except Fault Response :=
  responseIn (acceptedBody outcome)

theorem answerTo_of_accepted {reply : Reply} (accepted : reply.status = 200) :
    answerTo (.ok reply) = (Response.parse reply.body).mapError .malformedResponse := by
  rw [answerTo, acceptedBody_of_accepted accepted, responseIn]

theorem answerTo_of_declined {reply : Reply} (other : reply.status ≠ 200) :
    answerTo (.ok reply) =
      .error (.transportFailure (some reply.status) (reasonIn reply)) := by
  rw [answerTo, acceptedBody_of_declined other, responseIn]

theorem answerTo_of_unreadable {reply : Reply} {cause : Malformed}
    (accepted : reply.status = 200) (unreadable : Response.parse reply.body = .error cause) :
    answerTo (.ok reply) = .error (.malformedResponse cause) := by
  rw [answerTo_of_accepted accepted, unreadable]
  rfl

/-- Only a response in a reply with status 200 is an answer. -/
theorem answerTo_eq_ok_iff {outcome : Outcome} {response : Response} :
    answerTo outcome = .ok response ↔
      ∃ reply, outcome = .ok reply ∧ reply.status = 200 ∧
        Response.parse reply.body = .ok response := by
  cases outcome with
  | error fault => simp [answerTo, acceptedBody, responseIn]
  | ok reply =>
      by_cases accepted : reply.status = 200
      · rw [answerTo_of_accepted accepted]
        cases read : Response.parse reply.body <;> simp [accepted, read, Except.mapError]
      · rw [answerTo_of_declined accepted]
        simp [accepted]

theorem run_post (c : Client) (path : String) (body : Bytes) {σ : Type} (t : Transport σ)
    (state : σ) :
    (c.post path body).run t state =
      let sent := (c.authentication.exchange (.message path body)).run t state
      ⟨(answerTo sent.result.1, { c with authentication := sent.result.2 }), sent.exchanges,
        sent.state⟩ := by
  simp [post, exchange, answerTo, Dialogue.run_bind]

/-- A look at the credentials is one call, made as the session stands. -/
theorem run_debugAuth (c : Client) {σ : Type} (t : Transport σ) (state : σ) :
    let look : Call := ⟨.get, "/admin", c.session.decorate ⟨[]⟩, []⟩
    let looked := t.send state look
    c.debugAuth.run t state = ⟨looked.1.map AuthProbe.ofReply, [(look, looked.1)], looked.2⟩ := by
  intro look looked
  have call : c.session.decorateCall (.get Session.loginPath) = look := rfl
  simp only [debugAuth, Dialogue.run, call]
  cases (t.send state look).1 with
  | error fault => rfl
  | ok reply => rfl

end Client

/-- A message that cannot be built is no failure of an exchange. -/
theorem Request.status_of_build_error {keyword : String} {id : RequestId}
    {attributes : RequestAttributes} {payload : Option Bytes} {fault : Fault}
    (unbuilt : build keyword id attributes payload = .error fault) : fault.status = none := by
  unfold build at unbuilt
  split at unbuilt
  · next reason unnamed =>
    cases unbuilt
    simp only [ofName, Operation.ofName] at unnamed
    cases found : Operation.all.find? fun operation => operation.name = keyword with
    | none =>
        rw [found] at unnamed
        cases unnamed
        rfl
    | some operation =>
        rw [found] at unnamed
        cases unnamed
  · next request named =>
    unfold encode at unbuilt
    split at unbuilt
    · next reason long =>
      cases unbuilt
      obtain ⟨row, -, rfl⟩ := Option.map_eq_some_iff.mp long
      rfl
    · cases unbuilt

/-- An operation that sends a message and answers with the response to it. -/
inductive Inquiry
  | printJob (id : RequestId) (printer : String) (document : Bytes) (jobName : Option String)
      (options : RequestAttributes)
  | getPrinters (id : RequestId)
  | getJobs (id : RequestId) (printer : String)
  | getPrinterAttributes (id : RequestId) (printer : String)

namespace Inquiry

/-- The dialogue in which a client makes an inquiry. -/
def ask (c : Client) : Inquiry → Dialogue (Except Fault Response × Client)
  | .printJob id printer document jobName options =>
    c.printJob id printer document jobName options
  | .getPrinters id => c.getPrinters id
  | .getJobs id printer => c.getJobs id printer
  | .getPrinterAttributes id printer => c.getPrinterAttributes id printer

/-- The printer that is asked about. -/
def printer? : Inquiry → Option String
  | .getPrinters _ => none
  | .printJob _ printer _ _ _ | .getJobs _ printer | .getPrinterAttributes _ printer =>
    some printer

/-- Where the message goes. -/
def path (q : Inquiry) : String :=
  match q.printer? with
  | none => "/"
  | some printer => "/printers/" ++ Text.Percent.pathSegment printer

/-- A path that tells a printer, or that there is none. -/
def LeadsTo (path : String) : Option String → Prop
  | none => path = "/"
  | some printer => ∃ segment : String, path = "/printers/" ++ segment ∧
    Text.Percent.decode? segment.toList = some (Text.utf8 printer)

theorem leadsTo_path (q : Inquiry) : LeadsTo q.path q.printer? := by
  unfold path
  cases q.printer? with
  | none => rfl
  | some printer => exact ⟨_, rfl, Text.Percent.decode?_pathSegment printer⟩

/-- The call that brings a message to its path. -/
def call (q : Inquiry) (body : Bytes) : Call where
  method := .post
  path := q.path
  headers := ⟨[(.contentType, Text.utf8 "application/ipp"),
    (.accept, Text.utf8 "application/ipp")]⟩
  body

theorem message_eq_call (q : Inquiry) (body : Bytes) : .message q.path body = q.call body :=
  rfl

/-- The message, if it can be built. -/
def message (c : Client) : Inquiry → Except Fault Bytes
  | .printJob id printer document jobName options =>
    c.message Operation.printJob.name id (some printer) jobName (some document) options
  | .getPrinters id => c.message Operation.getPrinters.name id none none none .empty
  | .getJobs id printer => c.message Operation.getJobs.name id (some printer) none none .empty
  | .getPrinterAttributes id printer =>
    c.message Operation.getPrinterAttributes.name id (some printer) none none .empty

/-- Whether an answer makes the client look at the credentials: the printers
were asked for, and the failure has a status. -/
def looksAfter : Inquiry → Except Fault Response → Bool
  | .getPrinters _, .error (.transportFailure (some _) _) => true
  | _, _ => false

/-- What a client does when it has the answer to an inquiry. -/
def conclude (q : Inquiry) (result : Except Fault Response × Client) :
    Dialogue (Except Fault Response × Client) :=
  if q.looksAfter result.1 then result.2.debugAuth.bind fun _ => .done result
  else .done result

/-- An inquiry is a request to its path with at most a look at the credentials
behind it. -/
theorem ask_eq (q : Inquiry) (c : Client) :
    q.ask c = (c.request q.path (q.message c)).bind q.conclude := by
  cases q with
  | getPrinters id =>
      simp only [ask, Client.getPrinters, path, message]
      congr 1
      funext result
      obtain ⟨answer, after⟩ := result
      cases answer with
      | ok response => rfl
      | error fault =>
          cases fault with
          | transportFailure status text => cases status <;> rfl
          | _ => rfl
  | printJob id printer document jobName options => exact (Dialogue.bind_done_right _).symm
  | getJobs id printer => exact (Dialogue.bind_done_right _).symm
  | getPrinterAttributes id printer => exact (Dialogue.bind_done_right _).symm

/-- A look at the credentials leaves the result as it is. -/
theorem run_conclude (q : Inquiry) (result : Except Fault Response × Client) {σ : Type}
    (t : Transport σ) (state : σ) :
    let look : Call := ⟨.get, "/admin", result.2.session.decorate ⟨[]⟩, []⟩
    let looked := t.send state look
    (q.conclude result).run t state =
      if q.looksAfter result.1 then ⟨result, [(look, looked.1)], looked.2⟩
      else ⟨result, [], state⟩ := by
  intro look looked
  unfold conclude
  split
  · rw [Dialogue.run_bind, Client.run_debugAuth]
    rfl
  · rfl

theorem status_of_looksAfter {q : Inquiry} {fault : Fault}
    (looks : q.looksAfter (.error fault) = true) : fault.status ≠ none := by
  unfold looksAfter at looks
  split at looks
  · next hit =>
    cases hit
    simp [Fault.status]
  · cases looks

theorem status_of_message_error {q : Inquiry} {c : Client} {fault : Fault}
    (unbuilt : q.message c = .error fault) : fault.status = none := by
  cases q <;> simp only [message, Client.message] at unbuilt <;>
    exact Request.status_of_build_error unbuilt

/-- An inquiry whose message cannot be built reaches nobody. -/
theorem ask_of_unbuilt {q : Inquiry} {c : Client} {fault : Fault}
    (unbuilt : q.message c = .error fault) : q.ask c = .done (.error fault, c) := by
  have quiet : q.looksAfter (.error fault) = false := by
    apply Bool.eq_false_iff.mpr
    intro looks
    exact status_of_looksAfter looks (status_of_message_error unbuilt)
  simp only [ask_eq, unbuilt, Client.request, Dialogue.bind_done, conclude, quiet,
    Bool.false_eq_true, if_false]

/-- The whole run of an inquiry, told by the run of its one exchange. -/
theorem run_ask_of_built {q : Inquiry} {c : Client} {body : Bytes}
    (built : q.message c = .ok body) {σ : Type} (t : Transport σ) (state : σ) :
    let sent := (c.authentication.exchange (q.call body)).run t state
    let after : Client := { c with authentication := sent.result.2 }
    let answer := Client.answerTo sent.result.1
    let look : Call := ⟨.get, "/admin", after.session.decorate ⟨[]⟩, []⟩
    let looked := t.send sent.state look
    (q.ask c).run t state =
      if q.looksAfter answer then
        ⟨(answer, after), sent.exchanges ++ [(look, looked.1)], looked.2⟩
      else ⟨(answer, after), sent.exchanges, sent.state⟩ := by
  intro sent after answer look looked
  have concluded := run_conclude q (answer, after) t sent.state
  rw [ask_eq, built, Client.request, Dialogue.run_bind, Client.run_post, message_eq_call]
  change (let second := (q.conclude (answer, after)).run t sent.state
    (⟨second.result, sent.exchanges ++ second.exchanges, second.state⟩ : Run σ _)) = _
  rw [concluded]
  split
  · rfl
  · simp

/-- What an inquiry comes to. If its message cannot be built, that is the answer and
nobody hears of it. Otherwise one call, whose path tells the printer, goes through the
authentication exchange, whose last exchange decides the answer: a response in a reply
with status 200, or else the reason why there is none, which tells any other status. A
look at the credentials comes behind all that exactly if the printers were asked for and
the answer is a failure with a status, and whatever comes of it, the answer and the
client stay as they are. -/
theorem run_ask_exact (q : Inquiry) (c : Client) {σ : Type} (t : Transport σ) (state : σ) :
    let run := (q.ask c).run t state
    (∀ fault, q.message c = .error fault → run = ⟨(.error fault, c), [], state⟩) ∧
    (∀ body, q.message c = .ok body →
      let call := q.call body
      let sent := (c.authentication.exchange call).run t state
      let after : Client := { c with authentication := sent.result.2 }
      let last : Call := { call with headers := after.session.decorate call.headers }
      let look : Call := ⟨.get, "/admin", after.session.decorate ⟨[]⟩, []⟩
      let looked := t.send sent.state look
      LeadsTo call.path q.printer? ∧
      sent.exchanges.getLast? = some (last, sent.result.1) ∧
      (∀ response, run.result.1 = .ok response ↔
        ∃ reply, sent.result.1 = .ok reply ∧ reply.status = 200 ∧
          Response.parse reply.body = .ok response) ∧
      (∀ reply, sent.result.1 = .ok reply → reply.status ≠ 200 →
        run.result.1 =
          .error (.transportFailure (some reply.status) (Client.reasonIn reply))) ∧
      (∀ fault, sent.result.1 = .error fault → run.result.1 = .error fault) ∧
      (∀ reply cause, sent.result.1 = .ok reply → reply.status = 200 →
        Response.parse reply.body = .error cause →
        run.result.1 = .error (.malformedResponse cause)) ∧
      run.result.2 = after ∧
      (q.looksAfter run.result.1 = true →
        run.exchanges = sent.exchanges ++ [(look, looked.1)] ∧ run.state = looked.2) ∧
      (q.looksAfter run.result.1 = false →
        run.exchanges = sent.exchanges ∧ run.state = sent.state)) := by
  intro run
  constructor
  · intro fault unbuilt
    change (q.ask c).run t state = _
    rw [ask_of_unbuilt unbuilt, Dialogue.run_done]
  · intro body built call sent after last look looked
    have ran : run =
        if q.looksAfter (Client.answerTo sent.result.1) then
          ⟨(Client.answerTo sent.result.1, after), sent.exchanges ++ [(look, looked.1)], looked.2⟩
        else ⟨(Client.answerTo sent.result.1, after), sent.exchanges, sent.state⟩ :=
      run_ask_of_built built t state
    have result : run.result = (Client.answerTo sent.result.1, after) := by
      rw [ran]
      split <;> rfl
    have answer : run.result.1 = Client.answerTo sent.result.1 := congrArg (·.1) result
    rw [answer]
    refine ⟨q.leadsTo_path, Authentication.getLast?_exchange c.authentication call t state,
      fun response => Client.answerTo_eq_ok_iff, ?_, ?_, ?_, congrArg (·.2) result, ?_, ?_⟩
    · intro reply replied other
      rw [replied, Client.answerTo_of_declined other]
    · intro fault failed
      rw [failed]
      rfl
    · intro reply cause replied accepted unreadable
      rw [replied, Client.answerTo_of_unreadable accepted unreadable]
    · intro looks
      rw [ran, if_pos looks]
      exact ⟨rfl, rfl⟩
    · intro quiet
      rw [ran, if_neg (Bool.eq_false_iff.mp quiet)]
      exact ⟨rfl, rfl⟩

/-- The printers are asked for without credentials. The server is busy, and the look at
the credentials behind that fails. -/
theorem run_ask_exact_busy :
    let c := Client.ofSettings .standard {}
    let busy : Reply := ⟨503, .empty, []⟩
    let script : Script := ⟨[.ok busy, .error (.transportFailure none "timeout")], 0, false⟩
    let run := ((getPrinters ⟨1, by decide⟩).ask c).run Script.transport script
    run.result.1 = .error (.transportFailure (some 503) "status code 503") ∧
      run.exchanges.map (fun exchange => (exchange.1.method, exchange.1.path)) =
        [(.post, "/"), (.get, "/admin")] := by
  intro c busy script run
  cases made : (getPrinters ⟨1, by decide⟩).message c with
  | error fault =>
    have fits : ((getPrinters ⟨1, by decide⟩).message c).isOk = true := by decide +kernel
    rw [made] at fits
    cases fits
  | ok body =>
    obtain ⟨-, told⟩ := run_ask_exact (getPrinters ⟨1, by decide⟩) c Script.transport script
    obtain ⟨-, -, -, declined, -, -, -, looks, -⟩ := told body made
    have reason : Client.reasonIn busy = "status code 503" := by decide
    have answer := declined busy rfl (by decide)
    rw [reason] at answer
    refine ⟨answer, ?_⟩
    rw [(looks (by rw [answer]; rfl)).1]
    rfl

end Inquiry

end InternetPrinting
