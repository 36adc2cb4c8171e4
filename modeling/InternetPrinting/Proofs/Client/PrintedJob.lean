import InternetPrinting.Http.Script
import InternetPrinting.Proofs.Client.Inquiry
import InternetPrinting.Proofs.Text.PathSegment
import InternetPrinting.Proofs.Wire.RequestReading

/-!
# Print jobs on the wire

A print job goes to the path of its printer as one message, which is sent again
as it is after a login. Read as a response, the message has the document as its
payload and the attributes of the job in the one group without a name: the
standard ones and those of the caller behind them, so that a value of the caller
overrides a standard one, and an entry without values overrides nothing.
-/

namespace InternetPrinting

open Http (Call Dialogue Outcome Run Script Transport)
open Text (utf8)

namespace RequestAttributes

/-- Pairs with different names get a row each, in order. -/
theorem rows_ofPairs {values : List (String × String)} (distinct : (values.map (·.1)).Nodup) :
    (ofPairs values).rows = values.map fun pair => (pair.1, [pair.2]) := by
  induction values using List.reverseRecOn with
  | nil => rfl
  | append_singleton front pair ih =>
      rw [List.map_append, List.map_singleton] at distinct
      obtain ⟨before, -, apart⟩ := List.nodup_append.mp distinct
      have rows := ih before
      have fresh : pair.1 ∉ (ofPairs front).keys := by
        intro used
        rw [Table.keys, rows, List.map_map] at used
        exact apart pair.1 used pair.1 (List.mem_singleton_self _) rfl
      have last : ofPairs (front ++ [pair]) = (ofPairs front).set pair.1 [pair.2] := by
        simp [ofPairs, insert]
      rw [last, Table.set_of_notMem _ fresh, rows, List.map_append, List.map_singleton]

theorem pairs_ofPairs {values : List (String × String)} (distinct : (values.map (·.1)).Nodup) :
    pairs (ofPairs values) = values := by
  rw [pairs, rows_ofPairs distinct]
  induction values with
  | nil => rfl
  | cons pair rest ih =>
      rw [List.map_cons, List.flatMap_cons, ih (List.nodup_cons.mp distinct).2]
      rfl

end RequestAttributes

/-- The message for an operation is that of a request of version 1.1 whose fields fit. -/
theorem Request.build_name_eq_ok_iff {operation : Operation} {id : RequestId}
    {attributes : RequestAttributes} {payload : Option Bytes} {message : Bytes} :
    build operation.name id attributes payload = .ok message ↔
      RequestAttributes.tooLong? attributes = none ∧
        message = bytes ⟨1, 1, operation, id.toUInt32, attributes, payload⟩ := by
  simp only [build, ofName, Operation.ofName_name]
  exact encode_eq_ok_iff

namespace Authentication

variable {a : Authentication} {σ : Type} (t : Transport σ) (state : σ)

/-- Applying credentials makes no other call than a login. -/
theorem path_of_mem_calls_applyCredentials {username password : String} {call : Call}
    (member : call ∈ ((a.applyCredentials username password).run t state).calls) :
    call.path = "/admin" := by
  by_cases empty : username = "" ∨ password = ""
  · rw [applyCredentials_of_unusable empty] at member
    cases member
  · obtain ⟨named, secret⟩ := not_or.mp empty
    rw [applyCredentials_of_usable named secret, Dialogue.run_bind, run_renewal] at member
    cases on : a.logsIn with
    | false => simp [on, Run.calls] at member
    | true =>
        simp only [on, if_true, Run.calls, Dialogue.run_done, List.append_nil, List.map_cons,
          List.map_nil, List.mem_singleton] at member
        rw [member]
        rfl

/-- An exchange begins with its call, and behind it comes nothing but logins and
the call once more. -/
theorem exists_calls_exchange (c : Call) :
    ∃ later, ((a.exchange c).run t state).calls = a.session.decorateCall c :: later ∧
      ∀ call ∈ later, call.path = "/admin" ∨
        ∃ session : Session, call = session.decorateCall c := by
  simp only [exchange, Dialogue.run, Run.calls, List.map_cons, List.cons.injEq, true_and]
  refine ⟨_, rfl, ?_⟩
  intro call member
  generalize (t.send state (a.session.decorateCall c)).1 = outcome at member
  cases outcome with
  | error fault => simp at member
  | ok reply =>
      simp only at member
      split at member
      · split at member
        · next username password _ _ =>
          rw [Dialogue.run_bind, List.map_append, List.mem_append] at member
          rcases member with login | again
          · left
            exact path_of_mem_calls_applyCredentials t _ login
          · right
            simp only [ask, Dialogue.run, List.map_cons, List.map_nil, List.mem_singleton] at again
            exact ⟨_, again⟩
        · simp at member
      · simp at member

end Authentication

namespace Client

/-- The user whom messages name: the one of the settings, else the first that the system knows.
Without a name, or with an empty one, the user is anonymous. -/
def namedUser (c : Client) : String :=
  let known := [c.settings.requestingUserName, c.environment.user, c.environment.userName]
  ((known.findSome? id).filter (· ≠ "")).getD "anonymous"

theorem requestingUser_eq (c : Client) :
    c.settings.requestingUser c.environment = c.namedUser := by
  obtain ⟨settings, ⟨user, userName⟩, _⟩ := c
  have first : [settings.requestingUserName, user, userName].findSome? id =
      (settings.requestingUserName <|> user <|> userName) := by
    cases settings.requestingUserName <;> cases user <;> cases userName <;> rfl
  simp only [Settings.requestingUser, namedUser, first]
  cases settings.requestingUserName <|> user <|> userName with
  | none => rfl
  | some name => by_cases empty : name = "" <;> simp [Option.filter, empty]

/-- The standard attributes of a message about a printer. -/
def standardPairs (c : Client) (printer : String) (jobName : Option String) :
    List (String × String) :=
  [("attributes-charset", "utf-8"),
    ("attributes-natural-language", "en"),
    ("printer-uri",
      "ipp://" ++ c.settings.host ++ ":" ++ toString c.settings.port.toNat ++
        "/printers/" ++ printer),
    ("requesting-user-name", c.namedUser),
    ("job-name", jobName.getD c.settings.defaultJobName)]

theorem pairs_operationAttributes (c : Client) (printer : String) (jobName : Option String) :
    RequestAttributes.pairs (c.operationAttributes (some printer) jobName) =
      c.standardPairs printer jobName := by
  have distinct : ((c.standardPairs printer jobName).map (·.1)).Nodup := by
    simp only [standardPairs, List.map_cons, List.map_nil]
    decide
  rw [← RequestAttributes.pairs_ofPairs distinct]
  simp only [operationAttributes, standardPairs, requestingUser_eq, Settings.authority,
    Option.getD_some, String.append_assoc]

/-- The call brings a message to a path. -/
structure Brings (call : Call) (path : String) (message : Bytes) : Prop where
  method : call.method = .post
  path : call.path = path
  body : call.body = message

theorem brings_decorateCall (session : Session) (path : String) (message : Bytes) :
    Brings (session.decorateCall (.message path message)) path message :=
  ⟨rfl, rfl, rfl⟩

/-- The message of a print job goes to the path of the printer, and nothing follows
but logins and the message once more. -/
theorem exists_calls_printJob {c : Client} {id : RequestId} {printer : String} {document : Bytes}
    {jobName : Option String} {options : RequestAttributes} {message : Bytes}
    (built : c.message Operation.printJob.name id (some printer) jobName (some document) options =
      .ok message) {σ : Type} (t : Transport σ) (state : σ) :
    ∃ first later, ((c.printJob id printer document jobName options).run t state).calls =
        first :: later ∧
      Brings first (printerPath printer) message ∧
      ∀ call ∈ later, call.path = "/admin" ∨
        Brings call (printerPath printer) message := by
  obtain ⟨later, calls, followed⟩ :=
    c.authentication.exists_calls_exchange t state (.message (printerPath printer) message)
  refine ⟨c.session.decorateCall (.message (printerPath printer) message), later, ?_,
    brings_decorateCall _ _ _, ?_⟩
  · rw [session, ← calls]
    simp only [printJob, built, request, run_post, Run.calls]
  · intro call member
    refine (followed call member).imp_right ?_
    rintro ⟨session, rfl⟩
    exact brings_decorateCall session _ message

/-- What a client sends for a print job whose message can be built. The first call
brings the message to the path of the printer, and so does every later one that is
no login. The path is one segment behind a fixed front, and the segment spells the
name of the printer. The message is read with the document as its payload and with
one group, in which every name has its last value: that of the caller if he gives
one, and else the standard one. -/
theorem run_printJob_exact (c : Client) (id : RequestId) (printer : String) (document : Bytes)
    (jobName : Option String) (options : RequestAttributes) {message : Bytes}
    (built : c.message Operation.printJob.name id (some printer) jobName (some document) options =
      .ok message) {σ : Type} (t : Transport σ) (state : σ) :
    let run := (c.printJob id printer document jobName options).run t state
    let standard := c.standardPairs printer jobName
    let own := RequestAttributes.pairs options
    ∃ (segment : String) (response : Response) (attributes : Attributes),
      (∃ first later, run.calls = first :: later ∧
        Brings first ("/printers/" ++ segment) message ∧
        ∀ call ∈ later, call.path = "/admin" ∨
          Brings call ("/printers/" ++ segment) message) ∧
      (∀ mark ∈ segment.toList, mark ≠ '/' ∧ mark ≠ '?' ∧ mark ≠ '#') ∧
      Text.Percent.decode? segment.toList = some (utf8 printer) ∧
      Response.parse message = .ok response ∧
      response.major = 1 ∧ response.minor = 1 ∧ response.status = 0x0002 ∧
      response.payload = (if document = [] then none else some document) ∧
      response.groups.rows = [(none, attributes)] ∧ attributes.keys.Nodup ∧
      (∀ name, attributes.get? name = (lastValue? (standard ++ own) name).map .charset) ∧
      (∀ name value, lastValue? own name = some value →
        attributes.get? name = some (.charset value)) ∧
      (∀ name, name ∉ own.map (·.1) →
        attributes.get? name = (lastValue? standard name).map .charset) := by
  intro run standard own
  obtain ⟨short, same⟩ := Request.build_name_eq_ok_iff.mp built
  let printing : Request :=
    ⟨1, 1, .printJob, id.toUInt32,
      (c.operationAttributes (some printer) jobName).append options, some document⟩
  have spelled : Response.Spells printing.bytes _ := Request.spells_bytes short
  have sequence : RequestAttributes.pairs printing.attributes = standard ++ own := by
    rw [RequestAttributes.pairs_append, pairs_operationAttributes]
  have nonempty : standard ++ own ≠ [] := List.cons_ne_nil _ _
  have values (name : String) :
      (Table.ofLastValues ((standard ++ own).map fun pair => (pair.1, Value.charset pair.2))).get?
        name = (lastValue? (standard ++ own) name).map .charset := by
    rw [Table.get?_ofLastValues, lastValue?_map]
  rw [sequence] at spelled
  refine ⟨Text.Percent.pathSegment printer, _, _, exists_calls_printJob built t state,
    fun _ => Text.Percent.ne_of_mem_pathSegment, Text.Percent.decode?_pathSegment printer,
    Response.parse_eq_ok_iff.mpr (same ▸ spelled), rfl, rfl, rfl, ?_,
    congrArg Table.rows (RequestAttributes.arranged_entryOf nonempty),
    Table.nodup_keys_ofLastValues _, values, ?_, ?_⟩
  · cases document with
    | nil => rfl
    | cons first rest => rfl
  · intro name value found
    rw [values, lastValue?_append, found]
    rfl
  · intro name absent
    have missing : lastValue? own name = none := by
      rw [← Option.not_isSome_iff_eq_none, lastValue?_isSome_iff]
      exact absent
    rw [values, lastValue?_append, missing]
    rfl

/-- Options that name the job twice and leave the printer open. -/
def twiceNamed : RequestAttributes :=
  ⟨[("job-name", ["draft", "final"]), ("printer-uri", [])]⟩

/-- The last name of the job counts, the entry without values does not, and the
document is kept although it begins like the end of the attributes. -/
theorem run_printJob_exact_twiceNamed :
    ∃ (message : Bytes) (response : Response) (attributes : Attributes),
      (ofSettings .standard {}).message Operation.printJob.name ⟨7, by decide⟩ (some "Büro/2") none
        (some [0x03, 0x04]) twiceNamed = .ok message ∧
      Response.parse message = .ok response ∧
      response.payload = some [0x03, 0x04] ∧ response.groups.rows = [(none, attributes)] ∧
      attributes.get? "job-name" = some (.charset "final") ∧
      attributes.get? "printer-uri" =
        some (.charset "ipp://localhost:631/printers/Büro/2") := by
  have built : (ofSettings .standard {}).message Operation.printJob.name ⟨7, by decide⟩
      (some "Büro/2") none (some [0x03, 0x04]) twiceNamed = .ok _ :=
    Request.build_name_eq_ok_iff.mpr ⟨by decide +kernel, rfl⟩
  obtain ⟨_, response, attributes, -, -, -, read, -, -, -, document, rows, -, -, own, standard⟩ :=
    run_printJob_exact (ofSettings .standard {}) ⟨7, by decide⟩ "Büro/2" [0x03, 0x04] none
      twiceNamed built Script.transport { outcomes := [] }
  have uri := standard "printer-uri" (by decide)
  exact ⟨_, response, attributes, built, read, document, rows,
    own "job-name" "final" (by decide), uri.trans (by decide +kernel)⟩

end Client

end InternetPrinting
