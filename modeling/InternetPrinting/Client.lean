import InternetPrinting.Authentication
import InternetPrinting.Request.Wire
import InternetPrinting.Response.Wire
import InternetPrinting.Settings
import InternetPrinting.Version

/-!
# Clients of a print server

A client turns what its user wants into calls and their replies into answers.
An operation sends one message through the authentication exchange and takes
only a reply with status 200. Asking for the printers looks at the server's
opinion of the credentials when the reply has another status; asking for the
version falls back on the front page of the server.

Operations are dialogues, which also say what the client knows afterwards. The
id of a request is drawn by the caller.
-/

namespace InternetPrinting

open Http (Call Dialogue Outcome Reply)

/-- A client: its settings, the system it runs on, and its session. -/
structure Client where
  settings : Settings
  environment : Environment
  authentication : Authentication
deriving DecidableEq, Repr

/-- What the server says about the credentials. -/
structure AuthProbe where
  status : UInt16
  headers : List (String × String)
  excerpt : String
deriving DecidableEq, Repr

namespace AuthProbe

/-- How many bytes of the body are kept. -/
def excerptLength : Nat := 500

def ofReply (reply : Reply) : AuthProbe where
  status := reply.status
  headers := reply.headers.fields.map fun field => (field.1.lower, Text.lossy field.2)
  excerpt := Text.lossy (reply.body.take excerptLength)

end AuthProbe

/-- The path of a printer, its name being one segment. -/
def printerPath (printer : String) : String :=
  "/printers/" ++ Text.Percent.pathSegment printer

namespace Client

/-- The status of a reply that answers an operation. -/
def statusOk : UInt16 := 200

/-- A client whose settings may already hold a pair. -/
def ofSettings (settings : Settings) (environment : Environment) : Client where
  settings
  environment
  authentication :=
    match settings.username, settings.password with
    | some username, some password =>
      (Authentication.initial settings.sessionLogin).setCredentials username password
    | _, _ => .initial settings.sessionLogin

/-- A client whose settings have been validated. -/
def ofValidSettings (settings : Settings) (environment : Environment) : Except Fault Client :=
  match settings.validate with
  | .error fault => .error fault
  | .ok _ => .ok (ofSettings settings environment)

def session (c : Client) : Session :=
  c.authentication.session

/-- The attributes in front of those of the caller. -/
def operationAttributes (c : Client) (printer jobName : Option String) : RequestAttributes :=
  RequestAttributes.ofPairs
    [("attributes-charset", "utf-8"),
      ("attributes-natural-language", "en"),
      ("printer-uri", "ipp://" ++ c.settings.authority ++ "/printers/" ++ printer.getD ""),
      ("requesting-user-name", c.settings.requestingUser c.environment),
      ("job-name", jobName.getD c.settings.defaultJobName)]

/-- The message for the operation with a keyword. -/
def message (c : Client) (keyword : String) (id : RequestId) (printer jobName : Option String)
    (document : Option Bytes) (options : RequestAttributes) : Except Fault Bytes :=
  Request.build keyword id ((c.operationAttributes printer jobName).append options) document

/-- The body of a reply with status 200. -/
def acceptedBody : Outcome → Except Fault Bytes
  | .error fault => .error fault
  | .ok reply =>
    if reply.status = statusOk then .ok reply.body
    else .error (.httpStatus reply.status reply.body)

/-- The response in a body. -/
def responseIn (body : Except Fault Bytes) : Except Fault Response :=
  match body with
  | .error fault => .error fault
  | .ok bytes => (Response.parse bytes).mapError .malformedResponse

/-- Make a call through the authentication exchange. -/
def exchange (c : Client) (call : Call) : Dialogue (Except Fault Bytes × Client) :=
  (c.authentication.exchange call).bind fun result =>
    .done (acceptedBody result.1, { c with authentication := result.2 })

/-- Send a message and read the response. -/
def post (c : Client) (path : String) (body : Bytes) :
    Dialogue (Except Fault Response × Client) :=
  (c.exchange (.message path body)).bind fun result => .done (responseIn result.1, result.2)

/-- Build a message and send it to a path. What cannot be built is not sent. -/
def request (c : Client) (path : String) (message : Except Fault Bytes) :
    Dialogue (Except Fault Response × Client) :=
  match message with
  | .error fault => .done (.error fault, c)
  | .ok body => c.post path body

/-- Print a document. -/
def printJob (c : Client) (id : RequestId) (printer : String) (document : Bytes)
    (jobName : Option String) (options : RequestAttributes) :
    Dialogue (Except Fault Response × Client) :=
  c.request (printerPath printer)
    (c.message Operation.printJob.name id (some printer) jobName (some document) options)

/-- Ask what the server says about the credentials, once and as they are. -/
def debugAuth (c : Client) : Dialogue (Except Fault AuthProbe) :=
  .call (c.session.decorateCall (.get Session.loginPath)) fun
    | .error fault => .done (.error fault)
    | .ok reply => .done (.ok (.ofReply reply))

/-- Ask for the printers. A reply with another status than 200 is followed by
a look at the credentials, which does not change the answer. -/
def getPrinters (c : Client) (id : RequestId) : Dialogue (Except Fault Response × Client) :=
  (c.request "/" (c.message Operation.getPrinters.name id none none none .empty)).bind
    fun result =>
      match result.1 with
      | .error (.transportFailure (some _) _) =>
        result.2.debugAuth.bind fun _ => .done result
      | _ => .done result

/-- Ask for the jobs of a printer. -/
def getJobs (c : Client) (id : RequestId) (printer : String) :
    Dialogue (Except Fault Response × Client) :=
  c.request (printerPath printer)
    (c.message Operation.getJobs.name id (some printer) none none .empty)

/-- Ask for the attributes of a printer. -/
def getPrinterAttributes (c : Client) (id : RequestId) (printer : String) :
    Dialogue (Except Fault Response × Client) :=
  c.request (printerPath printer)
    (c.message Operation.getPrinterAttributes.name id (some printer) none none .empty)

/-- The keyword that asks for the version. No operation has it. -/
def versionKeyword : String := "get-version"

/-- The attribute that holds the packed version. -/
def versionAttribute : String := "printer-version"

/-- The version that a response tells. -/
def versionIn (response : Response) : Except Fault String :=
  match response.find? versionAttribute with
  | none => .error (.malformedResponse (.missingAttribute versionAttribute))
  | some value =>
    match value.asInteger with
    | none => .error (.malformedResponse (.notInteger versionAttribute value.display))
    | some packed => .ok (Version.format (UInt32.ofInt packed))

/-- Ask for the version by a message. -/
def getVersionByMessage (c : Client) (id : RequestId) : Dialogue (Except Fault String × Client) :=
  (c.request "/admin/" (c.message versionKeyword id none none none .empty)).bind fun result =>
    .done (result.1.bind versionIn, result.2)

/-- The version on a page. -/
def versionOn (page : Bytes) : Except Fault String :=
  match Version.inPage? (Text.lossy page) with
  | some version => .ok version
  | none => .error (.malformedResponse .noBanner)

/-- Look for the version on the front page. -/
def getVersionFromPage (c : Client) : Dialogue (Except Fault String × Client) :=
  (c.exchange (.get "/")).bind fun result => .done (result.1.bind versionOn, result.2)

/-- Ask for the version by a message, and on the front page if that fails. -/
def getVersion (c : Client) (id : RequestId) : Dialogue (Except Fault String × Client) :=
  (c.getVersionByMessage id).bind fun byMessage =>
    match byMessage.1 with
    | .ok version => .done (.ok version, byMessage.2)
    | .error ipp =>
      byMessage.2.getVersionFromPage.bind fun fromPage =>
        match fromPage.1 with
        | .ok version => .done (.ok version, fromPage.2)
        | .error http =>
          .done (.error (.versionUnavailable ipp.message http.message), fromPage.2)

/-- Use another pair and log in with it. -/
def setCredentials (c : Client) (username password : String) : Dialogue Client :=
  (c.authentication.applyCredentials username password).bind fun authentication =>
    .done { c with authentication }

/-- Log in with the pair of the settings, if they hold one. -/
def login (c : Client) : Dialogue Client :=
  match c.settings.username, c.settings.password with
  | some username, some password => c.setCredentials username password
  | _, _ => .done c

/-- Forget the pair and the cookie. -/
def clearCredentials (c : Client) : Client :=
  { c with authentication := c.authentication.clearCredentials }

end Client

end InternetPrinting
