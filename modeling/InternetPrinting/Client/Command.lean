import InternetPrinting.Client

/-!
# Commands to a client

Everything that a user can tell a client to do, as data, with the answer it
gives. All of it is a dialogue over the client's transport, except for
disconnecting, which closes the transport.
-/

namespace InternetPrinting

open Http (Call Dialogue Run Transport)

/-- What a client can be told to do. -/
inductive Command
  | printJob (id : RequestId) (printer : String) (document : Bytes) (jobName : Option String)
      (options : RequestAttributes)
  | getPrinters (id : RequestId)
  | getJobs (id : RequestId) (printer : String)
  | getPrinterAttributes (id : RequestId) (printer : String)
  | getVersion (id : RequestId)
  | getVersionByMessage (id : RequestId)
  | getVersionFromPage
  | debugAuth
  | setCredentials (username password : String)
  | login
  | clearCredentials
  | disconnect

/-- What a client says when it is done. -/
inductive Answer
  | nothing
  | response (result : Except Fault Response)
  | version (result : Except Fault String)
  | probe (result : Except Fault AuthProbe)

namespace Client

variable {σ : Type}

/-- Do what a command says over a transport. -/
def perform (t : Transport σ) (state : σ) (c : Client) (command : Command) :
    Run σ (Answer × Client) :=
  let responding (d : Dialogue (Except Fault Response × Client)) :=
    (d.bind fun result => .done (Answer.response result.1, result.2)).run t state
  let versioned (d : Dialogue (Except Fault String × Client)) :=
    (d.bind fun result => .done (Answer.version result.1, result.2)).run t state
  let silent (d : Dialogue Client) :=
    (d.bind fun c => .done (Answer.nothing, c)).run t state
  match command with
  | .printJob id printer document jobName options =>
    responding (c.printJob id printer document jobName options)
  | .getPrinters id => responding (c.getPrinters id)
  | .getJobs id printer => responding (c.getJobs id printer)
  | .getPrinterAttributes id printer => responding (c.getPrinterAttributes id printer)
  | .getVersion id => versioned (c.getVersion id)
  | .getVersionByMessage id => versioned (c.getVersionByMessage id)
  | .getVersionFromPage => versioned c.getVersionFromPage
  | .debugAuth => (c.debugAuth.bind fun probe => .done (.probe probe, c)).run t state
  | .setCredentials username password => silent (c.setCredentials username password)
  | .login => silent c.login
  | .clearCredentials => ⟨(.nothing, c.clearCredentials), [], state⟩
  | .disconnect => ⟨(.nothing, c), [], t.close state⟩

/-- Let go of a client, which closes its transport. -/
def drop (t : Transport σ) (state : σ) (_ : Client) : σ :=
  t.close state

end Client

end InternetPrinting
