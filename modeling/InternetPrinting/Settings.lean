import InternetPrinting.Fault
import InternetPrinting.Text.Blank

/-!
# Settings of a client

Where the server is, how long to wait for it, who is printing, and what a
client does on its own account. Settings that could never reach a server are
refused, the first reason in a fixed order.
-/

namespace InternetPrinting

/-- A length of time. -/
structure Span where
  seconds : Nat
  nanoseconds : Nat
deriving DecidableEq, Repr

namespace Span

/-- The whole milliseconds of a span. -/
def milliseconds (t : Span) : Nat :=
  t.seconds * 1000 + t.nanoseconds / 1000000

/-- The span of a number of milliseconds. -/
def ofMilliseconds (n : Nat) : Span :=
  ⟨n / 1000, n % 1000 * 1000000⟩

@[simp] theorem milliseconds_ofMilliseconds (n : Nat) : (ofMilliseconds n).milliseconds = n := by
  simp only [milliseconds, ofMilliseconds]
  omega

end Span

/-- The names under which the system may know the user. -/
structure Environment where
  user : Option String := none
  userName : Option String := none
deriving DecidableEq, Repr

/-- The settings of a client. -/
structure Settings where
  host : String := "localhost"
  port : UInt16 := 631
  timeoutMs : UInt64 := 5000
  username : Option String := none
  password : Option String := none
  requestingUserName : Option String := none
  defaultJobName : String := "cupslink job"
  /-- Whether applying credentials also logs in to the web interface. -/
  sessionLogin : Bool := true
deriving DecidableEq, Repr

namespace Settings

/-- The settings that hold where nothing else is said. -/
def standard : Settings := {}

/-- The standard settings for a server. -/
def ofServer (host : String) (port : UInt16) : Settings :=
  { standard with host, port }

def withCredentials (s : Settings) (username password : String) : Settings :=
  { s with username := some username, password := some password }

/-- Set the deadline to the whole milliseconds of a span, of which the low
sixty-four bits are kept. -/
def withTimeout (s : Settings) (t : Span) : Settings :=
  { s with timeoutMs := UInt64.ofNat t.milliseconds }

/-- The deadline for connecting and for an exchange. -/
def timeout (s : Settings) : Span :=
  Span.ofMilliseconds s.timeoutMs.toNat

/-- The host and the port of the server. -/
def authority (s : Settings) : String :=
  s.host ++ ":" ++ toString s.port.toNat

/-- The reason to refuse the settings, if there is one. -/
def invalid? (s : Settings) : Option InvalidSettings :=
  if (Text.trim s.host).isEmpty then some .blankHost
  else if s.port = 0 then some .zeroPort
  else if s.timeoutMs = 0 then some .zeroTimeout
  else none

/-- Whether the settings can reach a server at all. -/
def validate (s : Settings) : Except Fault Unit :=
  match s.invalid? with
  | some cause => .error (.invalidSettings cause)
  | none => .ok ()

/-- The name that requests give for the user: the one that is set, else the
one the system knows. An empty name counts as anonymous. -/
def requestingUser (s : Settings) (environment : Environment) : String :=
  match s.requestingUserName <|> environment.user <|> environment.userName with
  | some name => if name.isEmpty then "anonymous" else name
  | none => "anonymous"

/-- Whether a user name and a password are set, neither of them empty. -/
def hasCredentials (s : Settings) : Bool :=
  match s.username, s.password with
  | some username, some password => !username.isEmpty && !password.isEmpty
  | _, _ => false

theorem validate_eq_ok_iff (s : Settings) : s.validate = .ok () ↔ s.invalid? = none := by
  unfold validate
  split
  · next h => simp [h]
  · next h => simp [h]

end Settings

end InternetPrinting
