import InternetPrinting.Http.Dialogue
import InternetPrinting.Session

/-!
# Authentication

Every call goes out with the header fields of the session. If the server
refuses it for want of authorization and there are credentials, they are
applied once more, which logs in anew if logins are on, and the call is made
once more. The outcome of that is final.
-/

namespace InternetPrinting

open Http (Call Dialogue Outcome)

/-- A session and whether applying credentials logs in. -/
structure Authentication where
  session : Session := {}
  logsIn : Bool
deriving DecidableEq, Repr

namespace Authentication

/-- The status of a reply that asks for authorization. -/
def unauthorized : UInt16 := 401

/-- Nothing known yet. -/
def initial (logsIn : Bool) : Authentication :=
  { logsIn }

/-- Keep a pair without logging in. Any cookie belonged to another pair. -/
def setCredentials (a : Authentication) (username password : String) : Authentication :=
  { a with session := { a.session.applyCredentials username password with cookie := none } }

/-- Forget the pair and the cookie. -/
def clearCredentials (a : Authentication) : Authentication :=
  { a with session := .cleared }

/-- Hold the cookie of a login. -/
def withCookie (a : Authentication) (cookie : Option String) : Authentication :=
  { a with session := { a.session with cookie } }

/-- Keep a pair and log in with it, if logins are on and the pair is usable.
A login that gets no reply leaves the pair as it is. -/
def applyCredentials (a : Authentication) (username password : String) :
    Dialogue Authentication :=
  let a := a.setCredentials username password
  if a.logsIn && a.session.hasCredentials then
    match a.session.loginCall? with
    | none => .done a
    | some login =>
      .call login fun
        | .ok reply => .done (a.withCookie (SessionCookie.ofHeaders? reply.headers))
        | .error _ => .done a
  else .done a

/-- Make a call with the session's header fields. -/
def ask (a : Authentication) (c : Call) : Dialogue (Outcome × Authentication) :=
  .call (a.session.decorateCall c) fun outcome => .done (outcome, a)

/-- Make a call, and once more after applying the credentials again if the
server asks for authorization. -/
def exchange (a : Authentication) (c : Call) : Dialogue (Outcome × Authentication) :=
  .call (a.session.decorateCall c) fun
    | .error fault => .done (.error fault, a)
    | .ok reply =>
      if reply.status = unauthorized ∧ a.session.hasCredentials = true then
        match a.session.username, a.session.password with
        | some username, some password =>
          (a.applyCredentials username password).bind fun a => a.ask c
        | _, _ => .done (.ok reply, a)
      else .done (.ok reply, a)

end Authentication

end InternetPrinting
