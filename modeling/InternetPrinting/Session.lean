import InternetPrinting.Http.Exchange
import InternetPrinting.Text.Base64
import InternetPrinting.Text.Blank
import InternetPrinting.Text.Percent

/-!
# Sessions

What a client knows of its user: a user name and a password, the authorization
value made of them, and a cookie that a login may have brought. A pair with an
empty half makes no authorization. Without authorization a request carries
neither credentials nor cookie, whatever its caller put there.
-/

namespace InternetPrinting

open Http (Headers Call)

/-- The credentials of a client. -/
structure Session where
  username : Option String := none
  password : Option String := none
  cookie : Option String := none
  authorization : Option String := none
deriving DecidableEq, Repr

/-- The authorization value for a user name and a password. -/
def basicAuthorization (username password : String) : String :=
  "Basic " ++ String.ofList (Text.Base64.encode (Text.utf8 (username ++ ":" ++ password)))

namespace SessionCookie

/-- The name of the cookie that a login brings. -/
def name : String := "org.cups.sid"

/-- The value of the session cookie in a field that sets a cookie. The cookie
is the part before the first semicolon, its name the part of that before the
first equals sign. -/
def value? (field : List Char) : Option (List Char) :=
  let cookie := Text.before ';' field
  if '=' ∈ cookie ∧ Text.trimChars (Text.before '=' cookie) = name.toList then
    some (Text.trimChars (Text.behind '=' cookie))
  else none

/-- The session cookie that a reply sets. Fields that cannot be shown as text
do not count, the first one that sets the cookie decides, and an empty value
is no cookie. -/
def ofHeaders? (h : Headers) : Option String :=
  let fields := (h.values .setCookie).filterMap Http.visibleText?
  ((fields.findSome? value?).filter fun value => !value.isEmpty).map String.ofList

end SessionCookie

namespace Session

/-- Keep a pair and make its authorization. A cookie stays as it is. -/
def applyCredentials (s : Session) (username password : String) : Session :=
  { s with
    username := some username
    password := some password
    authorization :=
      if username.isEmpty || password.isEmpty then none
      else some (basicAuthorization username password) }

/-- The session that knows nothing. -/
def cleared : Session := {}

def hasCredentials (s : Session) : Bool :=
  s.authorization.isSome

/-- The value of the field that sends the cookie back. -/
def cookieField? (s : Session) : Option String :=
  s.cookie.map fun cookie => SessionCookie.name ++ "=" ++ cookie

/-- The header fields of a request with those of the session in place of any
credentials and cookies. A text that is not allowed as a value is left out. -/
def decorate (s : Session) (h : Headers) : Headers :=
  let bare := (h.erase .authorization).erase .cookie
  match s.authorization with
  | none => bare
  | some authorization =>
    let h := bare.insertText .authorization authorization
    match s.cookieField? with
    | none => h
    | some cookie => h.insertText .cookie cookie

/-- A call with the header fields of the session. -/
def decorateCall (s : Session) (c : Call) : Call :=
  { c with headers := s.decorate c.headers }

/-- The page that takes logins and tells about authorization. -/
def loginPath : String := "/admin"

/-- The fields of the login form. -/
def loginFields (username password : String) : List (String × String) :=
  [(SessionCookie.name, "1"), ("OP", "login"), ("USERID", username), ("PASSWD", password)]

/-- The login with the pair of the session, if it has one. -/
def loginCall? (s : Session) : Option Call :=
  match s.username, s.password with
  | some username, some password =>
    let form :=
      Call.form loginPath (Text.utf8 (Text.Percent.formBody (loginFields username password)))
    match s.authorization with
    | none => some form
    | some authorization =>
      some { form with headers := form.headers.insertText .authorization authorization }
  | _, _ => none

end Session

end InternetPrinting
