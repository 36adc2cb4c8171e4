/-!
# Versions of the server

A version comes packed into a number, a byte for each part, or stands in the
text of a page behind a marker. Of the page the first marker counts that has a
version behind it, in whatever case the marker is written.
-/

namespace InternetPrinting.Version

/-- The parts of a packed version: the three low bytes. -/
def format (packed : UInt32) : String :=
  let n := packed.toNat
  toString (n / 65536 % 256) ++ "." ++ toString (n / 256 % 256) ++ "." ++ toString (n % 256)

/-- The marker in front of a version, in lower case. -/
def marker : List Char := ['c', 'u', 'p', 's', '/']

/-- What follows a word at the front of a text, where letters of ASCII may be
of either case. The word is given in lower case. -/
def afterWord? : List Char → List Char → Option (List Char)
  | [], text => some text
  | _ :: _, [] => none
  | w :: word, c :: text => if c.toLower = w then afterWord? word text else none

/-- A character that a version may consist of. -/
def isVersionChar (c : Char) : Bool :=
  c.isDigit || c = '.'

/-- The version right behind a marker at the front of a text. -/
def atFront? (text : List Char) : Option (List Char) :=
  match afterWord? marker text with
  | none => none
  | some rest =>
    let version := rest.takeWhile isVersionChar
    if version.isEmpty then none else some version

/-- The version behind the first marker that has one. -/
def find? : List Char → Option (List Char)
  | [] => none
  | c :: rest =>
    match atFront? (c :: rest) with
    | some version => some version
    | none => find? rest

/-- The version in the text of a page. -/
def inPage? (page : String) : Option String :=
  (find? page.toList).map String.ofList

end InternetPrinting.Version
