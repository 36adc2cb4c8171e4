import InternetPrinting.Message
import InternetPrinting.Text.Hex
import InternetPrinting.Text.Utf8

/-!
# Faults

Every way in which talking to a print server can fail, with what a caller
needs to know about it. The wording is given once, by `Fault.message`.
-/

namespace InternetPrinting

/-- The length-prefixed parts of the attribute section of a response. -/
inductive Part
  | groupName
  | attributeName
  | attributeValue
deriving DecidableEq, Repr

def Part.text : Part → String
  | .groupName => "group name"
  | .attributeName => "attribute name"
  | .attributeValue => "attribute value"

/-- The two fields of a text that carries its language. -/
inductive LanguageField
  | language
  | text
deriving DecidableEq, Repr

def LanguageField.name : LanguageField → String
  | .language => "language"
  | .text => "text"

/-- What is wrong with a response. -/
inductive Malformed
  /-- Fewer bytes than the header has. -/
  | tooShort (length : Nat)
  /-- A part needs more bytes than are left at an offset. -/
  | truncated (part : Part) (needed offset left : Nat)
  /-- A value does not have the width of its kind. -/
  | wrongWidth (tag : UInt8) (needed actual : Nat)
  /-- A field of a text with its language runs past the end of the value. -/
  | truncatedLanguage (field : LanguageField)
  /-- No attribute of this name. -/
  | missingAttribute (name : String)
  /-- An attribute shown in its display form is not an integer. -/
  | notInteger (name display : String)
  /-- A front page without a version banner. -/
  | noBanner
  /-- Anything else, in words. -/
  | described (text : String)
deriving DecidableEq, Repr

def Malformed.message : Malformed → String
  | .tooShort length =>
    "IPP response too short: " ++ toString length ++ " bytes (minimum " ++
      toString Message.headerLength ++ ")"
  | .truncated part needed offset left =>
    "truncated " ++ part.text ++ ": need " ++ toString needed ++ " bytes at offset " ++
      toString offset ++ ", " ++ toString left ++ " left"
  | .wrongWidth tag needed actual =>
    "value tag 0x" ++ String.ofList (Text.Hex.byte tag) ++ " needs " ++ toString needed ++
      " bytes, got " ++ toString actual
  | .truncatedLanguage field => "truncated with-language " ++ field.name
  | .missingAttribute name => "no " ++ name ++ " in response"
  | .notInteger name display => name ++ " is not an integer: " ++ display
  | .noBanner => "no CUPS version in HTTP response"
  | .described text => text

/-- What is wrong with the settings of a client. -/
inductive InvalidSettings
  | blankHost
  | zeroPort
  | zeroTimeout
  | described (text : String)
deriving DecidableEq, Repr

def InvalidSettings.message : InvalidSettings → String
  | .blankHost => "host must not be empty"
  | .zeroPort => "port must not be zero"
  | .zeroTimeout => "timeout_ms must not be zero"
  | .described text => text

/-- Why a file cannot be read as text. -/
inductive Unreadable
  | missing
  | notUtf8
deriving DecidableEq, Repr

def Unreadable.message : Unreadable → String
  | .missing => "No such file or directory (os error 2)"
  | .notUtf8 => "stream did not contain valid UTF-8"

/-- Why an operation of the client did not succeed. -/
inductive Fault
  | unsupportedOperation (name : String)
  | malformedResponse (cause : Malformed)
  /-- The name or a value of an attribute is longer than a field can be. -/
  | attributeTooLong (name : String) (length : Nat)
  /-- The exchange failed. A status is given if a reply arrived. -/
  | transportFailure (status : Option UInt16) (text : String)
  /-- Neither way of asking for the version worked. -/
  | versionUnavailable (ipp http : String)
  | invalidSettings (cause : InvalidSettings)
  | unreadableFile (cause : Unreadable)
  /-- A settings file that is not JSON of the expected form. -/
  | malformedSettings
deriving DecidableEq, Repr

namespace Fault

/-- A failure without a reply. -/
def transport (text : String) : Fault :=
  .transportFailure none text

/-- No reply within the deadline. -/
def timeout : Fault :=
  transport "timeout"

/-- A reply with an unwanted status. Its body says why, if it has one. -/
def httpStatus (status : UInt16) (body : Bytes) : Fault :=
  .transportFailure (some status)
    (if body.isEmpty then "status code " ++ toString status.toNat else Text.lossy body)

/-- The status of the reply behind a failure. -/
def status : Fault → Option UInt16
  | .transportFailure status _ => status
  | _ => none

/-- The wording of a fault. -/
def message : Fault → String
  | .unsupportedOperation name => "unsupported IPP operation: " ++ name
  | .malformedResponse cause => "malformed IPP response: " ++ cause.message
  | .attributeTooLong name length =>
    "attribute '" ++ name ++ "' is " ++ toString length ++
      " bytes, exceeding the " ++ toString Message.fieldLimit ++ "-byte limit"
  | .transportFailure (some status) text =>
    "transport failure (HTTP " ++ toString status.toNat ++ "): " ++ text
  | .transportFailure none text => "transport failure: " ++ text
  | .versionUnavailable ipp http =>
    "CUPS version unavailable (IPP: " ++ ipp ++ "; HTTP: " ++ http ++ ")"
  | .invalidSettings cause => "invalid client configuration: " ++ cause.message
  | .unreadableFile cause => "file I/O error: " ++ cause.message
  | .malformedSettings => "serialization error"

end Fault

end InternetPrinting
