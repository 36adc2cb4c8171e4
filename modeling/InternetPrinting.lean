import InternetPrinting.Bytes
import InternetPrinting.Table
import InternetPrinting.Text.Hex
import InternetPrinting.Text.Split
import InternetPrinting.Text.Utf8
import InternetPrinting.Text.Utf8.RoundTrip
import InternetPrinting.Text.Blank
import InternetPrinting.Text.Base64
import InternetPrinting.Text.Percent
import InternetPrinting.Message
import InternetPrinting.Fault
import InternetPrinting.Operation
import InternetPrinting.Value
import InternetPrinting.Value.Wire
import InternetPrinting.Response
import InternetPrinting.Response.Wire
import InternetPrinting.Request
import InternetPrinting.Request.Wire
import InternetPrinting.Settings
import InternetPrinting.Json.Token
import InternetPrinting.Json.Tree
import InternetPrinting.Settings.Json
import InternetPrinting.Http.Headers
import InternetPrinting.Http.Exchange
import InternetPrinting.Http.Dialogue
import InternetPrinting.Http.Script
import InternetPrinting.Session
import InternetPrinting.Authentication
import InternetPrinting.Version
import InternetPrinting.Client
import InternetPrinting.Client.Command
import InternetPrinting.Http.Target
import InternetPrinting.Http.Link
import InternetPrinting.Http.Server
import InternetPrinting.Proofs.Store.LastWrites
import InternetPrinting.Proofs.Store.Placement
import InternetPrinting.Proofs.Wire.Field
import InternetPrinting.Proofs.Wire.Value
import InternetPrinting.Proofs.Wire.Grammar
import InternetPrinting.Proofs.Wire.Acceptance
import InternetPrinting.Proofs.Wire.RequestReading
import InternetPrinting.Proofs.Wire.ResponseRoundTrip
import InternetPrinting.Proofs.Authentication.Decoration
import InternetPrinting.Proofs.Authentication.Reachable
import InternetPrinting.Proofs.Authentication.Exchange
import InternetPrinting.Proofs.Authentication.CookieOrigin
import InternetPrinting.Proofs.Client.Inquiry
import InternetPrinting.Proofs.Client.Commands
import InternetPrinting.Proofs.Client.LoginOutcome
import InternetPrinting.Proofs.Client.WithoutCredentials
import InternetPrinting.Proofs.Http.Lockstep
import InternetPrinting.Proofs.Authentication.OtherCredentials
import InternetPrinting.Proofs.Client.Noninterference
import InternetPrinting.Proofs.Wire.PrefixFree
import InternetPrinting.Proofs.Wire.Truncation
import InternetPrinting.Proofs.Wire.RequestUniqueness
import InternetPrinting.Proofs.Text.PathSegment
import InternetPrinting.Proofs.Client.PrintedJob
import InternetPrinting.Proofs.Authentication.CookieField
import InternetPrinting.Proofs.Authentication.CookieSearch
import InternetPrinting.Proofs.Client.HeldSession
import InternetPrinting.Proofs.Store.Arrangement
import InternetPrinting.Proofs.Wire.ParsedResponse
import InternetPrinting.Proofs.Wire.Insertion
import InternetPrinting.Proofs.Wire.ValueMeaning
import InternetPrinting.Proofs.Wire.RequestBuilding
import InternetPrinting.Proofs.Http.Contact
import InternetPrinting.Proofs.Http.LinkDiscipline
import InternetPrinting.Proofs.Json.Building
import InternetPrinting.Proofs.Settings.RoundTrip
import InternetPrinting.Proofs.Text.FormBody
import InternetPrinting.Proofs.Client.EncodedText
import InternetPrinting.Proofs.Client.VersionLookup
import InternetPrinting.Proofs.Text.ByteSearch
import InternetPrinting.Proofs.Version.Banner
import InternetPrinting.Proofs.Version.OffsetSearch
import InternetPrinting.Proofs.Authentication.Redecoration
import InternetPrinting.Proofs.Store.UseHistory
import InternetPrinting.Proofs.Store.FirstUseOrder
import InternetPrinting.Proofs.Wire.MarkerOrder
import InternetPrinting.Proofs.Json.Numerals
import InternetPrinting.Proofs.Json.Spelling
import InternetPrinting.Proofs.Json.Lexemes
import InternetPrinting.Proofs.Json.Grammar
import InternetPrinting.Proofs.Settings.Loading
import InternetPrinting.Proofs.Settings.Deadline
import InternetPrinting.Proofs.Text.Base64
import InternetPrinting.Proofs.Authentication.BasicPair
import InternetPrinting.Proofs.Wire.AttributeHistory
