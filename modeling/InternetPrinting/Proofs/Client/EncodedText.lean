import InternetPrinting.Client
import InternetPrinting.Proofs.Text.FormBody

/-!
# Names and passwords in requests

The name of a printer goes into a path and a pair into the form of a login,
whatever characters they are made of. Both are told by what is sent: no name
leaves its segment, no password reaches into another field, and different texts
are sent differently.
-/

namespace InternetPrinting

open Text (strict? utf8)
open Text.Percent (Segment decode? formBody formFields? formTexts?)

theorem printerPath_injective : Function.Injective printerPath := by
  intro printer other same
  have segments : Text.Percent.pathSegment printer = Text.Percent.pathSegment other :=
    String.append_right_inj _ |>.mp same
  apply Text.utf8_injective
  apply Option.some.inj
  rw [← Text.Percent.decode?_pathSegment, segments, Text.Percent.decode?_pathSegment]

/-- A printer's path is one segment behind a fixed front. The segment is made of
unreserved characters and upper-case triplets alone, so none of its bytes ends it
or the path, or is a space, a control character or beyond ASCII. Decoding it gives
the bytes of the printer's name, and printers with different names have different
paths. -/
theorem printerPath_exact :
    (∀ printer, ∃ segment : String, printerPath printer = "/printers/" ++ segment ∧
      Segment segment.toList ∧
      (∀ b ∈ utf8 segment, (0x20 < b ∧ b < 0x7F) ∧ b ≠ 0x2F ∧ b ≠ 0x3F ∧ b ≠ 0x23) ∧
      decode? segment.toList = some (utf8 printer)) ∧
    Function.Injective printerPath := by
  refine ⟨fun printer => ?_, printerPath_injective⟩
  refine ⟨Text.Percent.pathSegment printer, rfl, Text.Percent.segment_pathSegment printer, ?_,
    Text.Percent.decode?_pathSegment printer⟩
  intro b member
  exact Text.Percent.of_mem_utf8_pathSegment member

namespace Session

/-- A session with both halves of a pair has a login, whose body is the form of
the pair. -/
theorem exists_loginCall? {s : Session} {username password : String}
    (named : s.username = some username) (secret : s.password = some password) :
    ∃ call, s.loginCall? = some call ∧
      call.body = utf8 (formBody (loginFields username password)) := by
  simp only [loginCall?, named, secret]
  generalize utf8 (formBody (loginFields username password)) = body
  cases s.authorization <;> exact ⟨_, rfl, rfl⟩

/-- A form with fields tells them, in bytes and as texts, whatever they hold, and
no two lists of fields make the same form. So the body of a login is read as its
four fields, with the user name and the password as they are. -/
theorem formBody_exact :
    (∀ fields, fields ≠ [] →
      formFields? (formBody fields).toList =
          some (fields.map fun field => (utf8 field.1, utf8 field.2)) ∧
        formTexts? (formBody fields) = some fields) ∧
    Function.Injective formBody ∧
    ∀ (s : Session) (username password : String),
      s.username = some username → s.password = some password →
      ∃ call, s.loginCall? = some call ∧
        (strict? call.body).bind formTexts? =
          some [("org.cups.sid", "1"), ("OP", "login"), ("USERID", username),
            ("PASSWD", password)] := by
  refine ⟨fun fields filled => ?_, Text.Percent.formBody_injective, ?_⟩
  · exact ⟨Text.Percent.formFields?_formBody filled, Text.Percent.formTexts?_formBody filled⟩
  · intro s username password named secret
    obtain ⟨call, login, body⟩ := exists_loginCall? named secret
    refine ⟨call, login, ?_⟩
    rw [body, Text.strict?_utf8, Option.bind_some]
    exact Text.Percent.formTexts?_formBody (List.cons_ne_nil _ _)

end Session

end InternetPrinting
