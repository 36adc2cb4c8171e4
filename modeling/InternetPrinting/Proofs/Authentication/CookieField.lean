import InternetPrinting.Proofs.Authentication.Exchange
import InternetPrinting.Proofs.Text.Parting
import Mathlib.Data.List.Basic

/-!
# The cookie field read back

A field that sends cookies back is a list of pairs, parted by semicolons, each a
name and a value around the first equals sign. What a session sends for a clean
cookie can be shown as text, and the text has that cookie as its only pair. With
the authorization value, which is always allowed, this is what every session
that can come about puts into a call.
-/

namespace InternetPrinting

open Http (Headers HeaderName)

namespace Text

variable {cs : List Char}

theorem trimFront_of_head? (solid : ∀ c, cs.head? = some c → isBlank c = false) :
    trimFront cs = cs := by
  cases cs with
  | nil => rfl
  | cons c rest => simp [trimFront, solid c rfl]

/-- A text with no white space at its ends is trimmed already. -/
theorem trimChars_of_ends
    (solid : ∀ c, cs.head? = some c ∨ cs.getLast? = some c → isBlank c = false) :
    trimChars cs = cs := by
  have front : trimFront cs = cs := trimFront_of_head? fun c first => solid c (.inl first)
  have back : trimFront cs.reverse = cs.reverse := by
    apply trimFront_of_head?
    intro c last
    rw [List.head?_reverse] at last
    exact solid c (.inr last)
  rw [trimChars, front, back, List.reverse_reverse]

end Text

namespace Http

theorem utf8_of_visible {s : String} (visible : ∀ c ∈ s.toList, isVisibleChar c = true) :
    Text.utf8 s = s.toList.map fun c => UInt8.ofNat c.toNat := by
  rw [Text.utf8, List.map_eq_flatMap]
  apply List.flatMap_congr
  intro c member
  exact utf8EncodeChar_of_visible (visible c member)

/-- A text of visible characters is shown as it is. -/
theorem visibleText?_of_visible {s : String} (visible : ∀ c ∈ s.toList, isVisibleChar c = true) :
    visibleText? (Text.utf8 s) = some s.toList := by
  have back : ∀ c ∈ s.toList, (UInt8.ofNat c.toNat).toNat = c.toNat ∧
      isVisibleByte (UInt8.ofNat c.toNat) = true := by
    intro c member
    have range := visible c member
    simp only [isVisibleChar, Bool.or_eq_true, beq_iff_eq, Bool.and_eq_true,
      decide_eq_true_eq] at range
    have same : (UInt8.ofNat c.toNat).toNat = c.toNat := by
      rw [UInt8.toNat_ofNat']
      omega
    refine ⟨same, ?_⟩
    simpa [isVisibleByte, ← UInt8.toNat_inj, UInt8.le_iff_toNat_le, UInt8.lt_iff_toNat_lt, same]
      using range
  have all : (Text.utf8 s).all isVisibleByte = true := by
    rw [utf8_of_visible visible, List.all_map, List.all_eq_true]
    intro c member
    exact (back c member).2
  rw [visibleText?, if_pos all, utf8_of_visible visible, List.map_map]
  congr 1
  calc
    s.toList.map ((fun b : UInt8 => Char.ofNat b.toNat) ∘ fun c => UInt8.ofNat c.toNat) =
        s.toList.map id := by
      apply List.map_congr_left
      intro c member
      rw [Function.comp_apply, (back c member).1, Char.ofNat_toNat, id]
    _ = s.toList := List.map_id _

end Http

namespace SessionCookie

/-- The names and values in a field that sends cookies back. -/
def pairs (field : List Char) : List (List Char × List Char) :=
  (Text.parts ';' field).map fun part =>
    (Text.trimChars (Text.before '=' part), Text.trimChars (Text.behind '=' part))

/-- A clean cookie is the only pair of its field, and none of it is lost. -/
theorem Clean.pairs_field {cookie : String} (clean : Clean cookie) :
    pairs (name ++ "=" ++ cookie).toList = [(name.toList, cookie.toList)] := by
  have spelled : (name ++ "=" ++ cookie).toList = name.toList ++ '=' :: cookie.toList := by
    simp
  have single : ';' ∉ name.toList ++ '=' :: cookie.toList := by
    rw [List.mem_append, List.mem_cons, not_or, not_or]
    exact ⟨by decide, by decide, clean.single⟩
  have trimmed : Text.trimChars name.toList = name.toList := by decide
  have unmarked : '=' ∉ name.toList := by decide
  obtain ⟨before, behind⟩ := Text.before_behind_append_cons unmarked cookie.toList
  rw [pairs, spelled, Text.parts_of_notMem single, List.map_singleton, before, behind, trimmed,
    Text.trimChars_of_ends clean.trimmed]

end SessionCookie

/-- Header fields that carry what a session holds and no more: one authorization
for a pair of which neither half is empty, and for a cookie one field that shows
as text and has that cookie as its only pair. -/
structure Session.CarriedBy (s : Session) (sent : Headers) : Prop where
  authorization : ∀ username password, s.Holds username password →
    sent.values .authorization = [Text.utf8 (basicAuthorization username password)]
  cookie : ∀ cookie, s.cookie = some cookie →
    ∃ value text, sent.values .cookie = [value] ∧ Http.visibleText? value = some text ∧
      SessionCookie.pairs text = [("org.cups.sid".toList, cookie.toList)]
  anonymous : s.hasCredentials = false → sent.values .authorization = []
  cookieless : s.cookie = none → sent.values .cookie = []

/-- Nothing that a consistent authentication holds is dropped as not allowed in a
header field. -/
theorem Authentication.Consistent.carriedBy {a : Authentication} {logsIn : Bool}
    (consistent : a.Consistent logsIn) (h : Headers) :
    a.session.CarriedBy (a.session.decorate h) where
  authorization username password holds := by
    rw [Session.values_authorization_decorate,
      Session.authorizationValue?_of_basic (consistent.authorization_of_holds holds)]
    rfl
  cookie cookie held := by
    have clean := consistent.clean cookie held
    refine ⟨_, _, ?_, Http.visibleText?_of_visible clean.isVisibleChar_of_mem, clean.pairs_field⟩
    rw [consistent.values_cookie_decorate, held]
    rfl
  anonymous bare := by
    rw [Session.values_authorization_decorate, Session.authorizationValue?_of_bare bare]
    rfl
  cookieless absent := by
    rw [consistent.values_cookie_decorate, absent]
    rfl

end InternetPrinting
