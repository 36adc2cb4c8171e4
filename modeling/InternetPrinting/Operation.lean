import InternetPrinting.Fault

/-!
# Operations

The operations a client can ask for, their keywords and the codes that stand
for them on the wire.
-/

namespace InternetPrinting

/-- The operations with a known code. -/
inductive Operation
  | printJob
  | getPrinters
  | getJobs
  | getPrinterAttributes
deriving DecidableEq, Repr

namespace Operation

def all : List Operation :=
  [.printJob, .getPrinters, .getJobs, .getPrinterAttributes]

/-- The keyword of an operation. -/
def name : Operation → String
  | .printJob => "print-job"
  | .getPrinters => "get-printers"
  | .getJobs => "get-jobs"
  | .getPrinterAttributes => "get-printer-attributes"

/-- The code of an operation in the header of a request. -/
def code : Operation → UInt16
  | .printJob => 0x0002
  | .getPrinters => 0x0004
  | .getJobs => 0x000A
  | .getPrinterAttributes => 0x000B

/-- The operation with a keyword. -/
def ofName (keyword : String) : Except Fault Operation :=
  match all.find? fun operation => operation.name = keyword with
  | some operation => .ok operation
  | none => .error (.unsupportedOperation keyword)

/-- Every operation is found by its keyword. -/
theorem ofName_name (operation : Operation) : ofName operation.name = .ok operation := by
  cases operation <;> rfl

/-- Only the keyword of an operation finds it. -/
theorem ofName_eq_ok_iff {keyword : String} {operation : Operation} :
    ofName keyword = .ok operation ↔ keyword = operation.name := by
  constructor
  · intro found
    unfold ofName at found
    split at found
    · next hit =>
      have named := List.find?_some hit
      simp only [decide_eq_true_eq] at named
      cases found
      exact named.symm
    · cases found
  · rintro rfl
    exact ofName_name operation

/-- The keywords of all operations are known, and no others. -/
theorem ofName_eq_error_iff {keyword : String} :
    ofName keyword = .error (.unsupportedOperation keyword) ↔
      ∀ operation : Operation, operation.name ≠ keyword := by
  constructor
  · rintro missing operation rfl
    rw [ofName_name] at missing
    cases missing
  · intro unknown
    cases found : ofName keyword with
    | ok operation => exact absurd (ofName_eq_ok_iff.mp found).symm (unknown operation)
    | error fault =>
        unfold ofName at found
        split at found
        · cases found
        · cases found
          rfl

theorem code_injective {a b : Operation} (h : a.code = b.code) : a = b := by
  cases a <;> cases b <;> first | rfl | exact absurd h (by decide)

end Operation

end InternetPrinting
