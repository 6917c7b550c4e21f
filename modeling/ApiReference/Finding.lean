namespace ApiReference

/-! Findings: what is noticed while a package is described and does not stop the work. -/

inductive Severity where
  | warning
  | info
deriving DecidableEq, Repr

def Severity.label : Severity → String
  | .warning => "warning"
  | .info => "info"

structure Finding where
  severity : Severity
  message : String
  /-- The module the finding belongs to. -/
  moduleName : Option String := none
deriving DecidableEq

namespace Finding

def isWarning (finding : Finding) : Bool := finding.severity = .warning

def render (finding : Finding) : String :=
  let text := finding.severity.label ++ ": " ++ finding.message
  match finding.moduleName with
  | some name => name ++ ": " ++ text
  | none => text

end Finding

/-- Findings in the order in which they were made. -/
structure FindingLog where
  findings : List Finding := []
deriving DecidableEq, Inhabited

namespace FindingLog

def add (log : FindingLog) (finding : Finding) : FindingLog :=
  ⟨log.findings ++ [finding]⟩

def warning (log : FindingLog) (message : String) : FindingLog :=
  log.add { severity := .warning, message }

def info (log : FindingLog) (message : String) : FindingLog :=
  log.add { severity := .info, message }

def warningCount (log : FindingLog) : Nat :=
  log.findings.countP (·.isWarning)

/-- Hands out the findings and leaves the log empty. -/
def take (log : FindingLog) : List Finding × FindingLog :=
  (log.findings, {})

end FindingLog

end ApiReference
