import BisayaPlus.Token.Scan
import BisayaPlus.Tree.Render
import BisayaPlus.Tree.Statement
/-!
# Programs

A source with all that reading it gives. Faults in the bytes are reported
before faults in the tokens, and a line at fault in its bytes gets no further
report.
-/

set_option autoImplicit false

namespace BisayaPlus

/-- A program as read from its source. -/
structure Program where
  scanned : Scanned
  parsed : ReadProgram

namespace Program

/-- Reads the tokens of a scanned source. -/
def ofScanned (scanned : Scanned) : Program :=
  { scanned := scanned, parsed := ReadProgram.ofTokens scanned.tokens }

/-- Reads a program. -/
def ofSource (source : Text) : Program := ofScanned (scan source)

/-- The statements that could be read. -/
def statements (p : Program) : List Stmt := p.parsed.statements

/-- A complaint is only reported on a line whose bytes are in order. -/
def isReported (p : Program) (c : Complaint) : Bool := p.scanned.diagnostics.all (·.line != c.token.line)

/-- The reports of faults in the tokens. -/
def tokenDiagnostics (p : Program) : List Diagnostic :=
  (p.parsed.complaints.filter p.isReported).map fun c => .ofSyntax c.fault c.token

/-- All reports, in order. -/
def diagnostics (p : Program) : List Diagnostic := p.scanned.diagnostics ++ p.tokenDiagnostics

/-- If the bytes are in order, every complaint is reported. -/
theorem diagnostics_ofScanned {scanned : Scanned} (h : scanned.diagnostics = []) :
    (ofScanned scanned).diagnostics =
      (ReadProgram.ofTokens scanned.tokens).complaints.map fun c => .ofSyntax c.fault c.token := by
  have hall : ∀ c, (ofScanned scanned).isReported c = true := fun c => by simp [isReported, ofScanned, h]
  simp only [diagnostics, tokenDiagnostics, List.filter_eq_self.2 fun c _ => hall c]
  simp [ofScanned, h]

/-- A program is accepted if nothing is reported. -/
def accepted (p : Program) : Bool := p.diagnostics.isEmpty

/-- The listing of the tokens, one on a line. -/
def tokenListing (p : Program) : Text := p.scanned.tokens.flatMap fun t => t.listed ++ [Text.lineFeed]

/-- The statements in print, one on a line, if the program is accepted. -/
def treeListing (p : Program) : Text :=
  if p.accepted then p.statements.flatMap fun s => s.render ++ [Text.lineFeed] else []

end Program

end BisayaPlus
