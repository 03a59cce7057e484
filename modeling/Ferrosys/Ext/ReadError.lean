/-! The failures a reader of an ext image answers with, how serious each is, and which of them
a policy does not read past.
-/

namespace Ferrosys

/-- How serious a finding is, least first. -/
inductive Severity where
  | cosmetic
  | conformance
  | integrity
  | structural
deriving DecidableEq

def Severity.rank : Severity → Nat
  | cosmetic => 0
  | conformance => 1
  | integrity => 2
  | structural => 3

inductive ReadPolicy where
  | strict
  | lenient
deriving DecidableEq

/-- A finding of this severity is fatal under the policy. -/
def ReadPolicy.isFatal (self : ReadPolicy) (severity : Severity) : Bool :=
  match self with
  | strict => severity.rank ≥ Severity.conformance.rank
  | lenient => false

namespace Ext

/-- A structure's bytes do not parse. -/
inductive ParseError where
  | tooShort (structure_ : String) (need got : Nat)
  | badMagic (structure_ : String) (found expected : Nat)
  | invalidField (structure_ field : String) (value : Nat)
deriving DecidableEq

inductive ReadError where
  | io (kind message : String)
  | parse (error : ParseError)
  | outOfRange (what : String) (index : Nat)
  | noSuchInode (inode : Nat)
  | badExtentTree
  | badDirectory
  | dirEntryNoSuchInode (inode : Nat)
  | hostileName (inode : Nat)
  | journalUnsupported (feature : String)
  | journalMalformed (logBlock : Nat) (detail : String)
  | journalCopyChecksum (block sequence stored computed : Nat)
  | unsupportedIncompat (bits : Nat)
  | fileTooLarge (size limit : Nat)
  | checksumMismatch (object : String) (index stored computed : Nat)
deriving DecidableEq

/-- The severity a failure is reported at. -/
def ReadError.severity : ReadError → Severity
  | journalCopyChecksum .. | checksumMismatch .. => .integrity
  | _ => .structural

/-- A parse failure as the reader answers it. -/
def orParse {α : Type} (parsed : Except ParseError α) : Except ReadError α :=
  parsed.mapError .parse

end Ext

end Ferrosys
