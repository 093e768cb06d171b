import ServiceKeys.Settings.Error
import ServiceKeys.Glob.Expand

/-!
# Failures

Every way in which a lookup, or the reading of its configuration, can end without a result.
-/

namespace ServiceKeys

/-- Why there is no result. -/
inductive Failure where
  /-- The settings are wrong. -/
  | settings (e : SettingsError)
  /-- The caller cancelled the lookup. -/
  | cancelled
  /-- A template's pattern has no group of the name that is asked for. -/
  | noSuchGroup
  /-- A registration matched although its reference took no part in the match. -/
  | absentReference
  /-- Calls of a key are wanted that took no part in the match of its registration. -/
  | absentKey
  /-- A glob of registration files cannot be expanded. -/
  | glob (written : String) (fault : Glob.Fault)
  /-- A file cannot be accessed. -/
  | access (e : AccessError)
  /-- A configuration file is no document. -/
  | malformedDocument (written : String)
  /-- A configuration file cannot be read. -/
  | unreadableDocument (written : String) (cause : AccessCause)
  /-- Settings have no written form. -/
  | unwritable
  /-- A configuration file is no text. -/
  | undecodable (e : Text.DecodeError)
  deriving Repr

/-- The class of a failure. -/
inductive FailureClass where
  | fault (c : FaultClass)
  | cancelled
  | undecodable
  | access (cause : AccessCause)
  deriving DecidableEq, Repr

/-- The wording of a glob's fault. -/
def Glob.Fault.message : Glob.Fault → String
  | .empty => "Unacceptable pattern: ''"
  | .absolute => "Non-relative patterns are unsupported"
  | .starsInside => "Invalid pattern: '**' can only be an entire path component"
  | .noComponent => "tuple index out of range"
  | .bareDirectory => "'_TerminatingSelector' object has no attribute 'select_from'"

namespace Failure

/-- How a failure is reported. -/
def message : Failure → String
  | .settings e => e.message
  | .cancelled => "Lookup cancelled by caller"
  | .noSuchGroup => "no such group"
  | .absentReference => "'NoneType' object has no attribute 'strip'"
  | .absentKey => "decoding to str: need a bytes-like object, NoneType found"
  | .glob _ .noComponent => Glob.Fault.message .noComponent
  | .glob _ .bareDirectory => Glob.Fault.message .bareDirectory
  | .glob written fault => "Invalid DI file glob " ++ Text.quoted written ++ ": " ++ fault.message
  | .access e => e.message
  | .malformedDocument written => written ++ ": malformed TOML"
  | .unreadableDocument written cause =>
    written ++ ": cannot read config: " ++ cause.message written
  | .unwritable => "list index out of range"
  | .undecodable e => e.message

/-- The class of a failure. -/
def toClass : Failure → FailureClass
  | .settings e => .fault e.toClass
  | .cancelled => .cancelled
  | .noSuchGroup => .fault .missingPart
  | .absentReference => .fault .lacksOperation
  | .absentKey => .fault .wrongKind
  | .glob _ .noComponent => .fault .missingPart
  | .glob _ .bareDirectory => .fault .lacksOperation
  | .glob _ _ => .fault .configuration
  | .access e => .access e.cause
  | .malformedDocument _ => .fault .configuration
  | .unreadableDocument _ _ => .fault .configuration
  | .unwritable => .fault .missingPart
  | .undecodable _ => .undecodable

end Failure

end ServiceKeys
