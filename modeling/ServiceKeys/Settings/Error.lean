import ServiceKeys.Template.Basic
import ServiceKeys.Value.Shown

/-!
# Faults of settings

Each way in which settings can be wrong, with its wording.  Some faults are caught while the values
are being read, because a value is of a kind that cannot be used at all; those have a class of their
own, so that a caller can tell them from faults of the settings' meaning.
-/

namespace ServiceKeys

/-- The class of a fault. -/
inductive FaultClass where
  /-- The settings, or a configuration file, do not make sense. -/
  | configuration
  /-- A value of the wrong kind. -/
  | wrongKind
  /-- A value of the right kind that cannot be converted. -/
  | wrongValue
  /-- A value of a kind that lacks a needed operation. -/
  | lacksOperation
  /-- A number out of every range. -/
  | outOfRange
  /-- A part of something that is not there. -/
  | missingPart
  deriving DecidableEq, Repr

/-- What is wrong with settings. -/
inductive SettingsError where
  /-- A setting that does not exist. -/
  | unexpectedSetting (name : String)
  /-- A value that is no collection. -/
  | notIterable (kind : String)
  /-- A value that cannot be a member of a collection without duplicates. -/
  | notHashable (kind : String)
  | entryWithoutTemplate (entry : Value)
  | unreadableTemplate (value : Value)
  /-- A text that is no integer. -/
  | notAnInteger (written : String)
  /-- A text with more digits than an integer may have. -/
  | tooManyDigits (count : Nat)
  | integerOfNaN
  | integerOfInfinity
  /-- A value of a kind that has no integer. -/
  | noInteger (kind : String)
  /-- A value of a kind without a given operation. -/
  | lacks (kind operation : String)
  /-- A value of a kind without a length. -/
  | noLength (kind : String)
  | noRegistryGlob
  | emptyRegistryGlob
  | absoluteRegistryGlob (glob : String)
  | escapingRegistryGlob (glob : String)
  | emptyIncludeGlob
  | noCallForm
  | badCallForm (form : String)
  | noTemplate
  | badTemplate (t : Template) (fault : Template.Fault)
  | searchRootOutside (root : String)
  | badExtension (ext : String)
  | noExtension
  | tooFewWorkers
  /-- The section of the settings is no table. -/
  | sectionNotTable
  /-- Settings of a document that do not exist. -/
  | unknownSettings (names : List String)
  /-- A fault of a value, in a document. -/
  | invalidValue (inner : SettingsError)
  deriving Repr

namespace Template.Fault

/-- How a template's fault is reported. -/
def message (t : Template) : Fault → String
  | .missing names =>
    "Registration template " ++ Text.quoted t.source ++ " is missing placeholder(s): " ++
      ", ".intercalate names
  | .emptyKind => "Registration template " ++ Text.quoted t.source ++ " has an empty kind"
  | .unreadable written why =>
    match why.fault with
    | .conflictingFlags | .hugeRepeat => why.message written
    | _ =>
      "Registration template " ++ Text.quoted t.source ++ " is not a valid pattern: " ++
        why.message written

/-- The class of a template's fault. -/
def toClass : Fault → FaultClass
  | .unreadable _ ⟨.conflictingFlags, _⟩ => .wrongValue
  | .unreadable _ ⟨.hugeRepeat, _⟩ => .outOfRange
  | _ => .configuration

end Template.Fault

namespace SettingsError

/-- How a fault is reported. -/
def message : SettingsError → String
  | .unexpectedSetting name =>
    "PatternConfig.__init__() got an unexpected keyword argument '" ++ name ++ "'"
  | .notIterable kind => "'" ++ kind ++ "' object is not iterable"
  | .notHashable kind => "unhashable type: '" ++ kind ++ "'"
  | .entryWithoutTemplate entry => "Registration entry " ++ entry.shown ++ " has no 'template'"
  | .unreadableTemplate v => "Cannot read registration template from " ++ v.shown
  | .notAnInteger s =>
    "invalid literal for int() with base 10: " ++ String.ofList ((Text.quoted s).toList.take 200)
  | .tooManyDigits n =>
    "Exceeds the limit (4300 digits) for integer string conversion: value has " ++ toString n ++
      " digits; use sys.set_int_max_str_digits() to increase the limit"
  | .integerOfNaN => "cannot convert float NaN to integer"
  | .integerOfInfinity => "cannot convert float infinity to integer"
  | .noInteger kind =>
    "int() argument must be a string, a bytes-like object or a real number, not '" ++ kind ++ "'"
  | .lacks kind operation => "'" ++ kind ++ "' object has no attribute '" ++ operation ++ "'"
  | .noLength kind => "object of type '" ++ kind ++ "' has no len()"
  | .noRegistryGlob => "At least one DI file glob is required"
  | .emptyRegistryGlob => "Empty DI file glob"
  | .absoluteRegistryGlob g =>
    "DI file glob " ++ Text.quoted g ++ " must be relative to the project root"
  | .escapingRegistryGlob g => "DI file glob " ++ Text.quoted g ++ " must not leave the project root"
  | .emptyIncludeGlob => "Empty file include glob"
  | .noCallForm => "At least one call syntax is required"
  | .badCallForm s =>
    "Call syntax " ++ Text.quoted s ++ " must be a dotted sequence of identifiers"
  | .noTemplate => "At least one registration template is required"
  | .badTemplate t fault => fault.message t
  | .searchRootOutside root => "Search root " ++ Text.quoted root ++ " must be inside the project"
  | .badExtension e => "Source extension " ++ Text.quoted e ++ " must look like '.ts'"
  | .noExtension => "At least one source extension is required"
  | .tooFewWorkers => "max_workers must be at least 1"
  | .sectionNotTable => "[patterns] must be a table"
  | .unknownSettings names => "Unknown [patterns] setting(s): " ++ ", ".intercalate names
  | .invalidValue inner => "Invalid [patterns] value: " ++ inner.message

/-- The class of a fault. -/
def toClass : SettingsError → FaultClass
  | .unexpectedSetting _ | .notIterable _ | .notHashable _ | .noInteger _ | .noLength _ => .wrongKind
  | .notAnInteger _ | .tooManyDigits _ | .integerOfNaN => .wrongValue
  | .integerOfInfinity => .outOfRange
  | .lacks _ _ => .lacksOperation
  | .badTemplate _ fault => fault.toClass
  | _ => .configuration

end SettingsError

end ServiceKeys
