import ServiceKeys.Command.Run
import ServiceKeys.Main
import ServiceKeys.Proofs.Call.Scan
import ServiceKeys.Proofs.Call.Literal
import ServiceKeys.Proofs.Call.Cursor
import ServiceKeys.Proofs.Call.Overlap
import ServiceKeys.Proofs.Regex.Reading
import ServiceKeys.Proofs.Template.Written
import ServiceKeys.Proofs.Registration.Directions
import ServiceKeys.Proofs.Lookup.Outcome
import ServiceKeys.Proofs.Path.Normal
import ServiceKeys.Proofs.Lookup.Engine
import ServiceKeys.Proofs.Lookup.RoundTrip
import ServiceKeys.Proofs.Lookup.Scan
import ServiceKeys.Proofs.Lookup.References
import ServiceKeys.Proofs.Lookup.Walk
import ServiceKeys.Proofs.Lookup.Cancellation
import ServiceKeys.Proofs.Lookup.Pool
import ServiceKeys.Proofs.Lookup.PooledScan
import ServiceKeys.Proofs.Regex.Stretch
import ServiceKeys.Proofs.Registration.Table
import ServiceKeys.Proofs.Registration.Agreement
import ServiceKeys.Proofs.Import.Clause
import ServiceKeys.Proofs.Import.Listed
import ServiceKeys.Proofs.Import.Keyword
import ServiceKeys.Proofs.Import.Statement
import ServiceKeys.Proofs.Import.Section
import ServiceKeys.Proofs.Import.Remark
import ServiceKeys.Proofs.Import.Specifier
import ServiceKeys.Proofs.Settings.Reload
import ServiceKeys.Proofs.Settings.Typed
import ServiceKeys.Proofs.Lookup.Files
import ServiceKeys.Proofs.Lookup.Faults
import ServiceKeys.Proofs.Lookup.Confinement
import ServiceKeys.Proofs.Lookup.Registry
import ServiceKeys.Proofs.Declaration.Opening
import ServiceKeys.Proofs.Declaration.Locate
import ServiceKeys.Proofs.Import.Probe
import ServiceKeys.Proofs.Lookup.Definitions
import ServiceKeys.Proofs.Lookup.Extension
import ServiceKeys.Proofs.Lookup.RegistryFaults
import ServiceKeys.Proofs.Regex.Construct
import ServiceKeys.Proofs.Template.Compile
import ServiceKeys.Proofs.Registration.Extraction
import ServiceKeys.Proofs.Path.Displayed
import ServiceKeys.Proofs.Template.Pieces
import ServiceKeys.Proofs.Template.Word
import ServiceKeys.Proofs.Lookup.Encoding
