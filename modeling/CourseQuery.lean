import CourseQuery.Dataset.Memory
import CourseQuery.Main
import CourseQuery.Sentence.Writer
import CourseQuery.Proofs.Filter.Meaning
import CourseQuery.Proofs.Filter.Groups
import CourseQuery.Proofs.Query
import CourseQuery.Proofs.Sentence.WellTyped
import CourseQuery.Proofs.Text.Utf8
import CourseQuery.Proofs.Text.Split
import CourseQuery.Proofs.Catalog
import CourseQuery.Proofs.Dataset.Directory
import CourseQuery.Proofs.Dataset.FailedImport
import CourseQuery.Proofs.Execution.Meaning
import CourseQuery.Proofs.Number.Plain
import CourseQuery.Proofs.Sentence.FilterEnd
import CourseQuery.Proofs.Sentence.Reading
import CourseQuery.Proofs.Service.Query
import CourseQuery.Proofs.Base64
import CourseQuery.Proofs.Dataset.Manifest
import CourseQuery.Proofs.Dataset.Mirror
import CourseQuery.Proofs.Execution.Stored
import CourseQuery.Proofs.Service.Request
import CourseQuery.Proofs.Service.Stores
import CourseQuery.Proofs.Dataset.Usable
import CourseQuery.Proofs.Service.Blame
import CourseQuery.Proofs.CommandLine.Workspace
import CourseQuery.Proofs.CommandLine.Location
import CourseQuery.Proofs.CommandLine.Run
import CourseQuery.Proofs.Dataset.Changes
import CourseQuery.Proofs.Dataset.History
import CourseQuery.Proofs.Dataset.Consistency
import CourseQuery.Proofs.Sentence.Writing
import CourseQuery.Proofs.Dataset.Isolation
import CourseQuery.Proofs.Service.EntryPoints
import CourseQuery.Proofs.Service.Holdings
import CourseQuery.Proofs.Service.Machine
import CourseQuery.Proofs.Number.Scaled
import CourseQuery.Proofs.Json.Reals
import CourseQuery.Proofs.Dataset.Holding
import CourseQuery.Proofs.Service.Listing
import CourseQuery.Proofs.Dataset.Stray
import CourseQuery.Proofs.Filter.Normal
import CourseQuery.Proofs.Execution.Defects
import CourseQuery.Proofs.Sentence.Wildcards
import CourseQuery.Proofs.Trace.Line
import CourseQuery.Proofs.Trace.Logger
import CourseQuery.Dataset.Logged
import CourseQuery.Service.Logged
import CourseQuery.Proofs.Dataset.Logged
import CourseQuery.Proofs.Service.Observation
import CourseQuery.Proofs.Checksum
import CourseQuery.Proofs.Dataset.Intact
import CourseQuery.Proofs.Dataset.Damage
import CourseQuery.Proofs.Sentence.FirstViolated
import CourseQuery.Proofs.Dataset.Dropping
import CourseQuery.Proofs.Sentence.Embedding
import CourseQuery.Proofs.Filter.Evaluation
import CourseQuery.Proofs.Sentence.Stated
import CourseQuery.Proofs.Execution.Again
import CourseQuery.Proofs.Sentence.Negation
import CourseQuery.Proofs.Sentence.PrefixFree
import CourseQuery.Proofs.Sentence.Collapse
import CourseQuery.Proofs.Sentence.FilterSpacing
import CourseQuery.Proofs.Sentence.Spacing
import CourseQuery.Proofs.Number.General
import CourseQuery.Proofs.Import.Accounting
import CourseQuery.Proofs.Import.Writing
import CourseQuery.Proofs.Import.ShortSections
import CourseQuery.Proofs.Archive.Fields
import CourseQuery.Proofs.Archive.Zip
import CourseQuery.Proofs.Archive.Tar
import CourseQuery.Proofs.Import.Containers
import CourseQuery.Proofs.Text.Keys
import CourseQuery.Proofs.Trace.Canonical
import CourseQuery.Proofs.Json.OneLine
import CourseQuery.Proofs.Json.Sorted
import CourseQuery.Proofs.Service.Framing
import CourseQuery.Proofs.Trace.Reports
import CourseQuery.Proofs.Service.Bracketing
import CourseQuery.Proofs.Number.Nearest
import CourseQuery.Proofs.Json.Distinct
import CourseQuery.Proofs.Record.Canonical
import CourseQuery.Proofs.Service.Records
import CourseQuery.Proofs.Service.Content
import CourseQuery.Proofs.Sentence.Tiling
import CourseQuery.Proofs.Sentence.Scans
import CourseQuery.Proofs.Sentence.InBounds
