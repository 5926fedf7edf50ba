import ApiSurface.Disk.Tree
import ApiSurface.Main
import ApiSurface.Proofs.Document.Order
import ApiSurface.Proofs.Endpoint.Bindings
import ApiSurface.Proofs.Endpoint.Faults
import ApiSurface.Proofs.Source.UnitCodec
import ApiSurface.Proofs.Schema.Inheritance
import ApiSurface.Proofs.Catalog.Dependence
import ApiSurface.Proofs.Client.Declarations
import ApiSurface.Proofs.Client.References
import ApiSurface.Proofs.Client.Code
import ApiSurface.Proofs.Client.TypeText
import ApiSurface.Proofs.Client.CodeLines
import ApiSurface.Proofs.Client.FunctionText
import ApiSurface.Proofs.Client.Imports
import ApiSurface.Proofs.Disk.Change
import ApiSurface.Proofs.Source.Reads
import ApiSurface.Proofs.Artifact.FailedRun
import ApiSurface.Proofs.Artifact.Agreement
import ApiSurface.Proofs.Catalog.Building
import ApiSurface.Proofs.Document.Omission
import ApiSurface.Proofs.Document.Distinctness
import ApiSurface.Proofs.Batch
import ApiSurface.Proofs.Catalog.Distance
import ApiSurface.Proofs.Catalog.Groups
import ApiSurface.Proofs.Surface
import ApiSurface.Proofs.Settings
import ApiSurface.Proofs.Catalog.Nearest
import ApiSurface.Proofs.Schema.NormalForm
import ApiSurface.Proofs.Schema.Erasure
import ApiSurface.Proofs.Schema.Absence
import ApiSurface.Proofs.Schema.Degradation
import ApiSurface.Proofs.Text.Quote
import ApiSurface.Proofs.Text.Quotation
import ApiSurface.Proofs.Source.TypeForm
import ApiSurface.Proofs.Source.TypeReader
import ApiSurface.Proofs.Source.TypeText
import ApiSurface.Proofs.Client.Url
import ApiSurface.Proofs.Client.Literal
import ApiSurface.Proofs.Client.UrlValue
import ApiSurface.Proofs.Client.Namespaces
import ApiSurface.Proofs.Client.Unbound
import ApiSurface.Proofs.Document.Expansion
import ApiSurface.Proofs.Specifier
import ApiSurface.Proofs.Route.Segments
import ApiSurface.Proofs.Drift.Script
import ApiSurface.Proofs.Drift.Report
import ApiSurface.Proofs.Client.Documentation
import ApiSurface.Proofs.Text.Flush
import ApiSurface.Proofs.Client.Indentation
