import SampleSchema.Main
import SampleSchema.Proofs.Batch
import SampleSchema.Proofs.Accumulation
import SampleSchema.Proofs.Order
import SampleSchema.Proofs.Position
import SampleSchema.Proofs.Required
import SampleSchema.Proofs.Validation
import SampleSchema.Proofs.Reordering
import SampleSchema.Proofs.Scalar
import SampleSchema.Proofs.Ingestion
import SampleSchema.Proofs.Respelling
import SampleSchema.Proofs.OrderIndependence
import SampleSchema.Proofs.Failure
import SampleSchema.Proofs.History
import SampleSchema.Proofs.Rounding
import SampleSchema.Proofs.Numerals
import SampleSchema.Proofs.Octets
import SampleSchema.Proofs.Quotation
import SampleSchema.Proofs.PlainValue
import SampleSchema.Proofs.JsonText
import SampleSchema.Proofs.ReadFaults
import SampleSchema.Proofs.Outlines
import SampleSchema.Proofs.Holdings
import SampleSchema.Proofs.HistoryHoldings
import SampleSchema.Proofs.Rereading
import SampleSchema.Proofs.ReadValues
import SampleSchema.Proofs.Reload
import SampleSchema.Proofs.Constancy
import SampleSchema.Proofs.Writability
import SampleSchema.Proofs.Coherence
import SampleSchema.Proofs.Descent
import SampleSchema.Proofs.LoadedNode
import SampleSchema.Proofs.Promotion
import SampleSchema.Proofs.Reassembly
import SampleSchema.Proofs.Untouched
import SampleSchema.Proofs.Revival
import SampleSchema.Proofs.TextSamples
import SampleSchema.Proofs.Refusal
import SampleSchema.Proofs.Shape
import SampleSchema.Proofs.ProducedDocuments
import SampleSchema.Proofs.Loadability
import SampleSchema.Proofs.UnseenItems
import SampleSchema.Proofs.Truncation
import SampleSchema.Proofs.HiddenFields
import SampleSchema.Proofs.TwinRuns
import SampleSchema.Proofs.Timestamps
import SampleSchema.Proofs.TimestampReadings
import SampleSchema.Proofs.BareBreaks
import SampleSchema.Proofs.TornTexts
import SampleSchema.Proofs.LineFiles
import SampleSchema.Proofs.RunSessions
import SampleSchema.Proofs.FailedRuns
import SampleSchema.Proofs.AddressTexts
import SampleSchema.Proofs.Ipv6Texts
import SampleSchema.Proofs.FormatOverlap
import SampleSchema.Proofs.FormatOrder
import SampleSchema.Proofs.EmailTexts
import SampleSchema.Proofs.UriTexts
import SampleSchema.Proofs.NormalForm
