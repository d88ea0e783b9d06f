import Listing.Json.Reader
import Listing.Json.Writer
import Listing.OrderedMap
import Listing.Field
import Listing.Range
import Listing.Sorting
import Listing.Text.Lower
import Listing.Text.Utf8
import Listing.Item.SortKey
import Listing.Item.Test
import Listing.Schema.Validation
import Listing.Schema.Document
import Listing.State.Document
import Listing.Query.Flat
import Listing.Query.Suffixed
import Listing.Store
import Listing.Link
import Listing.Schema.Loading
import Listing.Proofs.Rounding
import Listing.Proofs.Shortest
import Listing.Proofs.Trimming
import Listing.Proofs.NumberText
import Listing.Proofs.Split
import Listing.Proofs.Utf8
import Listing.Proofs.FormEncoding
import Listing.Proofs.LinkPairs
import Listing.Proofs.LinkRoundTrip
import Listing.Proofs.Narrowing
import Listing.Proofs.SameStates
import Listing.Proofs.Compiler
import Listing.Proofs.Backends
import Listing.Proofs.StateRuns
import Listing.Proofs.ParameterTests
import Listing.Proofs.UnknownKeys
import Listing.Proofs.LinkRestore
import Listing.Proofs.RangeKeys
import Listing.Proofs.LinkNormalForm
import Listing.Proofs.LinkNarrowing
import Listing.Proofs.Empties
import Listing.Proofs.FieldOrder
import Listing.Proofs.NumberFilters
import Listing.Proofs.StoreRuns
import Listing.Proofs.StableSort
import Listing.Proofs.SortTexts
import Listing.Proofs.SchemaFaults
import Listing.Proofs.DateText
import Listing.Proofs.RangeText
import Listing.Proofs.PairedRanges
import Listing.Proofs.ParameterNames
import Listing.Proofs.Pagination
import Listing.Proofs.DateRanges
import Listing.Proofs.CalendarDays
import Listing.Proofs.CompactDates
import Listing.Proofs.ItemReadings
import Listing.Proofs.LetterCase
import Listing.Proofs.LinkNames
import Listing.Proofs.LinkEmissions
import Listing.Proofs.EmissionRules
import Listing.Proofs.RulePriority
import Listing.Proofs.FilterHistory
import Listing.Proofs.SortAgreement
import Listing.Proofs.JsonNumbers
import Listing.Proofs.JsonText
import Listing.Proofs.Records
import Listing.Proofs.StateDocuments
import Listing.Proofs.SchemaDocuments
import Listing.Proofs.Paths
import Listing.Proofs.DateForms
import Listing.Proofs.DateDigits
