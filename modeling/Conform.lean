import Conform.Form.Registration
import Conform.Json.Kind
import Conform.Json.Reader
import Conform.Validator
import Conform.Fault
import Conform.Host
import Conform.Proofs.Congruence
import Conform.Proofs.Relocation
import Conform.Proofs.Agreement
import Conform.Proofs.Calls
import Conform.Proofs.Termination
import Conform.Proofs.CycleGuard
import Conform.Proofs.GuardedReports
import Conform.Proofs.InlinedReports
import Conform.Proofs.Location
import Conform.Proofs.SelfContained
import Conform.Proofs.Clauses
import Conform.Proofs.Declarations
import Conform.Proofs.Meaning
import Conform.Proofs.InliningGuard
import Conform.Proofs.EqualValues
import Conform.Proofs.InlinedFields
import Conform.Proofs.FieldPlaces
import Conform.Proofs.ReportedFields
import Conform.Proofs.FlattenedBounds
import Conform.Proofs.ShuffledSchemas
import Conform.Proofs.Safety
import Conform.Proofs.Addresses
import Conform.Proofs.Idempotence
import Conform.Proofs.Dependencies
import Conform.Proofs.RenderedSteps
import Conform.Proofs.SpecificReports
import Conform.Proofs.FlattenedTypes
import Conform.Proofs.Expansion
import Conform.Proofs.ExpandedBranches
import Conform.Proofs.RequiredFields
import Conform.Proofs.FieldOrder
import Conform.Proofs.Registration
import Conform.Proofs.KeywordRequests
import Conform.Proofs.ApplicableKeywords
import Conform.Proofs.ComposedTests
import Conform.Proofs.MissingCapabilities
import Conform.Proofs.RegisteredDemands
import Conform.Proofs.CheckedSchemas
import Conform.Proofs.EqualPlaces
import Conform.Proofs.AnsweredCauses
import Conform.Proofs.EncodedText
import Conform.Proofs.RepeatedItems
import Conform.Proofs.Outcomes
