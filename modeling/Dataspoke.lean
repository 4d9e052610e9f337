import Dataspoke.KafkaConsumer
import Dataspoke.FilterEditorAgreement
import Dataspoke.OntogenVerdicts
import Dataspoke.OntogenEmbeddings
import Dataspoke.OntogenContainment
import Dataspoke.MetagenDelivery
import Dataspoke.Registry
import Dataspoke.RefreshToken
import Dataspoke.KafkaSecurity
import Dataspoke.SourceEvidence
import Dataspoke.RefreshRotation
import Dataspoke.ApiTokenRoles
import Dataspoke.CredentialReset
import Dataspoke.RunLock
import Dataspoke.SecretListing
import Dataspoke.ReverseLookup
import Dataspoke.MetagenCoverage
import Dataspoke.MetagenRun
import Dataspoke.RecipeMasking
import Dataspoke.DebateRobustness
import Dataspoke.MetricVerdicts
import Dataspoke.KafkaClient
import Dataspoke.MetagenBudget
import Dataspoke.RedactionLeaks
import Dataspoke.FilterEvaluation
import Dataspoke.DatasetUrns
import Dataspoke.RecipeMatcher
import Dataspoke.MetagenItems
import Dataspoke.MetagenAspects
import Dataspoke.FifoCache
import Dataspoke.SecretCache
import Dataspoke.CircuitBreaker
import Dataspoke.TokenSpelling
import Dataspoke.RegexCommute
import Dataspoke.RedactionOrder
import Dataspoke.RedactionOverlaps
import Dataspoke.OntogenTripleIds
import Dataspoke.RowNumber
import Dataspoke.ValidationReads
import Dataspoke.AuthMethods
import Dataspoke.OntogenPartition
import Dataspoke.OntogenRevalidation
import Dataspoke.DecimalText
import Dataspoke.Calendar
import Dataspoke.LastPerKey
import Dataspoke.ChartGrain
import Dataspoke.ChartWindows
import Dataspoke.ToolMessages
import Dataspoke.DatasetTimeline
import Dataspoke.IngestionEvidence
import Dataspoke.RoleSync
import Dataspoke.ValidationRuns
import Dataspoke.ValidationListing
import Dataspoke.PagedReads
import Dataspoke.EstateReads
import Dataspoke.SingleFlight
import Dataspoke.BrowserSession
import Dataspoke.BrowserRuns
import Dataspoke.ServedTab
import Dataspoke.Measurers
import Dataspoke.MetricView
import Dataspoke.MeasuredView
import Dataspoke.FreshnessVerdicts
import Dataspoke.Emission
import Dataspoke.IngestionPipeline
import Dataspoke.RunAccounts
import Dataspoke.RunEvidence
