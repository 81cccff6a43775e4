import DataQ.Gate.Verdict
import DataQ.Runs.Terminal
import DataQ.Runs.AllOrNothing
import DataQ.Audit.Chain
import DataQ.Audit.ChainLaws
import DataQ.Audit.NoFalseAlarm
import DataQ.Audit.PurgeRace
import DataQ.Foundations.Joined
import DataQ.Connections.SecretNames
import DataQ.Connections.Credentials
import DataQ.Foundations.Scanning
import DataQ.Sql.Guard
import DataQ.Sql.Engines
import DataQ.Sql.Soundness
import DataQ.Foundations.Entropy
import DataQ.Foundations.Json
import DataQ.Redaction.Classify
import DataQ.Redaction.Ladder
import DataQ.Redaction.Metrics
import DataQ.Redaction.Samples
import DataQ.Foundations.Renderings
import DataQ.Redaction.SampleAgreement
import DataQ.Foundations.Decimal
import DataQ.Contracts.Drafts
import DataQ.Contracts.Clauses
import DataQ.Contracts.QualityRules
import DataQ.Contracts.Translate
import DataQ.Foundations.Reconciliation
import DataQ.Contracts.Reconcile
import DataQ.Contracts.Agreement
import DataQ.Contracts.Imports
import DataQ.Contracts.ImportRuns
import DataQ.Orchestration.Markers
import DataQ.Gate.Pipeline
import DataQ.Foundations.Documents
import DataQ.Audit.Payloads
import DataQ.Audit.RowHashes
import DataQ.Audit.Tampering
import DataQ.Audit.Anchors
import DataQ.Checks.Versions
import DataQ.Orchestration.Ingestion
import DataQ.Orchestration.TriggerOnce
import DataQ.Orchestration.SharedRecords
import DataQ.Foundations.Registry
import DataQ.Lineage.Assets
import DataQ.Lineage.DbtEdges
import DataQ.Dqx.Streams
import DataQ.Foundations.Ranges
import DataQ.Dqx.Resumption
import DataQ.Orchestration.LateUpdates
import DataQ.Connections.Adapters
import DataQ.Connections.Saves
import DataQ.Connections.FailedSaves
import DataQ.Connections.Redirects
import DataQ.Foundations.Locks
import DataQ.Membership.SignIns
import DataQ.Membership.Statements
import DataQ.Membership.Evidence
import DataQ.Membership.LastAdmin
import DataQ.Membership.Trail
import DataQ.Membership.SwitchOn
import DataQ.Offboarding.Tables
import DataQ.Offboarding.Pass
import DataQ.Offboarding.Departure
import DataQ.Offboarding.AllOrNothing
import DataQ.Coverage.Schedules
import DataQ.Coverage.Baselines
import DataQ.Foundations.Search
import DataQ.Foundations.Uuids
import DataQ.Orchestration.SuiteBindings
import DataQ.Orchestration.SuiteChains
import DataQ.Orchestration.SuiteTriggers
import DataQ.Incidents.Lifecycle
import DataQ.Incidents.Occurrences
import DataQ.Incidents.Soundness
import DataQ.Incidents.Counts
import DataQ.Otp.Codes
import DataQ.Otp.Guesses
import DataQ.Otp.OneLive
import DataQ.Dispatch.Moves
import DataQ.Dispatch.Claims
import DataQ.Dispatch.FiresOnce
import DataQ.Dispatch.Ends
import DataQ.Admission.Budget
import DataQ.Admission.Leaks
import DataQ.Lineage.Outages
import DataQ.Lineage.Erasures
import DataQ.Foundations.Capped
import DataQ.Lineage.Warehouse
import DataQ.Lineage.Accretion
import DataQ.Lineage.Eviction
import DataQ.Secrets.Minting
import DataQ.Secrets.Sweep
import DataQ.Llm.Invocations
import DataQ.Llm.SettlesOnce
import DataQ.Foundations.Places
import DataQ.Redaction.Governance
import DataQ.Redaction.SignalGate
import DataQ.Foundations.Groups
import DataQ.Runs.SplitRunners
import DataQ.Runs.OneOutcome
import DataQ.Anomaly.Baselines
import DataQ.Anomaly.WellFormed
import DataQ.Foundations.Dates
import DataQ.Seasonal.Calendars
import DataQ.Seasonal.Scores
import DataQ.Seasonal.Causality
import DataQ.Runs.Attribution
import DataQ.Subjects.Requests
import DataQ.Subjects.Erasure
import DataQ.Runs.ReadAsProduced
import DataQ.Alerts.HealthTasks
import DataQ.Alerts.Alternation
import DataQ.Foundations.Stretches
import DataQ.Foundations.UnionFind
import DataQ.Seasonal.Detection
import DataQ.Seasonal.MaximalRuns
import DataQ.Seasonal.LeapDays
import DataQ.Anomaly.DailySeries
import DataQ.Foundations.Windows
import DataQ.RateLimit.Middleware
import DataQ.RateLimit.Ceilings
import DataQ.Redaction.ColumnTags
import DataQ.Redaction.Precedence
import DataQ.Suggestions.Decisions
import DataQ.Foundations.Percent
import DataQ.Foundations.Urls
import DataQ.Connections.UriCredentials
import DataQ.Connections.InjectedPasswords
import DataQ.Alerts.SignalTicks
import DataQ.Alerts.SignalEdges
import DataQ.Alerts.SignalRuns
import DataQ.Alerts.RunAlerts
import DataQ.FlatFiles.Batches
import DataQ.FlatFiles.RangeReads
import DataQ.Sampling.Reservoir
import DataQ.Anomaly.SeededHistory
import DataQ.Anomaly.BaselineDocuments
import DataQ.Foundations.Exploration
import DataQ.Lineage.Columns
import DataQ.Lineage.ColumnSources
import DataQ.Lineage.ColumnTrace
import DataQ.Lineage.Ephemera
import DataQ.Lineage.StitchedEdges
import DataQ.Comparison.Alignment
import DataQ.Comparison.Grains
import DataQ.Comparison.Conservation
import DataQ.Comparison.KeyNames
import DataQ.Comparison.Exchange
import DataQ.Comparison.Agreement
import DataQ.Foundations.RecordReaders
import DataQ.FlatFiles.HeadReads
import DataQ.FlatFiles.HeadRows
import DataQ.FlatFiles.HeadPrefix
import DataQ.Lineage.Neighbourhood
import DataQ.Foundations.Numbering
import DataQ.Profile.TopValues
import DataQ.Profile.Batches
import DataQ.Foundations.MemoSearch
import DataQ.Lineage.Manifests
import DataQ.Lineage.ManifestContract
import DataQ.Lineage.ManifestParses
import DataQ.Foundations.Numerals
import DataQ.Sql.SnowflakeTokens
import DataQ.Sql.AcceptedValues
import DataQ.Sanitizing.Times
import DataQ.Sanitizing.Values
import DataQ.Foundations.Utf8
import DataQ.Foundations.JsonScanner
import DataQ.FlatFiles.ArrayLines
import DataQ.FlatFiles.JsonFiles
import DataQ.Redaction.Report
import DataQ.Contracts.Verdicts
