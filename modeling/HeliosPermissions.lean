import HeliosPermissions.OrderedDict
import HeliosPermissions.IndexedTables
import HeliosPermissions.PartialRuns
import HeliosPermissions.GlobPattern
import HeliosPermissions.JsonValues
import HeliosPermissions.CacheKeys
import HeliosPermissions.CacheStore
import HeliosPermissions.HeliosResolution
import HeliosPermissions.ClientWorld
import HeliosPermissions.ClientSteps
import HeliosPermissions.InFlightTable
import HeliosPermissions.CallHistory
import HeliosPermissions.CallShapes
import HeliosPermissions.KeyedWrites
import HeliosPermissions.WriteThroughWins
import HeliosPermissions.StrandedWaiters
import HeliosPermissions.ReadProvenance
import HeliosPermissions.SharedFetches
import HeliosPermissions.StaleEntries
import HeliosPermissions.RefreshedReads
import HeliosPermissions.ColdKeyCalls
import HeliosPermissions.RunsToCompletion
import HeliosPermissions.ErasedCancels
import HeliosPermissions.CancelledJoiners
import HeliosPermissions.InMemoryCache
import HeliosPermissions.PairIsolation
import HeliosPermissions.RevocationEffects
import HeliosPermissions.SequentialCalls
import HeliosPermissions.JsonText
import HeliosPermissions.SequentialReads
import HeliosPermissions.CorruptedEntries
import HeliosPermissions.MalformedReplies
import HeliosPermissions.Explanations
import HeliosPermissions.PercentEncoding
import HeliosPermissions.SignedRequests
import HeliosPermissions.BulkInvalidations
import HeliosPermissions.AgreeingCaches
import HeliosPermissions.ScanLoop
import HeliosPermissions.PythonLiterals
import HeliosPermissions.PythonModules
import HeliosPermissions.ContractEmitter
import HeliosPermissions.EmittedModule
import HeliosPermissions.EmittedTables
import HeliosPermissions.EmittedText
import HeliosPermissions.EmittedContract
import HeliosPermissions.GeneratedFunctions
import HeliosPermissions.ScopeModel
import HeliosPermissions.FaithfulEmission
import HeliosPermissions.ExpiringMaps
import HeliosPermissions.LazyExpiry
import HeliosPermissions.RequestUrls
import HeliosPermissions.ProtectedPerms
import HeliosPermissions.KnownRoles
import HeliosPermissions.VersionSentinel
import HeliosPermissions.CodegenRuns
import HeliosPermissions.BackendMaps
import HeliosPermissions.MemoryRuns
import HeliosPermissions.BoundedReads
import HeliosPermissions.CallFailures
import HeliosPermissions.ValidatorVerdicts
import HeliosPermissions.GuardTracks
import HeliosPermissions.WritableContracts
import HeliosPermissions.CodegenOutcomes
import HeliosPermissions.ExpiringKeyspace
import HeliosPermissions.CoherentSessions
import HeliosPermissions.DiagnosticLogs
import HeliosPermissions.LogAccounts
import HeliosPermissions.ConsoleLines
import HeliosPermissions.SettledPairs
import HeliosPermissions.SignatureReplays
import HeliosPermissions.ClientFactory
import HeliosPermissions.EqualCaches
import HeliosPermissions.SessionTurns
import HeliosPermissions.SessionRuns
import HeliosPermissions.GrantedRoles
import HeliosPermissions.MethodRuns
