import ProtoJS.Runtime.ThreadPoolDelivery
import ProtoJS.Runtime.ThreadPoolWakeups
import ProtoJS.Runtime.EventLoopRun
import ProtoJS.Runtime.MainLoopExit
import ProtoJS.Runtime.DeferredDelivery
import ProtoJS.Runtime.DeferredBuffer
import ProtoJS.Modules.CommonJSTermination
import ProtoJS.Modules.CommonJSExports
import ProtoJS.Modules.CommonJSBase
import ProtoJS.Modules.CommonJSCycles
import ProtoJS.Modules.CommonJSReferences
import ProtoJS.Modules.Resolution
import ProtoJS.Modules.ESModuleTermination
import ProtoJS.Modules.ESModuleNamespaces
import ProtoJS.Stores.GCBridgeValues
import ProtoJS.Stores.GCBridgeConsistency
import ProtoJS.Npm.SemverPrecedence
import ProtoJS.Npm.NPMRegistry
import ProtoJS.Npm.JsonErrors
import ProtoJS.Npm.DownloadIntegrity
import ProtoJS.Npm.InstallerDependencies
import ProtoJS.Npm.InstallerPaths
import ProtoJS.Npm.InstallerDisk
import ProtoJS.Buffer.TextRoundTrip
import ProtoJS.Bridge.TypeBridgeNumbers
import ProtoJS.Bridge.TypeBridgeArrays
import ProtoJS.Events.ListenerHistory
import ProtoJS.Modules.SubpathImports
import ProtoJS.Modules.NodeModulesWalk
import ProtoJS.Modules.ImportDeclarations
import ProtoJS.Events.ListenerRemoval
import ProtoJS.Http.RequestParsing
import ProtoJS.Http.ServerResponse
import ProtoJS.Net.ServerClose
import ProtoJS.Workers.WorkerMessages
import ProtoJS.ChildProcess.ChildOutput
import ProtoJS.Benchmarks.CIGate
import ProtoJS.Testing.ParallelRuns
import ProtoJS.Runtime.DescriptorOwners
import ProtoJS.Npm.SemverIntervals
import ProtoJS.Npm.SemverGrammar
import ProtoJS.Npm.JsonStrings
import ProtoJS.Npm.ContentLength
import ProtoJS.Npm.RegistryUrls
import ProtoJS.Npm.TarballPaths
import ProtoJS.Npm.SequentialDownloads
import ProtoJS.Stores.MetricsSeries
import ProtoJS.Buffer.BufferCopies
import ProtoJS.Buffer.BufferSearch
import ProtoJS.Npm.ExtractionCommand
import ProtoJS.Npm.MetadataCache
import ProtoJS.Modules.PackageFields
import ProtoJS.Npm.ScriptExecutor
import ProtoJS.Npm.DependencySections
import ProtoJS.Buffer.HexText
import ProtoJS.Buffer.Base64Text
import ProtoJS.Bridge.TypeBridgeStrings
import ProtoJS.Http.HeaderText
import ProtoJS.Dgram.SocketSend
import ProtoJS.Stores.MetricsHistogram
import ProtoJS.Stores.GCBridgeStatistics
import ProtoJS.Events.LiveEmission
import ProtoJS.Runtime.ExecutionEngine
import ProtoJS.Benchmarks.Statistics
import ProtoJS.Benchmarks.Regressions
import ProtoJS.Repl.EvaluatedInputs
import ProtoJS.Repl.EndOfInput
import ProtoJS.Npm.JsonProgress
import ProtoJS.Testing.Verdicts
import ProtoJS.Testing.ReportExport
import ProtoJS.Files.FileOperations
import ProtoJS.Files.FilePromises
import ProtoJS.Files.FilePromisesDelivery
import ProtoJS.Runtime.ThreadPoolProgress
import ProtoJS.Files.FilePromisesProgress
import ProtoJS.Net.SocketReader
import ProtoJS.Npm.PackageResolver
import ProtoJS.Machine.LockedLogs
import ProtoJS.Logging.Logger
import ProtoJS.Http.ClientServer
import ProtoJS.Program.CommandLine
import ProtoJS.Machine.TreePaths
import ProtoJS.Npm.InstalledPackages
import ProtoJS.Net.SocketLifecycle
import ProtoJS.Testing.CIRun
import ProtoJS.Debugging.CDPServer
import ProtoJS.Crypto.Hash
