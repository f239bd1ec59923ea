import Cllama.Library.Lines
import Cllama.Library.Json
import Cllama.Core.ReplyOutcomes
import Cllama.Core.ModelPaths
import Cllama.Boundary.SplitCharacters
import Cllama.Boundary.WakeUps
import Cllama.Api.TranscriptShape
import Cllama.Api.RouterAgreement
import Cllama.Boundary.SamplingOptions
import Cllama.Api.HandlerOutcomes
import Cllama.Cli.ServePidfiles
import Cllama.Util.CflagCommands
import Cllama.Runner.ChatTemplate
import Cllama.Runner.Sampling
import Cllama.Boundary.Embeddings
import Cllama.Core.GracefulStop
import Cllama.Core.BinarySelection
import Cllama.Core.ListModels
import Cllama.Cli.ShownSettings
import Cllama.Cli.ChatHistory
import Cllama.Api.ErrorEvent
import Cllama.Platform.CommandLines
import Cllama.Platform.WindowsSpawn
import Cllama.Util.CflagAccounts
import Cllama.Util.CflagNumbers
import Cllama.Util.CflagNames
import Cllama.Platform.WindowsProcesses
import Cllama.Library.JsonPortable
import Cllama.Core.Launches
import Cllama.Library.Simulation
import Cllama.Api.Endpoints
import Cllama.Api.Server
import Cllama.Api.ServerRuns
import Cllama.Api.ServeAgreement
import Cllama.Cli.RunnerCommands
import Cllama.Boundary.ClientCommands
import Cllama.Boundary.RecordLines
import Cllama.Boundary.Pipeline
import Cllama.Library.JsonPrefix
import Cllama.Boundary.CutResponses
import Cllama.Library.JsonEntries
import Cllama.Api.CppRestStream
import Cllama.Boundary.ChatTurns
import Cllama.Boundary.RunnerArguments
import Cllama.Util.CflagHelp
import Cllama.Cli.Dispatch
import Cllama.Boundary.ModelCommands
import Cllama.Boundary.Shutdown
