import Dacar.Convergence
import Dacar.Pruning
import Dacar.EngineSoundness
import Dacar.EngineInterference
import Dacar.EngineBounds
import Dacar.Verifier
import Dacar.Provenance
import Dacar.ChallengeProtocol
import Dacar.PayloadAgreement
import Dacar.SignedMessages
import Dacar.RecallStore
import Dacar.Cpp.History
import Dacar.ChallengeRefinement
import Dacar.Cli.Outbox
import Dacar.Cli.Freshness
import Dacar.Cli.LostUpdate
import Dacar.ClockRuns
import Dacar.VoteSearch.Paths
import Dacar.EngineChains
import Dacar.EngineDeny
import Dacar.Authorize
import Dacar.Cpp.Engine
import Dacar.ChallengeAgreement
import Dacar.Batch
import Dacar.PythonDelta
import Dacar.BatchDelta
import Dacar.Tombstones
import Dacar.MessagePack
import Dacar.Snapshot
import Dacar.SnapshotFidelity
import Dacar.LabelPath
import Dacar.LabelMatching
import Dacar.Chunking
import Dacar.LxmfSend
import Dacar.LosslessChunking
import Dacar.Cli.Aliases
import Dacar.Cli.AliasPersistence
import Dacar.Cli.AliasPorts
import Dacar.DecimalText
import Dacar.IniText
import Dacar.Cli.Config
import Dacar.Cli.ConfigRoundTrip
import Dacar.Cli.ConfigPorts
import Dacar.Cli.ConfigUpdates
import Dacar.Cli.LedgerParity
import Dacar.Cli.PayloadInput
import Dacar.Cpp.Keyring
import Dacar.Cpp.PullPage
import Dacar.GroupId
import Dacar.Cpp.Provisioning
import Dacar.LinkPush
import Dacar.Cpp.Delta
import Dacar.OperationExchange
import Dacar.LeadingZeros
import Dacar.Rfed.Stamp
import Dacar.Rfed.Compact
import Dacar.Rfed.Subscriber
import Dacar.Rfed.Client
import Dacar.Enforcement
import Dacar.Cli.CheckTrace
import Dacar.Cli.Prune
import Dacar.Cli.Paper
import Dacar.Cli.PaperRelay
