import MatchTrader.AtMostOnce
import MatchTrader.Absorbing
import MatchTrader.EndedLifecycles
import MatchTrader.Lifecycles
import MatchTrader.ReadBacks
import MatchTrader.Closures
import MatchTrader.LivePlans
import MatchTrader.LotSizing
import MatchTrader.Brackets
import MatchTrader.PaperMode
import MatchTrader.Recoveries
import MatchTrader.RelayArchives
import MatchTrader.ForwardingControls
import MatchTrader.PammPublications
import MatchTrader.Renewals
import MatchTrader.OutboxDeliveries
import MatchTrader.RelayMirrors
import MatchTrader.WebSocketAdmissions
import MatchTrader.Restarts
import MatchTrader.PaperRows
import MatchTrader.PaperRecords
import MatchTrader.Acceptances
import MatchTrader.SignalBatches
import MatchTrader.Recordings
import MatchTrader.FillTotals
import MatchTrader.ReadBackRegisters
import MatchTrader.OwnPositions
import MatchTrader.TradeIdentities
import MatchTrader.Migrations
import MatchTrader.LedgerReads
import MatchTrader.P01Reads
import MatchTrader.P01Releases
import MatchTrader.SettingsChanges
import MatchTrader.LoggingRetention
import MatchTrader.BridgeJournal
import MatchTrader.RatePermits
import MatchTrader.ClosedHistory
import MatchTrader.R01Timestamps
import MatchTrader.R01Duplicates
import MatchTrader.SessionTokens
import MatchTrader.ReasonDigits
import MatchTrader.ConfigFailures
import MatchTrader.Chronology
import MatchTrader.LedgerEpisodes
import MatchTrader.EnvFile
import MatchTrader.RenewalTimers
import MatchTrader.RelayBody
import MatchTrader.DashboardStream
import MatchTrader.ProfileRuns
import MatchTrader.ProxyJournal
import MatchTrader.RawLogMasks
import MatchTrader.EnvSetup
import MatchTrader.WebSocketOrder
import MatchTrader.NativeObserver
import MatchTrader.DashboardGuard
