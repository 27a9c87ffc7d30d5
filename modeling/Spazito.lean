import Spazito.EcmaText
import Spazito.EcmaCase
import Spazito.EcmaNumber
import Spazito.EcmaInteger
import Spazito.EcmaJson
import Spazito.EcmaJsonRoundTrip
import Spazito.EcmaRegex
import Spazito.EcmaScan
import Spazito.Sha256
import Spazito.ScriptProgram
import Spazito.ScriptPool
import Spazito.ScriptEvents
import Spazito.ScriptLog
import Spazito.ScriptSections
import Spazito.ScriptMoments
import Spazito.ScriptTurns
import Spazito.Platform
import Spazito.Config
import Spazito.PlatformRuns
import Spazito.StorePool
import Spazito.AppsScript
import Spazito.SecureCompare
import Spazito.CompareLoop
import Spazito.Tickers
import Spazito.CommandParser
import Spazito.Redactor
import Spazito.RedactorWords
import Spazito.Replies
import Spazito.Formatter
import Spazito.SecurityVault
import Spazito.SecurityGate
import Spazito.Watchlist
import Spazito.PriceService
import Spazito.SmsService
import Spazito.Signer
import Spazito.Scheduler
import Spazito.CommandHandler
import Spazito.ShellFootprints
import Spazito.GateFrame
import Spazito.WebhookIsolation
import Spazito.VaultState
import Spazito.VaultGate
import Spazito.VaultHistory
import Spazito.ReplayWindow
import Spazito.Verifier
import Spazito.SignedText
import Spazito.VerifierHistory
import Spazito.SignerPool
import Spazito.Roster
import Spazito.ShellLocks
import Spazito.WatchlistState
import Spazito.WatchlistPool
import Spazito.FormatterMoney
import Spazito.FormatterLine
import Spazito.LineReading
import Spazito.PriceRuns
import Spazito.PriceLine
import Spazito.ScriptCalls
import Spazito.ShellCalls
import Spazito.DailyText
import Spazito.Delivery
import Spazito.VaultFaults
import Spazito.RedactorUrls
import Spazito.RedactorFixpoint
import Spazito.RefusalLog
import Spazito.ScriptRules
import Spazito.StoreRules
import Spazito.VaultAudit
import Spazito.WatchlistRuns
import Spazito.WebhookReply
import Spazito.Reachable
import Spazito.WebhookReplies
import Spazito.WebhookOnce
import Spazito.WatchlistHealing
import Spazito.VaultDamage
import Spazito.SidHistory
import Spazito.AuditTrail
import Spazito.PriceCalls
import Spazito.Requirements
import Spazito.Triggers
import Spazito.CommandGrammar
import Spazito.GateTurns
import Spazito.GateCourse
import Spazito.GatePool
import Spazito.WebhookEcho
import Spazito.ScriptGuards
import Spazito.ScriptChronicle
import Spazito.BotState
import Spazito.BotGuard
import Spazito.BotThreads
import Spazito.BotPool
import Spazito.BotLockout
import Spazito.EcmaJsonSize
import Spazito.BotStorage
import Spazito.EcmaUri
import Spazito.BotRequests
import Spazito.VerifierPage
import Spazito.ScriptTwins
import Spazito.BotSecrets
import Spazito.EcmaRounding
import Spazito.FormatterAccuracy
import Spazito.ScriptBudget
import Spazito.ShellBudgets
import Spazito.BotBudget
import Spazito.BotDaily
import Spazito.BotSignature
import Spazito.Desk
import Spazito.DeskCommands
import Spazito.Conversation
