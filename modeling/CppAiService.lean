import CppAiService.AccountDurability
import CppAiService.Backlog
import CppAiService.ByteFifo
import CppAiService.CachedReplies
import CppAiService.CacheLookup
import CppAiService.CacheSize
import CppAiService.ChatContract
import CppAiService.ClientConfig
import CppAiService.ClosedConnection
import CppAiService.ConnectionPairing
import CppAiService.ConnectionRegistry
import CppAiService.EchoServer
import CppAiService.EpollPolls
import CppAiService.ExtractorAgreement
import CppAiService.FileChain
import CppAiService.FileSend
import CppAiService.FlatObjects
import CppAiService.Foundation.JsonWriter
import CppAiService.Foundation.LastWrite
import CppAiService.Foundation.Mixing
import CppAiService.Foundation.Tokens
import CppAiService.Foundation.TopK
import CppAiService.HttpAccounts
import CppAiService.HttpRetrieval
import CppAiService.JsonAnswers
import CppAiService.LfuAccounting
import CppAiService.LfuPurge
import CppAiService.LiteralDecoding
import CppAiService.LiveMemory
import CppAiService.LogOrder
import CppAiService.LoopOwnership
import CppAiService.ManyConnections
import CppAiService.OneAnswer
import CppAiService.PartialLoad
import CppAiService.PasswordHash
import CppAiService.PoolSharing
import CppAiService.PoolSlots
import CppAiService.QueuedSend
import CppAiService.QuitRequest
import CppAiService.RegistrationLimit
import CppAiService.RequestMeaning
import CppAiService.ResponseFraming
import CppAiService.Retrieval
import CppAiService.Secrets
import CppAiService.Sessions
import CppAiService.SlicedRuns
import CppAiService.SlotAlignment
import CppAiService.TaskHandOff
import CppAiService.ThreadPoolStart
import CppAiService.TimerArming
import CppAiService.TornRecords
import CppAiService.UsernameUniqueness
import CppAiService.WatchedChannels
