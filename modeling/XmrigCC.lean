import XmrigCC.ReceiveBufferRuns
import XmrigCC.MultiWorkerHashing
import XmrigCC.CommandServerAccess
import XmrigCC.ClientConfigFiles
import XmrigCC.JobPublication
import XmrigCC.ShareDelivery
import XmrigCC.CryptoNightMultiHash
import XmrigCC.PoolClientLiveness
import XmrigCC.ClientDisconnect
import XmrigCC.FailoverRuns
import XmrigCC.ResultQueue
import XmrigCC.PausedWorkers
import XmrigCC.ShareAccounting
import XmrigCC.PoolHandles
import XmrigCC.SelectedJob
import XmrigCC.RejectedCalls
import XmrigCC.NonceRanges
import XmrigCC.JobAdoption
import XmrigCC.SubmitText
import XmrigCC.PoolAccess
import XmrigCC.ServiceAccess
import XmrigCC.WireMessages
import XmrigCC.DonatePeriods
import XmrigCC.PoolOptions
import XmrigCC.InterruptedJobs
import XmrigCC.TargetTexts
import XmrigCC.JobEquality
import XmrigCC.TargetDifficulty
import XmrigCC.ThreadMemory
import XmrigCC.ClientConfigPaths
import XmrigCC.UrlGrammar
import XmrigCC.WorkersCalls
import XmrigCC.NumericOptions
import XmrigCC.LogRecords
import XmrigCC.NetworkStatistics
import XmrigCC.StatusReports
import XmrigCC.HashrateWindows
import XmrigCC.HashrateMemory
import XmrigCC.ResponseDeadlines
import XmrigCC.UrlCopies
import XmrigCC.BearerTokens
import XmrigCC.HexCoding
import XmrigCC.ThreadAffinity
import XmrigCC.PortableProducts
import XmrigCC.CryptoNightArm
import XmrigCC.Keccak
import XmrigCC.BlakeTexts
import XmrigCC.CommandChannel
import XmrigCC.UploadedBodies
import XmrigCC.StatusLists
