import Puter.Library.Interleaving
import Puter.Library.SqlLike
import Puter.Permission.PermissionUtil
import Puter.Permission.PermissionStore
import Puter.Permission.FlatViewRaces
import Puter.Core.Actor
import Puter.Permission.PermissionReading
import Puter.Permission.PermissionScan
import Puter.Permission.PermissionRules
import Puter.Library.StateRun
import Puter.Permission.PermissionService
import Puter.Acl.ACLService
import Puter.Acl.Attenuation
import Puter.Library.PathForest
import Puter.Fs.PosixPath
import Puter.Fs.FSEntryStore
import Puter.Acl.SetUserUser
import Puter.Fs.FSService
import Puter.Fs.FsTree
import Puter.Fs.StoreTree
import Puter.Fs.Relocation
import Puter.Fs.Removal
import Puter.Fs.CreationTree
import Puter.Fs.CopyTree
import Puter.Fs.TreeInvariant
import Puter.Fs.Refusal
import Puter.Fs.MoveRefusal
import Puter.Fs.CopySource
import Puter.Kv.ReadCache
import Puter.Kv.CachedReads
import Puter.Library.Document
import Puter.Kv.UpdateExpression
import Puter.Library.SortedTable
import Puter.Kv.SystemKVStore
import Puter.Kv.KvListing
import Puter.Kv.LapsedEntries
import Puter.Kv.DocumentPaths
import Puter.Fs.UploadSession
import Puter.Fs.StoreRows
import Puter.Fs.SessionAborts
import Puter.Library.Tally
import Puter.Metering.MonthRecord
import Puter.Metering.BudgetPools
import Puter.Metering.CreditRaces
import Puter.Metering.CreditHolds
import Puter.Metering.MonthlyCharges
import Puter.Metering.MeteringBuffer
import Puter.Metering.BufferConservation
import Puter.Metering.BufferedIncrements
import Puter.Metering.ClaimSettling
import Puter.Metering.UsageBatches
import Puter.Metering.HoldExpiry
import Puter.Metering.RunningTotals
import Puter.Metering.BaselineClaims
import Puter.Kv.BatchGets
import Puter.Kv.PrivateEntries
import Puter.Kv.KVStoreDriver
import Puter.Kv.CrossAppWrites
import Puter.Auth.SessionStore
import Puter.Auth.RevokedSessions
import Puter.Auth.SlotSessions
import Puter.Auth.AuthService
import Puter.Auth.AccessTokens
import Puter.Library.ScoredSet
import Puter.Library.ExpiringKeys
import Puter.RateLimit.RedisWindow
import Puter.Permission.PathRewriter
import Puter.RateLimit.KvWindow
import Puter.RateLimit.MemoryWindows
import Puter.RateLimit.RedisSlots
import Puter.AiChat.ChatStream
import Puter.AiChat.StreamedCalls
import Puter.Library.Runs
import Puter.AiChat.Messages
import Puter.AiChat.MessageMerging
import Puter.AiChat.MessageRoundTrip
import Puter.Share.ShareStore
import Puter.Share.ShareService
import Puter.Share.HiddenGrants
import Puter.Share.NodeGrants
import Puter.Dav.LockStore
import Puter.Dav.ExclusiveLocks
import Puter.Hosting.SubdomainStore
import Puter.Hosting.OutdatedSites
import Puter.Library.PercentEncoding
import Puter.Hosting.PuterSiteConfig
import Puter.Hosting.PuterSite
import Puter.Hosting.PublishedFiles
import Puter.Broadcast.IncomingBroadcast
import Puter.Broadcast.OutboundQueue
import Puter.Library.WebUrl
import Puter.Hosting.HostedAppBacking
import Puter.Hosting.IndexUrlCandidates
import Puter.Hosting.PrivateAppGate
import Puter.Hosting.PrivateSites
import Puter.Library.FanOutCache
import Puter.User.UserStore
import Puter.User.OwnerLookups
import Puter.Database.SQLBatcher
import Puter.Database.BatchedStatements
import Puter.Database.BatchedCalls
import Puter.Permission.PermissionKeys
import Puter.Fs.PathPrefix
import Puter.Library.Base64
import Puter.Library.HexText
import Puter.Library.OwnEntries
import Puter.Library.JsonText
import Puter.Core.Pagination
import Puter.Kv.PagedListing
import Puter.Library.KeysetPages
import Puter.Fs.ChildPages
import Puter.Fs.SubtreeRemoval
import Puter.Fs.NormalPath
import Puter.Fs.BatchTargets
import Puter.Fs.SharePathMask
import Puter.Fs.MaskedPaths
import Puter.Library.DocumentGrowth
import Puter.Kv.LayerWrites
import Puter.Kv.MainExpressions
import Puter.Kv.FailedMutations
import Puter.Library.Lineage
import Puter.Fs.LineageLookups
import Puter.Fs.LegacyTables
import Puter.Fs.HealedPaths
import Puter.AiChat.ModelRouting
import Puter.AiChat.CompletionAttempts
import Puter.AiChat.OutputCaps
import Puter.Auth.TokenCompression
import Puter.Auth.SignedTokens
import Puter.AiChat.MessageParts
import Puter.AiChat.NormalizedStructure
import Puter.AiChat.StreamMetering
import Puter.AiChat.ChargedStreams
import Puter.Library.SortedBuckets
import Puter.AiChat.ModelBuckets
import Puter.AiChat.RoutedModels
import Puter.Share.DailyQuota
import Puter.Fs.SignedPartUrls
import Puter.User.MetadataMerges
import Puter.Database.MysqlSplitter
import Puter.Database.MysqlScripts
import Puter.App.AppStore
import Puter.App.RowCache
import Puter.App.BatchedLookups
import Puter.App.OldNames
import Puter.App.ListPages
import Puter.Library.FieldTrees
import Puter.Metering.FlattenedAmounts
import Puter.Dav.WriteGate
import Puter.Library.WebOrigins
import Puter.Auth.OriginAliases
import Puter.App.AppDriver
import Puter.App.SoundStore
import Puter.App.DriverRuns
import Puter.App.MergedUids
import Puter.App.RefusedWrites
import Puter.Permission.TerminalFlags
import Puter.Fs.ServerUploads
