import Webfang.Lib.Execution
import Webfang.Lib.KeyedMerge
import Webfang.Lib.Framing
import Webfang.Lib.KeyedRows
import Webfang.Lib.Utf8
import Webfang.Lib.Json
import Webfang.Domain.Record
import Webfang.Domain.Sha256Hex
import Webfang.Export.CommitSession
import Webfang.Export.ProcessResults
import Webfang.Export.SessionSpec
import Webfang.Export.ItemRoute
import Webfang.Export.ExportSystem
import Webfang.Export.CommitSoundness
import Webfang.Export.RecordValidity
import Webfang.Export.ResumeGate
import Webfang.Export.NoItemLost
import Webfang.Export.ItemStage
import Webfang.Export.ExactlyOnce
import Webfang.Export.ConcurrentSessions
import Webfang.Export.VectorExporter
import Webfang.Export.VectorFile
import Webfang.Export.VectorHeader
import Webfang.Export.VectorAppend
import Webfang.Export.VectorSystem
import Webfang.Export.JsonlWriter
import Webfang.Export.JsonlSession
import Webfang.Crawler.UrlQueue
import Webfang.Crawler.Scheduler
import Webfang.Crawler.CrawlTask
import Webfang.Crawler.Engine
import Webfang.Crawler.EngineSteps
import Webfang.Crawler.Dispatch
import Webfang.Crawler.Accounting
import Webfang.Crawler.Completion
import Webfang.Crawler.Interruption
import Webfang.Crawler.DepthLimit
import Webfang.Crawler.Documents
import Webfang.Crawler.Bans
import Webfang.Crawler.Coverage
import Webfang.Persistence.CrawlResultLog
import Webfang.Persistence.CrawlResultSystem
import Webfang.Persistence.WriterShutdown
import Webfang.Persistence.EmbeddingBlob
import Webfang.Vault.NoteRepository
import Webfang.Vault.VaultSearch
import Webfang.Vault.NoteIndex
import Webfang.Vault.SyncVault
import Webfang.Vault.VaultReader
import Webfang.Ingestion.ElasticIngestion
import Webfang.Ingestion.Completeness
import Webfang.Lib.Pieces
import Webfang.Output.FileNames
import Webfang.Output.PagePaths
import Webfang.Output.SavedPages
import Webfang.Embedding.EmbeddingAdapter
import Webfang.Repair.RepairCache
import Webfang.Http.InspectedBodies
import Webfang.Downloader.RenderGate
import Webfang.Downloader.ByteSemaphore
import Webfang.Lib.Parties
import Webfang.Domain.HtmlCleaner
import Webfang.Assets.SingleFlight
import Webfang.Assets.KeptAssets
import Webfang.Output.LinkedNotes
import Webfang.Lib.ValueCount
import Webfang.Domain.CommitPoint
import Webfang.Lib.Selection
import Webfang.Crawler.FrontierOrder
import Webfang.Crawler.CheckpointBudget
import Webfang.Lib.TextLines
import Webfang.Export.ChunkExport
import Webfang.Export.HashIndexes
import Webfang.Export.StateFile
import Webfang.Export.VectorFailure
import Webfang.Export.VectorDimensions
import Webfang.Lib.Attempts
import Webfang.Downloader.WreqDownloader
import Webfang.Downloader.FetchPolicy
import Webfang.Downloader.DocumentScraper
import Webfang.Downloader.SavedDocuments
import Webfang.Lib.StableSort
import Webfang.Network.SessionPool
import Webfang.Network.PoolInvariants
import Webfang.Crawler.SessionAccounting
import Webfang.Sitemap.RobotsDirective
import Webfang.Sitemap.SitemapOrder
import Webfang.Sitemap.SitemapDiscovery
import Webfang.Domain.UrlNormalization
import Webfang.Crawler.LinkExtractor
import Webfang.Sitemap.SitemapParser
import Webfang.Sitemap.ParsedEntries
import Webfang.Crawler.RobotsFetcher
import Webfang.Sitemap.SitemapIndex
import Webfang.Sitemap.IndexRecursion
import Webfang.Sitemap.IndexRuns
import Webfang.Sitemap.IndexCoverage
import Webfang.Http.RetryOutcome
import Webfang.Http.BackoffDelay
import Webfang.Downloader.DispositionNames
import Webfang.Downloader.DownloadNames
import Webfang.Domain.SsrfGuard
import Webfang.Domain.IpLiterals
import Webfang.Domain.ForbiddenAddresses
import Webfang.Output.ConfinedPaths
import Webfang.Output.EventFidelity
import Webfang.Output.AssetPaths
import Webfang.Domain.ExcerptRepair
import Webfang.Domain.RepairedExcerpts
import Webfang.Domain.SettledExcerpts
import Webfang.Domain.SecondRepairs
import Webfang.Domain.CookieBridge
import Webfang.Vault.ObsidianUri
import Webfang.Embedding.RelevanceFilter
import Webfang.Embedding.SentenceSplitter
import Webfang.Embedding.HtmlChunker
import Webfang.Embedding.KeptNotes
import Webfang.Http.WafCompleteness
import Webfang.Downloader.HybridRouter
import Webfang.Crawler.SpooledPages
import Webfang.Assets.LeftFiles
import Webfang.Domain.PreformattedText
import Webfang.Mcp.ScrapeMetrics
import Webfang.Domain.UrlGlobs
import Webfang.Domain.HostPathPatterns
import Webfang.Crawler.CheckpointStore
import Webfang.Batch.BatchAccounting
import Webfang.Batch.BatchCancellation
import Webfang.Assets.CacheBound
import Webfang.Domain.CookieHandover
import Webfang.Lib.AsciiCase
import Webfang.Domain.SeedHosts
import Webfang.Domain.SimpleUrlParser
import Webfang.Domain.SeedSpellings
import Webfang.Domain.SchemaValidation
import Webfang.Llm.ExtractionLaw
import Webfang.Domain.ValidUrls
import Webfang.Embedding.InferencePool
import Webfang.Embedding.InferencePoolRuns
import Webfang.Embedding.InferencePoolAnswers
import Webfang.Embedding.InferencePoolProgress
import Webfang.Domain.SsrfConnections
import Webfang.Lib.Unordered
import Webfang.Scrape.ExitCodes
import Webfang.Scrape.ScrapePhase
import Webfang.Scrape.ScrapeRuns
import Webfang.Scrape.ScrapeReports
import Webfang.Scrape.ScrapeExit
import Webfang.Lib.LexicalPath
import Webfang.Mcp.ExportRoots
import Webfang.Mcp.ExportPaths
import Webfang.Sitemap.SitemapBodies
import Webfang.Lib.Ranked
import Webfang.Cli.Budget
import Webfang.Cli.Preflight
import Webfang.Cli.Configuration
