import PrtsMcp.LruList
import PrtsMcp.Runs
import PrtsMcp.Process
import PrtsMcp.ImageCache
import PrtsMcp.DataRetention
import PrtsMcp.ImagesLock
import PrtsMcp.Json
import PrtsMcp.IsoTime
import PrtsMcp.ReleaseTags
import PrtsMcp.ZipValidation
import PrtsMcp.SyncTypes
import PrtsMcp.Discovery
import PrtsMcp.FileSteps
import PrtsMcp.ReleaseSync
import PrtsMcp.ReleaseSyncOrder
import PrtsMcp.ReleaseSyncStatus
import PrtsMcp.PairRelease
import PrtsMcp.ViewRelease
import PrtsMcp.PairRetention
import PrtsMcp.JobHistory
import PrtsMcp.DatabaseGenerations
import PrtsMcp.DataSnapshot
import PrtsMcp.SourceGuard
import PrtsMcp.Reload
import PrtsMcp.StoryCaches
import PrtsMcp.Utf8
import PrtsMcp.RegexBytecode
import PrtsMcp.BlockFilter
import PrtsMcp.JsRegex
import PrtsMcp.RegexShortcuts
import PrtsMcp.Projection
import PrtsMcp.Dispatch
import PrtsMcp.ImageHistory
import PrtsMcp.ConfigEditRuns
import PrtsMcp.ZipExtraction
import PrtsMcp.ImagesMeta
import PrtsMcp.IsoText
import PrtsMcp.Zodish
import PrtsMcp.ReleaseDownload
import PrtsMcp.Objects
import PrtsMcp.SessionRuns
import PrtsMcp.SessionLife
import PrtsMcp.AdmissionRuns
import PrtsMcp.AdmissionSoundness
import PrtsMcp.StoryListing
import PrtsMcp.StoryBlocks
import PrtsMcp.DataReleases
import PrtsMcp.ActivityPages
import PrtsMcp.TemplateRender
import PrtsMcp.SearchBlocks
import PrtsMcp.Patterns
import PrtsMcp.Wikitext
import PrtsMcp.WikitextLinks
import PrtsMcp.StorySearchAgreement
import PrtsMcp.StoryCharacter
import PrtsMcp.Utf16
import PrtsMcp.JsCompat
import PrtsMcp.WikiClient
import PrtsMcp.Listings
import PrtsMcp.ToFixed
import PrtsMcp.SkillText
import PrtsMcp.IndexedMap
import PrtsMcp.EnemyAppearances
import PrtsMcp.StdioLoop
import PrtsMcp.StorePaths
import PrtsMcp.Stores
import PrtsMcp.XmlEntities
import PrtsMcp.TemplateXml
import PrtsMcp.ParseTrees
import PrtsMcp.StageStats
import PrtsMcp.ImagesV1
import PrtsMcp.Lookaround
import PrtsMcp.Thousands
import PrtsMcp.ItemLookup
import PrtsMcp.DownloadCascade
import PrtsMcp.DataSources
import PrtsMcp.SkillData
import PrtsMcp.Loops
import PrtsMcp.ImageChain
import PrtsMcp.StoryPacks
import PrtsMcp.DatasetSlots
import PrtsMcp.ControlEndpoint
import PrtsMcp.ImageFormats
import PrtsMcp.ParsedValues
import PrtsMcp.CompiledEntities
import PrtsMcp.CompiledSources
import PrtsMcp.OperatorData
import PrtsMcp.OperatorBuilding
import PrtsMcp.OperatorInfo
import PrtsMcp.OperatorStats
import PrtsMcp.OperatorSkills
import PrtsMcp.Workers
import PrtsMcp.WorkerRetries
import PrtsMcp.WorkerShutdown
import PrtsMcp.ControlProtocol
