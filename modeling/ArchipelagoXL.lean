import ArchipelagoXL.Lib.Interleave
import ArchipelagoXL.Lib.Redis
import ArchipelagoXL.Lib.Uuid
import ArchipelagoXL.Lib.Utf8
import ArchipelagoXL.Lib.Html
import ArchipelagoXL.Lib.EditScript
import ArchipelagoXL.Lib.Runs
import ArchipelagoXL.Lib.WalkMap
import ArchipelagoXL.Lib.OrdMap
import ArchipelagoXL.Lib.ListMap
import ArchipelagoXL.Lib.Replace
import ArchipelagoXL.Lib.WebUrl
import ArchipelagoXL.Lib.BlockText
import ArchipelagoXL.Lib.Ranks
import ArchipelagoXL.Lib.Lowercase
import ArchipelagoXL.Lib.Search
import ArchipelagoXL.Lib.Paths
import ArchipelagoXL.Lib.Trimming
import ArchipelagoXL.Lib.Tally
import ArchipelagoXL.Lib.SemVersion
import ArchipelagoXL.Lib.SortedSet
import ArchipelagoXL.Lib.Countdown
import ArchipelagoXL.Lib.Timeline
import ArchipelagoXL.Lib.Pointwise
import ArchipelagoXL.Lib.IndexMap
import ArchipelagoXL.Wq.Types
import ArchipelagoXL.Wq.Keys
import ArchipelagoXL.Wq.Ops
import ArchipelagoXL.Wq.Machine
import ArchipelagoXL.Wq.Flow
import ArchipelagoXL.Wq.Placement
import ArchipelagoXL.Wq.Partition
import ArchipelagoXL.Wq.Services
import ArchipelagoXL.Wq.Wait
import ArchipelagoXL.Wq.Fresh
import ArchipelagoXL.Wq.Resolve
import ArchipelagoXL.Wq.Reclaim
import ArchipelagoXL.Wq.Cancel
import ArchipelagoXL.Wq.Custody
import ArchipelagoXL.Wq.Priorities
import ArchipelagoXL.Wq.Serving
import ArchipelagoXL.Wq.Timeouts
import ArchipelagoXL.Wq.Stats
import ArchipelagoXL.Wq.Phase
import ArchipelagoXL.Wq.Outline
import ArchipelagoXL.Wq.Lifecycle
import ArchipelagoXL.Wq.Worker
import ArchipelagoXL.Apwm.Index
import ArchipelagoXL.Apwm.Views
import ArchipelagoXL.Apwm.Manifest
import ArchipelagoXL.Apwm.Resolve
import ArchipelagoXL.Apwm.Changes
import ArchipelagoXL.Apwm.Releases
import ArchipelagoXL.Apwm.Lint
import ArchipelagoXL.Apwm.Guarantee
import ArchipelagoXL.Apwm.LocalPaths
import ArchipelagoXL.Apwm.Retries
import ArchipelagoXL.Apwm.Refresh
import ArchipelagoXL.Apwm.Pins
import ArchipelagoXL.Apwm.ChangeFiles
import ArchipelagoXL.Lobby.Following
import ArchipelagoXL.Lobby.Yaml
import ArchipelagoXL.Lobby.Validation
import ArchipelagoXL.Lobby.Names
import ArchipelagoXL.Lobby.Slots
import ArchipelagoXL.Lobby.Uploads
import ArchipelagoXL.Lobby.Download
import ArchipelagoXL.Lobby.Distinct
import ArchipelagoXL.Lobby.Shown
import ArchipelagoXL.Lobby.Numbering
import ArchipelagoXL.Lobby.ManualUpload
import ArchipelagoXL.Lobby.UploadScript
import ArchipelagoXL.Lobby.OptionValues
import ArchipelagoXL.Lobby.OptionsYaml
import ArchipelagoXL.Lobby.ManifestEditor
import ArchipelagoXL.Lobby.ClosingTimes
import ArchipelagoXL.Lobby.Games
import ArchipelagoXL.Lobby.Extractor
import ArchipelagoXL.Lobby.Features
import ArchipelagoXL.Lobby.Revalidation
import ArchipelagoXL.Lobby.Documents
import ArchipelagoXL.Lobby.BaseSwitch
import ArchipelagoXL.Lobby.Limit
import ArchipelagoXL.Lobby.Generation
import ArchipelagoXL.Lobby.Generated
import ArchipelagoXL.Lobby.Versions
import ArchipelagoXL.Lobby.Waiting
import ArchipelagoXL.Lobby.Sessions
import ArchipelagoXL.Apx.Registry
import ArchipelagoXL.Apx.Passwords
import ArchipelagoXL.Apx.SlotPasswords
import ArchipelagoXL.Apx.Rooms
import ArchipelagoXL.Apx.Restore
import ArchipelagoXL.Apx.Restart
import ArchipelagoXL.Apx.Running
import ArchipelagoXL.Apx.DataPackages
import ArchipelagoXL.Apx.Sharing
import ArchipelagoXL.Apx.HandlerIds
import ArchipelagoXL.Apx.Bounce
import ArchipelagoXL.Apx.Spheres
import ArchipelagoXL.Apx.SphereOne
import ArchipelagoXL.Apx.Killer
import ArchipelagoXL.Apx.Start
import ArchipelagoXL.Apx.AltNames
import ArchipelagoXL.Apx.Recipients
import ArchipelagoXL.Apx.Responses
import ArchipelagoXL.Apx.BounceData
import ArchipelagoXL.Apx.Reconnect
import ArchipelagoXL.Apx.Relay
import ArchipelagoXL.Apx.LatestTags
import ArchipelagoXL.Apdiff.FileTree
import ArchipelagoXL.Apdiff.Mentions
import ArchipelagoXL.Apdiff.Submissions
import ArchipelagoXL.Apdiff.Review
import ArchipelagoXL.Apdiff.IndexPath
import ArchipelagoXL.Apdiff.DiffLines
import ArchipelagoXL.Apdiff.WordDiff
import ArchipelagoXL.Apdiff.Highlight
import ArchipelagoXL.Apdiff.WordHighlighting
import ArchipelagoXL.Apdiff.Extract
import ArchipelagoXL.Tools.Proxied
import ArchipelagoXL.Tools.Teams
import ArchipelagoXL.Tools.Values
import ArchipelagoXL.Tools.Triggers
import ArchipelagoXL.Tools.Rewriting
import ArchipelagoXL.Tools.Doubles
import ArchipelagoXL.Tools.Settling
import ArchipelagoXL.Tools.Options
import ArchipelagoXL.Tools.Additions
import ArchipelagoXL.Tools.Rules
import ArchipelagoXL.Tools.Evaluate
import ArchipelagoXL.Tools.Predicates
import ArchipelagoXL.Tools.Rolls
import ArchipelagoXL.Tools.Ranges
import ArchipelagoXL.Tools.Meaning
import ArchipelagoXL.Tools.Accepted
import ArchipelagoXL.Tools.Analysis
import ArchipelagoXL.Tools.TrackerCache
import ArchipelagoXL.Tools.Presets
import ArchipelagoXL.Tools.CrossPlando
import ArchipelagoXL.ApWorker.Checker
import ArchipelagoXL.ApWorker.Expectations
import ArchipelagoXL.ApWorker.OptionDefs
