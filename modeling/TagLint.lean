import TagLint.Files.Memory
import TagLint.Files.Tree
import TagLint.Json.Printer
import TagLint.Main
import TagLint.Proofs.AttributePlaces
import TagLint.Proofs.BatchIsolation
import TagLint.Proofs.CascadeHistory
import TagLint.Proofs.CommentJoints
import TagLint.Proofs.CommentLines
import TagLint.Proofs.CommentParts
import TagLint.Proofs.CommentTolerance
import TagLint.Proofs.ConfigOption
import TagLint.Proofs.EventSpellings
import TagLint.Proofs.ExitStatus
import TagLint.Proofs.LexicalAncestors
import TagLint.Proofs.LineTiling
import TagLint.Proofs.MeetableRequirements
import TagLint.Proofs.NameRepeats
import TagLint.Proofs.NoticeReach
import TagLint.Proofs.OpenRevalidation
import TagLint.Proofs.OptionReadings
import TagLint.Proofs.OverlayLaws
import TagLint.Proofs.PathSpellings
import TagLint.Proofs.RedundantNotices
import TagLint.Proofs.RuleIndependence
import TagLint.Proofs.SessionSettings
import TagLint.Proofs.SettingsLayers
import TagLint.Proofs.SurfacedFailures
import TagLint.Proofs.TagBuilding
import TagLint.Proofs.TagOverrides
import TagLint.Proofs.TagRegistry
import TagLint.Proofs.TagReports
import TagLint.Proofs.TokenRanges
import TagLint.Proofs.TokenSlices
import TagLint.Proofs.UpwardWalk
import TagLint.Proofs.ValidatorOptions
import TagLint.Proofs.SnippetText
