import StyleEngine.AddIn.Act
import StyleEngine.AddIn.Basic
import StyleEngine.AddIn.Error
import StyleEngine.AddIn.Manifest
import StyleEngine.AddIn.PatternAnalyzer
import StyleEngine.AddIn.Scripted
import StyleEngine.AddIn.TextParser
import StyleEngine.Cache.Basic
import StyleEngine.Cache.Document
import StyleEngine.Cache.Store
import StyleEngine.CommandLine.Arguments
import StyleEngine.CommandLine.Basic
import StyleEngine.Diff
import StyleEngine.Digest
import StyleEngine.Engine
import StyleEngine.Environment
import StyleEngine.Event
import StyleEngine.FilePattern
import StyleEngine.FileTree
import StyleEngine.Fixing
import StyleEngine.Glob
import StyleEngine.Json.Basic
import StyleEngine.Json.Printer
import StyleEngine.Json.Reader
import StyleEngine.Main
import StyleEngine.Path
import StyleEngine.Pattern.Basic
import StyleEngine.Pattern.Class
import StyleEngine.Pattern.Matcher
import StyleEngine.Pattern.Reader
import StyleEngine.Pattern.Template
import StyleEngine.Project
import StyleEngine.Record
import StyleEngine.Registry.Basic
import StyleEngine.Registry.Modules
import StyleEngine.Report.Json
import StyleEngine.Report.Text
import StyleEngine.Rule
import StyleEngine.Run.Basic
import StyleEngine.Run.FileJob
import StyleEngine.Run.Passes
import StyleEngine.Run.Pool
import StyleEngine.Settings.Basic
import StyleEngine.Settings.Load
import StyleEngine.Settings.Query
import StyleEngine.Severity
import StyleEngine.SourceFile
import StyleEngine.Summary
import StyleEngine.Suppression
import StyleEngine.Text.Blank
import StyleEngine.Text.Case
import StyleEngine.Text.CharSet
import StyleEngine.Text.Fixed
import StyleEngine.Text.GeneralCategory
import StyleEngine.Text.Lines
import StyleEngine.Text.Paint
import StyleEngine.Text.Quoted
import StyleEngine.Text.Script
import StyleEngine.Text.Split
import StyleEngine.Text.Substitute
import StyleEngine.TextModel
import StyleEngine.Violation
import StyleEngine.Yaml.Cursor
import StyleEngine.Yaml.Node
import StyleEngine.Yaml.Scalar
import StyleEngine.Yaml.Token
import StyleEngine.Proofs.Run.ClaimProtocol
import StyleEngine.Proofs.Run.FileWork
import StyleEngine.Proofs.Run.Works
import StyleEngine.Proofs.Registry.Wiring
import StyleEngine.Proofs.Registry.Descriptors
import StyleEngine.Proofs.Registry.Equipment
import StyleEngine.Proofs.Registry.Registrations
import StyleEngine.Proofs.Run.Interleaving
import StyleEngine.Proofs.Run.Sweep
import StyleEngine.Proofs.Run.Passes
import StyleEngine.Proofs.Engine.Runs
import StyleEngine.Proofs.Run.PassContract
import StyleEngine.Proofs.Cache.Entries
import StyleEngine.Proofs.Run.Snapshot
import StyleEngine.Proofs.Engine.Preparation
import StyleEngine.Proofs.Run.Schedules
import StyleEngine.Proofs.Engine.ScheduleIndependence
import StyleEngine.Proofs.Text.Rendering
import StyleEngine.Proofs.Analysis.Findings
import StyleEngine.Proofs.Analysis.Recording
import StyleEngine.Proofs.Engine.FaithfulCache
import StyleEngine.Proofs.Engine.BuiltinRuns
import StyleEngine.Proofs.Engine.RunHistories
import StyleEngine.Proofs.Engine.CacheTransparency
import StyleEngine.Proofs.Cache.Configuration
import StyleEngine.Proofs.Json.RoundTrip
import StyleEngine.Proofs.Json.Records
import StyleEngine.Proofs.FileTree.Relative
import StyleEngine.Proofs.FileTree.Writing
import StyleEngine.Proofs.Cache.StoredDocument
import StyleEngine.Proofs.Cache.Persistence
import StyleEngine.Proofs.Run.Storing
import StyleEngine.Proofs.Engine.Lineage
import StyleEngine.Proofs.Engine.ProjectNotes
import StyleEngine.Proofs.Engine.Replay
import StyleEngine.Proofs.Engine.RepeatedRuns
import StyleEngine.Proofs.Engine.SharedPaths
import StyleEngine.Proofs.Engine.Publication
import StyleEngine.Proofs.Engine.DirectRuns
import StyleEngine.Proofs.Analysis.Offences
import StyleEngine.Proofs.Engine.FullAnalysis
import StyleEngine.Proofs.Analysis.Conservation
import StyleEngine.Proofs.Engine.FixConservation
import StyleEngine.Proofs.Settings.Layers
import StyleEngine.Proofs.Settings.Inheritance
import StyleEngine.Proofs.Settings.Failures
import StyleEngine.Proofs.Settings.Merging
import StyleEngine.Proofs.Text.LineEndings
import StyleEngine.Proofs.Analysis.TextWork
import StyleEngine.Proofs.Engine.RunEffects
import StyleEngine.Proofs.Engine.TextDigests
import StyleEngine.Proofs.Analysis.Redigesting
import StyleEngine.Proofs.Engine.UncachedRuns
import StyleEngine.Proofs.Engine.RebuiltProjects
import StyleEngine.Proofs.Engine.Saving
import StyleEngine.Proofs.Engine.SettingsMemory
import StyleEngine.Proofs.Analysis.ExtraViolations
import StyleEngine.Proofs.Analysis.FailingAnalyzer
import StyleEngine.Proofs.Run.FailureIsolation
import StyleEngine.Proofs.Engine.FailureIsolation
import StyleEngine.Proofs.Registry.WiringOrder
import StyleEngine.Proofs.Registry.RuleDefaults
import StyleEngine.Proofs.Registry.Origins
import StyleEngine.Proofs.Registry.Manifests
import StyleEngine.Proofs.Run.Profiles
import StyleEngine.Proofs.Engine.Profiles
import StyleEngine.Proofs.Engine.Hosting
import StyleEngine.Proofs.Engine.TrustGate
import StyleEngine.Proofs.Analysis.FixOutcomes
import StyleEngine.Proofs.Analysis.UntouchedLines
import StyleEngine.Proofs.Engine.RunSteps
import StyleEngine.Proofs.Engine.Cancelling
import StyleEngine.Proofs.Engine.FailedPreparation
import StyleEngine.Proofs.Analysis.FixReports
import StyleEngine.Proofs.Engine.ReportAccounts
import StyleEngine.Proofs.Analysis.FixedLines
import StyleEngine.Proofs.Engine.FixedTexts
import StyleEngine.Proofs.Settings.Switches
import StyleEngine.Proofs.Text.Suppressions
import StyleEngine.Proofs.Registry.Initialization
import StyleEngine.Proofs.Registry.ModuleLoading
import StyleEngine.Proofs.Text.Directives
import StyleEngine.Proofs.Text.CharSets
import StyleEngine.Proofs.Pattern.Outcomes
import StyleEngine.Proofs.Pattern.Search
import StyleEngine.Proofs.Pattern.Layouts
import StyleEngine.Proofs.Pattern.Continuations
import StyleEngine.Proofs.Text.DirectivePattern
import StyleEngine.Proofs.Text.Differences
import StyleEngine.Proofs.Text.Substitution
import StyleEngine.Proofs.Text.Messages
import StyleEngine.Proofs.Text.Bytes
import StyleEngine.Proofs.Json.Layouts
import StyleEngine.Proofs.Report.Grouping
import StyleEngine.Proofs.Report.JsonReports
import StyleEngine.Proofs.Settings.Digests
