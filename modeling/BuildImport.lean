import BuildImport.Text
import BuildImport.Text.Blank
import BuildImport.Text.Word
import BuildImport.SortedSet
import BuildImport.SortedMap
import BuildImport.Path
import BuildImport.Label
import BuildImport.Json.Value
import BuildImport.Json.Magnitude
import BuildImport.Json.Scan
import BuildImport.Json.Schema
import BuildImport.Language
import BuildImport.TargetRecord
import BuildImport.Tag
import BuildImport.Module
import BuildImport.Project
import BuildImport.Error
import BuildImport.FileTree
import BuildImport.Roots
import BuildImport.Search
import BuildImport.Universe
import BuildImport.DependencyIndex
import BuildImport.ActionGraph
import BuildImport.ProjectView
import BuildImport.Config
import BuildImport.SourceRoot
import BuildImport.Plugin
import BuildImport.Merging
import BuildImport.Placeholder
import BuildImport.Mapping
import BuildImport.AspectOutput
import BuildImport.Resolution
import BuildImport.Digest.Md5
import BuildImport.Storage
import BuildImport.ProjectCache
import BuildImport.CommandLine
import BuildImport.Report
import BuildImport.Session
import BuildImport.Help
import BuildImport.Footprint
import BuildImport.Main
import BuildImport.Proofs.Components
import BuildImport.Proofs.PackageLabels
import BuildImport.Proofs.Outcomes
import BuildImport.Proofs.Patterns
import BuildImport.Proofs.Grouping
import BuildImport.Proofs.Quotient
import BuildImport.Proofs.Membership
import BuildImport.Proofs.Contents
import BuildImport.Proofs.Imported
import BuildImport.Proofs.Ownership
import BuildImport.Proofs.Placeholders
import BuildImport.Proofs.Identity
import BuildImport.Proofs.Idempotence
import BuildImport.Proofs.Renaming
import BuildImport.Proofs.Closure
import BuildImport.Proofs.DependencyIndex
import BuildImport.Proofs.Representation
import BuildImport.Proofs.SelfDependence
import BuildImport.Proofs.Growth
import BuildImport.Proofs.Selection
import BuildImport.Proofs.Payloads
import BuildImport.Proofs.Interruption
import BuildImport.Proofs.PayloadOrder
import BuildImport.Proofs.Cycles
import BuildImport.Proofs.ParentChains
import BuildImport.Proofs.Inputs
import BuildImport.Proofs.CacheCalls
import BuildImport.Proofs.Deliveries
import BuildImport.Proofs.Json.Tokens
import BuildImport.Proofs.Json.Layout
import BuildImport.Proofs.Json.Spelling
import BuildImport.Proofs.Json.Fitting
import BuildImport.Proofs.Encodings
import BuildImport.Proofs.WrittenViews
import BuildImport.Proofs.Files
import BuildImport.Proofs.InputForms
import BuildImport.Proofs.ColdStart
import BuildImport.Proofs.StoppedCalls
import BuildImport.Proofs.Parents
import BuildImport.Proofs.SourceRoots
import BuildImport.Proofs.Unreached
import BuildImport.Proofs.Traversal
import BuildImport.Proofs.LanguageLevel
import BuildImport.Proofs.SoundTrees
import BuildImport.Proofs.Extensions
import BuildImport.Proofs.FailedStores
import BuildImport.Proofs.TamperedFiles
import BuildImport.Proofs.ByteOrder
import BuildImport.Proofs.Topmost
import BuildImport.Proofs.Coverage
import BuildImport.Proofs.PatternForms
import BuildImport.Proofs.ActionLists
import BuildImport.Proofs.PackageNames
import BuildImport.Proofs.LaterClauses
import BuildImport.Proofs.Walks
import BuildImport.Proofs.Fetching
import BuildImport.Proofs.ClassPath
import BuildImport.Proofs.Locations
