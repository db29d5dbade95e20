import DesignTokens.Arguments
import DesignTokens.Artifact
import DesignTokens.Command
import DesignTokens.CompiledTheme
import DesignTokens.Config
import DesignTokens.Decimal.Shortest
import DesignTokens.Decimal.Style
import DesignTokens.Double
import DesignTokens.Event
import DesignTokens.Fields
import DesignTokens.FileAccess
import DesignTokens.FileError
import DesignTokens.FileSystem.Basic
import DesignTokens.FileSystem.Operations
import DesignTokens.FontMetrics
import DesignTokens.Json.Reader
import DesignTokens.Json.Value
import DesignTokens.Json.Writer
import DesignTokens.Main
import DesignTokens.OrderedMap
import DesignTokens.Path
import DesignTokens.Project
import DesignTokens.ProjectConfig
import DesignTokens.Reference
import DesignTokens.Report
import DesignTokens.Section
import DesignTokens.Store
import DesignTokens.Stylesheet
import DesignTokens.Text.Blank
import DesignTokens.Text.Digits
import DesignTokens.Text.Pieces
import DesignTokens.Theme
import DesignTokens.TokenTree
import DesignTokens.TokenValue
import DesignTokens.Toml.Quoted
import DesignTokens.Toml.Reader
import DesignTokens.Toml.Scalar
import DesignTokens.Toml.Tables
import DesignTokens.Toml.Value
import DesignTokens.Toml.Writer
import DesignTokens.Proofs.LeafNames
import DesignTokens.Proofs.Pieces
import DesignTokens.Proofs.Lint
import DesignTokens.Proofs.Combining
import DesignTokens.Proofs.ReferenceNames
import DesignTokens.Proofs.JsonStrings
import DesignTokens.Proofs.OneLine
import DesignTokens.Proofs.StylesheetLines
import DesignTokens.Proofs.FileOperations
import DesignTokens.Proofs.Builds
import DesignTokens.Proofs.SecondPass
import DesignTokens.Proofs.LeafLookup
import DesignTokens.Proofs.PathComponents
import DesignTokens.Proofs.JoinedPaths
import DesignTokens.Proofs.Routes
import DesignTokens.Proofs.MakingDirectories
import DesignTokens.Proofs.WriteOutcomes
import DesignTokens.Proofs.Isolation
import DesignTokens.Proofs.IsolatedRuns
import DesignTokens.Proofs.StoreRuns
import DesignTokens.Proofs.Attempts
import DesignTokens.Proofs.ThemeFiles
import DesignTokens.Proofs.SectionParts
import DesignTokens.Proofs.Nesting
import DesignTokens.Proofs.Families
import DesignTokens.Proofs.Categories
import DesignTokens.Proofs.Flattening
import DesignTokens.Proofs.CommonGroups
import DesignTokens.Proofs.LastDeclarations
import DesignTokens.Proofs.LabelHeaders
import DesignTokens.Proofs.LastLeaves
import DesignTokens.Proofs.LooseReading
import DesignTokens.Proofs.WrittenReferences
import DesignTokens.Proofs.JoinedMarkers
import DesignTokens.Proofs.Skeletons
import DesignTokens.Proofs.DistinctKeys
import DesignTokens.Proofs.CommonTrees
import DesignTokens.Proofs.Confinement
import DesignTokens.Proofs.Documents
import DesignTokens.Proofs.Refusals
import DesignTokens.Proofs.EntryChanges
import DesignTokens.Proofs.NamedChildren
import DesignTokens.Proofs.LoadedProjects
import DesignTokens.Proofs.StartedProjects
import DesignTokens.Proofs.KeptConfigurations
import DesignTokens.Proofs.ThemeSets
import DesignTokens.Proofs.QuotedStrings
import DesignTokens.Proofs.WrittenSettings
