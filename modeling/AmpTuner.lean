import AmpTuner.Amp.BundledSpec
import AmpTuner.Amp.Layout
import AmpTuner.Amp.Spec
import AmpTuner.Amp.Vocabulary
import AmpTuner.CommandLine.Folder
import AmpTuner.CommandLine.Outcome
import AmpTuner.CommandLine.Path
import AmpTuner.CommandLine.Request
import AmpTuner.Css.Condition
import AmpTuner.Css.Length
import AmpTuner.Css.Rule
import AmpTuner.Issue
import AmpTuner.Json.Decode
import AmpTuner.Json.Fault
import AmpTuner.Json.Reader
import AmpTuner.Json.Scalar
import AmpTuner.Json.Value
import AmpTuner.Json.Writer
import AmpTuner.Main
import AmpTuner.Markup.Element
import AmpTuner.Markup.Reader
import AmpTuner.Markup.Reference
import AmpTuner.Markup.Token
import AmpTuner.Markup.TreeJson
import AmpTuner.Markup.Writer
import AmpTuner.Page.Basic
import AmpTuner.Page.Moves
import AmpTuner.Page.Queries
import AmpTuner.Page.Source
import AmpTuner.Page.Stylesheet
import AmpTuner.Page.Tree
import AmpTuner.Pass.Basic
import AmpTuner.Pass.Boilerplate
import AmpTuner.Pass.Extensions
import AmpTuner.Pass.HeadOrder
import AmpTuner.Pass.HeroImages
import AmpTuner.Pass.Minify
import AmpTuner.Pass.Rendering
import AmpTuner.Pass.RuntimeCss
import AmpTuner.Pass.Urls
import AmpTuner.Pass.Viewport
import AmpTuner.Pipeline
import AmpTuner.Settings
import AmpTuner.Text.Affix
import AmpTuner.Text.Blank
import AmpTuner.Text.Decimal
import AmpTuner.Text.Quoted
import AmpTuner.Proofs.Css.Bytewise
import AmpTuner.Proofs.Css.Length
import AmpTuner.Proofs.Css.Media
import AmpTuner.Proofs.Css.Rules
import AmpTuner.Proofs.Css.SourceSizes
import AmpTuner.Proofs.Extensions.Binding
import AmpTuner.Proofs.Extensions.Block
import AmpTuner.Proofs.Extensions.Completion
import AmpTuner.Proofs.Extensions.Demand
import AmpTuner.Proofs.Extensions.Grounds
import AmpTuner.Proofs.Extensions.Groups
import AmpTuner.Proofs.Extensions.Imports
import AmpTuner.Proofs.Extensions.Placement
import AmpTuner.Proofs.Extensions.Regathering
import AmpTuner.Proofs.Extensions.Requirements
import AmpTuner.Proofs.Extensions.Rerun
import AmpTuner.Proofs.Extensions.Stages
import AmpTuner.Proofs.Extensions.Supply
import AmpTuner.Proofs.HeadOrder.Arrangement
import AmpTuner.Proofs.HeadOrder.Ends
import AmpTuner.Proofs.HeadOrder.Regrouping
import AmpTuner.Proofs.HeadOrder.Rerun
import AmpTuner.Proofs.HeadOrder.Slots
import AmpTuner.Proofs.HeadOrder.Stability
import AmpTuner.Proofs.HeroImages.Preloads
import AmpTuner.Proofs.Json.Nesting
import AmpTuner.Proofs.Json.Reading
import AmpTuner.Proofs.Json.Strings
import AmpTuner.Proofs.Markup.Attributes
import AmpTuner.Proofs.Markup.Classes
import AmpTuner.Proofs.Markup.ClassList
import AmpTuner.Proofs.Markup.Grammar
import AmpTuner.Proofs.Markup.Joined
import AmpTuner.Proofs.Markup.Listing
import AmpTuner.Proofs.Markup.Positions
import AmpTuner.Proofs.Markup.Progress
import AmpTuner.Proofs.Markup.Readable
import AmpTuner.Proofs.Markup.Reading
import AmpTuner.Proofs.Markup.References
import AmpTuner.Proofs.Markup.Rereading
import AmpTuner.Proofs.Markup.Scanning
import AmpTuner.Proofs.Markup.TreeJson
import AmpTuner.Proofs.Markup.Written
import AmpTuner.Proofs.Minify.Fates
import AmpTuner.Proofs.Page.Attached
import AmpTuner.Proofs.Page.DocumentOrder
import AmpTuner.Proofs.Page.Gathering
import AmpTuner.Proofs.Page.Identifiers
import AmpTuner.Proofs.Page.Links
import AmpTuner.Proofs.Page.Loading
import AmpTuner.Proofs.Page.Moves
import AmpTuner.Proofs.Page.Operations
import AmpTuner.Proofs.Page.Preorder
import AmpTuner.Proofs.Page.Readable
import AmpTuner.Proofs.Page.Rearranging
import AmpTuner.Proofs.Page.Reloading
import AmpTuner.Proofs.Page.Rereading
import AmpTuner.Proofs.Page.Stylesheet
import AmpTuner.Proofs.Page.Tidy
import AmpTuner.Proofs.Page.Upkeep
import AmpTuner.Proofs.Page.Views
import AmpTuner.Proofs.Page.WellFormed
import AmpTuner.Proofs.Pass.Budget
import AmpTuner.Proofs.Pass.Decided
import AmpTuner.Proofs.Pass.Evolving
import AmpTuner.Proofs.Pass.HeadOrder
import AmpTuner.Proofs.Pass.Keeping
import AmpTuner.Proofs.Pass.Pairing
import AmpTuner.Proofs.Pass.Relocating
import AmpTuner.Proofs.Pass.Rerun
import AmpTuner.Proofs.Pass.Resembling
import AmpTuner.Proofs.Pass.SelfHosting
import AmpTuner.Proofs.Pass.Settled
import AmpTuner.Proofs.Pass.Settling
import AmpTuner.Proofs.Pass.Sparing
import AmpTuner.Proofs.Pass.Watching
import AmpTuner.Proofs.Pass.WellFormed
import AmpTuner.Proofs.Rendering.Boilerplate
import AmpTuner.Proofs.Rendering.Content
import AmpTuner.Proofs.Rendering.Conversion
import AmpTuner.Proofs.Rendering.Decision
import AmpTuner.Proofs.Rendering.Edits
import AmpTuner.Proofs.Rendering.Evolving
import AmpTuner.Proofs.Rendering.Failures
import AmpTuner.Proofs.Rendering.Layout
import AmpTuner.Proofs.Rendering.Outcomes
import AmpTuner.Proofs.Rendering.Preserving
import AmpTuner.Proofs.Rendering.Rereading
import AmpTuner.Proofs.Rendering.StyleText
import AmpTuner.Proofs.Rendering.Stylesheet
import AmpTuner.Proofs.Rendering.Table
import AmpTuner.Proofs.Rendering.Tracking
import AmpTuner.Proofs.Rendering.Turns
import AmpTuner.Proofs.Text.Collapse
import AmpTuner.Proofs.Text.Occurrences
import AmpTuner.Proofs.Text.Parts
import AmpTuner.Proofs.Text.Slices
import AmpTuner.Proofs.Urls.Documents
import AmpTuner.Proofs.Urls.Rerun
import AmpTuner.Proofs.Urls.Rewriting
import AmpTuner.Proofs.Viewport.Declarations
import AmpTuner.Proofs.Viewport.Merging
