import Bitpress.Binary64
import Bitpress.Bit
import Bitpress.Collection
import Bitpress.CommandLine.Form
import Bitpress.CommandLine.Reader
import Bitpress.Compiler
import Bitpress.Compose
import Bitpress.Config
import Bitpress.Constant
import Bitpress.Context
import Bitpress.Declaration.Basic
import Bitpress.Declaration.Codec
import Bitpress.Declaration.Query
import Bitpress.Decode
import Bitpress.Document
import Bitpress.Document.Markdown
import Bitpress.Element
import Bitpress.ElementId
import Bitpress.Error
import Bitpress.Files
import Bitpress.Inheritance
import Bitpress.Ini
import Bitpress.Json.Reader
import Bitpress.Json.Token
import Bitpress.Json.Writer
import Bitpress.Legacy
import Bitpress.Library
import Bitpress.Load
import Bitpress.Location
import Bitpress.Main
import Bitpress.Markdown.Entity
import Bitpress.Markdown.Outline
import Bitpress.Number
import Bitpress.Number.Shortest
import Bitpress.Override
import Bitpress.Override.Path
import Bitpress.Pattern.Basic
import Bitpress.Pattern.CharSet
import Bitpress.Pattern.Parser
import Bitpress.Preset
import Bitpress.Query
import Bitpress.Random
import Bitpress.Rendition
import Bitpress.Report
import Bitpress.Request
import Bitpress.Resolution
import Bitpress.Session
import Bitpress.Shell.Arithmetic
import Bitpress.Shell.Command
import Bitpress.Shell.Condition
import Bitpress.Shell.Desk
import Bitpress.Shell.Expansion
import Bitpress.Shell.FileTool
import Bitpress.Shell.Format
import Bitpress.Shell.Glob
import Bitpress.Shell.Job
import Bitpress.Shell.Run
import Bitpress.Shell.TextTool
import Bitpress.Shell.Token
import Bitpress.Store
import Bitpress.Table
import Bitpress.Target
import Bitpress.Template.Argument
import Bitpress.Template.Arithmetic
import Bitpress.Template.Display
import Bitpress.Template.Fault
import Bitpress.Template.Filter
import Bitpress.Template.Free
import Bitpress.Template.Function
import Bitpress.Template.Machine
import Bitpress.Template.Parser
import Bitpress.Template.Render
import Bitpress.Template.Statement
import Bitpress.Template.Test
import Bitpress.Template.Token
import Bitpress.Template.Value
import Bitpress.Text.Basic
import Bitpress.Text.CaseMap
import Bitpress.Text.Category
import Bitpress.Text.Cut
import Bitpress.Text.Property
import Bitpress.Text.Quoted
import Bitpress.Text.SipHash
import Bitpress.Text.Utf8
import Bitpress.Toml.Reader
import Bitpress.Toml.Scalar
import Bitpress.Tree
import Bitpress.Tree.Interpolate
import Bitpress.Tree.Merge
import Bitpress.WatchSet
import Bitpress.Yaml.Cursor
import Bitpress.Yaml.Node
import Bitpress.Yaml.Scalar
import Bitpress.Yaml.Text
import Bitpress.Yaml.Token
import Bitpress.Yaml.Writer
import Bitpress.Proofs.Inheritance.Catalogue
import Bitpress.Proofs.Inheritance.Memo
import Bitpress.Proofs.Inheritance.Cycle
import Bitpress.Proofs.Resolution
import Bitpress.Proofs.Inheritance.Source
import Bitpress.Proofs.Load.Build
import Bitpress.Proofs.Load.Fate
import Bitpress.Proofs.Load.AllOrNothing
import Bitpress.Proofs.Collection
import Bitpress.Proofs.Selection
import Bitpress.Proofs.Compose
import Bitpress.Proofs.Compose.Interleave
import Bitpress.Proofs.Compose.Pipeline
import Bitpress.Proofs.Compose.Sources
import Bitpress.Proofs.Telling
import Bitpress.Proofs.Fingerprint
import Bitpress.Proofs.Wording
import Bitpress.Proofs.History.Session
import Bitpress.Proofs.History.Store
import Bitpress.Proofs.History.Resolution
import Bitpress.Proofs.Inheritance.Likeness
import Bitpress.Proofs.History.Build
import Bitpress.Proofs.History.Load
import Bitpress.Proofs.History.Requests
import Bitpress.Proofs.Files
import Bitpress.Proofs.Course
import Bitpress.Proofs.Preset.Query
import Bitpress.Proofs.Preset.Walk
import Bitpress.Proofs.Preset.Resolve
import Bitpress.Proofs.Preset.Cycle
import Bitpress.Proofs.Import.Requests
import Bitpress.Proofs.Absorb
import Bitpress.Proofs.Import.Elements
import Bitpress.Proofs.Import.Course
import Bitpress.Proofs.Import.Setting
import Bitpress.Proofs.Import.Build
import Bitpress.Proofs.Import.Load
import Bitpress.Proofs.Import.Get
import Bitpress.Proofs.Watch.Reach
import Bitpress.Proofs.Watch.Load
import Bitpress.Proofs.Load.Coherence
import Bitpress.Proofs.Memo.Requests
import Bitpress.Proofs.Preset.Plain
import Bitpress.Proofs.Spellings
import Bitpress.Proofs.Markdown.Sections
import Bitpress.Proofs.Markdown.Fragments
import Bitpress.Proofs.Config.Settings
import Bitpress.Proofs.Convert
import Bitpress.Proofs.Destination
import Bitpress.Proofs.Layering
import Bitpress.Proofs.Merge
import Bitpress.Proofs.Merge.Laws
import Bitpress.Proofs.Override
import Bitpress.Proofs.Override.Effect
import Bitpress.Proofs.Override.Grammar
import Bitpress.Proofs.Override.Place
import Bitpress.Proofs.Inheritance.Bare
import Bitpress.Proofs.Inheritance.Placement
import Bitpress.Proofs.Record
import Bitpress.Proofs.Declaration.Codec
import Bitpress.Proofs.Declaration.Document
import Bitpress.Proofs.Compiler.Files
import Bitpress.Proofs.Compiler.Call
import Bitpress.Proofs.Compiler.Fresh
import Bitpress.Proofs.Compiler.Log
import Bitpress.Proofs.Interpolation
import Bitpress.Proofs.Bit
import Bitpress.Proofs.Collection.Clause
import Bitpress.Proofs.Collection.Distinct
import Bitpress.Proofs.Hints
import Bitpress.Proofs.Pattern.Behind
import Bitpress.Proofs.Pattern.Bracket
import Bitpress.Proofs.Pattern.Anchor

