import ScriptTidy.Command.Arguments
import ScriptTidy.Command.Basic
import ScriptTidy.Command.Usage
import ScriptTidy.Config.Basic
import ScriptTidy.Config.File
import ScriptTidy.EditScript.Basic
import ScriptTidy.EditScript.Bisect
import ScriptTidy.EditScript.Compute
import ScriptTidy.EditScript.LineDiff
import ScriptTidy.EditScript.Merge
import ScriptTidy.Environment
import ScriptTidy.Failure
import ScriptTidy.FileStore
import ScriptTidy.Http.Fallback
import ScriptTidy.Http.Health
import ScriptTidy.Http.Layer
import ScriptTidy.Http.Message
import ScriptTidy.Http.Query
import ScriptTidy.Http.Reply
import ScriptTidy.Json.Basic
import ScriptTidy.Json.Read
import ScriptTidy.Layout.Basic
import ScriptTidy.Layout.Emission
import ScriptTidy.Layout.Format
import ScriptTidy.Layout.Frame
import ScriptTidy.Layout.Options
import ScriptTidy.Layout.Rules
import ScriptTidy.Layout.TokenText
import ScriptTidy.LineMap
import ScriptTidy.Log.Structured
import ScriptTidy.Log.Timing
import ScriptTidy.Main
import ScriptTidy.Markup.CharRef
import ScriptTidy.Markup.InlineScript
import ScriptTidy.Markup.RawText
import ScriptTidy.Markup.Token
import ScriptTidy.Metric
import ScriptTidy.Scanner.Basic
import ScriptTidy.Scanner.Context
import ScriptTidy.Scanner.Cursor
import ScriptTidy.Scanner.Escape
import ScriptTidy.Scanner.LexError
import ScriptTidy.Scanner.Lexeme
import ScriptTidy.Scanner.Trivia
import ScriptTidy.Service.Basic
import ScriptTidy.Service.Cache
import ScriptTidy.Service.Order
import ScriptTidy.SourceMap.Basic
import ScriptTidy.SourceMap.Encode
import ScriptTidy.SourceMap.Lookup
import ScriptTidy.SourceMap.Vlq
import ScriptTidy.Status.Breakdown
import ScriptTidy.Status.Reservoir
import ScriptTidy.Status.Section
import ScriptTidy.Status.Summary
import ScriptTidy.Status.Traffic
import ScriptTidy.Task.Basic
import ScriptTidy.Task.Session
import ScriptTidy.Text.Base64
import ScriptTidy.Text.Bytes
import ScriptTidy.Text.CodePointSet
import ScriptTidy.Text.Columns
import ScriptTidy.Text.Decimal
import ScriptTidy.Text.Digit
import ScriptTidy.Text.Dyadic
import ScriptTidy.Text.Identifier
import ScriptTidy.Text.Integer
import ScriptTidy.Text.IpAddress
import ScriptTidy.Text.LowerCase
import ScriptTidy.Text.Measure
import ScriptTidy.Text.Path
import ScriptTidy.Text.Pattern
import ScriptTidy.Text.Printable
import ScriptTidy.Text.Quoted
import ScriptTidy.Text.Space
import ScriptTidy.Text.Url
import ScriptTidy.Text.Utf8
import ScriptTidy.Text.Verb
import ScriptTidy.Token.Basic
import ScriptTidy.Token.Dump
import ScriptTidy.Token.Keyword
import ScriptTidy.Token.Kind
import ScriptTidy.Token.Punctuator
import ScriptTidy.Tools
import ScriptTidy.Yaml.Cursor
import ScriptTidy.Yaml.Encoding
import ScriptTidy.Yaml.Node
import ScriptTidy.Yaml.Property
import ScriptTidy.Yaml.Scalar
import ScriptTidy.Yaml.ScalarText
import ScriptTidy.Yaml.Timestamp
import ScriptTidy.Yaml.Token
import ScriptTidy.Yaml.TokenQueue
import ScriptTidy.Proofs.Scanner.Equations
import ScriptTidy.Proofs.Scanner.Reach
import ScriptTidy.Proofs.Scanner.Positions
import ScriptTidy.Proofs.Layout.Gap
import ScriptTidy.Proofs.Layout.LineBreaks
import ScriptTidy.Proofs.Scanner.Lockstep
import ScriptTidy.Proofs.Scanner.Lexeme
import ScriptTidy.Proofs.Scanner.Lexed
import ScriptTidy.Proofs.Scanner.Spelling
import ScriptTidy.Proofs.Scanner.StringLiteral
import ScriptTidy.Proofs.Scanner.Spells
import ScriptTidy.Proofs.Scanner.SingleToken
import ScriptTidy.Proofs.Scanner.Relocation
import ScriptTidy.Proofs.Layout.Reindent
import ScriptTidy.Proofs.Layout.Separation
import ScriptTidy.Proofs.Layout.Fidelity
import ScriptTidy.Proofs.Layout.Places
import ScriptTidy.Proofs.Layout.Mappings
import ScriptTidy.Proofs.SourceMap.Vlq
import ScriptTidy.Proofs.SourceMap.Reader
import ScriptTidy.Proofs.SourceMap.RoundTrip
import ScriptTidy.Proofs.SourceMap.Tables
import ScriptTidy.Proofs.Markup.Segments
import ScriptTidy.Proofs.Markup.Runs
import ScriptTidy.Proofs.Markup.ScriptPlaces
import ScriptTidy.Proofs.Scanner.Verbatim
import ScriptTidy.Proofs.Markup.ScriptEnd
import ScriptTidy.Proofs.Layout.Rescan
import ScriptTidy.Proofs.Layout.Settled
import ScriptTidy.Proofs.Scanner.Nesting
import ScriptTidy.Proofs.Scanner.Cover
import ScriptTidy.Proofs.Scanner.Progress
import ScriptTidy.Proofs.Layout.Idempotence
import ScriptTidy.Proofs.Layout.GeneratedPlaces
import ScriptTidy.Proofs.Layout.Indentation
import ScriptTidy.Proofs.Layout.Neighbours
import ScriptTidy.Proofs.Layout.PropertyNames
import ScriptTidy.Proofs.Layout.RestrictedProductions
import ScriptTidy.Proofs.Layout.TemplateText
import ScriptTidy.Proofs.SourceMap.Words
import ScriptTidy.Proofs.SourceMap.Digits
import ScriptTidy.Proofs.Layout.Offsets
import ScriptTidy.Proofs.Text.Integer
import ScriptTidy.Proofs.Json.RoundTrip
import ScriptTidy.Proofs.Service.Order
import ScriptTidy.Proofs.Service.Cache
import ScriptTidy.Proofs.Service.Caching
import ScriptTidy.Proofs.Scanner.PropertyNames
import ScriptTidy.Proofs.LineMap.Lines
import ScriptTidy.Proofs.LineMap.Columns
import ScriptTidy.Proofs.LineMap.Extension
import ScriptTidy.Proofs.Scanner.ErrorPlaces
import ScriptTidy.Proofs.Markup.ScriptTexts
import ScriptTidy.Proofs.Markup.Copying
import ScriptTidy.Proofs.Markup.ScriptErrors
import ScriptTidy.Proofs.Token.LongestPunctuator
import ScriptTidy.Proofs.Scanner.LongestMatch
import ScriptTidy.Proofs.EditScript.LineDiff
import ScriptTidy.Proofs.Markup.MappingOrder
import ScriptTidy.Proofs.Layout.MissingEnd
import ScriptTidy.Proofs.Task.Attempt
import ScriptTidy.Proofs.Task.Failures
import ScriptTidy.Proofs.Task.Independence
import ScriptTidy.Proofs.Status.Breakdown
import ScriptTidy.Proofs.Status.Traffic
import ScriptTidy.Proofs.Status.Reservoir
