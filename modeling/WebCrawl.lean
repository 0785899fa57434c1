import WebCrawl.Crawl.Activity
import WebCrawl.Crawl.Context
import WebCrawl.Crawl.Error
import WebCrawl.Crawl.Item
import WebCrawl.Crawl.Message
import WebCrawl.Crawl.Queue
import WebCrawl.Crawl.Request
import WebCrawl.Crawl.Response
import WebCrawl.Crawl.Settings
import WebCrawl.Crawl.Stats
import WebCrawl.Crawl.Wire
import WebCrawl.Css.Expression
import WebCrawl.Css.Lexeme
import WebCrawl.Css.Reading
import WebCrawl.Css.Selector
import WebCrawl.Double.Basic
import WebCrawl.Double.Decimal
import WebCrawl.Duration
import WebCrawl.Engine.Basic
import WebCrawl.Engine.Closing
import WebCrawl.Engine.Exchange
import WebCrawl.Engine.Processing
import WebCrawl.Engine.Schedule
import WebCrawl.Engine.Step
import WebCrawl.Html.Arena
import WebCrawl.Html.Construction
import WebCrawl.Html.Location
import WebCrawl.Html.Rendering
import WebCrawl.Html.Token
import WebCrawl.Html.Tree
import WebCrawl.Http.Fields
import WebCrawl.Http.Headers
import WebCrawl.Http.Status
import WebCrawl.Json.Basic
import WebCrawl.Json.Reading
import WebCrawl.Proofs.Crawl.Cookies
import WebCrawl.Proofs.Crawl.Headers
import WebCrawl.Proofs.Crawl.Idleness
import WebCrawl.Proofs.Crawl.Queries
import WebCrawl.Proofs.Css.Arguments
import WebCrawl.Proofs.Css.Attributes
import WebCrawl.Proofs.Css.Breaks
import WebCrawl.Proofs.Css.Compounds
import WebCrawl.Proofs.Css.Confinement
import WebCrawl.Proofs.Css.Documents
import WebCrawl.Proofs.Css.Extension
import WebCrawl.Proofs.Css.Grammar
import WebCrawl.Proofs.Css.Indices
import WebCrawl.Proofs.Css.Joining
import WebCrawl.Proofs.Css.Matching
import WebCrawl.Proofs.Css.Meaning
import WebCrawl.Proofs.Css.Names
import WebCrawl.Proofs.Css.Numerals
import WebCrawl.Proofs.Css.Offsets
import WebCrawl.Proofs.Css.Operators
import WebCrawl.Proofs.Css.Patterns
import WebCrawl.Proofs.Css.Picking
import WebCrawl.Proofs.Css.Positions
import WebCrawl.Proofs.Css.Quoting
import WebCrawl.Proofs.Css.Selection
import WebCrawl.Proofs.Css.Spelling
import WebCrawl.Proofs.Css.Translation
import WebCrawl.Proofs.Css.WellFormed
import WebCrawl.Proofs.Css.Words
import WebCrawl.Proofs.Double.Integers
import WebCrawl.Proofs.Engine.Accounts
import WebCrawl.Proofs.Engine.Admission
import WebCrawl.Proofs.Engine.Aftermath
import WebCrawl.Proofs.Engine.Ancestry
import WebCrawl.Proofs.Engine.Books
import WebCrawl.Proofs.Engine.Calls
import WebCrawl.Proofs.Engine.Closed
import WebCrawl.Proofs.Engine.Counting
import WebCrawl.Proofs.Engine.Deeds
import WebCrawl.Proofs.Engine.Depth
import WebCrawl.Proofs.Engine.Exchanges
import WebCrawl.Proofs.Engine.Idle
import WebCrawl.Proofs.Engine.Lineage
import WebCrawl.Proofs.Engine.Moves
import WebCrawl.Proofs.Engine.Order
import WebCrawl.Proofs.Engine.Passages
import WebCrawl.Proofs.Engine.Pipelines
import WebCrawl.Proofs.Engine.Redirects
import WebCrawl.Proofs.Engine.Sequence
import WebCrawl.Proofs.Engine.Shutdown
import WebCrawl.Proofs.Engine.Solitary
import WebCrawl.Proofs.Engine.Stories
import WebCrawl.Proofs.Engine.Succession
import WebCrawl.Proofs.Engine.Supervision
import WebCrawl.Proofs.Engine.Tours
import WebCrawl.Proofs.Engine.Trails
import WebCrawl.Proofs.Engine.Updates
import WebCrawl.Proofs.Html.Arena
import WebCrawl.Proofs.Html.Drafts
import WebCrawl.Proofs.Html.Flattening
import WebCrawl.Proofs.Html.Legibility
import WebCrawl.Proofs.Html.Location
import WebCrawl.Proofs.Html.OrderedTree
import WebCrawl.Proofs.Html.Scanning
import WebCrawl.Proofs.Html.Traversal
import WebCrawl.Proofs.Http.Fields
import WebCrawl.Proofs.Query.Attributes
import WebCrawl.Proofs.Query.Cache
import WebCrawl.Proofs.Query.Calls
import WebCrawl.Proofs.Query.Offsets
import WebCrawl.Proofs.Query.Recency
import WebCrawl.Proofs.Reader
import WebCrawl.Proofs.Text.Boundaries
import WebCrawl.Proofs.Text.Searching
import WebCrawl.Proofs.Text.Utf8
import WebCrawl.Proofs.Text.Words
import WebCrawl.Proofs.Url.Forms
import WebCrawl.Proofs.XPath.AttributeNames
import WebCrawl.Proofs.XPath.Axes
import WebCrawl.Proofs.XPath.Blanks
import WebCrawl.Proofs.XPath.Checked
import WebCrawl.Proofs.XPath.Comparison
import WebCrawl.Proofs.XPath.Completeness
import WebCrawl.Proofs.XPath.Grammar
import WebCrawl.Proofs.XPath.Lexing
import WebCrawl.Proofs.XPath.Mentions
import WebCrawl.Proofs.XPath.NodeSets
import WebCrawl.Proofs.XPath.Occurrences
import WebCrawl.Proofs.XPath.Offsets
import WebCrawl.Proofs.XPath.Soundness
import WebCrawl.Proofs.XPath.Writing
import WebCrawl.Query.Cache
import WebCrawl.Query.Compiled
import WebCrawl.Query.Document
import WebCrawl.Query.Error
import WebCrawl.Reader
import WebCrawl.Text.Basic
import WebCrawl.Text.Blank
import WebCrawl.Text.Quoted
import WebCrawl.Text.Utf8
import WebCrawl.Text.Word
import WebCrawl.Url.Basic
import WebCrawl.Url.Host
import WebCrawl.Url.Percent
import WebCrawl.XPath.Axes
import WebCrawl.XPath.Evaluation
import WebCrawl.XPath.Expr
import WebCrawl.XPath.Reading
import WebCrawl.XPath.Token
import WebCrawl.XPath.Value
