import PrinterDriver.Lib.Programs
import PrinterDriver.Lib.Threads
import PrinterDriver.Lib.Simulations
import PrinterDriver.Lib.Recording
import PrinterDriver.Lib.Runs
import PrinterDriver.Lib.Scanning
import PrinterDriver.Lib.Mapping
import PrinterDriver.Lib.Searching
import PrinterDriver.Lib.Interpreting
import PrinterDriver.Lib.Frames
import PrinterDriver.Lib.Delimited
import PrinterDriver.Lib.Keyed
import PrinterDriver.Core.Types
import PrinterDriver.Core.Profile
import PrinterDriver.Core.EscposParser
import PrinterDriver.Core.Star
import PrinterDriver.Core.StarStrays
import PrinterDriver.Core.StarStreams
import PrinterDriver.Core.Encoder
import PrinterDriver.Core.CodePage
import PrinterDriver.Core.Raster
import PrinterDriver.Core.Transcode
import PrinterDriver.Core.CashDrawer
import PrinterDriver.Core.Journal
import PrinterDriver.Core.Store
import PrinterDriver.Core.StoreRuns
import PrinterDriver.Core.FailedAppends
import PrinterDriver.Core.Crashes
import PrinterDriver.Core.Probe
import PrinterDriver.Core.ProbeRuns
import PrinterDriver.Core.StoredFindings
import PrinterDriver.Core.FindingHistories
import PrinterDriver.Core.Paper
import PrinterDriver.Core.AutoDetect
import PrinterDriver.Engine.Events
import PrinterDriver.Engine.Io
import PrinterDriver.Engine.Ops
import PrinterDriver.Engine.Preflight
import PrinterDriver.Engine.Drawer
import PrinterDriver.Engine.RunJob
import PrinterDriver.Engine.Accounting
import PrinterDriver.Engine.Lifecycle
import PrinterDriver.Engine.Testimonies
import PrinterDriver.Engine.Verdicts
import PrinterDriver.Engine.JournalFailures
import PrinterDriver.Engine.Shutdown
import PrinterDriver.Engine.Session
import PrinterDriver.Engine.QuietCalls
import PrinterDriver.Engine.Stages
import PrinterDriver.Engine.LanguageGate
import PrinterDriver.Engine.Leasing
import PrinterDriver.Engine.StarRuns
import PrinterDriver.Engine.StarEtx
import PrinterDriver.Engine.StarEtb
import PrinterDriver.Engine.EscposRuns
import PrinterDriver.Engine.Printer
import PrinterDriver.Engine.GsR1
import PrinterDriver.Engine.Realtime
import PrinterDriver.Engine.Markers
import PrinterDriver.Engine.Requests
import PrinterDriver.Engine.Driver
import PrinterDriver.Engine.DriverRuns
import PrinterDriver.Engine.Fleet
import PrinterDriver.Engine.GsParenH
import PrinterDriver.Agent.Http
import PrinterDriver.Agent.HttpServer
import PrinterDriver.Agent.CloudPrnt
import PrinterDriver.Agent.CloudPrntRuns
import PrinterDriver.Agent.Retention
import PrinterDriver.Agent.Delivery
import PrinterDriver.Agent.Isolation
import PrinterDriver.Agent.Ownership
import PrinterDriver.Agent.Evidence
import PrinterDriver.Agent.Attestation
import PrinterDriver.Queue.PrintQueue
import PrinterDriver.Queue.Lanes
import PrinterDriver.Queue.QueueRuns
import PrinterDriver.Queue.Ledger
import PrinterDriver.Queue.FailedRecords
import PrinterDriver.Queue.Handover
import PrinterDriver.Queue.Order
import PrinterDriver.Queue.QueueThread
import PrinterDriver.Queue.Links
import PrinterDriver.Queue.Submissions
import PrinterDriver.Dsl.Render
import PrinterDriver.Dsl.Pulses
import PrinterDriver.Dsl.StarPulses
import PrinterDriver.Engine.DrawerSafety
import PrinterDriver.Engine.Keys
import PrinterDriver.Engine.Retries
import PrinterDriver.Engine.Bookkeeping
import PrinterDriver.Engine.Publications
import PrinterDriver.Engine.Cooldown
import PrinterDriver.Engine.CrashSafety
import PrinterDriver.Engine.Histories
import PrinterDriver.Engine.Duplicates
import PrinterDriver.Agent.Jobs
import PrinterDriver.Epos.Xml
import PrinterDriver.Epos.Replies
import PrinterDriver.Epos.Client
import PrinterDriver.Epos.Printing
import PrinterDriver.Epos.Honesty
import PrinterDriver.Lib.Templates
import PrinterDriver.Dsl.Values
import PrinterDriver.Dsl.Documents
import PrinterDriver.Dsl.Bind
import PrinterDriver.Dsl.Expansion
import PrinterDriver.Core.Commands
import PrinterDriver.Core.EncoderOps
import PrinterDriver.Core.StarOps
import PrinterDriver.Core.StyleElision
import PrinterDriver.Dsl.Strokes
import PrinterDriver.Core.Responses
import PrinterDriver.Core.RasterBands
import PrinterDriver.Agent.Faults
import PrinterDriver.Core.Dithering
import PrinterDriver.Dsl.Columns
import PrinterDriver.Dsl.Text
import PrinterDriver.Dsl.Wrapping
import PrinterDriver.Lib.Inheritance
import PrinterDriver.Dsl.Styles
import PrinterDriver.Dsl.Rows
import PrinterDriver.Dsl.Cells
import PrinterDriver.Dsl.TextBlocks
import PrinterDriver.Dsl.PrintedWidths
import PrinterDriver.Dsl.BlockWidths
import PrinterDriver.Dsl.JsonGrammar
import PrinterDriver.Dsl.JsonParser
import PrinterDriver.Dsl.JsonTexts
import PrinterDriver.Dsl.JsonRoundTrips
import PrinterDriver.Lib.Calendar
import PrinterDriver.Lib.Utf8
import PrinterDriver.Dsl.Barcodes
import PrinterDriver.Dsl.Dates
import PrinterDriver.Dsl.Characters
import PrinterDriver.Engine.MarkerHistories
import PrinterDriver.Engine.StarFences
import PrinterDriver.Lib.XmlDocuments
import PrinterDriver.Epos.Envelopes
import PrinterDriver.Agent.Receipts
import PrinterDriver.Lib.Pools
import PrinterDriver.Core.Subnets
import PrinterDriver.Core.Discovery
import PrinterDriver.Lib.Reading
import PrinterDriver.Dsl.Base64
import PrinterDriver.Dsl.DocumentReader
import PrinterDriver.Dsl.DocumentWriter
import PrinterDriver.Dsl.LeafRoundTrips
import PrinterDriver.Dsl.DocumentRoundTrips
import PrinterDriver.Core.CustomLinks
