import ExportKit.CommandLine.Arguments
import ExportKit.CommandLine.Log
import ExportKit.CommandLine.MailTool
import ExportKit.CommandLine.Outcome
import ExportKit.CommandLine.Parameter
import ExportKit.CommandLine.TableTool
import ExportKit.Decimal.Shortest
import ExportKit.FileSystem.Access
import ExportKit.FileSystem.Basic
import ExportKit.FileSystem.Devices
import ExportKit.FileSystem.Walk
import ExportKit.Json.Basic
import ExportKit.Json.Double
import ExportKit.Json.Numeral
import ExportKit.Json.Printer
import ExportKit.Json.Reader
import ExportKit.Json.Source
import ExportKit.Mail.Address
import ExportKit.Mail.Envelope
import ExportKit.Mail.Filename
import ExportKit.Mail.Header
import ExportKit.Mail.Message
import ExportKit.Mail.Notification
import ExportKit.Main
import ExportKit.Parquet.Annotation
import ExportKit.Parquet.Footer
import ExportKit.Parquet.SchemaTree
import ExportKit.Parquet.Thrift
import ExportKit.Path
import ExportKit.Proofs.CommandLine.MailTool
import ExportKit.Proofs.CommandLine.TableTool
import ExportKit.Proofs.Documents
import ExportKit.Proofs.FileSystem.Agreement
import ExportKit.Proofs.FileSystem.Changes
import ExportKit.Proofs.FileSystem.Effects
import ExportKit.Proofs.FileSystem.LinkFree
import ExportKit.Proofs.FileSystem.Listing
import ExportKit.Proofs.FileSystem.Reach
import ExportKit.Proofs.FileSystem.ReadBack
import ExportKit.Proofs.FileSystem.Tree
import ExportKit.Proofs.FileSystem.Walk
import ExportKit.Proofs.Json.Free
import ExportKit.Proofs.Json.Reading
import ExportKit.Proofs.Json.Scanning
import ExportKit.Proofs.Mail.Address
import ExportKit.Proofs.Mail.AddressLists
import ExportKit.Proofs.Mail.Attachment
import ExportKit.Proofs.Mail.Decoding
import ExportKit.Proofs.Mail.Delivery
import ExportKit.Proofs.Mail.EncodedWords
import ExportKit.Proofs.Mail.Filename
import ExportKit.Proofs.Mail.Folding
import ExportKit.Proofs.Mail.Lookalikes
import ExportKit.Proofs.Mail.Multipart
import ExportKit.Proofs.Mail.Reading
import ExportKit.Proofs.Mail.Recipients
import ExportKit.Proofs.Mail.Rendering
import ExportKit.Proofs.Normalization
import ExportKit.Proofs.Path
import ExportKit.Proofs.SortedMap
import ExportKit.Proofs.Table.Documents
import ExportKit.Proofs.Table.FileNames
import ExportKit.Proofs.Table.Partition
import ExportKit.Proofs.Table.Totals
import ExportKit.Proofs.Text.Base64
import ExportKit.Proofs.Text.Base64Lines
import ExportKit.Proofs.Text.Blank
import ExportKit.Proofs.Text.Digits
import ExportKit.Proofs.Text.Lines
import ExportKit.Proofs.Text.Utf8
import ExportKit.Proofs.Text.Uuid
import ExportKit.Proofs.Warehouse.Completeness
import ExportKit.Proofs.Warehouse.Discovery
import ExportKit.Proofs.Warehouse.Entries
import ExportKit.Proofs.Warehouse.Findings
import ExportKit.Proofs.Warehouse.Frame
import ExportKit.Proofs.Warehouse.Generation
import ExportKit.Proofs.Warehouse.History
import ExportKit.Proofs.Warehouse.Independence
import ExportKit.Proofs.Warehouse.Inspection
import ExportKit.Proofs.Warehouse.Interruption
import ExportKit.Proofs.Warehouse.Location
import ExportKit.Proofs.Warehouse.Partitions
import ExportKit.Proofs.Warehouse.Readable
import ExportKit.Proofs.Warehouse.Report
import ExportKit.Proofs.Warehouse.Rerun
import ExportKit.Proofs.Warehouse.Scan
import ExportKit.Proofs.Warehouse.Slots
import ExportKit.Proofs.Warehouse.Stopping
import ExportKit.Proofs.Warehouse.Totals
import ExportKit.Proofs.Warehouse.Unreadable
import ExportKit.Proofs.Warehouse.Writing
import ExportKit.SortedMap
import ExportKit.Table.DataFile
import ExportKit.Table.Documents
import ExportKit.Table.Inspection
import ExportKit.Table.Manifest
import ExportKit.Table.ManifestJson
import ExportKit.Table.Metadata
import ExportKit.Table.MetadataJson
import ExportKit.Table.Partition
import ExportKit.Table.Schema
import ExportKit.Table.Stamp
import ExportKit.Text.Base64
import ExportKit.Text.Blank
import ExportKit.Text.Digits
import ExportKit.Text.Instant
import ExportKit.Text.Terminal
import ExportKit.Text.Utf8
import ExportKit.Text.Uuid
import ExportKit.Warehouse.Failure
import ExportKit.Warehouse.Generation
import ExportKit.Warehouse.Report
import ExportKit.Warehouse.Scan
import ExportKit.Warehouse.Writing
