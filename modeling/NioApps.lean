import NioApps.Lib.Abort
import NioApps.Lib.Bytes
import NioApps.Lib.Chunks
import NioApps.Lib.Exec
import NioApps.Lib.Image
import NioApps.Lib.Link
import NioApps.Lib.Numeral
import NioApps.Lib.OnesComplement
import NioApps.Lib.Paths
import NioApps.Lib.Pipe
import NioApps.Lib.Transaction
import NioApps.Lib.Upload
import NioApps.Proofs.Bounded
import NioApps.Proofs.BoundedTraffic
import NioApps.Proofs.Budget
import NioApps.Proofs.ChannelCalls
import NioApps.Proofs.ChannelsRefined
import NioApps.Proofs.CheckedRounds
import NioApps.Proofs.Checksum
import NioApps.Proofs.Containment
import NioApps.Proofs.Correlation
import NioApps.Proofs.CurrentHost
import NioApps.Proofs.Deliveries
import NioApps.Proofs.Diagnostics
import NioApps.Proofs.DiskErrors
import NioApps.Proofs.DriveLetters
import NioApps.Proofs.DriveList
import NioApps.Proofs.EndOfFile
import NioApps.Proofs.EntryAreas
import NioApps.Proofs.FappRefines
import NioApps.Proofs.FhostRefines
import NioApps.Proofs.FlsLists
import NioApps.Proofs.Handles
import NioApps.Proofs.HistoryIndex
import NioApps.Proofs.HostCalls
import NioApps.Proofs.ImageEntries
import NioApps.Proofs.InhibitDiscipline
import NioApps.Proofs.Listing
import NioApps.Proofs.ListingSafety
import NioApps.Proofs.LockStep
import NioApps.Proofs.LogicalDrives
import NioApps.Proofs.ManifestNames
import NioApps.Proofs.NetworkSessions
import NioApps.Proofs.NumericArguments
import NioApps.Proofs.OpenName
import NioApps.Proofs.OwnerTable
import NioApps.Proofs.PlacementTest
import NioApps.Proofs.Publication
import NioApps.Proofs.PutGet
import NioApps.Proofs.ReadStream
import NioApps.Proofs.Relocation
import NioApps.Proofs.Repeat
import NioApps.Proofs.RequestBody
import NioApps.Proofs.RequestFields
import NioApps.Proofs.ResolvedPath
import NioApps.Proofs.Restored
import NioApps.Proofs.Returning
import NioApps.Proofs.RoundProgress
import NioApps.Proofs.SavedState
import NioApps.Proofs.Selected
import NioApps.Proofs.ShellCalls
import NioApps.Proofs.SingleHandler
import NioApps.Proofs.SizeText
import NioApps.Proofs.SlotArgument
import NioApps.Proofs.Sources
import NioApps.Proofs.StaleBytes
import NioApps.Proofs.StoreCalls
import NioApps.Proofs.UnitMap
import NioApps.Sanity.Borrowing
import NioApps.Sanity.Bounds
import NioApps.Sanity.Calls
import NioApps.Sanity.Decoding
import NioApps.Sanity.Digits
import NioApps.Sanity.Feed
import NioApps.Sanity.Header
import NioApps.Sanity.ImageTree
import NioApps.Sanity.Installing
import NioApps.Sanity.Loading
import NioApps.Sanity.Ordered
import NioApps.Sanity.Owners
import NioApps.Sanity.Packets
import NioApps.Sanity.Pages
import NioApps.Sanity.Placement
import NioApps.Sanity.Prompt
import NioApps.Sanity.Publishing
import NioApps.Sanity.Reading
import NioApps.Sanity.Requests
import NioApps.Sanity.Rounds
import NioApps.Sanity.Scanning
import NioApps.Sanity.Segments
import NioApps.Sanity.Serving
import NioApps.Sanity.Sessions
import NioApps.Sanity.Supply
import NioApps.Sanity.Traffic
import NioApps.Sanity.Twins
import NioApps.Sanity.Wire
import NioApps.Sanity.Writing
import NioApps.Spec.AppStore
import NioApps.Spec.Arguments
import NioApps.Spec.Browse
import NioApps.Spec.Commands
import NioApps.Spec.Console
import NioApps.Spec.Diagnostics
import NioApps.Spec.Directory
import NioApps.Spec.DiskImage
import NioApps.Spec.Drive
import NioApps.Spec.Encoding
import NioApps.Spec.Endpoints
import NioApps.Spec.HostState
import NioApps.Spec.HostView
import NioApps.Spec.Install
import NioApps.Spec.KeyValue
import NioApps.Spec.Loader
import NioApps.Spec.LogicalDrives
import NioApps.Spec.Measure
import NioApps.Spec.Module
import NioApps.Spec.NetworkDevice
import NioApps.Spec.Packets
import NioApps.Spec.Resident
import NioApps.Spec.Restore
import NioApps.Spec.Service
import NioApps.Spec.Sessions
import NioApps.Spec.Shell
import NioApps.Spec.Stack
import NioApps.Spec.Staging
import NioApps.Spec.Stream
import NioApps.Spec.Stress
import NioApps.Spec.Units
import NioApps.Spec.Wire
