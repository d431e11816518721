import ApfsCore.General.Bytes
import ApfsCore.General.Outcome
import ApfsCore.General.GuardedWalk
import ApfsCore.General.FloorSearch
import ApfsCore.Format.Reader
import ApfsCore.Format.Object
import ApfsCore.Tree.Btree
import ApfsCore.Tree.NodeCodec
import ApfsCore.Tree.Omap
import ApfsCore.Tree.OmapResolve
import ApfsCore.Container.Checkpoint
import ApfsCore.Container.Open
import ApfsCore.Volume.FsRecord
import ApfsCore.Volume.FsTree
import ApfsCore.Format.Host
import ApfsCore.General.Overlay
import ApfsCore.Volume.Navigate
import ApfsCore.Volume.Paths
import ApfsCore.Format.Text
import ApfsCore.Volume.DirKeys
import ApfsCore.General.Packing
import ApfsCore.Volume.XFields
import ApfsCore.Volume.KeybagLayout
import ApfsCore.Volume.KeyedWalk
import ApfsCore.Volume.PointInTime
import ApfsCore.Volume.Snapshot
import ApfsCore.Container.Reaper
import ApfsCore.Container.ReapLists
import ApfsCore.NonInterference
import ApfsCore.Content.Decmpfs
import ApfsCore.General.Chunks
import ApfsCore.Content.Forks
import ApfsCore.Content.RawStored
import ApfsCore.Content.ReadData
import ApfsCore.Content.Stream
import ApfsCore.Volume.Mount
import ApfsCore.Container.Gates
import ApfsCore.Container.Mappings
import ApfsCore.General.StoredGraph
import ApfsCore.Tree.WalkGraph
import ApfsCore.Volume.WalkGraph
import ApfsCore.Container.Spaceman
import ApfsCore.Container.Allocation
import ApfsCore.General.Panics
import ApfsCore.General.VisitedWalk
import ApfsCore.Stepwise.Format
import ApfsCore.Stepwise.Tree
import ApfsCore.Stepwise.Navigate
import ApfsCore.Stepwise.Decmpfs
import ApfsCore.Stepwise.Container
import ApfsCore.General.Traced
import ApfsCore.Stepwise.Checkpoint
import ApfsCore.Container.Bootstrap
import ApfsCore.Content.Narrowing
import ApfsCore.Format.Checksum
import ApfsCore.ErrorDetection
import ApfsCore.NoPanic
import ApfsCore.General.Windows
import ApfsCore.General.TreeShape
import ApfsCore.General.Program
import ApfsCore.General.Service
import ApfsCore.Format.Layout
import ApfsCore.Tree.PackedNode
import ApfsCore.Tree.Written
import ApfsCore.Volume.Records
import ApfsCore.Volume.Written
import ApfsCore.Cursor.Reader
import ApfsCore.Cursor.Content
import ApfsCore.Content.Compressed
import ApfsCore.Content.Payloads
import ApfsCore.Volume.Files
import ApfsCore.Vfs.FileSystem
import ApfsCore.Vfs.Names
import ApfsCore.Vfs.Reading
import ApfsCore.Vfs.Written
import ApfsCore.Vfs.Workers
import ApfsCore.Container.SuperblockCodec
import ApfsCore.Container.Written
import ApfsCore.Volume.SuperblockCodec
import ApfsCore.Volume.Timeline
import ApfsCore.Vfs.Mounted
import ApfsCore.Vfs.Footprint
import ApfsCore.General.Degraded
import ApfsCore.Damage
