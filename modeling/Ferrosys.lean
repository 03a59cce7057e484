import Ferrosys.Library.Arith
import Ferrosys.Library.Spans
import Ferrosys.Library.Bits
import Ferrosys.Ext.Feature
import Ferrosys.Ext.Geometry
import Ferrosys.Ext.Geometry.Placement
import Ferrosys.Ext.Geometry.Soundness
import Ferrosys.Ext.Geometry.Resize
import Ferrosys.Ext.Alloc
import Ferrosys.Ext.Alloc.Soundness
import Ferrosys.Fat.Geometry
import Ferrosys.Fat.Geometry.Candidates
import Ferrosys.Fat.Boot
import Ferrosys.Fat.Geometry.Soundness
import Ferrosys.Fat.RoundTrip
import Ferrosys.Library.Checked
import Ferrosys.Library.SortedMap
import Ferrosys.Bytes
import Ferrosys.Library.Division
import Ferrosys.Crc32c
import Ferrosys.Crc32c.Division
import Ferrosys.Ext.ReadError
import Ferrosys.Ext.Replay
import Ferrosys.Ext.Replay.Reference
import Ferrosys.Ext.Replay.Soundness
import Ferrosys.Library.Splice
import Ferrosys.Library.Chunks
import Ferrosys.Library.Windows
import Ferrosys.Cache
import Ferrosys.Ext.Ondisk
import Ferrosys.Ext.Extent
import Ferrosys.Ext.Reader
import Ferrosys.Ext.Reader.Map
import Ferrosys.Ext.Reader.Recover
import Ferrosys.Ext.Reader.Overlay
import Ferrosys.Ext.Reader.Recovered
import Ferrosys.Ext.Materialize
import Ferrosys.Btrfs.Btree.Agreement
import Ferrosys.Ext.Materialize.ClassicMap
import Ferrosys.Apfs.Btree.Agreement
import Ferrosys.Apfs.Container.Held
import Ferrosys.Apfs.Checkpoint.Selection
import Ferrosys.Btrfs.Geometry.Soundness
import Ferrosys.Archive.Framing
import Ferrosys.Ext.Reader.Whole
import Ferrosys.Compress.Lzvn.Inversion
import Ferrosys.Btrfs.Decode
import Ferrosys.Compress.Lzbitmap.Inversion
import Ferrosys.Compress.Lzo.Total
import Ferrosys.Compress.Lzbitmap.Total
import Ferrosys.Compress.Decompress
import Ferrosys.Sizing
import Ferrosys.Walk
import Ferrosys.Resolve.Agreement
import Ferrosys.Compress.Lzfse.Code
import Ferrosys.Ext.Materialize.ResizeInode
import Ferrosys.Ext.Geometry.Auto
import Ferrosys.Ext.Fit
import Ferrosys.Ext.Xattr.RoundTrip
import Ferrosys.Ext.Dir.Walk
import Ferrosys.Ext.Reader.Index
import Ferrosys.Ext.Reader.Index.Lookup
import Ferrosys.Btrfs.TreeBlock.Packing
import Ferrosys.Btrfs.Chunk
import Ferrosys.Fat.Boot.Acceptance
import Ferrosys.Fat.Coherence
import Ferrosys.Fat.Mirror
import Ferrosys.ExFat.Geometry.Soundness
import Ferrosys.Fat.LongName
import Ferrosys.Fat.Name.Placement
import Ferrosys.ExFat.Directory.Parsing
import Ferrosys.Time.Dos
import Ferrosys.Apfs.Counts
import Ferrosys.Apfs.Node.Apart
import Ferrosys.Archive.Records
import Ferrosys.Archive.Members
import Ferrosys.Archive.Times
import Ferrosys.Apfs.Space.FreeList
import Ferrosys.Ext.Acl
import Ferrosys.Btrfs.Superblock
import Ferrosys.Btrfs.Opening
import Ferrosys.Btrfs.Opening.Copies
import Ferrosys.Btrfs.Opening.Blocks
import Ferrosys.Library.Words
import Ferrosys.Library.Sweep
import Ferrosys.Apfs.Space.Runs
import Ferrosys.Apfs.Space.Overlaps
import Ferrosys.Apfs.Space.Chunks
import Ferrosys.Apfs.Space.Comparison
import Ferrosys.Apfs.Space.Exact
import Ferrosys.Library.CanonicalOrder
import Ferrosys.Library.Utf
import Ferrosys.Apfs.Names.Unicode
import Ferrosys.Library.Groups
import Ferrosys.Apfs.Names
import Ferrosys.Apfs.Names.Duplicates
import Ferrosys.Library.Chase
import Ferrosys.Source
import Ferrosys.Source.Layers
import Ferrosys.Source.Layers.Composition
import Ferrosys.Library.Counter
import Ferrosys.Apfs.Model
import Ferrosys.Apfs.Model.Numbering
import Ferrosys.Apfs.Model.Naming
import Ferrosys.Apfs.Model.Siblings
import Ferrosys.Apfs.Model.Walking
import Ferrosys.Apfs.Model.Building
import Ferrosys.Library.Effects
import Ferrosys.Host.Sink
import Ferrosys.Host.Sink.Log
import Ferrosys.Host.Sink.Placed
import Ferrosys.Host.Sink.Extraction
