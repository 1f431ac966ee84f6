import Nolrem.Word
import Nolrem.Lib.Transition
import Nolrem.Lib.Tiling
import Nolrem.Lib.Chain
import Nolrem.Lib.Outcome
import Nolrem.Virt.Arena
import Nolrem.Task.Scheduler
import Nolrem.Task.ReadyList
import Nolrem.Task.Place
import Nolrem.Task.Switch
import Nolrem.Task.Calls
import Nolrem.Task.Runs
import Nolrem.Task.Nesting
import Nolrem.Task.IrqPrevent
import Nolrem.Sync.Sem
import Nolrem.Sync.Queues
import Nolrem.Sync.Timers
import Nolrem.Sync.Waits
import Nolrem.Sync.Wake
import Nolrem.Sync.Block
import Nolrem.Sync.Runs
import Nolrem.Sync.Safety
import Nolrem.Sync.MsgBox
import Nolrem.Sync.Create
import Nolrem.Sync.NoMemory
import Nolrem.Sync.Sleep
import Nolrem.Sync.Early
import Nolrem.Lib.DList
import Nolrem.Mem.HeapEx
import Nolrem.Mem.Layout
import Nolrem.Mem.AddBlock
import Nolrem.Mem.Alloc
import Nolrem.Lib.Count
import Nolrem.Lib.Ring
import Nolrem.Virt.UserArena
import Nolrem.Task.IrqQueue
import Nolrem.Phys.Zeroed
import Nolrem.Phys.Table
import Nolrem.Phys.FreeCount
import Nolrem.Vmm.HarvestRuns
import Nolrem.Vmm.Wire
import Nolrem.Vmm.Grow
import Nolrem.Vmm.MemoryRange
import Nolrem.Vmm.Locks
import Nolrem.Vfs.NodeTableRuns
import Nolrem.Vfs.Mount
import Nolrem.Vfs.AsyncRuns
import Nolrem.Vfs.DiskNames
import Nolrem.Vfs.Path
import Nolrem.Dev.Partition
import Nolrem.Dev.Mbr
import Nolrem.Dev.FloppyIrq
import Nolrem.Dev.Floppy
import Nolrem.Dev.FloppyIo
import Nolrem.Dev.FloppyData
import Nolrem.Dev.Rtc
import Nolrem.Fs.Vnode
import Nolrem.Fs.ShortName
import Nolrem.Vmm.Discard
import Nolrem.Wm.Partition
import Nolrem.Wm.MouseRuns
import Nolrem.Cd.Overlay
import Nolrem.Mem.Contract
import Nolrem.Mem.Purge
import Nolrem.Vfs.Async
import Nolrem.Core.ObjRuns
import Nolrem.Core.TimeConv
import Nolrem.Dynlib.SymList
import Nolrem.Dynlib.Module
import Nolrem.Cd.PolyPolygon
import Nolrem.Elf.Symbols
import Nolrem.Cd.Region
import Nolrem.Cd.RegionEqual
import Nolrem.Cd.RectRegion
import Nolrem.Cd.RegionQuery
import Nolrem.Cd.RegionBuild
import Nolrem.Cd.RegionRoundTrip
import Nolrem.Lib.Extent
import Nolrem.Lib.Stored
import Nolrem.Vga.Dither
import Nolrem.Bitmap.Bmp
import Nolrem.Bitmap.Regenerate
import Nolrem.Lib.Fill
import Nolrem.Lib.Copy
import Nolrem.Vfs.Transfer
import Nolrem.Vfs.UserString
import Nolrem.Vfs.Omf
import Nolrem.Vfs.Registry
import Nolrem.Bitmap.Pages
import Nolrem.Bitmap.Inside
import Nolrem.Cd.DynamicArray
import Nolrem.Cd.RoundedRect
import Nolrem.Cd.Ellipse
import Nolrem.Cd.RegionArea
import Nolrem.Cd.Bitmask
import Nolrem.Cd.Path
import Nolrem.Cd.Bezier
import Nolrem.Cd.PathCounts
import Nolrem.Lib.Affects
import Nolrem.Vga.Planes
import Nolrem.Vga.Invert
import Nolrem.Vga.Rect
import Nolrem.Lib.FillRule
import Nolrem.Cd.PolygonRegion
import Nolrem.Cd.PolygonFill
import Nolrem.Cd.PolygonOrder
import Nolrem.Vga.Weights
import Nolrem.Cd.ThinLine
import Nolrem.Cd.RleRows
import Nolrem.Cd.CursorRecord
import Nolrem.Cd.ThickLine
import Nolrem.Vga.Glyph
import Nolrem.Vga.BitmapBlit
import Nolrem.Vga.Scroll
import Nolrem.Vga.DrawMouse
import Nolrem.Wm.ClientHit
import Nolrem.Vmm.Slots
import Nolrem.Typeface.GlyphIndex
import Nolrem.Typeface.ScaleGlyph
import Nolrem.Wm.DcCache
import Nolrem.Typeface.GlyphCache
import Nolrem.Cd.Resumed
import Nolrem.Cd.CombinePixels
