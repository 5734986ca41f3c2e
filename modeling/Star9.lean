import Star9.Base.Prog
import Star9.Base.Erase
import Star9.Base.Bytes
import Star9.Base.Chain
import Star9.Base.Line
import Star9.Base.Map
import Star9.Base.Run
import Star9.Base.Naming
import Star9.Base.Triple
import Star9.Base.Text
import Star9.Base.Transfer
import Star9.Base.Keeps
import Star9.Core.Basic
import Star9.Core.Path
import Star9.Core.PathOrder
import Star9.Fs.FileSystem
import Star9.Fs.Watch
import Star9.Fs.MemFs
import Star9.Fs.MemState
import Star9.Fs.MemTree
import Star9.Fs.MemOps
import Star9.Fs.MemRun
import Star9.Fs.MemFrame
import Star9.Fs.MemHandle
import Star9.Fs.MemList
import Star9.Fs.MemWrite
import Star9.Fs.MemAppend
import Star9.Fs.MemRename
import Star9.Fs.MemLinks
import Star9.Fs.MemShared
import Star9.Fs.MemRemove
import Star9.Fs.MemCopy
import Star9.Fs.MemCoherent
import Star9.Fs.Http
import Star9.Fs.Multipart
import Star9.Fs.MultipartWrite
import Star9.Fs.HttpFs
import Star9.Fs.HttpValid
import Star9.Fs.HttpTransparent
import Star9.Fs.R2
import Star9.Fs.R2Listing
import Star9.Fs.R2Store
import Star9.Fs.R2Move
import Star9.Fs.R2Run
import Star9.Fs.R2Rename
import Star9.Fs.HttpHandle
import Star9.Fs.MetaCache
import Star9.Fs.MetaCacheRace
import Star9.Protocol.Message
import Star9.Protocol.Codec
import Star9.Protocol.Server
import Star9.Protocol.Confinement
import Star9.Protocol.Client
import Star9.Protocol.FrameSize
import Star9.Protocol.Loopback
import Star9.Protocol.FidFrame
import Star9.Protocol.FidBalance
import Star9.Protocol.ReadOnly
import Star9.Protocol.Async
import Star9.Protocol.WalkRace
import Star9.Protocol.WalkSpec
import Star9.Sync.Scheduler
import Star9.Sync.State
import Star9.Sync.Push
import Star9.Rc.Syntax
import Star9.Rc.Host
import Star9.Rc.Expand
import Star9.Rc.Graph
import Star9.Rc.Eval
import Star9.Rc.Rules
import Star9.Rc.Output
import Star9.Rc.Exit
import Star9.Rc.Jobs
import Star9.Rc.JobRun
import Star9.Rc.PipeOnce
import Star9.Rc.Streams
import Star9.Rc.Redirects
import Star9.Rc.PrefixScope
import Star9.Rc.Positional
import Star9.Rc.SinkDelivery
import Star9.Rc.Glob
import Star9.Rc.ParseEnds
import Star9.Sync.SyncFs
import Star9.Sync.Patch
import Star9.Sync.Track
import Star9.Sync.Pull
import Star9.Sync.KeepLocal
import Star9.Sync.PullRace
import Star9.Sync.Stuck
import Star9.Fs.HttpServer
import Star9.Fs.HttpServed
import Star9.Fs.HttpNotModified
import Star9.Fs.Append
import Star9.Vfs.Namespace
import Star9.Vfs.MemSpace
import Star9.Vfs.ReadWrite
import Star9.Vfs.Rename
import Star9.Runtime.Net
import Star9.Runtime.NetEffect
import Star9.Runtime.NetRun
import Star9.Runtime.Worker
import Star9.Runtime.WorkerRun
import Star9.Runtime.WorkerBinding
import Star9.Runtime.VmDevice
import Star9.Runtime.AliasOwner
import Star9.Runtime.Wasi
import Star9.Runtime.WasiPath
import Star9.Web.RuntimeClient
import Star9.Web.P9Frame
import Star9.Web.P9PortServer
import Star9.Web.P9PortClient
import Star9.Web.P9Codec
import Star9.Web.P9Agree
import Star9.Protocol.ReadDirPages
import Star9.Protocol.XattrCommit
import Star9.Protocol.Panics
import Star9.Protocol.HostileServer
import Star9.Protocol.FidAlloc
import Star9.Protocol.FrameStream
import Star9.Rc.CaretSplit
import Star9.Task.FdFresh
import Star9.Task.Binding
import Star9.Shell.RforkAtomic
import Star9.Shell.PipesClosed
import Star9.Runtime.NetRefused
import Star9.Shell.ParseLine
import Star9.Runtime.Newlines
import Star9.Fs.MapRoute
import Star9.Fs.UnionAgree
import Star9.Core.PathLaws
import Star9.Protocol.XattrRanges
import Star9.Rc.PatternMeaning
import Star9.Fs.S3Date
import Star9.Fs.S3Signed
import Star9.Fs.ByteFile
import Star9.Fs.S3Prefix
import Star9.Runtime.WasiTable
import Star9.Runtime.WasiFileRun
import Star9.Runtime.WasiReaddir
import Star9.Runtime.WasiStrings
import Star9.Fs.TarFs
import Star9.Fs.TarRoundTrip
