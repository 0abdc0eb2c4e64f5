import LevelDb.Codec.Format
import LevelDb.Codec.Integer
import LevelDb.WriteBatch
import LevelDb.WriteBatch.Grammar
import LevelDb.WriteBatch.Build
import LevelDb.WriteBatch.Insert
import LevelDb.WriteBatch.Meaning
import LevelDb.Logic.Crash
import LevelDb.Logic.Transition
import LevelDb.Logic.Storage
import LevelDb.Logic.Stream
import LevelDb.Logic.Versioned
import LevelDb.Logic.Accounting
import LevelDb.Filename
import LevelDb.Filename.Kinds
import LevelDb.Database
import LevelDb.Frame
import LevelDb.Table
import LevelDb.Recover
import LevelDb.Recover.Replay
import LevelDb.Recover.Recovery
import LevelDb.Recover.Anomalies
import LevelDb.Recover.Status
import LevelDb.Recover.Paranoid
import LevelDb.Collect
import LevelDb.Collect.Outputs
import LevelDb.Collect.Listing
import LevelDb.Open
import LevelDb.Open.CurrentLog
import LevelDb.Open.Options
import LevelDb.Open.NewDb
import LevelDb.Open.Sanitize
import LevelDb.Open.SetCurrent
import LevelDb.Open.Settled
import LevelDb.Open.Reading
import LevelDb.CompactMemtable
import LevelDb.Background
import LevelDb.Background.Schedule
import LevelDb.Background.Manual
import LevelDb.Background.Wakeup
import LevelDb.Background.Refinement
import LevelDb.Background.Frozen
import LevelDb.Background.Bounds
import LevelDb.Background.Coverage
import LevelDb.Write
import LevelDb.Posix.Limiter
import LevelDb.Posix.MmapRead
import LevelDb.Posix.Descriptors
import LevelDb.Posix.Writable
import LevelDb.Posix.Directory
import LevelDb.Posix.Sequential
import LevelDb.Logic.Region
import LevelDb.Util.Arena
import LevelDb.Util.Arena.Accounting
import LevelDb.Logic.FullCycle
import LevelDb.Util.Random
import LevelDb.Util.Random.Uniform
import LevelDb.Logic.SearchTree
import LevelDb.Logic.DepthCost
import LevelDb.Logic.CartesianTree
import LevelDb.Main.Bst
import LevelDb.Main.OptionalBst
import LevelDb.Main.OptionalBstDp
import LevelDb.Filename.Owned
import LevelDb.Recover.Missing
import LevelDb.Table.Build
import LevelDb.Logic.ThreeWay
import LevelDb.Slice.Compare
import LevelDb.Logic.Owned
import LevelDb.Status.Ownership
import LevelDb.Other.Buffer
import LevelDb.Util.Arena.Lifetime
