import QuadStor.Bint.Theorems
import QuadStor.DDTable.Theorems
import QuadStor.Write.Theorems
import QuadStor.Fastlog.Theorems
import QuadStor.Delete.Theorems
import QuadStor.LogRing.Theorems
import QuadStor.Recovery.Theorems
import QuadStor.Unmap.Theorems
import QuadStor.Command.Theorems
import QuadStor.WriteSame.Theorems
import QuadStor.CompareWrite.Theorems
import QuadStor.Token.Theorems
import QuadStor.FcRules.Theorems
import QuadStor.TaskQueue.Theorems
import QuadStor.ReadCache.Theorems
import QuadStor.Access.Theorems
import QuadStor.ReservationSync.Theorems
import QuadStor.MirrorCopy.Theorems
import QuadStor.Cloning.Theorems
import QuadStor.Handshake.Theorems
import QuadStor.StandbySync.Theorems
import QuadStor.MirrorResync.Theorems
import QuadStor.RangeLock.Counts
import QuadStor.Bint.Refs
import QuadStor.Resize.Theorems
import QuadStor.Ha.Theorems
import QuadStor.HaCleanup.Theorems
import QuadStor.PgdataSync.Theorems
import QuadStor.MetaPage.Theorems
import QuadStor.LogPage.Theorems
import QuadStor.HashNode.Theorems
import QuadStor.DataIn.Report
import QuadStor.DataIn.Bounds
import QuadStor.CopyParam.Theorems
import QuadStor.NodeWrite.Theorems
import QuadStor.MirrorCount.Theorems
import QuadStor.LogRing.NewMetadata
import QuadStor.Cloning.IdSet
import QuadStor.Bint.Eligible
import QuadStor.Bint.Cache
import QuadStor.Bint.FreeIndexes
import QuadStor.Token.Lifetime
import QuadStor.AddrMap.SyncList
import QuadStor.RangeLock.AllocWait
import QuadStor.BlockIo.Theorems
