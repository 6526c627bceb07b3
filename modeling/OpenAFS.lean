import OpenAFS.Ubik.SyncClaim
import OpenAFS.Ubik.CommitCrash
import OpenAFS.Ubik.Tid
import OpenAFS.Ubik.Replica
import OpenAFS.Ubik.PageCache
import OpenAFS.Ubik.BooksKept
import OpenAFS.Ubik.SendFile
import OpenAFS.Dir.CheckSound
import OpenAFS.Dir.EaMap
import OpenAFS.Dir.Rebuild
import OpenAFS.Dir.Repack
import OpenAFS.Vlserver.Lookups
import OpenAFS.Viced.StoreSound
import OpenAFS.Viced.Usage
import OpenAFS.Vlserver.External
import OpenAFS.Ptserver.Runs
import OpenAFS.Budb.Sequences
import OpenAFS.Callback.Space
import OpenAFS.Vol.CloneSound
import OpenAFS.Vol.Uniquifier
import OpenAFS.Vol.VnodeRuns
import OpenAFS.Vol.HandleRuns
import OpenAFS.Lwp.Processes
import OpenAFS.Kauth.Requests
import OpenAFS.Afs.Daemon
import OpenAFS.Afs.BufferRuns
import OpenAFS.Viced.FailingCalls
import OpenAFS.Viced.CopyLoop
import OpenAFS.Viced.AncestorWalk
import OpenAFS.Tviced.StateFile
import OpenAFS.Ptserver.MapWalk
import OpenAFS.Ptserver.MemoWrites
import OpenAFS.Ptserver.Supergroups
import OpenAFS.Ptserver.ForeignIds
import OpenAFS.Vlserver.Unhash
import OpenAFS.Vlserver.Repsites
import OpenAFS.Vlserver.AddrLookup
import OpenAFS.Vlserver.AddrChange
import OpenAFS.Vlserver.ExtentLoad
import OpenAFS.Libacl.RoundTrip
import OpenAFS.Rx.StreamDelivered
import OpenAFS.Viced.Interfaces
import OpenAFS.Rx.SendPacket
import OpenAFS.Viced.Enumerate
import OpenAFS.Vol.BitmapRuns
import OpenAFS.Rx.XmitList
import OpenAFS.Rx.Windows
import OpenAFS.Vol.NameiNames
import OpenAFS.Afs.Flock
import OpenAFS.Vol.UpdateList
