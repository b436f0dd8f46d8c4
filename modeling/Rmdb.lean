import Rmdb.Common
import Rmdb.Replacer.LruReplacer
import Rmdb.Replacer.Proof.Queue
import Rmdb.Storage.BufferPoolManager
import Rmdb.Storage.Proof.Books
import Rmdb.Storage.Proof.PoolInv
import Rmdb.Storage.Proof.Frames
import Rmdb.Storage.Proof.Leak
import Rmdb.Storage.Proof.Lru
import Rmdb.Storage.Proof.Coherence
import Rmdb.Storage.Proof.Client
import Rmdb.Storage.Proof.Refusal
import Rmdb.Storage.Proof.Pins
import Rmdb.Storage.Proof.Dirty
import Rmdb.Record.Bitmap
import Rmdb.Record.RmFileHandle
import Rmdb.Record.RmScan
import Rmdb.Record.Proof.Handle
import Rmdb.Record.Proof.File
import Rmdb.Record.Proof.Spare
import Rmdb.Record.Proof.ScanLoop
import Rmdb.Record.Proof.ScanSession
import Rmdb.Record.Proof.FreeList
import Rmdb.Record.Proof.RecordMap
import Rmdb.Record.Proof.Replies
