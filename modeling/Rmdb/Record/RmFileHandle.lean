import Rmdb.Storage.BufferPoolManager
import Rmdb.Record.Bitmap

/-!
# The record file handle

`RmFileHandle` (`rm_file_handle.cpp`): the file descriptor, the in-memory file header and the
buffer pool the handle reads and writes its pages through. A data page is read through a page
handle, the frame the pool returned, and its header, bitmap and slots are written in the frame
while it is pinned.

An operation returns its result, or the error it raises, with the state after it; effects made
before a `throw` stay, as in the source. What `allocate_page` returns when a new page is created
is an argument (`alloc`). The headers that declare `RmFileHdr`, `RmPageHdr` and the errors are
not part of the sources; they are modelled from the spec's data model, and the page layout
(header, bitmap, slots) as the three parts of `RmPage`.

A slot holds a record of `record_size` bytes: every `memcpy` between a slot and a caller's buffer
moves `file_hdr_.record_size` bytes (`RmFileHdr.copyRecord`). The header page
`RM_FILE_HDR_PAGE` is written by the handle itself, through the Disk Manager and never through the
pool, so the model keeps it beside the pool (`diskFileHdr`).
-/

namespace Rmdb

/-- Modelled from the spec: `RmFileHdr` (`record_size`, `num_pages`, `num_records_per_page`,
`first_free_page_no`). -/
structure RmFileHdr where
  recordSize : Int
  numPages : Int
  numRecordsPerPage : Int
  firstFreePageNo : Int
deriving DecidableEq, Repr

/-- `memcpy(dst, src, file_hdr_.record_size)` between a slot and a buffer: the first
`record_size` bytes of `src`. Callers pass buffers of `record_size` bytes; a shorter one would
make the copy read past it, and the model then copies what there is. -/
def RmFileHdr.copyRecord (hdr : RmFileHdr) (buf : List UInt8) : List UInt8 :=
  buf.take hdr.recordSize.toNat

@[simp] theorem RmFileHdr.copyRecord_copyRecord (hdr : RmFileHdr) (buf : List UInt8) :
    hdr.copyRecord (hdr.copyRecord buf) = hdr.copyRecord buf := by
  simp [RmFileHdr.copyRecord]

theorem RmFileHdr.copyRecord_congr {hdr hdr' : RmFileHdr} (h : hdr'.recordSize = hdr.recordSize) :
    hdr'.copyRecord = hdr.copyRecord := by
  funext buf; simp [RmFileHdr.copyRecord, h]

/-- Modelled from the spec: `RmPageHdr` (`next_free_page_no`, `num_records`). -/
structure RmPageHdr where
  nextFreePageNo : Int
  numRecords : Int
deriving DecidableEq, Repr

/-- Modelled from the spec: a data page, its header, its slot bitmap and its slots. -/
structure RmPage where
  pageHdr : RmPageHdr
  bitmap : Nat → Bool
  slots : Nat → List UInt8

/-- `reset_memory` zeroes a frame: every header field 0 and every bit clear. -/
instance : Zero RmPage := ⟨⟨⟨0, 0⟩, fun _ => false, fun _ => []⟩⟩

/-- Modelled from the spec: the errors the handle raises. `PageNotExistError` names the file,
which the model gives by its descriptor. -/
inductive RmError
  | pageNotExist (fd : Int) (pageNo : Int)
  | recordNotFound (pageNo slotNo : Int)
  | rmdbError (msg : String)
deriving DecidableEq, Repr

/-- `RmFileHandle`: `fd_`, `file_hdr_`, the pool behind `buffer_pool_manager_`, and the file
header as page `RM_FILE_HDR_PAGE` of `disk_manager_` holds it. -/
structure RmFileHandle where
  fd : Int
  fileHdr : RmFileHdr
  bpm : BufferPoolManager RmPage
  diskFileHdr : RmFileHdr

namespace RmFileHandle

/-! ## Page handles -/

/-- The page held in frame `f`, as its page handle shows it. -/
def page (fh : RmFileHandle) (f : Nat) : RmPage := (fh.bpm.pages f).data

/-- A write through the page handle of frame `f`. -/
def write (fh : RmFileHandle) (f : Nat) (g : RmPage → RmPage) : RmFileHandle :=
  { fh with bpm := fh.bpm.modifyPage f fun p => { p with data := g p.data } }

/-- `buffer_pool_manager_->mark_dirty(ph.page)`. -/
def markDirty (fh : RmFileHandle) (f : Nat) : RmFileHandle :=
  { fh with bpm := fh.bpm.markDirty f }

/-- `buffer_pool_manager_->unpin_page(ph.page->get_page_id(), isDirty)`. -/
def unpin (fh : RmFileHandle) (f : Nat) (isDirty : Bool) : RmFileHandle :=
  { fh with bpm := (fh.bpm.unpinPage (fh.bpm.pages f).id isDirty).2 }

/-- `disk_manager_->write_page(fd_, RM_FILE_HDR_PAGE, &file_hdr_, sizeof(file_hdr_))`. -/
def writeFileHdr (fh : RmFileHandle) : RmFileHandle := { fh with diskFileHdr := fh.fileHdr }

/-- `fetch_page_handle(page_no)`. -/
def fetchPageHandle (fh : RmFileHandle) (pageNo : Int) : Except RmError Nat × RmFileHandle :=
  if pageNo ≤ rmFileHdrPage ∨ pageNo ≥ fh.fileHdr.numPages then
    (.error (.pageNotExist fh.fd pageNo), fh)
  else
    match fh.bpm.fetchPage ⟨fh.fd, pageNo⟩ with
    | (none, bpm) =>
      (.error (.rmdbError ("Failed to fetch page " ++ toString pageNo ++
        " from buffer pool for file fd " ++ toString fh.fd)), { fh with bpm := bpm })
    | (some f, bpm) => (.ok f, { fh with bpm := bpm })

/-- `create_new_page_handle()`: a new page with an empty header and a clear bitmap. -/
def createNewPageHandle (fh : RmFileHandle) (alloc : Int) : Except RmError Nat × RmFileHandle :=
  match fh.bpm.newPage fh.fd alloc with
  | (none, bpm) =>
    (.error (.rmdbError ("Failed to create a new page in buffer pool for fd " ++ toString fh.fd)),
      { fh with bpm := bpm })
  | (some (pid, f), bpm) =>
    let fh := { fh with bpm := bpm }
    let fh := fh.write f fun p =>
      { p with pageHdr := { p.pageHdr with numRecords := 0, nextFreePageNo := rmNoPage },
               bitmap := Bitmap.init p.bitmap fh.fileHdr.numRecordsPerPage }
    let fh := if pid.pageNo ≥ fh.fileHdr.numPages then
        { fh with fileHdr := { fh.fileHdr with numPages := pid.pageNo + 1 } }
      else fh
    (.ok f, fh.markDirty f)

/-- `create_page_handle()`: the head of the free-page list, else a new page. -/
def createPageHandle (fh : RmFileHandle) (alloc : Int) : Except RmError Nat × RmFileHandle :=
  if fh.fileHdr.firstFreePageNo ≠ rmNoPage then fh.fetchPageHandle fh.fileHdr.firstFreePageNo
  else fh.createNewPageHandle alloc

/-- `release_page_handle(page_handle)`: pushes the page on the free-page list. -/
def releasePageHandle (fh : RmFileHandle) (f : Nat) : RmFileHandle :=
  let currentPageNo := (fh.bpm.pages f).id.pageNo
  let fh := fh.write f fun p =>
    { p with pageHdr := { p.pageHdr with nextFreePageNo := fh.fileHdr.firstFreePageNo } }
  let fh := { fh with fileHdr := { fh.fileHdr with firstFreePageNo := currentPageNo } }
  fh.markDirty f

/-- The slot number is outside `[0, num_records_per_page)`. -/
def badSlot (fh : RmFileHandle) (slotNo : Int) : Prop :=
  slotNo < 0 ∨ slotNo ≥ fh.fileHdr.numRecordsPerPage

instance (fh : RmFileHandle) (slotNo : Int) : Decidable (fh.badSlot slotNo) :=
  inferInstanceAs (Decidable (_ ∨ _))

/-! ## Records -/

/-- `get_record(rid)`. -/
def getRecord (fh : RmFileHandle) (rid : Rid) : Except RmError (List UInt8) × RmFileHandle :=
  match fh.fetchPageHandle rid.pageNo with
  | (.error e, fh) => (.error e, fh)
  | (.ok f, fh) =>
    if fh.badSlot rid.slotNo then
      (.error (.rmdbError ("Invalid slot number: " ++ toString rid.slotNo)), fh.unpin f false)
    else if !Bitmap.isSet (fh.page f).bitmap rid.slotNo.toNat then
      (.error (.recordNotFound rid.pageNo rid.slotNo), fh.unpin f false)
    else
      (.ok (fh.fileHdr.copyRecord ((fh.page f).slots rid.slotNo.toNat)), fh.unpin f false)

/-- `insert_record(buf)`. -/
def insertRecord (fh : RmFileHandle) (buf : List UInt8) (alloc : Int) :
    Except RmError Rid × RmFileHandle :=
  match fh.createPageHandle alloc with
  | (.error e, fh) => (.error e, fh)
  | (.ok f, fh) =>
    let slotNo := Bitmap.firstBit false (fh.page f).bitmap fh.fileHdr.numRecordsPerPage
    if slotNo = fh.fileHdr.numRecordsPerPage ∨
        (fh.page f).pageHdr.numRecords ≥ fh.fileHdr.numRecordsPerPage then
      (.error (.rmdbError ("Failed to find a free slot in a supposedly free page.")),
        fh.unpin f false)
    else
      let fh := fh.write f fun p =>
        { p with slots := Function.update p.slots slotNo.toNat (fh.fileHdr.copyRecord buf),
                 bitmap := Bitmap.set p.bitmap slotNo.toNat,
                 pageHdr := { p.pageHdr with numRecords := p.pageHdr.numRecords + 1 } }
      let fh := fh.markDirty f
      let fh := if (fh.page f).pageHdr.numRecords = fh.fileHdr.numRecordsPerPage then
          if fh.fileHdr.firstFreePageNo = (fh.bpm.pages f).id.pageNo then
            writeFileHdr { fh with fileHdr := { fh.fileHdr with
                firstFreePageNo := (fh.page f).pageHdr.nextFreePageNo } }
          else fh
        else fh
      (.ok ⟨(fh.bpm.pages f).id.pageNo, slotNo⟩, fh.unpin f true)

/-- `insert_record(rid, buf)`: the positional insert of recovery and undo. -/
def insertRecordAt (fh : RmFileHandle) (rid : Rid) (buf : List UInt8) :
    Except RmError Unit × RmFileHandle :=
  match fh.fetchPageHandle rid.pageNo with
  | (.error e, fh) => (.error e, fh)
  | (.ok f, fh) =>
    if fh.badSlot rid.slotNo then
      (.error (.rmdbError ("Invalid slot number for insert: " ++ toString rid.slotNo)),
        fh.unpin f false)
    else
      let wasSet := Bitmap.isSet (fh.page f).bitmap rid.slotNo.toNat
      let fh := fh.write f fun p =>
        { p with slots := Function.update p.slots rid.slotNo.toNat (fh.fileHdr.copyRecord buf) }
      let fh := if !wasSet then
          fh.write f fun p =>
            { p with bitmap := Bitmap.set p.bitmap rid.slotNo.toNat,
                     pageHdr := { p.pageHdr with numRecords := p.pageHdr.numRecords + 1 } }
        else fh.write f fun p => { p with bitmap := Bitmap.set p.bitmap rid.slotNo.toNat }
      (.ok (), (fh.markDirty f).unpin f true)

/-- `delete_record(rid)`. -/
def deleteRecord (fh : RmFileHandle) (rid : Rid) : Except RmError Unit × RmFileHandle :=
  match fh.fetchPageHandle rid.pageNo with
  | (.error e, fh) => (.error e, fh)
  | (.ok f, fh) =>
    if fh.badSlot rid.slotNo then
      (.error (.rmdbError ("Invalid slot number for delete: " ++ toString rid.slotNo)),
        fh.unpin f false)
    else if !Bitmap.isSet (fh.page f).bitmap rid.slotNo.toNat then
      (.error (.recordNotFound rid.pageNo rid.slotNo), fh.unpin f false)
    else
      let wasFull := (fh.page f).pageHdr.numRecords = fh.fileHdr.numRecordsPerPage
      let fh := fh.write f fun p =>
        { p with bitmap := Bitmap.reset p.bitmap rid.slotNo.toNat,
                 pageHdr := { p.pageHdr with numRecords := p.pageHdr.numRecords - 1 } }
      let fh := fh.markDirty f
      let fh := if wasFull ∧ (fh.page f).pageHdr.numRecords < fh.fileHdr.numRecordsPerPage then
          fh.releasePageHandle f
        else fh
      (.ok (), fh.unpin f true)

/-- `update_record(rid, buf)`. -/
def updateRecord (fh : RmFileHandle) (rid : Rid) (buf : List UInt8) :
    Except RmError Unit × RmFileHandle :=
  match fh.fetchPageHandle rid.pageNo with
  | (.error e, fh) => (.error e, fh)
  | (.ok f, fh) =>
    if fh.badSlot rid.slotNo then
      (.error (.rmdbError ("Invalid slot number for update: " ++ toString rid.slotNo)),
        fh.unpin f false)
    else if !Bitmap.isSet (fh.page f).bitmap rid.slotNo.toNat then
      (.error (.recordNotFound rid.pageNo rid.slotNo), fh.unpin f false)
    else
      let fh := fh.write f fun p =>
        { p with slots := Function.update p.slots rid.slotNo.toNat (fh.fileHdr.copyRecord buf) }
      (.ok (), (fh.markDirty f).unpin f true)

end RmFileHandle

end Rmdb
