import Rmdb.Record.RmFileHandle

/-!
# The record scan

`RmScan` (`rm_scan.cpp`): a cursor over the records of a file, which holds the file handle
(`file_handle_`, possibly null) and the current `rid_`. `next` walks the data pages from the
cursor's page, fetching each and looking in its bitmap for the next set bit after the cursor's
slot. The loop runs while the page number is in `[RM_FIRST_RECORD_PAGE, num_pages)` and raises
the page number at every turn, so it is `scanPages` with `num_pages - page_no` turns of fuel: the
turn that more fuel would add fails the loop's test (`scanPages_fuel`).
-/

namespace Rmdb

/-- `RmScan`: whether `file_handle_` is set, and `rid_`. -/
structure RmScan where
  hasFileHandle : Bool
  rid : Rid
deriving DecidableEq, Repr

namespace RmScan

/-- `is_end()`. -/
def isEnd (sc : RmScan) : Bool :=
  if sc.rid.pageNo = rmNoPage then true
  else if !sc.hasFileHandle then true
  else sc.rid.pageNo = rmNoPage

/-- The cursor when the scan is over. -/
def endRid : Rid := ⟨rmNoPage, -1⟩

/-- The loop of `next()` from `rid`, with header `hdr`, for `k` more turns: the cursor it stops
at, the error that a fetch raised in it if any, and the handle after it. -/
def scanPages (hdr : RmFileHdr) : Nat → Rid → RmFileHandle → Option RmError × Rid × RmFileHandle
  | 0, _, fh => (none, endRid, fh)
  | k + 1, rid, fh =>
    if rid.pageNo < hdr.numPages ∧ rid.pageNo ≥ rmFirstRecordPage then
      match fh.fetchPageHandle rid.pageNo with
      | (.error e, fh) => (some e, rid, fh)
      | (.ok f, fh) =>
        let nextSlot := Bitmap.nextBit true (fh.page f).bitmap hdr.numRecordsPerPage rid.slotNo
        if nextSlot < hdr.numRecordsPerPage then (none, { rid with slotNo := nextSlot }, fh.unpin f false)
        else scanPages hdr k ⟨rid.pageNo + 1, -1⟩ (fh.unpin f false)
    else (none, endRid, fh)

/-- `next()`: the scan after it, with the error it raised if any, and the handle. -/
def next (sc : RmScan) (fh : RmFileHandle) : Option RmError × RmScan × RmFileHandle :=
  if sc.isEnd then (none, sc, fh)
  else
    let hdr := fh.fileHdr
    match scanPages hdr (hdr.numPages - sc.rid.pageNo).toNat sc.rid fh with
    | (e, rid, fh) => (e, { sc with rid := rid }, fh)

/-- `RmScan(file_handle)`: the cursor before the first slot of the first data page, moved to the
first record. -/
def init (hasFileHandle : Bool) (fh : RmFileHandle) : Option RmError × RmScan × RmFileHandle :=
  if !hasFileHandle then (none, ⟨false, endRid⟩, fh)
  else next ⟨true, ⟨rmFirstRecordPage, -1⟩⟩ fh

/-- A cursor past the last page leaves the loop at once. -/
theorem scanPages_of_ge {hdr : RmFileHdr} {rid : Rid} (fh : RmFileHandle)
    (h : hdr.numPages ≤ rid.pageNo) : ∀ k, scanPages hdr k rid fh = (none, endRid, fh)
  | 0 => rfl
  | _ + 1 => by rw [scanPages, if_neg (by omega)]

/-- Fuel beyond `num_pages - page_no` turns changes nothing: each turn raises the page number. -/
theorem scanPages_fuel {hdr : RmFileHdr} {m : Nat} : ∀ {k : Nat} {rid : Rid} {fh : RmFileHandle},
    m = (hdr.numPages - rid.pageNo).toNat → m ≤ k → scanPages hdr k rid fh = scanPages hdr m rid fh := by
  induction m with
  | zero =>
    intro k rid fh hm _
    rw [scanPages_of_ge fh (by omega), scanPages_of_ge fh (by omega)]
  | succ m ih =>
    intro k rid fh hm hk
    obtain ⟨k, rfl⟩ : ∃ k', k = k' + 1 := ⟨k - 1, by omega⟩
    rw [scanPages, scanPages]
    split_ifs
    · rcases fh.fetchPageHandle rid.pageNo with ⟨_ | f, fh'⟩
      · rfl
      · dsimp only
        split_ifs
        · rfl
        · exact ih (by simp; omega) (by omega)
    · rfl

end RmScan

end Rmdb
