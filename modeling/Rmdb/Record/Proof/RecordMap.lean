import Rmdb.Record.Proof.FreeList
import Rmdb.Record.Proof.ScanSession

/-!
# The record file as a map from rids to records

`records fh` is what the record file stores: the record of each live slot (`Live`: a slot of a data
page whose bit is set), the `record_size` bytes that `get_record` copies out of it, keyed by its
rid. A call that writes a record stores the first `record_size` bytes of its buffer.

On a file whose pool can bring in its pages (`Ready`, which every reachable file is),
`get_record`, `update_record` and `delete_record` raise exactly `ridError` with their own
invalid-slot message: `PageNotExistError` off the data pages, the invalid-slot error off the
slots, `RecordNotFoundError` on a clear slot, and nothing on a live one; `insert_record(rid, buf)`
checks no bit (`getRecord_raised` and the like, `record_errors`).

Every reachable file refines the map (`records_refine_map`): `get_record` returns the map's record,
`insert_record(buf)` raises with the map unchanged or adds its record at a rid off the map,
`insert_record(rid, buf)` puts its record on any slot, `update_record` and `delete_record` succeed
exactly on the map's rids and change that one entry, and the scan's calls leave the map alone.
`flush_all_pages(fd)` leaves the map on the disk: a pool restarted over the flushed disk holds the
same records (`records_survive_flush`).

`insert_record(buf)` raises only on a free-page list that hands it a full page (after a positional
insert, `insertRecord_fails_after_undo`) or on a pool with no frame to give. Along runs with no
positional insert from a fresh file it raises exactly when the free-page list is empty and the pool
has no frame (`insertRecord_raises_iff`): the free-page list stays sound (`FreeList`), so its head
has a clear slot (`Counted`). From a pool that can give a frame (`Roomy`) it never raises
(`insertRecord_never_fails`), as every call keeps a frame to give (`Roomy.run`).

A delete on a full page makes the page the head of the free-page list, so the next
`insert_record(buf)` takes the freed slot back (`delete_then_insert_reuses_slot`).

A record stays where `insert_record(buf)` put it, byte for byte, until a call writes its rid: no
other call, inserts at other rids included, touches it (`RmCall.records_run`), and `get_record`
returns it, the `record_size` bytes copied from the buffer, after any such run
(`inserted_record_persists`).
-/

namespace Rmdb

open BufferPoolManager RmFileHandle

instance (fh : RmFileHandle) (r : Rid) : Decidable (Slot fh r) :=
  inferInstanceAs (Decidable (_ ∧ _ ∧ _ ∧ _))

instance (fh : RmFileHandle) (r : Rid) : Decidable (IsSet fh r) :=
  inferInstanceAs (Decidable (_ = true))

instance (fh : RmFileHandle) (r : Rid) : Decidable (Live fh r) :=
  inferInstanceAs (Decidable (_ ∧ _))

/-! ## What a call on a rid raises -/

/-- What a call on `rid` raises on a `Ready` file: `PageNotExistError` off the data pages, the
call's invalid-slot error (`msg` and the slot number) off the slots, and, for a call that checks
the slot's bit (`checkSet`), `RecordNotFoundError` on a clear slot. -/
def ridError (fh : RmFileHandle) (msg : String) (checkSet : Bool) (rid : Rid) : Option RmError :=
  if rid.pageNo ≤ rmFileHdrPage ∨ rid.pageNo ≥ fh.fileHdr.numPages then
    some (.pageNotExist fh.fd rid.pageNo)
  else if fh.badSlot rid.slotNo then some (.rmdbError (msg ++ toString rid.slotNo))
  else if checkSet &&
      !Bitmap.isSet (fh.bpm.content ⟨fh.fd, rid.pageNo⟩).bitmap rid.slotNo.toNat then
    some (.recordNotFound rid.pageNo rid.slotNo)
  else none

/-- A call that checks the bit raises nothing exactly on a live slot. -/
theorem ridError_eq_none {fh : RmFileHandle} {msg : String} {rid : Rid} :
    ridError fh msg true rid = none ↔ Live fh rid := by
  simp only [ridError, Live, Slot, IsSet, badSlot, Bitmap.isSet, rmFileHdrPage, rmFirstRecordPage]
  split_ifs <;> simp_all <;> omega

/-- A call that checks no bit raises nothing exactly on a slot of the file. -/
theorem ridError_false_eq_none {fh : RmFileHandle} {msg : String} {rid : Rid} :
    ridError fh msg false rid = none ↔ Slot fh rid := by
  simp only [ridError, Slot, badSlot, rmFileHdrPage, rmFirstRecordPage]
  split_ifs <;> simp_all <;> omega

theorem RmCall.raised_eq_none {α : Type} {r : Except RmError α} :
    RmCall.raised r = none ↔ ∃ a, r = .ok a := by
  cases r <;> simp [RmCall.raised]

section
variable {fh : RmFileHandle} (h : CohInv fh.bpm fun _ => false) (hR : Ready fh)
include h hR

theorem getRecord_raised (rid : Rid) :
    RmCall.raised (fh.getRecord rid).1 = ridError fh "Invalid slot number: " true rid := by
  rcases fetchPageHandle_of_ready h hR rid.pageNo with ⟨hp, he⟩ | ⟨hp, f, fh', he, hF⟩
  · rw [getRecord, he, ridError, if_pos hp]; rfl
  rw [getRecord, he, ridError, if_neg hp]
  dsimp only
  simp only [hF.page, hF.badSlot_iff, Bool.true_and]
  split_ifs <;> rfl

theorem updateRecord_raised (rid : Rid) (buf : List UInt8) :
    RmCall.raised (fh.updateRecord rid buf).1 =
      ridError fh "Invalid slot number for update: " true rid := by
  rcases fetchPageHandle_of_ready h hR rid.pageNo with ⟨hp, he⟩ | ⟨hp, f, fh', he, hF⟩
  · rw [updateRecord, he, ridError, if_pos hp]; rfl
  rw [updateRecord, he, ridError, if_neg hp]
  dsimp only
  simp only [hF.page, hF.badSlot_iff, Bool.true_and]
  split_ifs <;> rfl

theorem deleteRecord_raised (rid : Rid) :
    RmCall.raised (fh.deleteRecord rid).1 =
      ridError fh "Invalid slot number for delete: " true rid := by
  rcases fetchPageHandle_of_ready h hR rid.pageNo with ⟨hp, he⟩ | ⟨hp, f, fh', he, hF⟩
  · rw [deleteRecord, he, ridError, if_pos hp]; rfl
  rw [deleteRecord, he, ridError, if_neg hp]
  dsimp only
  simp only [hF.page, hF.badSlot_iff, Bool.true_and]
  split_ifs <;> rfl

/-- `insert_record(rid, buf)` checks no bit: it overwrites a live slot. -/
theorem insertRecordAt_raised (rid : Rid) (buf : List UInt8) :
    RmCall.raised (fh.insertRecordAt rid buf).1 =
      ridError fh "Invalid slot number for insert: " false rid := by
  rcases fetchPageHandle_of_ready h hR rid.pageNo with ⟨hp, he⟩ | ⟨hp, f, fh', he, hF⟩
  · rw [insertRecordAt, he, ridError, if_pos hp]; rfl
  rw [insertRecordAt, he, ridError, if_neg hp]
  dsimp only
  simp only [hF.badSlot_iff, Bool.false_and, Bool.false_eq_true, if_false]
  split_ifs <;> rfl

end

/-- In every reachable state, `get_record`, `update_record` and `delete_record` raise exactly
`PageNotExistError` for a page outside `[RM_FIRST_RECORD_PAGE, num_pages)`, their own
invalid-slot error for a slot outside `[0, num_records_per_page)`, `RecordNotFoundError` for a
clear slot, and nothing for a live one; `insert_record(rid, buf)` raises the first two only. -/
theorem record_errors {fh : RmFileHandle} (hr : Reachable fh) (rid : Rid) (buf : List UInt8) :
    RmCall.raised (fh.getRecord rid).1 = ridError fh "Invalid slot number: " true rid ∧
    RmCall.raised (fh.updateRecord rid buf).1 =
      ridError fh "Invalid slot number for update: " true rid ∧
    RmCall.raised (fh.deleteRecord rid).1 =
      ridError fh "Invalid slot number for delete: " true rid ∧
    RmCall.raised (fh.insertRecordAt rid buf).1 =
      ridError fh "Invalid slot number for insert: " false rid :=
  have h := (FileInv.of_reachable hr).coh
  ⟨getRecord_raised h hr.ready rid, updateRecord_raised h hr.ready rid buf,
    deleteRecord_raised h hr.ready rid, insertRecordAt_raised h hr.ready rid buf⟩

theorem record_errors_one_record :
    Reachable oneRecord ∧
    RmCall.raised (oneRecord.getRecord ⟨1, 1⟩).1 =
      ridError oneRecord "Invalid slot number: " true ⟨1, 1⟩ ∧
    RmCall.raised (oneRecord.updateRecord ⟨1, 1⟩ [9]).1 =
      ridError oneRecord "Invalid slot number for update: " true ⟨1, 1⟩ ∧
    RmCall.raised (oneRecord.deleteRecord ⟨1, 1⟩).1 =
      ridError oneRecord "Invalid slot number for delete: " true ⟨1, 1⟩ ∧
    RmCall.raised (oneRecord.insertRecordAt ⟨1, 1⟩ [9]).1 =
      ridError oneRecord "Invalid slot number for insert: " false ⟨1, 1⟩ :=
  ⟨oneRecord_reachable, record_errors oneRecord_reachable ⟨1, 1⟩ [9]⟩

/-! ## The map of records -/

/-- The records of `fh`'s file: the record of each live slot, its `record_size` bytes as
`get_record` copies them out, by rid. -/
def records (fh : RmFileHandle) (rid : Rid) : Option (List UInt8) :=
  if Live fh rid then
    some (fh.fileHdr.copyRecord ((fh.bpm.content ⟨fh.fd, rid.pageNo⟩).slots rid.slotNo.toNat))
  else none

theorem records_isSome {fh : RmFileHandle} {rid : Rid} :
    (records fh rid).isSome ↔ Live fh rid := by
  unfold records; split_ifs with h <;> simp [h]

theorem SameFile.records_eq {fh fh' : RmFileHandle} (hs : SameFile fh fh') :
    records fh' = records fh :=
  funext fun r => by simp only [records, hs.live, hs.1, hs.2.1, hs.2.2]

theorem Rid.ext_of {r r' : Rid} (hp : r.pageNo = r'.pageNo) (hs : r.slotNo = r'.slotNo) :
    r = r' := by
  cases r; cases r'; cases hp; cases hs; rfl

/-- Two rids of one page, with slots in range from below, name different slots. -/
theorem Rid.slot_toNat_ne {r rid : Rid} (hr : r ≠ rid) (hp : r.pageNo = rid.pageNo)
    (h0 : 0 ≤ r.slotNo) (h0' : 0 ≤ rid.slotNo) : r.slotNo.toNat ≠ rid.slotNo.toNat := fun e =>
  hr (Rid.ext_of hp (by omega))

/-- A rid other than `rid` keeps its record when only page `rid.pageNo` changed, to a page that
agrees with it off `rid`'s slot, and the header kept the slots. -/
theorem records_of_write {fh fh' : RmFileHandle} {rid r : Rid} {P' : RmPage}
    (hfd : fh'.fd = fh.fd) (hn : fh'.fileHdr.numRecordsPerPage = fh.fileHdr.numRecordsPerPage)
    (hrs : fh'.fileHdr.recordSize = fh.fileHdr.recordSize)
    (hnp : fh'.fileHdr.numPages = fh.fileHdr.numPages)
    (hc : fh'.bpm.content = Function.update fh.bpm.content ⟨fh.fd, rid.pageNo⟩ P')
    (hoff : ∀ j, j ≠ rid.slotNo.toNat →
      P'.bitmap j = (fh.bpm.content ⟨fh.fd, rid.pageNo⟩).bitmap j ∧
      P'.slots j = (fh.bpm.content ⟨fh.fd, rid.pageNo⟩).slots j)
    (hs : 0 ≤ rid.slotNo) (hr : r ≠ rid) : records fh' r = records fh r := by
  by_cases hr0 : 0 ≤ r.slotNo
  · have hpage : (fh'.bpm.content ⟨fh'.fd, r.pageNo⟩).bitmap r.slotNo.toNat =
          (fh.bpm.content ⟨fh.fd, r.pageNo⟩).bitmap r.slotNo.toNat ∧
        (fh'.bpm.content ⟨fh'.fd, r.pageNo⟩).slots r.slotNo.toNat =
          (fh.bpm.content ⟨fh.fd, r.pageNo⟩).slots r.slotNo.toNat := by
      rw [hc, hfd]
      by_cases hp : r.pageNo = rid.pageNo
      · rw [hp, Function.update_same]
        exact hoff _ (Rid.slot_toNat_ne hr hp hr0 hs)
      · rw [Function.update_noteq (by simpa using hp)]; exact ⟨rfl, rfl⟩
    simp only [records, Live, Slot, IsSet, hpage, hn, hnp, RmFileHdr.copyRecord_congr hrs]
  · have hS : ∀ g : RmFileHandle, ¬ Live g r := fun _ h => hr0 h.1.2.2.1
    simp only [records, if_neg (hS _)]

/-- A write of slot `rid` alone, on a slot of the file, changes the map at `rid` alone: to the
slot's record if its bit is set, else to nothing. -/
theorem records_of_write_at {fh fh' : RmFileHandle} {rid : Rid} {P' : RmPage}
    (hfd : fh'.fd = fh.fd) (hn : fh'.fileHdr.numRecordsPerPage = fh.fileHdr.numRecordsPerPage)
    (hrs : fh'.fileHdr.recordSize = fh.fileHdr.recordSize)
    (hnp : fh'.fileHdr.numPages = fh.fileHdr.numPages)
    (hc : fh'.bpm.content = Function.update fh.bpm.content ⟨fh.fd, rid.pageNo⟩ P')
    (hoff : ∀ j, j ≠ rid.slotNo.toNat →
      P'.bitmap j = (fh.bpm.content ⟨fh.fd, rid.pageNo⟩).bitmap j ∧
      P'.slots j = (fh.bpm.content ⟨fh.fd, rid.pageNo⟩).slots j)
    (hS : Slot fh rid) :
    records fh' = Function.update (records fh) rid
      (if P'.bitmap rid.slotNo.toNat then some (fh.fileHdr.copyRecord (P'.slots rid.slotNo.toNat))
        else none) := by
  funext r
  by_cases hr : r = rid
  · subst hr
    have hS' : Slot fh' r := by simpa only [Slot, hn, hnp] using hS
    simp only [records, Live, IsSet, hS', true_and, hfd, hc, Function.update_same,
      RmFileHdr.copyRecord_congr hrs]
  · rw [Function.update_noteq hr]
    exact records_of_write hfd hn hrs hnp hc hoff hS.2.2.1 hr

/-- `insert_record(buf)` raises and leaves the map as it was, or puts the record it copied at a rid
off the map and changes no other entry. -/
theorem insertRecord_records {fh : RmFileHandle} (hI : FileInv fh) (buf : List UInt8) :
    (∃ e, (fh.insertRecord buf fh.fileHdr.numPages).1 = .error e ∧
      records (fh.insertRecord buf fh.fileHdr.numPages).2 = records fh) ∨
    ∃ rid, (fh.insertRecord buf fh.fileHdr.numPages).1 = .ok rid ∧ records fh rid = none ∧
      records (fh.insertRecord buf fh.fileHdr.numPages).2 =
        Function.update (records fh) rid (some (fh.fileHdr.copyRecord buf)) := by
  obtain ⟨hb, ⟨hn', hrs⟩, hres⟩ :=
    insertRecord_spec hI.coh hI.alloc_valid hI.alloc_fresh hI.capacity buf
  rcases hres with ⟨e, he, hhdr, hc⟩ | ⟨rid, P, hok, hs0, hsn, hsb, hc, hcase⟩
  · exact .inl ⟨e, he, SameFile.records_eq ⟨hb.fd, hhdr, hc⟩⟩
  refine .inr ?_
  set fh' := (fh.insertRecord buf fh.fileHdr.numPages).2
  rcases hcase with ⟨-, -, rfl, hlo, hhi, hnp⟩ | ⟨-, hpid, rfl, hnp⟩
  · -- the head of the free-page list: a clear slot of a data page
    refine ⟨rid, hok, ?_, ?_⟩
    · rw [records, if_neg fun h => Bool.false_ne_true (hsb.symm.trans h.2)]
    rw [records_of_write_at hb.fd hn' hrs hnp hc
      (fun j hj => ⟨Function.update_noteq hj _ _, Function.update_noteq hj _ _⟩)
      ⟨by simp only [rmFileHdrPage, rmFirstRecordPage] at hlo ⊢; omega, hhi, hs0, hsn⟩]
    simp [Bitmap.set]
  · -- a new page: the file grows by page `num_pages`, whose other slots are clear
    have hnp' : fh'.fileHdr.numPages = fh.fileHdr.numPages + 1 := by rw [hnp, if_pos le_rfl]
    have hoff : ∀ r : Rid, r.pageNo = rid.pageNo → records fh r = none := fun r hp => by
      rw [records, if_neg fun h => by have := h.1.2.1; omega]
    refine ⟨rid, hok, hoff rid rfl, funext fun r => ?_⟩
    by_cases hr : r = rid
    · rw [hr, Function.update_same]
      have hL' : Live fh' rid := ⟨⟨by have := hI.numPages; simp only [rmFirstRecordPage]; omega,
        by omega, hs0, by rw [hn']; exact hsn⟩, by simp [IsSet, hb.fd, hc, Bitmap.set]⟩
      simp [records, if_pos hL', hb.fd, hc, RmFileHdr.copyRecord_congr hrs]
    rw [Function.update_noteq hr]
    by_cases hp : r.pageNo = rid.pageNo
    · rw [hoff r hp, records, if_neg]
      rintro ⟨⟨-, -, hr0, -⟩, hset⟩
      simp [IsSet, hb.fd, hc, hp, Function.update_noteq (Rid.slot_toNat_ne hr hp hr0 hs0),
        Bitmap.set, emptyPage, Bitmap.init] at hset
    · have hc' : fh'.bpm.content ⟨fh'.fd, r.pageNo⟩ = fh.bpm.content ⟨fh.fd, r.pageNo⟩ :=
        by rw [hc, hb.fd, Function.update_noteq (by simpa using hp)]
      have hS : Slot fh' r ↔ Slot fh r := by simp only [Slot, hn', hnp']; omega
      simp only [records, Live, IsSet, hS, hc', RmFileHdr.copyRecord_congr hrs]

section
variable {fh : RmFileHandle} (hI : FileInv fh) (hR : Ready fh)
include hI hR

/-- `get_record` returns the map's record, and raises off the map; it changes no record. -/
theorem getRecord_records (rid : Rid) :
    (fh.getRecord rid).1.toOption = records fh rid ∧
      records (fh.getRecord rid).2 = records fh := by
  have hraised := getRecord_raised hI.coh hR rid
  obtain ⟨hb, hhdr, hc, hres⟩ := getRecord_spec hI.coh rid
  refine ⟨?_, SameFile.records_eq ⟨hb.fd, hhdr, hc⟩⟩
  rcases hres with ⟨e, he⟩ | ⟨-, -, hv⟩
  · have hL : ¬ Live fh rid := fun hL => by
      rw [he, ridError_eq_none.2 hL] at hraised; cases hraised
    rw [he, records, if_neg hL]; rfl
  · have hL : Live fh rid := ridError_eq_none.1 (by rw [← hraised, hv]; rfl)
    rw [hv, records, if_pos hL]; rfl

/-- `update_record` succeeds exactly on the map's rids, and puts the record it copied there. -/
theorem updateRecord_records (rid : Rid) (buf : List UInt8) :
    ((fh.updateRecord rid buf).1 = .ok () ↔ Live fh rid) ∧
    records (fh.updateRecord rid buf).2 =
      if Live fh rid then Function.update (records fh) rid (some (fh.fileHdr.copyRecord buf))
      else records fh := by
  have hraised := updateRecord_raised hI.coh hR rid buf
  obtain ⟨hb, hhdr, hres⟩ := updateRecord_spec hI.coh rid buf
  rcases hres with ⟨e, he, hc⟩ | ⟨hok, -, hbit, hc⟩
  · have hL : ¬ Live fh rid := fun hL => by
      rw [he, ridError_eq_none.2 hL] at hraised; cases hraised
    rw [if_neg hL, he]
    exact ⟨iff_of_false (fun h => by cases h) hL, SameFile.records_eq ⟨hb.fd, hhdr, hc⟩⟩
  have hL : Live fh rid := ridError_eq_none.1 (by rw [← hraised, hok]; rfl)
  rw [if_pos hL, records_of_write_at hb.fd (by rw [hhdr]) (by rw [hhdr]) (by rw [hhdr]) hc
    (fun j hj => ⟨rfl, Function.update_noteq hj _ _⟩) hL.1]
  exact ⟨iff_of_true hok hL, by simp [hbit]⟩

/-- `delete_record` succeeds exactly on the map's rids, and removes the record. -/
theorem deleteRecord_records (rid : Rid) :
    ((fh.deleteRecord rid).1 = .ok () ↔ Live fh rid) ∧
    records (fh.deleteRecord rid).2 =
      if Live fh rid then Function.update (records fh) rid none else records fh := by
  have hraised := deleteRecord_raised hI.coh hR rid
  obtain ⟨hb, hres⟩ := deleteRecord_spec hI.coh rid
  rcases hres with ⟨e, he, hhdr, hc⟩ | ⟨hok, -, -, hhdr, hc⟩
  · have hL : ¬ Live fh rid := fun hL => by
      rw [he, ridError_eq_none.2 hL] at hraised; cases hraised
    rw [if_neg hL, he]
    exact ⟨iff_of_false (fun h => by cases h) hL, SameFile.records_eq ⟨hb.fd, hhdr, hc⟩⟩
  have hL : Live fh rid := ridError_eq_none.1 (by rw [← hraised, hok]; rfl)
  have hshape : (fh.deleteRecord rid).2.fileHdr.numRecordsPerPage = fh.fileHdr.numRecordsPerPage ∧
      (fh.deleteRecord rid).2.fileHdr.recordSize = fh.fileHdr.recordSize ∧
      (fh.deleteRecord rid).2.fileHdr.numPages = fh.fileHdr.numPages := by
    rw [hhdr]; split_ifs <;> exact ⟨rfl, rfl, rfl⟩
  rw [if_pos hL, records_of_write_at hb.fd hshape.1 hshape.2.1 hshape.2.2 hc
    (fun j hj => ⟨Function.update_noteq hj _ _, rfl⟩) hL.1]
  exact ⟨iff_of_true hok hL, by simp [Bitmap.reset]⟩

/-- `insert_record(rid, buf)` succeeds exactly on the file's slots, whether or not they hold a
record, and puts the record it copied there. -/
theorem insertRecordAt_records (rid : Rid) (buf : List UInt8) :
    ((fh.insertRecordAt rid buf).1 = .ok () ↔ Slot fh rid) ∧
    records (fh.insertRecordAt rid buf).2 =
      if Slot fh rid then Function.update (records fh) rid (some (fh.fileHdr.copyRecord buf))
      else records fh := by
  have hraised := insertRecordAt_raised hI.coh hR rid buf
  obtain ⟨hb, hhdr, hres⟩ := insertRecordAt_spec hI.coh rid buf
  rcases hres with ⟨e, he, hc⟩ | ⟨hok, -, hc⟩
  · have hS : ¬ Slot fh rid := fun hS => by
      rw [he, ridError_false_eq_none.2 hS] at hraised; cases hraised
    rw [if_neg hS, he]
    exact ⟨iff_of_false (fun h => by cases h) hS, SameFile.records_eq ⟨hb.fd, hhdr, hc⟩⟩
  have hS : Slot fh rid := ridError_false_eq_none.1 (by rw [← hraised, hok]; rfl)
  rw [if_pos hS, records_of_write_at hb.fd (by rw [hhdr]) (by rw [hhdr]) (by rw [hhdr]) hc
    (fun j hj => ⟨Function.update_noteq hj _ _, Function.update_noteq hj _ _⟩) hS]
  exact ⟨iff_of_true hok hS, by simp [Bitmap.set]⟩

end

/-- In every reachable state the record file refines a map from rids to records: `get_record`
returns the map's entry and changes nothing; `insert_record(buf)` raises with the map unchanged or
returns a rid off the map and adds the record there; `insert_record(rid, buf)` succeeds exactly on
the file's slots and puts the record there, over a live one too; `update_record` and
`delete_record` succeed exactly on the map's rids and change that one entry; and the scan's calls
change no record. The record a call stores is the `record_size` bytes it copies from `buf`. -/
theorem records_refine_map {fh : RmFileHandle} (hr : Reachable fh) :
    (∀ rid, (fh.getRecord rid).1.toOption = records fh rid ∧
      records (fh.getRecord rid).2 = records fh) ∧
    (∀ buf, (∃ e, (fh.insertRecord buf fh.fileHdr.numPages).1 = .error e ∧
        records (fh.insertRecord buf fh.fileHdr.numPages).2 = records fh) ∨
      ∃ rid, (fh.insertRecord buf fh.fileHdr.numPages).1 = .ok rid ∧ records fh rid = none ∧
        records (fh.insertRecord buf fh.fileHdr.numPages).2 =
          Function.update (records fh) rid (some (fh.fileHdr.copyRecord buf))) ∧
    (∀ rid buf, ((fh.insertRecordAt rid buf).1 = .ok () ↔ Slot fh rid) ∧
      records (fh.insertRecordAt rid buf).2 =
        if Slot fh rid then Function.update (records fh) rid (some (fh.fileHdr.copyRecord buf))
        else records fh) ∧
    (∀ rid buf, ((fh.updateRecord rid buf).1 = .ok () ↔ (records fh rid).isSome) ∧
      records (fh.updateRecord rid buf).2 =
        if (records fh rid).isSome then
          Function.update (records fh) rid (some (fh.fileHdr.copyRecord buf))
        else records fh) ∧
    (∀ rid, ((fh.deleteRecord rid).1 = .ok () ↔ (records fh rid).isSome) ∧
      records (fh.deleteRecord rid).2 =
        if (records fh rid).isSome then Function.update (records fh) rid none
        else records fh) ∧
    (∀ hasFileHandle, records (RmScan.init hasFileHandle fh).2.2 = records fh) ∧
    ∀ sc : RmScan, records (sc.next fh).2.2 = records fh := by
  have hI := FileInv.of_reachable hr
  refine ⟨getRecord_records hI hr.ready, insertRecord_records hI,
    insertRecordAt_records hI hr.ready, fun rid buf => ?_, fun rid => ?_, fun b => ?_,
    fun sc => (SameFile.of_next hI.coh sc).records_eq⟩
  · simpa only [records_isSome] using updateRecord_records hI hr.ready rid buf
  · simpa only [records_isSome] using deleteRecord_records hI hr.ready rid
  · obtain ⟨hb, hhdr, hc⟩ := RmScan.init_spec hI.coh b
    exact SameFile.records_eq ⟨hb.fd, hhdr, hc⟩

theorem records_refine_map_one_record :
    Reachable oneRecord ∧
    (∀ rid, (oneRecord.getRecord rid).1.toOption = records oneRecord rid ∧
      records (oneRecord.getRecord rid).2 = records oneRecord) ∧
    (∀ buf, (∃ e, (oneRecord.insertRecord buf oneRecord.fileHdr.numPages).1 = .error e ∧
        records (oneRecord.insertRecord buf oneRecord.fileHdr.numPages).2 = records oneRecord) ∨
      ∃ rid, (oneRecord.insertRecord buf oneRecord.fileHdr.numPages).1 = .ok rid ∧
        records oneRecord rid = none ∧
        records (oneRecord.insertRecord buf oneRecord.fileHdr.numPages).2 =
          Function.update (records oneRecord) rid (some (oneRecord.fileHdr.copyRecord buf))) ∧
    (∀ rid buf, ((oneRecord.insertRecordAt rid buf).1 = .ok () ↔ Slot oneRecord rid) ∧
      records (oneRecord.insertRecordAt rid buf).2 =
        if Slot oneRecord rid then
          Function.update (records oneRecord) rid (some (oneRecord.fileHdr.copyRecord buf))
        else records oneRecord) ∧
    (∀ rid buf,
      ((oneRecord.updateRecord rid buf).1 = .ok () ↔ (records oneRecord rid).isSome) ∧
      records (oneRecord.updateRecord rid buf).2 =
        if (records oneRecord rid).isSome then
          Function.update (records oneRecord) rid (some (oneRecord.fileHdr.copyRecord buf))
        else records oneRecord) ∧
    (∀ rid, ((oneRecord.deleteRecord rid).1 = .ok () ↔ (records oneRecord rid).isSome) ∧
      records (oneRecord.deleteRecord rid).2 =
        if (records oneRecord rid).isSome then Function.update (records oneRecord) rid none
        else records oneRecord) ∧
    (∀ hasFileHandle, records (RmScan.init hasFileHandle oneRecord).2.2 = records oneRecord) ∧
    ∀ sc : RmScan, records (sc.next oneRecord).2.2 = records oneRecord :=
  ⟨oneRecord_reachable, records_refine_map oneRecord_reachable⟩

/-! ## Flushing the file -/

/-- In every reachable state, `flush_all_pages(fd)` leaves the file's records on the disk: a pool
of any size started over the flushed disk alone, under the file's header, holds the same
records. -/
theorem records_survive_flush {fh : RmFileHandle} (hr : Reachable fh) (n : Nat) :
    records { fh with bpm := create n (fh.bpm.flushAllPages fh.fd).diskManager } = records fh := by
  have h := (FileInv.of_reachable hr).coh
  have hc : ∀ p, (create n (fh.bpm.flushAllPages fh.fd).diskManager).content ⟨fh.fd, p⟩ =
      fh.bpm.content ⟨fh.fd, p⟩ := fun p => h.flushAllPages_readPage rfl
  funext r
  simp only [records, Live, Slot, IsSet, hc]

theorem records_survive_flush_one_record :
    Reachable oneRecord ∧
    records { oneRecord with
      bpm := create 1 (oneRecord.bpm.flushAllPages oneRecord.fd).diskManager } =
      records oneRecord :=
  ⟨oneRecord_reachable, records_survive_flush oneRecord_reachable 1⟩

/-! ## Inserting never fails -/

/-- The pool can give a frame: a free one, or one the replacer can evict. -/
def Roomy (fh : RmFileHandle) : Prop := fh.bpm.freeList ≠ [] ∨ fh.bpm.replacer.frames ≠ []

instance (fh : RmFileHandle) : Decidable (Roomy fh) := inferInstanceAs (Decidable (_ ∨ _))

/-- The head of a sound free-page list is a data page with fewer records than slots, so its bitmap
has a clear slot (`Counted`). -/
theorem FreeList.head_free {fh : RmFileHandle} {L : List Int} (hI : FileInv fh)
    (hL : FreeList fh L) (hff : fh.fileHdr.firstFreePageNo ≠ rmNoPage) :
    rmFileHdrPage < fh.fileHdr.firstFreePageNo ∧
    fh.fileHdr.firstFreePageNo < fh.fileHdr.numPages ∧
    Bitmap.firstBit false (fh.bpm.content ⟨fh.fd, fh.fileHdr.firstFreePageNo⟩).bitmap
      fh.fileHdr.numRecordsPerPage < fh.fileHdr.numRecordsPerPage ∧
    (fh.pageHdrOf fh.fileHdr.firstFreePageNo).numRecords < fh.fileHdr.numRecordsPerPage := by
  obtain ⟨L', hL', -⟩ := hL.chain.eq_cons hff
  have hp : fh.fileHdr.firstFreePageNo ∈ L := hL' ▸ List.mem_cons_self _ _
  have hnf := hL.notFull _ hp
  have hdp := hL.dataPage _ hp
  have hlo : rmFileHdrPage < fh.fileHdr.firstFreePageNo := by
    simp only [rmFileHdrPage, rmFirstRecordPage] at hdp ⊢; omega
  have hcount := hI.counted _ hlo hdp.2
  unfold pageHdrOf at hnf
  unfold Counted at hcount
  exact ⟨hlo, hdp.2, Bitmap.firstBit_false_lt (by omega), hnf⟩

/-- With an empty free-page list and no frame to give, `insert_record(buf)` raises the error of
`create_new_page_handle` and changes nothing. -/
theorem insertRecord_of_no_frame {fh : RmFileHandle} (hff : fh.fileHdr.firstFreePageNo = rmNoPage)
    (hno : ¬ Roomy fh) (buf : List UInt8) (alloc : Int) :
    fh.insertRecord buf alloc = (.error (.rmdbError
      ("Failed to create a new page in buffer pool for fd " ++ toString fh.fd)), fh) := by
  have hv : fh.bpm.findVictimPage = none :=
    findVictimPage_eq_none_iff.2 (by unfold Roomy at hno; tauto)
  simp [insertRecord, createPageHandle, createNewPageHandle, hff, BufferPoolManager.newPage, hv]

section
variable {fh : RmFileHandle} {L : List Int} (hI : FileInv fh) (hR : Ready fh)
include hI hR

/-- A call keeps a frame to give: it leaves the pool as it was, or caches an unpinned data page,
whose frame the replacer then holds. -/
theorem Roomy.run (hroom : Roomy fh) (c : RmCall) : Roomy (c.run fh).2 := by
  obtain ⟨hb, -⟩ := hI.run_balanced c
  rcases hI.run_caches c with he | ⟨p, f, hp, hf⟩
  · rw [he]; exact hroom
  · rw [← hb.fd] at hf
    exact .inr (frames_ne_nil_of_lookup hb.coh.pool hf ((hR.run hI c).unpinned p hp))

/-- `insert_record(buf)` succeeds when the free-page list's head, if there is one, is a data page
whose first clear bit is a slot and that holds fewer records than slots, and otherwise the pool can
give a frame for a new page. -/
theorem insertRecord_ok_of
    (hhead : fh.fileHdr.firstFreePageNo ≠ rmNoPage →
      rmFileHdrPage < fh.fileHdr.firstFreePageNo ∧
      fh.fileHdr.firstFreePageNo < fh.fileHdr.numPages ∧
      Bitmap.firstBit false (fh.bpm.content ⟨fh.fd, fh.fileHdr.firstFreePageNo⟩).bitmap
        fh.fileHdr.numRecordsPerPage < fh.fileHdr.numRecordsPerPage ∧
      (fh.pageHdrOf fh.fileHdr.firstFreePageNo).numRecords < fh.fileHdr.numRecordsPerPage)
    (hnew : fh.fileHdr.firstFreePageNo = rmNoPage → Roomy fh) (buf : List UInt8) :
    ∃ rid, (fh.insertRecord buf fh.fileHdr.numPages).1 = .ok rid := by
  rcases createPageHandle_spec hI.coh hI.alloc_valid hI.alloc_fresh with
    ⟨e, he⟩ | ⟨f, fh1, pid, he, hH, hn1, -, hcase⟩
  · exfalso
    unfold createPageHandle at he
    split_ifs at he with hff
    · obtain ⟨hlo, hhi, -⟩ := hhead hff
      rcases fetchPageHandle_of_ready hI.coh hR fh.fileHdr.firstFreePageNo with
        ⟨hp, -⟩ | ⟨-, f, fh', he', -⟩
      · omega
      · rw [he'] at he; cases he
    · have hs := newPage_isSome (hnew (not_not.1 hff)) fh.fd hI.alloc_valid
      unfold createNewPageHandle at he
      split at he
      · rename_i heq; rw [heq] at hs; cases hs
      · cases he
  have hfree : Bitmap.firstBit false (fh1.page f).bitmap fh1.fileHdr.numRecordsPerPage <
        fh1.fileHdr.numRecordsPerPage ∧
      (fh1.page f).pageHdr.numRecords < fh1.fileHdr.numRecordsPerPage := by
    rw [hH.page, hn1]
    rcases hcase with ⟨hff, rfl, -, hm, -⟩ | ⟨-, rfl, hm, -⟩
    · rw [hm]; exact (hhead hff).2.2
    · rw [hm, emptyPage, Bitmap.firstBit_false_init _ hI.capacity]
      exact ⟨hI.capacity, hI.capacity⟩
  rw [insertRecord, he]
  exact ⟨_, by dsimp only; rw [if_neg (by omega)]⟩

end

theorem Reached.runAll_roomy {fh : RmFileHandle} (hr : Reached fh) (hroom : Roomy fh) :
    ∀ cs : List RmCall, (∀ c ∈ cs, c.positional = false) →
      Reached (Rmdb.runAll cs fh) ∧ Roomy (Rmdb.runAll cs fh)
  | [], _ => ⟨hr, hroom⟩
  | c :: cs, h => (Reached.step c (h c (List.mem_cons_self _ _)) hr).runAll_roomy
      (Roomy.run (FileInv.of_reachable hr.reachable) hr.reachable.ready hroom c) cs
      fun c' hc' => h c' (List.mem_cons_of_mem _ hc')

/-- Along every run of calls other than `insert_record(rid, buf)` from a fresh file whose pool can
give a frame, `insert_record(buf)` never raises: the free-page list stays sound and the pool keeps
a frame to give. -/
theorem insertRecord_never_fails {fh : RmFileHandle} (h : Fresh fh) (hroom : Roomy fh)
    (cs : List RmCall) (hcs : ∀ c ∈ cs, c.positional = false) (buf : List UInt8) :
    ∃ rid, ((runAll cs fh).insertRecord buf (runAll cs fh).fileHdr.numPages).1 = .ok rid := by
  obtain ⟨hr, hroom'⟩ := (Reached.fresh h).runAll_roomy hroom cs hcs
  obtain ⟨L, hL⟩ := FreeList.of_reached hr
  have hI := FileInv.of_reachable hr.reachable
  exact insertRecord_ok_of hI hr.reachable.ready (hL.head_free hI) (fun _ => hroom') buf

/-- A file of one slot a page: an insert, the delete of its record and a second insert, then
another insert. -/
theorem insertRecord_never_fails_after_delete :
    Fresh (freshFile 1) ∧ Roomy (freshFile 1) ∧
    (∀ c ∈ [RmCall.insertRecord [1], .deleteRecord ⟨1, 0⟩, .insertRecord [2]],
      c.positional = false) ∧
    ∃ rid, ((runAll [.insertRecord [1], .deleteRecord ⟨1, 0⟩, .insertRecord [2]]
        (freshFile 1)).insertRecord [3] (runAll [.insertRecord [1], .deleteRecord ⟨1, 0⟩,
          .insertRecord [2]] (freshFile 1)).fileHdr.numPages).1 = .ok rid :=
  have h := freshFile_fresh (by decide)
  have hroom : Roomy (freshFile 1) := by decide
  have hcs : ∀ c ∈ [RmCall.insertRecord [1], .deleteRecord ⟨1, 0⟩, .insertRecord [2]],
      c.positional = false := by decide
  ⟨h, hroom, hcs, insertRecord_never_fails h hroom _ hcs _⟩

/-- Along runs with no positional insert from a fresh file, `insert_record(buf)` raises exactly
when the free-page list is empty and the pool has no frame for a new page, and then with the error
of `create_new_page_handle`, which names the file's descriptor. -/
theorem insertRecord_raises_iff {fh : RmFileHandle} (hr : Reached fh) (buf : List UInt8)
    (e : RmError) :
    (fh.insertRecord buf fh.fileHdr.numPages).1 = .error e ↔
      fh.fileHdr.firstFreePageNo = rmNoPage ∧ ¬ Roomy fh ∧
      e = .rmdbError ("Failed to create a new page in buffer pool for fd " ++ toString fh.fd) := by
  have hI := FileInv.of_reachable hr.reachable
  obtain ⟨L, hL⟩ := FreeList.of_reached hr
  refine ⟨fun he => ?_, fun ⟨hff, hno, he⟩ => by rw [insertRecord_of_no_frame hff hno, he]⟩
  by_cases hc : fh.fileHdr.firstFreePageNo = rmNoPage ∧ ¬ Roomy fh
  · rw [insertRecord_of_no_frame hc.1 hc.2] at he
    cases he
    exact ⟨hc.1, hc.2, rfl⟩
  · obtain ⟨rid, hok⟩ := insertRecord_ok_of hI hr.reachable.ready (hL.head_free hI)
      (fun hff => not_not.1 fun hno => hc ⟨hff, hno⟩) buf
    rw [he] at hok; cases hok

/-- `freshFile 1` on a pool whose one frame another client holds, pinned on page 1 of file 5. -/
def heldFrameFile : RmFileHandle :=
  { freshFile 1 with bpm := ((freshFile 1).bpm.fetchPage ⟨5, 1⟩).2 }

/-- On `heldFrameFile`, after an insert and a get that both raise, `insert_record(buf)` raises for
want of a frame. -/
theorem insertRecord_raises_iff_held_frame :
    let fh := runAll [.insertRecord [1], .getRecord ⟨1, 0⟩] heldFrameFile
    Reached fh ∧
    (fh.insertRecord [2] fh.fileHdr.numPages).1 =
      .error (.rmdbError ("Failed to create a new page in buffer pool for fd " ++ toString fh.fd)) ∧
    ((fh.insertRecord [2] fh.fileHdr.numPages).1 =
        .error (.rmdbError ("Failed to create a new page in buffer pool for fd " ++
          toString fh.fd)) ↔
      fh.fileHdr.firstFreePageNo = rmNoPage ∧ ¬ Roomy fh ∧
      RmError.rmdbError ("Failed to create a new page in buffer pool for fd " ++ toString fh.fd) =
        .rmdbError ("Failed to create a new page in buffer pool for fd " ++ toString fh.fd)) :=
  have htable : heldFrameFile.bpm.pageTable = [(⟨5, 1⟩, 0)] := by decide
  have hf : Fresh heldFrameFile :=
    ⟨CohInv.of_reachable (Tracked.Reachable.step (.call (.fetchPage ⟨5, 1⟩))
        (Tracked.Reachable.init (PoolInit.create (D := RmPage) 1 _)) (by decide) trivial),
      rfl, rfl, by decide, fun q hq _ => Table.lookup_eq_none.2 fun v hm => by
        rw [htable, List.mem_singleton] at hm
        cases hm
        cases hq⟩
  have hr : Reached (runAll [.insertRecord [1], .getRecord ⟨1, 0⟩] heldFrameFile) :=
    (Reached.fresh hf).runAll _ (by decide)
  ⟨hr, rfl, insertRecord_raises_iff hr [2] _⟩

/-! ## Reusing a freed slot -/

/-- A delete on a full page makes the page the head of the free-page list, with one record fewer
and the deleted slot its only clear slot. -/
theorem deleteRecord_of_full {fh : RmFileHandle} (hI : FileInv fh) (hR : Ready fh) {rid : Rid}
    (hL : Live fh rid) (hfull : (fh.bpm.content ⟨fh.fd, rid.pageNo⟩).pageHdr.numRecords =
      fh.fileHdr.numRecordsPerPage) :
    (fh.deleteRecord rid).2.fileHdr = { fh.fileHdr with firstFreePageNo := rid.pageNo } ∧
    ((fh.deleteRecord rid).2.pageHdrOf rid.pageNo).numRecords = fh.fileHdr.numRecordsPerPage - 1 ∧
    ∀ j : Nat, (j : Int) < fh.fileHdr.numRecordsPerPage →
      (((fh.deleteRecord rid).2.bpm.content ⟨(fh.deleteRecord rid).2.fd, rid.pageNo⟩).bitmap j =
        false ↔ j = rid.slotNo.toNat) := by
  obtain ⟨hb, hres⟩ := deleteRecord_spec hI.coh rid
  rcases hres with ⟨e, he, -⟩ | ⟨-, -, -, hhdr, hc⟩
  · have := (deleteRecord_records hI hR rid).1.2 hL
    rw [he] at this; cases this
  dsimp only at hhdr hc
  rw [if_pos hfull] at hhdr hc
  obtain ⟨⟨hlo, hhi, -, -⟩, -⟩ := hL
  have hcount := hI.counted rid.pageNo
    (by simp only [rmFileHdrPage, rmFirstRecordPage] at hlo ⊢; omega) hhi
  unfold Counted at hcount
  have hall : ∀ i < fh.fileHdr.numRecordsPerPage.toNat,
      (fh.bpm.content ⟨fh.fd, rid.pageNo⟩).bitmap i = true :=
    Bitmap.count_eq_self (by have := hI.capacity; omega)
  refine ⟨hhdr, by simp only [pageHdrOf, hb.fd, hc, Function.update_same]; omega,
    fun j hj => ?_⟩
  rw [hb.fd, hc, Function.update_same]
  by_cases hjs : j = rid.slotNo.toNat
  · subst hjs; simp [Bitmap.reset]
  · simp [Bitmap.reset, Function.update_noteq hjs, hall j (by omega), hjs]

/-- A delete on a full page puts the page at the head of the free-page list with the deleted slot
its only clear one, so the next `insert_record(buf)` returns the deleted rid. -/
theorem delete_then_insert_reuses_slot {fh : RmFileHandle} (hr : Reachable fh) {rid : Rid}
    (hL : Live fh rid) (hfull : (fh.bpm.content ⟨fh.fd, rid.pageNo⟩).pageHdr.numRecords =
      fh.fileHdr.numRecordsPerPage) (buf : List UInt8) :
    ((fh.deleteRecord rid).2.insertRecord buf (fh.deleteRecord rid).2.fileHdr.numPages).1 =
      .ok rid := by
  have hr1 : Reachable (fh.deleteRecord rid).2 := .step (.deleteRecord rid) hr
  have hI1 := FileInv.of_reachable hr1
  obtain ⟨hhdr, hrec, hbits⟩ := deleteRecord_of_full (FileInv.of_reachable hr) hr.ready hL hfull
  obtain ⟨⟨hlo, hhi, hs0, hsn⟩, -⟩ := hL
  set fh1 := (fh.deleteRecord rid).2
  have hff : fh1.fileHdr.firstFreePageNo = rid.pageNo := by rw [hhdr]
  have hn : fh1.fileHdr.numRecordsPerPage = fh.fileHdr.numRecordsPerPage := by rw [hhdr]
  obtain ⟨rid', hok⟩ := insertRecord_ok_of hI1 hr1.ready (fun _ => by
      rw [hff, hn, Bitmap.firstBit_false_eq (s := rid.slotNo.toNat) (by omega)
        ((hbits _ (by omega)).2 rfl) fun j hj hne => by simpa using mt (hbits j hj).1 hne]
      refine ⟨by simp only [rmFileHdrPage, rmFirstRecordPage] at hlo ⊢; omega,
        by rw [hhdr]; exact hhi, by omega, by omega⟩)
    (fun h => by rw [hff] at h; simp only [rmNoPage, rmFirstRecordPage] at h hlo; omega) buf
  obtain ⟨-, -, hres⟩ :=
    insertRecord_spec hI1.coh hI1.alloc_valid hI1.alloc_fresh hI1.capacity buf
  rcases hres with ⟨e, he, -⟩ | ⟨r, P, hok', hr0, hrn, hsb, -, hcase⟩
  · rw [he] at hok; cases hok
  rcases hcase with ⟨-, hpage, rfl, -⟩ | ⟨hnone, -⟩
  · -- the head page's only clear slot is the deleted one
    rw [hpage, hff] at hsb
    have hslot := (hbits _ (by omega)).1 hsb
    rw [hok', Rid.ext_of (hpage.trans hff) (by omega)]
  · rw [hff] at hnone; simp only [rmNoPage, rmFirstRecordPage] at hnone hlo; omega

/-- `freshFile 1` after one insert: page 1 is full. -/
def fullPage : RmFileHandle := runAll [.insertRecord [1]] (freshFile 1)

theorem delete_then_insert_reuses_slot_full_page :
    Reachable fullPage ∧ Live fullPage ⟨1, 0⟩ ∧
    (fullPage.bpm.content ⟨fullPage.fd, 1⟩).pageHdr.numRecords =
      fullPage.fileHdr.numRecordsPerPage ∧
    ((fullPage.deleteRecord ⟨1, 0⟩).2.insertRecord [2]
      (fullPage.deleteRecord ⟨1, 0⟩).2.fileHdr.numPages).1 = .ok ⟨1, 0⟩ :=
  have hr : Reachable fullPage := (freshFile_reachable (by decide)).runAll _
  have hL : Live fullPage ⟨1, 0⟩ := by decide
  have hfull : (fullPage.bpm.content ⟨fullPage.fd, 1⟩).pageHdr.numRecords =
      fullPage.fileHdr.numRecordsPerPage := by decide
  ⟨hr, hL, hfull, delete_then_insert_reuses_slot hr hL hfull [2]⟩

/-! ## A stored record stays -/

/-- Whether a call writes the record at `rid`: `insert_record(rid, buf)`, `update_record` or
`delete_record` on `rid`. -/
def RmCall.writes : RmCall → Rid → Bool
  | .insertRecordAt r _, rid => decide (r = rid)
  | .updateRecord r _, rid => decide (r = rid)
  | .deleteRecord r, rid => decide (r = rid)
  | _, _ => false

section
variable {fh : RmFileHandle} (hI : FileInv fh) (hR : Ready fh)
include hI hR

/-- A call that writes no record at `rid` leaves the record stored there: an `insert_record(buf)`
takes a rid off the map. -/
theorem RmCall.records_run {rid : Rid} (hl : (records fh rid).isSome) :
    ∀ c : RmCall, c.writes rid = false → records (c.run fh).2 rid = records fh rid
  | .getRecord r, _ => congrFun (getRecord_records hI hR r).2 rid
  | .insertRecord buf, _ => by
    rcases insertRecord_records hI buf with ⟨e, -, he⟩ | ⟨r, -, hr, he⟩
    · exact congrFun he rid
    · show records (fh.insertRecord buf fh.fileHdr.numPages).2 rid = _
      rw [he, Function.update_noteq]
      rintro rfl
      rw [hr] at hl; cases hl
  | .insertRecordAt r buf, hw => by
    have hne : rid ≠ r := fun h => by simp [RmCall.writes, h] at hw
    show records (fh.insertRecordAt r buf).2 rid = _
    rw [(insertRecordAt_records hI hR r buf).2]
    split_ifs <;> simp [Function.update_noteq hne]
  | .deleteRecord r, hw => by
    have hne : rid ≠ r := fun h => by simp [RmCall.writes, h] at hw
    show records (fh.deleteRecord r).2 rid = _
    rw [(deleteRecord_records hI hR r).2]
    split_ifs <;> simp [Function.update_noteq hne]
  | .updateRecord r buf, hw => by
    have hne : rid ≠ r := fun h => by simp [RmCall.writes, h] at hw
    show records (fh.updateRecord r buf).2 rid = _
    rw [(updateRecord_records hI hR r buf).2]
    split_ifs <;> simp [Function.update_noteq hne]
  | .scanInit hasFileHandle, _ =>
    have hs := RmScan.init_spec hI.coh hasFileHandle
    congrFun (SameFile.records_eq ⟨hs.1.fd, hs.2⟩) rid
  | .scanNext sc, _ => congrFun (SameFile.of_next hI.coh sc).records_eq rid

end

/-- Along a run of calls that write no record at `rid`, the record stored at `rid` stays. -/
theorem records_runAll_of_live {fh : RmFileHandle} (hr : Reachable fh) {rid : Rid}
    (hl : (records fh rid).isSome) : ∀ cs : List RmCall, (∀ c ∈ cs, c.writes rid = false) →
      records (runAll cs fh) rid = records fh rid
  | [], _ => rfl
  | c :: cs, hcs => by
    have hc := RmCall.records_run (FileInv.of_reachable hr) hr.ready hl c
      (hcs c (List.mem_cons_self _ _))
    rw [runAll, records_runAll_of_live (.step c hr) (hc ▸ hl) cs
      fun c' h' => hcs c' (List.mem_cons_of_mem _ h'), hc]

/-- A record that `insert_record(buf)` stores, the `record_size` bytes it copies from `buf`, stays
byte for byte through every run of calls that write no record at its rid, and `get_record` then
returns it. -/
theorem inserted_record_persists {fh : RmFileHandle} (hr : Reachable fh) {buf : List UInt8}
    {rid : Rid} (hok : (fh.insertRecord buf fh.fileHdr.numPages).1 = .ok rid) (cs : List RmCall)
    (hcs : ∀ c ∈ cs, c.writes rid = false) :
    ((runAll cs (fh.insertRecord buf fh.fileHdr.numPages).2).getRecord rid).1 =
      .ok (fh.fileHdr.copyRecord buf) := by
  have hr1 : Reachable (fh.insertRecord buf fh.fileHdr.numPages).2 := .step (.insertRecord buf) hr
  have h1 : records (fh.insertRecord buf fh.fileHdr.numPages).2 rid =
      some (fh.fileHdr.copyRecord buf) := by
    rcases insertRecord_records (FileInv.of_reachable hr) buf with ⟨e, he, -⟩ | ⟨r, hr', -, hm⟩
    · rw [hok] at he; cases he
    · rw [hok] at hr'; cases hr'
      rw [hm, Function.update_same]
  have hr2 := hr1.runAll cs
  have h2 := (getRecord_records (FileInv.of_reachable hr2) hr2.ready rid).1
  rw [records_runAll_of_live hr1 (by rw [h1]; rfl) cs hcs, h1] at h2
  revert h2
  cases ((runAll cs (fh.insertRecord buf fh.fileHdr.numPages).2).getRecord rid).1 <;>
    simp [Except.toOption]

/-- `freshFile 2`: record `[7]` at `(1, 0)` stays through an insert, the delete of the record after
it, an update that then fails, and a scan. -/
theorem inserted_record_persists_fresh :
    let cs : List RmCall := [.insertRecord [8], .deleteRecord ⟨1, 1⟩, .updateRecord ⟨1, 1⟩ [9],
      .scanInit true]
    Reachable (freshFile 2) ∧
    ((freshFile 2).insertRecord [7] (freshFile 2).fileHdr.numPages).1 = .ok ⟨1, 0⟩ ∧
    (∀ c ∈ cs, c.writes ⟨1, 0⟩ = false) ∧
    ((runAll cs ((freshFile 2).insertRecord [7] (freshFile 2).fileHdr.numPages).2).getRecord
      ⟨1, 0⟩).1 = .ok [7] :=
  have hr : Reachable (freshFile 2) := freshFile_reachable (by decide)
  have hok : ((freshFile 2).insertRecord [7] (freshFile 2).fileHdr.numPages).1 = .ok ⟨1, 0⟩ := rfl
  have hcs : ∀ c ∈ ([.insertRecord [8], .deleteRecord ⟨1, 1⟩, .updateRecord ⟨1, 1⟩ [9],
      .scanInit true] : List RmCall), c.writes ⟨1, 0⟩ = false := by decide
  ⟨hr, hok, hcs, inserted_record_persists hr hok _ hcs⟩

end Rmdb
