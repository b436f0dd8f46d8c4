import Rmdb.Record.Proof.File
import Rmdb.Storage.Proof.Refusal

/-!
# A reachable file's pool has a frame for its pages

`fetch_page` returns no frame only when the page is not cached, the free list is empty and the
replacer holds no frame (`fetchPage_isSome`). The pool of a reachable record file always has one
once the file has a data page (`Reachable.ready`): every data page is unpinned between calls, and
each call leaves the handle as it was or a data page cached (`Caches`, from `FileInv.run_caches`),
whose frame, unpinned, is then in the replacer (`frames_ne_nil_of_lookup`). So the loop of `next()`
on a reachable file never fails to fetch (`scanPages_ok`), and stays `Ready` after each call
(`Ready.run`).
-/

namespace Rmdb

open BufferPoolManager RmFileHandle

/-! ## What a call leaves in the pool -/

/-- `fh'` is `fh`, or a data page of `fh`'s file is cached in it. -/
def Caches (fh fh' : RmFileHandle) : Prop :=
  fh' = fh ∨ ∃ p f, rmFirstRecordPage ≤ p ∧ fh'.bpm.pageTable.lookup ⟨fh.fd, p⟩ = some f

namespace RmFileHandle

theorem Fetched.caches {fh fh' fh'' : RmFileHandle} {f : Nat} {p : Int}
    (hF : Fetched fh fh' f p) (ht : fh''.bpm.pageTable = fh'.bpm.pageTable) : Caches fh fh'' :=
  .inr ⟨p, f, by have := hF.dataPage.1; simp only [rmFileHdrPage] at this; exact this,
    ht ▸ hF.holding.lookup⟩

section
variable {fh : RmFileHandle} (h : CohInv fh.bpm fun _ => false)
include h

theorem getRecord_caches (rid : Rid) : Caches fh (fh.getRecord rid).2 := by
  unfold getRecord
  rcases fetchPageHandle_spec h rid.pageNo with ⟨e, he⟩ | ⟨f, fh', he, hF⟩ <;> rw [he]
  · exact .inl rfl
  · dsimp only; split_ifs <;> exact hF.caches (by simp)

theorem updateRecord_caches (rid : Rid) (buf : List UInt8) :
    Caches fh (fh.updateRecord rid buf).2 := by
  unfold updateRecord
  rcases fetchPageHandle_spec h rid.pageNo with ⟨e, he⟩ | ⟨f, fh', he, hF⟩ <;> rw [he]
  · exact .inl rfl
  · dsimp only; split_ifs <;> exact hF.caches (by simp)

theorem insertRecordAt_caches (rid : Rid) (buf : List UInt8) :
    Caches fh (fh.insertRecordAt rid buf).2 := by
  unfold insertRecordAt
  rcases fetchPageHandle_spec h rid.pageNo with ⟨e, he⟩ | ⟨f, fh', he, hF⟩ <;> rw [he]
  · exact .inl rfl
  · dsimp only; split_ifs <;> exact hF.caches (by simp)

theorem deleteRecord_caches (rid : Rid) : Caches fh (fh.deleteRecord rid).2 := by
  unfold deleteRecord
  rcases fetchPageHandle_spec h rid.pageNo with ⟨e, he⟩ | ⟨f, fh', he, hF⟩ <;> rw [he]
  · exact .inl rfl
  · dsimp only; split_ifs <;> exact hF.caches (by simp)

theorem insertRecord_caches {alloc : Int} (ha : alloc ≠ invalidPageId) (ha1 : 1 ≤ alloc)
    (hn : fh.bpm.pageTable.lookup ⟨fh.fd, alloc⟩ = none) (buf : List UInt8) :
    Caches fh (fh.insertRecord buf alloc).2 := by
  unfold insertRecord
  rcases createPageHandle_spec h ha hn with ⟨e, he⟩ | ⟨f, fh', pid, he, hH, -, -, hcase⟩ <;>
    rw [he]
  · exact .inl rfl
  obtain ⟨p, hp, rfl⟩ : ∃ p, rmFirstRecordPage ≤ p ∧ pid = ⟨fh.fd, p⟩ := by
    rcases hcase with ⟨-, rfl, -, -, hp, -⟩ | ⟨-, rfl, -⟩
    · exact ⟨_, by simp only [rmFileHdrPage] at hp; exact hp, rfl⟩
    · exact ⟨_, ha1, rfl⟩
  dsimp only
  split_ifs <;> exact .inr ⟨p, f, hp, by simpa using hH.lookup⟩

end

end RmFileHandle

/-- The loop of `next()` leaves the handle as it was or the last page it read cached. -/
theorem RmScan.scanPages_caches (hdr : RmFileHdr) : ∀ k rid (fh : RmFileHandle),
    CohInv fh.bpm (fun _ => false) → Caches fh (RmScan.scanPages hdr k rid fh).2.2
  | 0, _, _, _ => .inl rfl
  | k + 1, rid, fh, h => by
    rw [RmScan.scanPages]
    split_ifs
    · rcases fetchPageHandle_spec h rid.pageNo with ⟨e, he⟩ | ⟨f, fh', he, hF⟩ <;> rw [he]
      · exact .inl rfl
      dsimp only
      obtain ⟨hb, -, -⟩ := hF.abort h false
      split_ifs
      · exact hF.caches (by simp)
      · rcases scanPages_caches hdr k _ _ hb.coh with he' | ⟨p, g, hp, hg⟩
        · exact hF.caches (by rw [he']; simp)
        · exact .inr ⟨p, g, hp, by rw [← hb.fd]; exact hg⟩
    · exact .inl rfl

namespace FileInv

variable {fh : RmFileHandle}

/-- Every call leaves the handle as it was or a data page of the file cached. -/
theorem run_caches (hI : FileInv fh) : ∀ c : RmCall, Caches fh (c.run fh).2
  | .getRecord rid => getRecord_caches hI.coh rid
  | .insertRecord buf => insertRecord_caches hI.coh hI.alloc_valid hI.numPages hI.alloc_fresh buf
  | .insertRecordAt rid buf => insertRecordAt_caches hI.coh rid buf
  | .deleteRecord rid => deleteRecord_caches hI.coh rid
  | .updateRecord rid buf => updateRecord_caches hI.coh rid buf
  | .scanInit b => by
    show Caches fh (RmScan.init b fh).2.2
    unfold RmScan.init RmScan.next
    split_ifs
    · exact .inl rfl
    · exact .inl rfl
    · dsimp only; exact RmScan.scanPages_caches _ _ _ _ hI.coh
  | .scanNext sc => by
    show Caches fh (sc.next fh).2.2
    unfold RmScan.next
    split_ifs
    · exact .inl rfl
    · dsimp only; exact RmScan.scanPages_caches _ _ _ _ hI.coh

end FileInv

/-! ## A frame for every fetch -/

/-- Every data page of the file is unpinned. -/
def DataUnpinned (fh : RmFileHandle) : Prop :=
  ∀ p, rmFirstRecordPage ≤ p → fh.bpm.pinOf ⟨fh.fd, p⟩ = 0

/-- The pool can bring in a page of the file: the data pages are unpinned and, once the file has
one, the replacer holds a frame. -/
structure Ready (fh : RmFileHandle) : Prop where
  unpinned : DataUnpinned fh
  spare : fh.fileHdr.numPages ≤ rmFirstRecordPage ∨ fh.bpm.replacer.frames ≠ []

namespace Ready

variable {fh fh' : RmFileHandle}

/-- A balanced operation that leaves the handle as it was or a data page cached keeps `Ready`. -/
theorem of_caches (hR : Ready fh) (hb : Balanced fh fh') (hc : Caches fh fh') : Ready fh' := by
  have hu : DataUnpinned fh' := fun p hp => by rw [hb.fd, hb.pins]; exact hR.unpinned p hp
  refine ⟨hu, ?_⟩
  rcases hc with rfl | ⟨p, f, hp, hf⟩
  · exact hR.spare
  · rw [← hb.fd] at hf
    exact .inr (frames_ne_nil_of_lookup hb.coh.pool hf (hu p hp))

theorem run (hI : FileInv fh) (hR : Ready fh) (c : RmCall) : Ready (c.run fh).2 :=
  hR.of_caches (hI.run_balanced c).1 (hI.run_caches c)

theorem of_fresh (h : Fresh fh) : Ready fh :=
  ⟨fun p hp => pinOf_of_not_mem (Table.lookup_eq_none.1 (h.uncached ⟨fh.fd, p⟩ rfl hp)),
    .inl h.numPages.le⟩

end Ready

theorem Reachable.ready {fh : RmFileHandle} (hr : Reachable fh) : Ready fh := by
  induction hr with
  | fresh h => exact .of_fresh h
  | step c hr ih => exact ih.run (FileInv.of_reachable hr) c

/-- `fetch_page_handle(page_no)` on a `Ready` file raises `PageNotExistError` off the data pages
and holds any data page. -/
theorem fetchPageHandle_of_ready {fh : RmFileHandle} (h : CohInv fh.bpm fun _ => false)
    (hR : Ready fh) (p : Int) :
    ((p ≤ rmFileHdrPage ∨ p ≥ fh.fileHdr.numPages) ∧
        fh.fetchPageHandle p = (.error (.pageNotExist fh.fd p), fh)) ∨
      (¬(p ≤ rmFileHdrPage ∨ p ≥ fh.fileHdr.numPages) ∧
        ∃ f fh', fh.fetchPageHandle p = (.ok f, fh') ∧ Fetched fh fh' f p) := by
  by_cases hp : p ≤ rmFileHdrPage ∨ p ≥ fh.fileHdr.numPages
  · exact .inl ⟨hp, by rw [fetchPageHandle, if_pos hp]⟩
  refine .inr ⟨hp, ?_⟩
  rcases fetchPageHandle_spec h p with ⟨e, he⟩ | hok
  · have hs : fh.bpm.replacer.frames ≠ [] :=
      hR.spare.resolve_left (by simp only [rmFileHdrPage, rmFirstRecordPage] at hp ⊢; omega)
    unfold fetchPageHandle at he
    rw [if_neg hp] at he
    have := fetchPage_isSome hs ⟨fh.fd, p⟩
    split at he <;> simp_all
  · exact hok

/-- The loop of `next()` on a `Ready` file never fails to fetch. -/
theorem RmScan.scanPages_ok : ∀ k rid (fh : RmFileHandle), CohInv fh.bpm (fun _ => false) →
    Ready fh → (RmScan.scanPages fh.fileHdr k rid fh).1 = none
  | 0, _, _, _, _ => rfl
  | k + 1, rid, fh, h, hR => by
    rw [RmScan.scanPages]
    split_ifs with hr
    · rcases fetchPageHandle_of_ready h hR rid.pageNo with ⟨hp, -⟩ | ⟨-, f, fh', he, hF⟩
      · simp only [rmFileHdrPage, rmFirstRecordPage] at hr hp; omega
      rw [he]
      dsimp only
      obtain ⟨hb, hhdr, -⟩ := hF.abort h false
      split_ifs
      · rfl
      · have := scanPages_ok k ⟨rid.pageNo + 1, -1⟩ _ hb.coh (hR.of_caches hb (hF.caches (by simp)))
        rwa [hhdr] at this
    · rfl

end Rmdb
