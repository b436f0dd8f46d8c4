import Rmdb.Record.Proof.Handle

/-!
# The record file's invariant

A record file is driven by the calls of its interface (`RmCall`): the record operations of
`RmFileHandle` and the two of `RmScan`. `allocate_page` hands out the file's pages in order, so
the page `create_new_page_handle` makes is page `num_pages`. From a freshly created file
(`Fresh`), every state the calls reach (`Reachable`) keeps `FileInv`: the pool is coherent with
no unreported write, no page of the file at or beyond `num_pages` is cached (so the page that
`allocate_page` gives is fresh), and every data page is `Counted`, its `num_records` the number of
set bits of its bitmap. `FileInv.run` is the step lemma, from the operation specs of
`RmFileHandle`, and `FileInv.of_reachable` the run lemma. `records_counted` states what the count
gives a data page, and `calls_keep_pins` that every call, whether it returns or raises, leaves
every pin count as it was and, when it raises, the header and every page.

`Reachable` is a closed world: after the file is opened, the runs are the calls of this handle
alone, with no call of another client of the pool between them. Other clients may hold frames
when the file is opened (`Fresh` asks only for a coherent pool with no unreported write and no
data page of the file cached), but they make no call afterwards.

The free-page list keeps no such invariant. Short runs from a fresh file (`runAll` from
`freshFile`) show two defects. `create_new_page_handle` does not list the page it makes, and
`insert_record(buf)` lists a page only when a delete frees a slot of a full page: after one insert
page 1 has a free slot off the list, and the next insert makes page 2 (`free_page_off_list`).
`insert_record(rid, buf)`, the positional insert of recovery and undo, fills a slot without the
list's bookkeeping: putting back a deleted record leaves a full page at the head of the list, so
the next `insert_record(buf)` raises "Failed to find a free slot in a supposedly free page."
(`insertRecord_fails_after_undo`), and a second delete links the page to itself
(`freeList_holds_full_page`).
-/

namespace Rmdb

open BufferPoolManager RmFileHandle

/-- A call of the record file's interface: the operations of `RmFileHandle` and of `RmScan`. -/
inductive RmCall
  | getRecord (rid : Rid)
  | insertRecord (buf : List UInt8)
  | insertRecordAt (rid : Rid) (buf : List UInt8)
  | deleteRecord (rid : Rid)
  | updateRecord (rid : Rid) (buf : List UInt8)
  | scanInit (hasFileHandle : Bool)
  | scanNext (sc : RmScan)

namespace RmCall

/-- The error a result carries, if any. -/
def raised {α : Type} : Except RmError α → Option RmError
  | .error e => some e
  | .ok _ => none

/-- A call on `fh`: the error it raised, if any, and the handle after it. `allocate_page` gives
the file's next page, `num_pages`. -/
def run : RmCall → RmFileHandle → Option RmError × RmFileHandle
  | getRecord rid, fh => (raised (fh.getRecord rid).1, (fh.getRecord rid).2)
  | insertRecord buf, fh =>
    (raised (fh.insertRecord buf fh.fileHdr.numPages).1, (fh.insertRecord buf fh.fileHdr.numPages).2)
  | insertRecordAt rid buf, fh =>
    (raised (fh.insertRecordAt rid buf).1, (fh.insertRecordAt rid buf).2)
  | deleteRecord rid, fh => (raised (fh.deleteRecord rid).1, (fh.deleteRecord rid).2)
  | updateRecord rid buf, fh => (raised (fh.updateRecord rid buf).1, (fh.updateRecord rid buf).2)
  | scanInit hasFileHandle, fh => ((RmScan.init hasFileHandle fh).1, (RmScan.init hasFileHandle fh).2.2)
  | scanNext sc, fh => ((sc.next fh).1, (sc.next fh).2.2)

theorem raised_ok {α : Type} {r : Except RmError α} {a : α} (h : r = .ok a) : raised r = none := by
  rw [h]; rfl

end RmCall

/-- A freshly created record file, open on a pool with no unreported write: the header page only,
an empty free-page list, room for a record on a page, and no data page of the file cached. -/
structure Fresh (fh : RmFileHandle) : Prop where
  coh : CohInv fh.bpm fun _ => false
  numPages : fh.fileHdr.numPages = 1
  firstFree : fh.fileHdr.firstFreePageNo = rmNoPage
  capacity : 0 < fh.fileHdr.numRecordsPerPage
  uncached : ∀ q : PageId, q.fd = fh.fd → 1 ≤ q.pageNo → fh.bpm.pageTable.lookup q = none

/-- The states that calls reach from a fresh file. -/
inductive Reachable : RmFileHandle → Prop
  | fresh {fh : RmFileHandle} : Fresh fh → Reachable fh
  | step {fh : RmFileHandle} (c : RmCall) : Reachable fh → Reachable (c.run fh).2

/-- The handle after a sequence of calls. -/
def runAll : List RmCall → RmFileHandle → RmFileHandle
  | [], fh => fh
  | c :: cs, fh => runAll cs (c.run fh).2

theorem Reachable.runAll {fh : RmFileHandle} (hr : Reachable fh) :
    ∀ cs, Reachable (Rmdb.runAll cs fh)
  | [] => hr
  | c :: cs => Reachable.runAll (.step c hr) cs

/-! ## Runs from a fresh file -/

/-- A fresh file of descriptor 0, of one-byte records with room for `n` a page, open on a pool of
one frame over a zeroed disk; the header page on disk holds the header. -/
def freshFile (n : Int) : RmFileHandle :=
  ⟨0, ⟨1, 1, n, rmNoPage⟩, create 1 ⟨fun _ => 0⟩, ⟨1, 1, n, rmNoPage⟩⟩

theorem freshFile_fresh {n : Int} (hn : 0 < n) : Fresh (freshFile n) :=
  ⟨CohInv.of_reachable (Tracked.Reachable.init (PoolInit.create (D := RmPage) 1 _)),
    rfl, rfl, hn, fun _ _ _ => rfl⟩

theorem freshFile_reachable {n : Int} (hn : 0 < n) : Reachable (freshFile n) :=
  .fresh (freshFile_fresh hn)

/-- `freshFile 2` after one `insert_record`. -/
def oneRecord : RmFileHandle := runAll [.insertRecord [7]] (freshFile 2)

theorem oneRecord_reachable : Reachable oneRecord :=
  (freshFile_reachable (by decide)).runAll _

/-- `oneRecord` after a second insert. -/
def twoRecords : RmFileHandle := runAll [.insertRecord [8]] oneRecord

/-- After one insert, page 1 has a free slot and the free-page list is empty; the second insert
makes a second data page for two records that fit on one. -/
theorem free_page_off_list :
    Reachable oneRecord ∧ 1 < oneRecord.fileHdr.numPages ∧
    (oneRecord.bpm.content ⟨0, 1⟩).pageHdr.numRecords < oneRecord.fileHdr.numRecordsPerPage ∧
    oneRecord.fileHdr.firstFreePageNo = rmNoPage ∧
    Reachable twoRecords ∧ twoRecords.fileHdr.numPages = 3 :=
  ⟨oneRecord_reachable, by decide, by decide, by decide, oneRecord_reachable.runAll _, by decide⟩

/-- `freshFile 1` after an insert, the delete of the record and its positional re-insert. -/
def undoneDelete : RmFileHandle :=
  runAll [.insertRecord [1], .deleteRecord ⟨1, 0⟩, .insertRecordAt ⟨1, 0⟩ [1]] (freshFile 1)

theorem undoneDelete_reachable : Reachable undoneDelete :=
  (freshFile_reachable (by decide)).runAll _

/-- After the undo of a delete, `insert_record(buf)` raises its sanity error. -/
theorem insertRecord_fails_after_undo :
    Reachable undoneDelete ∧
    ((RmCall.insertRecord [2]).run undoneDelete).1 =
      some (.rmdbError ("Failed to find a free slot in a supposedly free page.")) :=
  ⟨undoneDelete_reachable, by decide⟩

/-- The same file after a second delete of the record. -/
def deletedTwice : RmFileHandle := runAll [.deleteRecord ⟨1, 0⟩] undoneDelete

/-- The head of the free-page list is a full page; deleting its record again makes the page its
own successor on the list, which then never reaches `RM_NO_PAGE`. -/
theorem freeList_holds_full_page :
    Reachable undoneDelete ∧ undoneDelete.fileHdr.firstFreePageNo = 1 ∧
    (undoneDelete.bpm.content ⟨0, 1⟩).pageHdr.numRecords =
      undoneDelete.fileHdr.numRecordsPerPage ∧
    Reachable deletedTwice ∧ deletedTwice.fileHdr.firstFreePageNo = 1 ∧
    (deletedTwice.bpm.content ⟨0, 1⟩).pageHdr.nextFreePageNo = 1 :=
  ⟨undoneDelete_reachable, by decide, by decide, undoneDelete_reachable.runAll _, by decide,
    by decide⟩

/-- `num_records` of page `P` is the number of set bits of its bitmap in `[0, n)`. -/
def Counted (n : Int) (P : RmPage) : Prop :=
  P.pageHdr.numRecords = Bitmap.count P.bitmap n.toNat

/-- The record file's invariant (module doc). -/
structure FileInv (fh : RmFileHandle) : Prop where
  coh : CohInv fh.bpm fun _ => false
  capacity : 0 < fh.fileHdr.numRecordsPerPage
  numPages : 1 ≤ fh.fileHdr.numPages
  uncached : ∀ q : PageId, q.fd = fh.fd → fh.fileHdr.numPages ≤ q.pageNo →
    fh.bpm.pageTable.lookup q = none
  counted : ∀ p, rmFileHdrPage < p → p < fh.fileHdr.numPages →
    Counted fh.fileHdr.numRecordsPerPage (fh.bpm.content ⟨fh.fd, p⟩)

/-! ## Counted pages -/

namespace Counted

variable {n : Int} {P P' : RmPage}

/-- Changing bit `i < n` to `b`, with the count moved by the change, keeps a page counted. -/
theorem update (h : Counted n P) {i : Nat} (hi : i < n.toNat) {b : Bool}
    (hbm : P'.bitmap = Function.update P.bitmap i b)
    (hn : P'.pageHdr.numRecords + (if P.bitmap i then 1 else 0) =
      P.pageHdr.numRecords + (if b then 1 else 0)) : Counted n P' := by
  have hc := @Bitmap.count_update P.bitmap i b n.toNat hi
  unfold Counted at h ⊢
  rw [hbm]
  split_ifs at hc hn <;> omega

/-- The page `create_new_page_handle` makes has no record and no set bit. -/
theorem emptyPage (n : Int) : Counted n (emptyPage n) := by
  show (0 : Int) = Bitmap.count (Bitmap.init (fun _ => false) n) n.toNat
  rw [Bitmap.count_congr fun i hi =>
    show Bitmap.init (fun _ => false) n i = (fun _ => false) i from if_pos (by omega),
    Bitmap.count_false]
  rfl

/-- What the count gives: `0 ≤ num_records ≤ n`, and fewer records than slots exactly when
`first_bit(false, ..)` finds a clear slot. -/
theorem bounds (h : Counted n P) (hn : 0 < n) :
    0 ≤ P.pageHdr.numRecords ∧ P.pageHdr.numRecords ≤ n ∧
    (P.pageHdr.numRecords < n ↔ Bitmap.firstBit false P.bitmap n < n) := by
  have hle : Bitmap.count P.bitmap n.toNat ≤ n.toNat := Bitmap.count_le _
  unfold Counted at h
  refine ⟨by omega, by omega, ?_⟩
  rw [show P.pageHdr.numRecords < n ↔ Bitmap.count P.bitmap n.toNat < n.toNat by omega,
    Bitmap.count_lt_iff]
  rcases @Bitmap.nextBit_spec false P.bitmap n (-1) (le_refl _) with ⟨he, hall⟩ | ⟨h1, h2, h3, -⟩
  · constructor
    · rintro ⟨i, hi, hbi⟩
      exact absurd hbi (hall i (by omega) (by omega))
    · intro hlt
      exact absurd hlt (by unfold Bitmap.firstBit; omega)
  · exact ⟨fun _ => h2, fun _ => ⟨_, by omega, h3⟩⟩

end Counted

/-! ## The invariant -/

namespace FileInv

variable {fh fh' : RmFileHandle}

theorem of_fresh (h : Fresh fh) : FileInv fh :=
  ⟨h.coh, h.capacity, h.numPages.ge,
    fun q hq hp => h.uncached q hq (by rw [← h.numPages]; exact hp),
    fun p h1 h2 => absurd h2 (by rw [h.numPages]; simp only [rmFileHdrPage] at h1; omega)⟩

/-- A state after a balanced operation that kept the page capacity and did not shrink the file
keeps the invariant once its data pages are counted. -/
theorem of_balanced (hI : FileInv fh) (hb : Balanced fh fh')
    (hn : fh'.fileHdr.numRecordsPerPage = fh.fileHdr.numRecordsPerPage)
    (hp : fh.fileHdr.numPages ≤ fh'.fileHdr.numPages)
    (hc : ∀ p, rmFileHdrPage < p → p < fh'.fileHdr.numPages →
      Counted fh.fileHdr.numRecordsPerPage (fh'.bpm.content ⟨fh.fd, p⟩)) : FileInv fh' := by
  refine ⟨hb.coh, by rw [hn]; exact hI.capacity, by have := hI.numPages; omega,
    fun q hq hge => ?_, by rw [hn, hb.fd]; exact hc⟩
  by_contra hne
  rcases hb.cached q hne with hq' | ⟨-, hlt⟩
  · exact hq' (hI.uncached q (hq.trans hb.fd) (by omega))
  · omega

/-- An operation that changed no page and no header keeps the invariant. -/
theorem of_unchanged (hI : FileInv fh) (hb : Balanced fh fh') (hhdr : fh'.fileHdr = fh.fileHdr)
    (hc : fh'.bpm.content = fh.bpm.content) : FileInv fh' :=
  hI.of_balanced hb (by rw [hhdr]) (by rw [hhdr]) (by rw [hhdr, hc]; exact hI.counted)

/-- Pages below `N` stay counted when only page `p0` of the file changes, to a page counted when
it is a data page, and the pages below `N` other than `p0` are below `num_pages`. -/
theorem counted_update (hI : FileInv fh) {N p0 : Int} {c : PageId → RmPage} {P' : RmPage}
    (hc : c = Function.update fh.bpm.content ⟨fh.fd, p0⟩ P')
    (hN : ∀ p, p < N → p ≠ p0 → p < fh.fileHdr.numPages)
    (hP' : rmFileHdrPage < p0 → p0 < N → Counted fh.fileHdr.numRecordsPerPage P') :
    ∀ p, rmFileHdrPage < p → p < N → Counted fh.fileHdr.numRecordsPerPage (c ⟨fh.fd, p⟩) := by
  intro p h1 h2
  rw [hc]
  by_cases hp : p = p0
  · subst hp
    rw [Function.update_same]
    exact hP' h1 h2
  · rw [Function.update_noteq fun e => hp (congrArg PageId.pageNo e)]
    exact hI.counted p h1 (hN p h2 hp)

/-- The page `allocate_page` gives, `num_pages`, is a valid page number and not cached. -/
theorem alloc_valid (hI : FileInv fh) : fh.fileHdr.numPages ≠ invalidPageId := by
  have := hI.numPages; simp only [invalidPageId]; omega

theorem alloc_fresh (hI : FileInv fh) :
    fh.bpm.pageTable.lookup ⟨fh.fd, fh.fileHdr.numPages⟩ = none :=
  hI.uncached _ rfl (le_refl _)

theorem slot_lt {rid : Rid} (hbad : ¬ fh.badSlot rid.slotNo) :
    rid.slotNo.toNat < fh.fileHdr.numRecordsPerPage.toNat := by
  simp only [badSlot, not_or] at hbad
  omega

/-- Every call keeps the invariant. -/
theorem run (hI : FileInv fh) : ∀ c : RmCall, FileInv (c.run fh).2
  | .getRecord rid => by
    obtain ⟨hb, hhdr, hc, -⟩ := getRecord_spec hI.coh rid
    exact hI.of_unchanged hb hhdr hc
  | .insertRecord buf => by
    obtain ⟨hb, ⟨hn', -⟩, hres⟩ := insertRecord_spec hI.coh hI.alloc_valid hI.alloc_fresh hI.capacity buf
    rcases hres with ⟨-, -, hhdr, hc⟩ | ⟨rid, P, -, hs0, hsn, hsb, hc, hcase⟩
    · exact hI.of_unchanged hb hhdr hc
    · have hP : Counted fh.fileHdr.numRecordsPerPage P := by
        rcases hcase with ⟨-, -, rfl, h1, h2, -⟩ | ⟨-, -, rfl, -⟩
        · exact hI.counted _ h1 h2
        · exact Counted.emptyPage _
      have hP' : Counted fh.fileHdr.numRecordsPerPage
          { P with slots := Function.update P.slots rid.slotNo.toNat buf,
                   bitmap := Bitmap.set P.bitmap rid.slotNo.toNat,
                   pageHdr := { P.pageHdr with numRecords := P.pageHdr.numRecords + 1 } } :=
        hP.update (i := rid.slotNo.toNat) (by omega) (b := true) rfl (by simp [hsb])
      show FileInv (fh.insertRecord buf fh.fileHdr.numPages).2
      rcases hcase with ⟨-, -, -, -, -, hnp⟩ | ⟨-, hpn, -, hnp⟩
      · refine hI.of_balanced hb hn' hnp.ge ?_
        rw [hnp]
        exact hI.counted_update hc (fun p hp _ => hp) fun _ _ => hP'
      · rw [if_pos (le_refl _)] at hnp
        refine hI.of_balanced hb hn' (by omega) ?_
        rw [hnp]
        exact hI.counted_update hc (fun p hp hne => by rw [hpn] at hne; omega) fun _ _ => hP'
  | .insertRecordAt rid buf => by
    obtain ⟨hb, hhdr, hres⟩ := insertRecordAt_spec hI.coh rid buf
    rcases hres with ⟨-, -, hc⟩ | ⟨-, hbad, hc⟩
    · exact hI.of_unchanged hb hhdr hc
    · show FileInv (fh.insertRecordAt rid buf).2
      refine hI.of_balanced hb (by rw [hhdr]) (by rw [hhdr]) ?_
      rw [hhdr]
      exact hI.counted_update hc (fun p hp _ => hp) fun h1 h2 =>
        (hI.counted _ h1 h2).update (slot_lt hbad) (b := true) rfl
          (by dsimp only; rw [if_pos rfl]; split_ifs <;> omega)
  | .deleteRecord rid => by
    obtain ⟨hb, hres⟩ := deleteRecord_spec hI.coh rid
    rcases hres with ⟨-, -, hhdr, hc⟩ | ⟨-, hbad, hbit, hhdr, hc⟩
    · exact hI.of_unchanged hb hhdr hc
    · show FileInv (fh.deleteRecord rid).2
      have hshape : (fh.deleteRecord rid).2.fileHdr.numRecordsPerPage =
            fh.fileHdr.numRecordsPerPage ∧
          (fh.deleteRecord rid).2.fileHdr.numPages = fh.fileHdr.numPages := by
        rw [hhdr]; split_ifs <;> exact ⟨rfl, rfl⟩
      refine hI.of_balanced hb hshape.1 hshape.2.ge ?_
      rw [hshape.2]
      exact hI.counted_update hc (fun p hp _ => hp) fun h1 h2 =>
        (hI.counted _ h1 h2).update (slot_lt hbad) (b := false) rfl (by simp [hbit])
  | .updateRecord rid buf => by
    obtain ⟨hb, hhdr, hres⟩ := updateRecord_spec hI.coh rid buf
    rcases hres with ⟨-, -, hc⟩ | ⟨-, -, -, hc⟩
    · exact hI.of_unchanged hb hhdr hc
    · show FileInv (fh.updateRecord rid buf).2
      refine hI.of_balanced hb (by rw [hhdr]) (by rw [hhdr]) ?_
      rw [hhdr]
      exact hI.counted_update hc (fun p hp _ => hp) fun h1 h2 => hI.counted _ h1 h2
  | .scanInit hasFileHandle => by
    obtain ⟨hb, hhdr, hc⟩ := RmScan.init_spec hI.coh hasFileHandle
    exact hI.of_unchanged hb hhdr hc
  | .scanNext sc => by
    obtain ⟨hb, hhdr, hc⟩ := RmScan.next_spec hI.coh sc
    exact hI.of_unchanged hb hhdr hc

/-- No call changes the number of slots a page. -/
theorem run_slots (hI : FileInv fh) : ∀ c : RmCall,
    (c.run fh).2.fileHdr.numRecordsPerPage = fh.fileHdr.numRecordsPerPage
  | .getRecord rid => congrArg (·.numRecordsPerPage) (getRecord_spec hI.coh rid).2.1
  | .insertRecord buf =>
    (insertRecord_spec hI.coh hI.alloc_valid hI.alloc_fresh hI.capacity buf).2.1.1
  | .insertRecordAt rid buf =>
    congrArg (·.numRecordsPerPage) (insertRecordAt_spec hI.coh rid buf).2.1
  | .deleteRecord rid => by
    show (fh.deleteRecord rid).2.fileHdr.numRecordsPerPage = _
    rcases (deleteRecord_spec hI.coh rid).2 with ⟨-, -, hhdr, -⟩ | ⟨-, -, -, hhdr, -⟩
    · rw [hhdr]
    · rw [hhdr]; split_ifs <;> rfl
  | .updateRecord rid buf => congrArg (·.numRecordsPerPage) (updateRecord_spec hI.coh rid buf).2.1
  | .scanInit b => congrArg (·.numRecordsPerPage) (RmScan.init_spec hI.coh b).2.1
  | .scanNext sc => congrArg (·.numRecordsPerPage) (RmScan.next_spec hI.coh sc).2.1

theorem of_reachable {fh : RmFileHandle} (hr : Reachable fh) : FileInv fh := by
  induction hr with
  | fresh h => exact of_fresh h
  | step c _ ih => exact ih.run c

/-- Every call leaves every pin count as it was, and one that raises also the header and every
page. -/
theorem run_balanced (hI : FileInv fh) : ∀ c : RmCall,
    Balanced fh (c.run fh).2 ∧ ((c.run fh).1.isSome →
      (c.run fh).2.fileHdr = fh.fileHdr ∧ (c.run fh).2.bpm.content = fh.bpm.content)
  | .getRecord rid => by
    obtain ⟨hb, hhdr, hc, -⟩ := getRecord_spec hI.coh rid
    exact ⟨hb, fun _ => ⟨hhdr, hc⟩⟩
  | .insertRecord buf => by
    obtain ⟨hb, -, hres⟩ := insertRecord_spec hI.coh hI.alloc_valid hI.alloc_fresh hI.capacity buf
    refine ⟨hb, fun hr => ?_⟩
    rcases hres with ⟨-, -, hhdr, hc⟩ | ⟨rid, -, hok, -⟩
    · exact ⟨hhdr, hc⟩
    · simp [RmCall.run, RmCall.raised_ok hok] at hr
  | .insertRecordAt rid buf => by
    obtain ⟨hb, hhdr, hres⟩ := insertRecordAt_spec hI.coh rid buf
    refine ⟨hb, fun hr => ⟨hhdr, ?_⟩⟩
    rcases hres with ⟨-, -, hc⟩ | ⟨hok, -⟩
    · exact hc
    · simp [RmCall.run, RmCall.raised_ok hok] at hr
  | .deleteRecord rid => by
    obtain ⟨hb, hres⟩ := deleteRecord_spec hI.coh rid
    refine ⟨hb, fun hr => ?_⟩
    rcases hres with ⟨-, -, hhdr, hc⟩ | ⟨hok, -⟩
    · exact ⟨hhdr, hc⟩
    · simp [RmCall.run, RmCall.raised_ok hok] at hr
  | .updateRecord rid buf => by
    obtain ⟨hb, hhdr, hres⟩ := updateRecord_spec hI.coh rid buf
    refine ⟨hb, fun hr => ⟨hhdr, ?_⟩⟩
    rcases hres with ⟨-, -, hc⟩ | ⟨hok, -⟩
    · exact hc
    · simp [RmCall.run, RmCall.raised_ok hok] at hr
  | .scanInit hasFileHandle => by
    obtain ⟨hb, hhdr, hc⟩ := RmScan.init_spec hI.coh hasFileHandle
    exact ⟨hb, fun _ => ⟨hhdr, hc⟩⟩
  | .scanNext sc => by
    obtain ⟨hb, hhdr, hc⟩ := RmScan.next_spec hI.coh sc
    exact ⟨hb, fun _ => ⟨hhdr, hc⟩⟩

end FileInv

/-! ## The record file's guarantees -/

/-- Every data page of a reachable file has as many records as set bits among the first
`num_records_per_page` bits of its bitmap; so `0 ≤ num_records ≤ num_records_per_page`, and the
page has fewer records than slots exactly when `first_bit(false, ..)` finds a clear slot. -/
theorem records_counted {fh : RmFileHandle} (hr : Reachable fh) (p : Int)
    (h1 : rmFirstRecordPage ≤ p) (h2 : p < fh.fileHdr.numPages) :
    let P := fh.bpm.content ⟨fh.fd, p⟩
    let n := fh.fileHdr.numRecordsPerPage
    P.pageHdr.numRecords = Bitmap.count P.bitmap n.toNat ∧
    0 ≤ P.pageHdr.numRecords ∧ P.pageHdr.numRecords ≤ n ∧
    (P.pageHdr.numRecords < n ↔ Bitmap.firstBit false P.bitmap n < n) := by
  have hI := FileInv.of_reachable hr
  have hc := hI.counted p (by simp only [rmFirstRecordPage, rmFileHdrPage] at h1 ⊢; omega) h2
  exact ⟨hc, hc.bounds hI.capacity⟩

theorem records_counted_one_record :
    Reachable oneRecord ∧ rmFirstRecordPage ≤ 1 ∧ 1 < oneRecord.fileHdr.numPages ∧
    let P := oneRecord.bpm.content ⟨oneRecord.fd, 1⟩
    let n := oneRecord.fileHdr.numRecordsPerPage
    P.pageHdr.numRecords = Bitmap.count P.bitmap n.toNat ∧
    0 ≤ P.pageHdr.numRecords ∧ P.pageHdr.numRecords ≤ n ∧
    (P.pageHdr.numRecords < n ↔ Bitmap.firstBit false P.bitmap n < n) :=
  ⟨oneRecord_reachable, by decide, by decide,
    records_counted oneRecord_reachable 1 (by decide) (by decide)⟩

/-- Every call on a reachable file, whether it returns or raises, leaves the pin count of every
page as it was; one that raises also leaves the file header and every page as they were. -/
theorem calls_keep_pins {fh : RmFileHandle} (hr : Reachable fh) (c : RmCall) :
    (c.run fh).2.bpm.pinOf = fh.bpm.pinOf ∧
    ((c.run fh).1.isSome →
      (c.run fh).2.fileHdr = fh.fileHdr ∧ (c.run fh).2.bpm.content = fh.bpm.content) :=
  have h := (FileInv.of_reachable hr).run_balanced c
  ⟨h.1.pins, h.2⟩

theorem calls_keep_pins_record_not_found :
    Reachable oneRecord ∧ ((RmCall.getRecord ⟨1, 1⟩).run oneRecord).1.isSome ∧
    ((RmCall.getRecord ⟨1, 1⟩).run oneRecord).2.bpm.pinOf = oneRecord.bpm.pinOf ∧
    (((RmCall.getRecord ⟨1, 1⟩).run oneRecord).1.isSome →
      ((RmCall.getRecord ⟨1, 1⟩).run oneRecord).2.fileHdr = oneRecord.fileHdr ∧
      ((RmCall.getRecord ⟨1, 1⟩).run oneRecord).2.bpm.content = oneRecord.bpm.content) :=
  ⟨oneRecord_reachable, by decide, calls_keep_pins oneRecord_reachable _⟩

end Rmdb
