import Rmdb.Record.Proof.File

/-!
# The free-page list

`create_page_handle` takes the page at the head of the free-page list, `first_free_page_no`, and
`insert_record(buf)` trusts it to have a free slot. `delete_record` pushes a page it turns from
full to not full (`release_page_handle`), and `insert_record(buf)` pops the head when it fills it
(`insertRecord_firstFree`). `FreeChain fh p L` says that following `next_free_page_no` from page `p`
visits the pages `L` and reaches `RM_NO_PAGE`, so the list is finite. `FreeList fh L` says that
the list from `first_free_page_no` is `L`, with no page twice, and that each page of it is a data
page below `num_pages` that is not full.

The positional insert `insert_record(rid, buf)` fills a slot without the list's bookkeeping and
breaks this (`freeList_holds_full_page`). Every other call keeps it (`FreeList.run`). So in every
state that those calls reach from a fresh file (`Reached`) the list is sound
(`free_list_sound`).

The file grows only through `create_new_page_handle`, which `insert_record(buf)` reaches on an
empty free-page list: along every run from a reachable state the number of slots a page is fixed
and `num_pages` grows by one for each insert that makes a page (`file_grows_by_new_pages`).
-/

namespace Rmdb

open BufferPoolManager RmFileHandle

/-- `insert_record(rid, buf)`, the positional insert of recovery and undo. -/
def RmCall.positional : RmCall → Bool
  | .insertRecordAt _ _ => true
  | _ => false

/-- The states that calls other than `insert_record(rid, buf)` reach from a fresh file. -/
inductive Reached : RmFileHandle → Prop
  | fresh {fh : RmFileHandle} : Fresh fh → Reached fh
  | step {fh : RmFileHandle} (c : RmCall) : c.positional = false → Reached fh →
      Reached (c.run fh).2

theorem Reached.reachable {fh : RmFileHandle} (hr : Reached fh) : Reachable fh := by
  induction hr with
  | fresh h => exact .fresh h
  | step c _ _ ih => exact .step c ih

theorem Reached.runAll {fh : RmFileHandle} (hr : Reached fh) :
    ∀ cs : List RmCall, (∀ c ∈ cs, c.positional = false) → Reached (Rmdb.runAll cs fh)
  | [], _ => hr
  | c :: cs, h => Reached.runAll (.step c (h c (List.mem_cons_self _ _)) hr) cs
      fun c' hc' => h c' (List.mem_cons_of_mem _ hc')

/-- The header of page `p` of `fh`'s file. -/
def RmFileHandle.pageHdrOf (fh : RmFileHandle) (p : Int) : RmPageHdr :=
  (fh.bpm.content ⟨fh.fd, p⟩).pageHdr

/-- Following `next_free_page_no` from page `p` of `fh`'s file visits the pages `L` and then
reaches `RM_NO_PAGE`. -/
inductive FreeChain (fh : RmFileHandle) : Int → List Int → Prop
  | last : FreeChain fh rmNoPage []
  | link {p : Int} {L : List Int} : p ≠ rmNoPage →
      FreeChain fh (fh.pageHdrOf p).nextFreePageNo L → FreeChain fh p (p :: L)

namespace FreeChain

variable {fh fh' : RmFileHandle} {p : Int} {L : List Int}

theorem eq_nil (h : FreeChain fh rmNoPage L) : L = [] := by
  cases h with
  | last => rfl
  | link hp _ => exact absurd rfl hp

theorem eq_cons (h : FreeChain fh p L) (hp : p ≠ rmNoPage) :
    ∃ L', L = p :: L' ∧ FreeChain fh (fh.pageHdrOf p).nextFreePageNo L' := by
  cases h with
  | last => exact absurd rfl hp
  | link _ h' => exact ⟨_, rfl, h'⟩

/-- The list reads only the links of its own pages. -/
theorem congr (h : FreeChain fh p L)
    (hnext : ∀ q ∈ L, (fh'.pageHdrOf q).nextFreePageNo = (fh.pageHdrOf q).nextFreePageNo) :
    FreeChain fh' p L := by
  induction h with
  | last => exact .last
  | link hp _ ih =>
    refine .link hp ?_
    rw [hnext _ (List.mem_cons_self _ _)]
    exact ih fun q hq => hnext q (List.mem_cons_of_mem _ hq)

end FreeChain

/-- The free-page list of `fh` is `L`: it ends, has no page twice, and holds data pages below
`num_pages` that are not full. -/
structure FreeList (fh : RmFileHandle) (L : List Int) : Prop where
  chain : FreeChain fh fh.fileHdr.firstFreePageNo L
  nodup : L.Nodup
  dataPage : ∀ p ∈ L, rmFirstRecordPage ≤ p ∧ p < fh.fileHdr.numPages
  notFull : ∀ p ∈ L, (fh.pageHdrOf p).numRecords < fh.fileHdr.numRecordsPerPage

theorem FreeList.nil {fh : RmFileHandle} (h : fh.fileHdr.firstFreePageNo = rmNoPage) :
    FreeList fh [] :=
  ⟨h ▸ .last, List.nodup_nil, fun _ h => absurd h (List.not_mem_nil _),
    fun _ h => absurd h (List.not_mem_nil _)⟩

/-! ## The head after an insert -/

@[simp] theorem RmFileHandle.unpin_content (fh : RmFileHandle) (f : Nat) (d : Bool) :
    (fh.unpin f d).bpm.content = fh.bpm.content :=
  content_unpinPage _ _

/-- The head of the free-page list after `insert_record(buf)` returned `rid`: the next free page
when the insert filled the page at the head, else as it was. -/
theorem insertRecord_firstFree {fh : RmFileHandle} (h : CohInv fh.bpm fun _ => false)
    {alloc : Int} (ha : alloc ≠ invalidPageId)
    (hn : fh.bpm.pageTable.lookup ⟨fh.fd, alloc⟩ = none) (buf : List UInt8) {rid : Rid}
    (hok : (fh.insertRecord buf alloc).1 = .ok rid) :
    (fh.insertRecord buf alloc).2.fileHdr.firstFreePageNo =
      if ((fh.insertRecord buf alloc).2.pageHdrOf rid.pageNo).numRecords =
          fh.fileHdr.numRecordsPerPage ∧ fh.fileHdr.firstFreePageNo = rid.pageNo then
        ((fh.insertRecord buf alloc).2.pageHdrOf rid.pageNo).nextFreePageNo
      else fh.fileHdr.firstFreePageNo := by
  rcases createPageHandle_spec h ha hn with
    ⟨e, he⟩ | ⟨f, fh1, pid, he, hH, hn1, hff1, hcase⟩
  · rw [insertRecord, he] at hok; cases hok
  obtain ⟨pno, rfl⟩ : ∃ pno, pid = ⟨fh.fd, pno⟩ := by
    rcases hcase with ⟨-, rfl, -⟩ | ⟨-, rfl, -⟩ <;> exact ⟨_, rfl⟩
  rw [insertRecord, he] at hok ⊢
  dsimp only at hok ⊢
  by_cases hc : Bitmap.firstBit false (fh1.page f).bitmap fh1.fileHdr.numRecordsPerPage =
        fh1.fileHdr.numRecordsPerPage ∨
      (fh1.page f).pageHdr.numRecords ≥ fh1.fileHdr.numRecordsPerPage
  · rw [if_pos hc] at hok; cases hok
  rw [if_neg hc] at hok ⊢
  -- Whatever the write, the frame holds page `pno`.
  have key : ∀ g, (((fh1.write f g).markDirty f).bpm.pages f).id = ⟨fh.fd, pno⟩ ∧
      ((fh1.write f g).markDirty f).page f =
        ((fh1.write f g).markDirty f).bpm.content ⟨fh.fd, pno⟩ :=
    fun g => have hH2 := ((hH.write h g).1.markDirty h).1; ⟨hH2.id, hH2.page⟩
  have hfd : fh1.fd = fh.fd := hH.fd
  split_ifs at hok ⊢ with h1 h2 <;> cases hok <;>
    simp only [pageHdrOf, unpin_content, unpin_fd, markDirty_fd, write_fd, markDirty_fileHdr,
      write_fileHdr, unpin_fileHdr, writeFileHdr_fd, writeFileHdr_fileHdr, writeFileHdr_bpm, key,
      hfd, hn1, hff1] at *
  all_goals tauto

/-- `delete_record` succeeds only on a data page. -/
theorem deleteRecord_dataPage {fh : RmFileHandle} (h : CohInv fh.bpm fun _ => false) {rid : Rid}
    (hok : (fh.deleteRecord rid).1 = .ok ()) :
    rmFileHdrPage < rid.pageNo ∧ rid.pageNo < fh.fileHdr.numPages := by
  rcases fetchPageHandle_spec h rid.pageNo with ⟨e, he⟩ | ⟨f, fh', he, hF⟩
  · rw [deleteRecord, he] at hok; cases hok
  · exact hF.dataPage

/-- The page headers after a call that changed page `q` only. -/
theorem RmFileHandle.pageHdrOf_of_update {fh fh' : RmFileHandle} {q : Int} {P : RmPage}
    (hfd : fh'.fd = fh.fd) (hc : fh'.bpm.content = Function.update fh.bpm.content ⟨fh.fd, q⟩ P)
    (p : Int) : fh'.pageHdrOf p = if p = q then P.pageHdr else fh.pageHdrOf p := by
  simp only [pageHdrOf, hfd, hc, Function.update_apply, PageId.mk.injEq, true_and]
  split_ifs <;> rfl

/-! ## The list under each call -/

namespace FreeList

variable {fh fh' : RmFileHandle} {L : List Int}

/-- A call that keeps the head, the capacity and every listed page's link, leaves every listed
page with room, and does not shrink the file, keeps the list. -/
theorem of_pages (hL : FreeList fh L)
    (hfirst : fh'.fileHdr.firstFreePageNo = fh.fileHdr.firstFreePageNo)
    (hnp : fh.fileHdr.numPages ≤ fh'.fileHdr.numPages)
    (hn : fh'.fileHdr.numRecordsPerPage = fh.fileHdr.numRecordsPerPage)
    (hp : ∀ p ∈ L, (fh'.pageHdrOf p).nextFreePageNo = (fh.pageHdrOf p).nextFreePageNo ∧
      (fh'.pageHdrOf p).numRecords < fh.fileHdr.numRecordsPerPage) : FreeList fh' L :=
  ⟨hfirst ▸ hL.chain.congr fun q hq => (hp q hq).1, hL.nodup,
    fun p hp' => ⟨(hL.dataPage p hp').1, (hL.dataPage p hp').2.trans_le hnp⟩,
    fun p hp' => hn ▸ (hp p hp').2⟩

/-- A call that changes no page header and no file header keeps the list. -/
theorem of_pageHdrs (hL : FreeList fh L) (hhdr : fh'.fileHdr = fh.fileHdr)
    (hph : ∀ p, fh'.pageHdrOf p = fh.pageHdrOf p) : FreeList fh' L :=
  hL.of_pages (by rw [hhdr]) (by rw [hhdr]) (by rw [hhdr]) fun p hp => by
    rw [hph]; exact ⟨rfl, hL.notFull p hp⟩

theorem of_same (hL : FreeList fh L) (hfd : fh'.fd = fh.fd) (hhdr : fh'.fileHdr = fh.fileHdr)
    (hc : fh'.bpm.content = fh.bpm.content) : FreeList fh' L :=
  hL.of_pageHdrs hhdr fun p => by simp only [pageHdrOf, hfd, hc]

/-- `delete_record` pushes a page it turns from full to not full, and otherwise leaves the list's
pages with room. -/
theorem deleteRecord (hI : FileInv fh) (hL : FreeList fh L) (rid : Rid) :
    ∃ L', FreeList (fh.deleteRecord rid).2 L' := by
  obtain ⟨hb, hres⟩ := deleteRecord_spec hI.coh rid
  rcases hres with ⟨-, -, hhdr, hc⟩ | ⟨hok, -, -, hhdr, hc⟩
  · exact ⟨L, hL.of_same hb.fd hhdr hc⟩
  have hph := pageHdrOf_of_update hb.fd hc
  have hdp := deleteRecord_dataPage hI.coh hok
  by_cases hfull : (fh.bpm.content ⟨fh.fd, rid.pageNo⟩).pageHdr.numRecords =
      fh.fileHdr.numRecordsPerPage
  · -- `release_page_handle` pushes the page, which was full and so not on the list.
    have hnot : rid.pageNo ∉ L := fun hm => by
      have : (fh.pageHdrOf rid.pageNo).numRecords < _ := hL.notFull _ hm
      exact absurd hfull this.ne
    rw [if_pos hfull] at hhdr
    refine ⟨rid.pageNo :: L, ⟨?_, List.nodup_cons.2 ⟨hnot, hL.nodup⟩, ?_, ?_⟩⟩
    · rw [hhdr]
      refine .link (by simp only [rmNoPage, rmFileHdrPage] at hdp ⊢; omega) ?_
      rw [hph, if_pos rfl]
      dsimp only
      rw [if_pos hfull]
      exact hL.chain.congr fun q hq => by rw [hph, if_neg (ne_of_mem_of_not_mem hq hnot)]
    · simp only [hhdr, List.mem_cons]
      rintro p (rfl | hp)
      · exact ⟨by simpa only [rmFileHdrPage, rmFirstRecordPage] using hdp.1, hdp.2⟩
      · exact hL.dataPage p hp
    · simp only [hhdr, List.mem_cons]
      rintro p (rfl | hp)
      · rw [hph, if_pos rfl]; dsimp only; omega
      · rw [hph, if_neg (ne_of_mem_of_not_mem hp hnot)]; exact hL.notFull p hp
  · -- The page keeps its link and loses a record.
    rw [if_neg hfull] at hhdr
    refine ⟨L, hL.of_pages (by rw [hhdr]) (by rw [hhdr]) (by rw [hhdr]) fun p hp => ?_⟩
    rw [hph]
    split_ifs with hpq
    · subst hpq
      have : (fh.pageHdrOf rid.pageNo).numRecords < _ := hL.notFull _ hp
      dsimp only
      exact ⟨rfl, by unfold pageHdrOf at this; omega⟩
    · exact ⟨rfl, hL.notFull p hp⟩

/-- `insert_record(buf)` fills a slot of the head page and pops it once full, or, on an empty list,
fills a new page. -/
theorem insertRecord (hI : FileInv fh) (hL : FreeList fh L) (buf : List UInt8) :
    ∃ L', FreeList (fh.insertRecord buf fh.fileHdr.numPages).2 L' := by
  obtain ⟨hb, ⟨hn', -⟩, hres⟩ :=
    insertRecord_spec hI.coh hI.alloc_valid hI.alloc_fresh hI.capacity buf
  rcases hres with ⟨-, -, hhdr, hc⟩ | ⟨rid, P, hok, -, -, -, hc, hcase⟩
  · exact ⟨L, hL.of_same hb.fd hhdr hc⟩
  have hff := insertRecord_firstFree hI.coh hI.alloc_valid hI.alloc_fresh buf hok
  have hph := pageHdrOf_of_update hb.fd hc
  rw [hph, if_pos rfl] at hff
  dsimp only at hff
  rcases hcase with ⟨hne, hhead, rfl, -, -, hnp⟩ | ⟨hnil, hpage, rfl, hnp⟩
  · -- The head page: popped when the insert fills it.
    obtain ⟨L', rfl, hchain⟩ := hL.chain.eq_cons hne
    rw [← hhead] at hchain hL
    have hnot : rid.pageNo ∉ L' := (List.nodup_cons.1 hL.nodup).1
    have hroom : (fh.pageHdrOf rid.pageNo).numRecords < _ := hL.notFull _ (List.mem_cons_self _ _)
    unfold pageHdrOf at hroom
    have hother : ∀ q ∈ L', (fh.insertRecord buf fh.fileHdr.numPages).2.pageHdrOf q =
        fh.pageHdrOf q := fun q hq => by rw [hph, if_neg (ne_of_mem_of_not_mem hq hnot)]
    by_cases hfull : (fh.bpm.content ⟨fh.fd, rid.pageNo⟩).pageHdr.numRecords + 1 =
        fh.fileHdr.numRecordsPerPage
    · rw [if_pos ⟨hfull, hhead.symm⟩] at hff
      refine ⟨L', ⟨?_, (List.nodup_cons.1 hL.nodup).2, fun p hp => ?_, fun p hp => ?_⟩⟩
      · rw [hff]
        exact hchain.congr fun q hq => by rw [hother q hq]
      · rw [hnp]; exact hL.dataPage p (List.mem_cons_of_mem _ hp)
      · rw [hother p hp, hn']; exact hL.notFull p (List.mem_cons_of_mem _ hp)
    · rw [if_neg fun h => hfull h.1] at hff
      refine ⟨_, hL.of_pages hff hnp.ge hn' fun p hp => ?_⟩
      rw [hph]
      split_ifs with hpq
      · subst hpq; dsimp only; exact ⟨rfl, by omega⟩
      · exact ⟨rfl, hL.notFull p hp⟩
  · -- A new page, off the list, which stays empty.
    obtain rfl : L = [] := (hnil ▸ hL.chain).eq_nil
    have hne : fh.fileHdr.firstFreePageNo ≠ rid.pageNo := by
      rw [hnil, hpage]; have := hI.numPages; simp only [rmNoPage]; omega
    rw [if_neg fun h => hne h.2, hnil] at hff
    exact ⟨[], nil hff⟩

/-- Every call but `insert_record(rid, buf)` keeps the list sound. -/
theorem run (hI : FileInv fh) (hL : FreeList fh L) :
    ∀ c : RmCall, c.positional = false → ∃ L', FreeList (c.run fh).2 L'
  | .getRecord rid, _ => by
    obtain ⟨hb, hhdr, hc, -⟩ := getRecord_spec hI.coh rid
    exact ⟨L, hL.of_same hb.fd hhdr hc⟩
  | .insertRecord buf, _ => hL.insertRecord hI buf
  | .insertRecordAt _ _, h => nomatch h
  | .deleteRecord rid, _ => hL.deleteRecord hI rid
  | .updateRecord rid buf, _ => by
    obtain ⟨hb, hhdr, hres⟩ := updateRecord_spec hI.coh rid buf
    rcases hres with ⟨-, -, hc⟩ | ⟨-, -, -, hc⟩
    · exact ⟨L, hL.of_same hb.fd hhdr hc⟩
    · refine ⟨L, hL.of_pageHdrs hhdr fun p => ?_⟩
      show (fh.updateRecord rid buf).2.pageHdrOf p = _
      rw [pageHdrOf_of_update hb.fd hc]
      split_ifs with hp
      · subst hp; rfl
      · rfl
  | .scanInit b, _ => by
    obtain ⟨hb, hhdr, hc⟩ := RmScan.init_spec hI.coh b
    exact ⟨L, hL.of_same hb.fd hhdr hc⟩
  | .scanNext sc, _ => by
    obtain ⟨hb, hhdr, hc⟩ := RmScan.next_spec hI.coh sc
    exact ⟨L, hL.of_same hb.fd hhdr hc⟩

theorem of_reached {fh : RmFileHandle} (hr : Reached fh) : ∃ L, FreeList fh L := by
  induction hr with
  | fresh h => exact ⟨[], nil h.firstFree⟩
  | step c hc hr ih =>
    obtain ⟨L, hL⟩ := ih
    exact hL.run (FileInv.of_reachable hr.reachable) c hc

end FreeList

/-- With no positional insert, the free-page list of every state reached from a fresh file is
sound: following `next_free_page_no` from `first_free_page_no` reaches `RM_NO_PAGE` after a list
of pages with no page twice, each a data page below `num_pages` with fewer than
`num_records_per_page` records. -/
theorem free_list_sound {fh : RmFileHandle} (hr : Reached fh) :
    ∃ L, FreeChain fh fh.fileHdr.firstFreePageNo L ∧ L.Nodup ∧
      ∀ p ∈ L, rmFirstRecordPage ≤ p ∧ p < fh.fileHdr.numPages ∧
        (fh.bpm.content ⟨fh.fd, p⟩).pageHdr.numRecords < fh.fileHdr.numRecordsPerPage :=
  have ⟨L, hL⟩ := FreeList.of_reached hr
  ⟨L, hL.chain, hL.nodup,
    fun p hp => ⟨(hL.dataPage p hp).1, (hL.dataPage p hp).2, hL.notFull p hp⟩⟩

/-- `freshFile 1` after an insert and the delete of its record, which puts the page on the
free-page list. -/
def freedPage : RmFileHandle := runAll [.insertRecord [1], .deleteRecord ⟨1, 0⟩] (freshFile 1)

theorem free_list_sound_freed_page :
    Reached freedPage ∧
    ∃ L, FreeChain freedPage freedPage.fileHdr.firstFreePageNo L ∧ L.Nodup ∧
      ∀ p ∈ L, rmFirstRecordPage ≤ p ∧ p < freedPage.fileHdr.numPages ∧
        (freedPage.bpm.content ⟨freedPage.fd, p⟩).pageHdr.numRecords <
          freedPage.fileHdr.numRecordsPerPage :=
  have hr : Reached freedPage := (Reached.fresh (freshFile_fresh (by decide))).runAll _ (by decide)
  ⟨hr, free_list_sound hr⟩

/-! ## How the file grows -/

/-- Whether a call makes a new page: an `insert_record(buf)` that succeeds on an empty free-page
list, where `create_page_handle` falls back on `create_new_page_handle`. -/
def RmCall.makesPage : RmCall → RmFileHandle → Bool
  | .insertRecord buf, fh => decide (fh.fileHdr.firstFreePageNo = rmNoPage) &&
      (RmCall.raised (fh.insertRecord buf fh.fileHdr.numPages).1).isNone
  | _, _ => false

/-- The pages a sequence of calls makes. -/
def pagesMade : List RmCall → RmFileHandle → Nat
  | [], _ => 0
  | c :: cs, fh => (if c.makesPage fh then 1 else 0) + pagesMade cs (c.run fh).2

/-- A call keeps the number of slots a page, and makes the file one page longer exactly when it
makes a new page. -/
theorem FileInv.fileHdr_run {fh : RmFileHandle} (hI : FileInv fh) : ∀ c : RmCall,
    (c.run fh).2.fileHdr.numRecordsPerPage = fh.fileHdr.numRecordsPerPage ∧
    (c.run fh).2.fileHdr.numPages = fh.fileHdr.numPages + if c.makesPage fh then 1 else 0
  | .getRecord rid => by
    obtain ⟨-, hhdr, -⟩ := getRecord_spec hI.coh rid
    simp [RmCall.run, RmCall.makesPage, hhdr]
  | .insertRecord buf => by
    obtain ⟨-, ⟨hn, -⟩, hres⟩ := insertRecord_spec hI.coh hI.alloc_valid hI.alloc_fresh hI.capacity buf
    refine ⟨hn, ?_⟩
    rcases hres with ⟨e, he, hhdr, -⟩ |
      ⟨rid, P, hok, -, -, -, -, ⟨hff, -, -, -, -, hnp⟩ | ⟨hff, -, -, hnp⟩⟩
    · simp [RmCall.run, RmCall.makesPage, he, hhdr, RmCall.raised]
    · simp [RmCall.run, RmCall.makesPage, hok, hff, hnp, RmCall.raised]
    · simp [RmCall.run, RmCall.makesPage, hok, hff, hnp, RmCall.raised]
  | .insertRecordAt rid buf => by
    obtain ⟨-, hhdr, -⟩ := insertRecordAt_spec hI.coh rid buf
    simp [RmCall.run, RmCall.makesPage, hhdr]
  | .deleteRecord rid => by
    obtain ⟨-, hres⟩ := deleteRecord_spec hI.coh rid
    rcases hres with ⟨-, -, hhdr, -⟩ | ⟨-, -, -, hhdr, -⟩
    · simp [RmCall.run, RmCall.makesPage, hhdr]
    · simp only [RmCall.run, RmCall.makesPage, hhdr]
      split_ifs <;> simp_all
  | .updateRecord rid buf => by
    obtain ⟨-, hhdr, -⟩ := updateRecord_spec hI.coh rid buf
    simp [RmCall.run, RmCall.makesPage, hhdr]
  | .scanInit hasFileHandle => by
    obtain ⟨-, hhdr, -⟩ := RmScan.init_spec hI.coh hasFileHandle
    simp [RmCall.run, RmCall.makesPage, hhdr]
  | .scanNext sc => by
    obtain ⟨-, hhdr, -⟩ := RmScan.next_spec hI.coh sc
    simp [RmCall.run, RmCall.makesPage, hhdr]

/-- Along every run of calls from a reachable state, the number of slots a page never changes, and
the file grows by one page for each `insert_record(buf)` that succeeds on an empty free-page list
and by no other call: `num_pages` never decreases. -/
theorem file_grows_by_new_pages {fh : RmFileHandle} (hr : Reachable fh) : ∀ cs : List RmCall,
    (runAll cs fh).fileHdr.numRecordsPerPage = fh.fileHdr.numRecordsPerPage ∧
    (runAll cs fh).fileHdr.numPages = fh.fileHdr.numPages + pagesMade cs fh
  | [] => ⟨rfl, by simp [runAll, pagesMade]⟩
  | c :: cs => by
    obtain ⟨h1, h2⟩ := (FileInv.of_reachable hr).fileHdr_run c
    obtain ⟨h3, h4⟩ := file_grows_by_new_pages (.step c hr) cs
    refine ⟨by rw [runAll, h3, h1], ?_⟩
    rw [runAll, h4, h2, pagesMade]
    split_ifs <;> push_cast <;> omega

/-- A file of one slot a page: two inserts make pages 1 and 2, and the insert after the delete on
page 1 takes the freed slot, making no page. -/
theorem file_grows_by_new_pages_freed :
    let cs : List RmCall :=
      [.insertRecord [1], .insertRecord [2], .deleteRecord ⟨1, 0⟩, .insertRecord [3]]
    Reachable (freshFile 1) ∧
    ((runAll cs (freshFile 1)).fileHdr.numRecordsPerPage = (freshFile 1).fileHdr.numRecordsPerPage ∧
      (runAll cs (freshFile 1)).fileHdr.numPages =
        (freshFile 1).fileHdr.numPages + pagesMade cs (freshFile 1)) :=
  ⟨freshFile_reachable (by decide), file_grows_by_new_pages (freshFile_reachable (by decide)) _⟩

example : pagesMade [.insertRecord [1], .insertRecord [2], .deleteRecord ⟨1, 0⟩,
    .insertRecord [3]] (freshFile 1) = 2 := by decide

end Rmdb
