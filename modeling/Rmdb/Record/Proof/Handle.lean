import Rmdb.Record.RmScan
import Rmdb.Storage.Proof.Client

/-!
# What the record operations do to the pool

Every operation of the handle pins one page (`fetch_page_handle`, or `create_page_handle` through
`new_page`), writes it through its frame and reports the writes with `mark_dirty`, and unpins it
on each of its exits. While it holds the page, `Holding` records what the pool looks like: the
page is bound to the held frame and pinned once more than before, the other pages keep their pin
counts and content, and only the held frame may carry an unreported write. `Holding.write`,
`Holding.markDirty` and `Holding.release` follow an operation from the fetch to its exit, where
`Holding.abort` (unpinned clean, nothing written) and `Holding.commit` (unpinned dirty) end it.
`fetchPageHandle_spec` starts it with a `Fetched` page (the handle otherwise unchanged), and
`createPageHandle_spec` from the free-page list or a new page.

So each operation leaves every pin count as it was and the pool coherent, and changes the content
of the one page it held (`getRecord_spec`, `insertRecord_spec`, `insertRecordAt_spec`,
`deleteRecord_spec`, `updateRecord_spec`, `scanPages_spec`).
-/

namespace Rmdb

open BufferPoolManager

namespace RmFileHandle

section
variable (fh : RmFileHandle) (f : Nat)

@[simp] theorem write_fd (g : RmPage → RmPage) : (fh.write f g).fd = fh.fd := rfl
@[simp] theorem write_fileHdr (g : RmPage → RmPage) : (fh.write f g).fileHdr = fh.fileHdr := rfl
@[simp] theorem markDirty_fd : (fh.markDirty f).fd = fh.fd := rfl
@[simp] theorem markDirty_fileHdr : (fh.markDirty f).fileHdr = fh.fileHdr := rfl
@[simp] theorem unpin_fd (d : Bool) : (fh.unpin f d).fd = fh.fd := rfl
@[simp] theorem unpin_fileHdr (d : Bool) : (fh.unpin f d).fileHdr = fh.fileHdr := rfl
@[simp] theorem write_pageTable (g : RmPage → RmPage) :
    (fh.write f g).bpm.pageTable = fh.bpm.pageTable := rfl
@[simp] theorem markDirty_pageTable : (fh.markDirty f).bpm.pageTable = fh.bpm.pageTable := rfl
@[simp] theorem unpin_pageTable (d : Bool) : (fh.unpin f d).bpm.pageTable = fh.bpm.pageTable :=
  unpinPage_pageTable _ _
@[simp] theorem writeFileHdr_fd : fh.writeFileHdr.fd = fh.fd := rfl
@[simp] theorem writeFileHdr_fileHdr : fh.writeFileHdr.fileHdr = fh.fileHdr := rfl
@[simp] theorem writeFileHdr_bpm : fh.writeFileHdr.bpm = fh.bpm := rfl
@[simp] theorem releasePageHandle_pageTable :
    (fh.releasePageHandle f).bpm.pageTable = fh.bpm.pageTable := rfl

end

/-- What an operation from `fh` to `fh'` keeps: the descriptor, a coherent pool with no unreported
write, and the pin count of every page; the pages it brought into the pool are pages of the file
below `num_pages`. -/
structure Balanced (fh fh' : RmFileHandle) : Prop where
  fd : fh'.fd = fh.fd
  coh : CohInv fh'.bpm fun _ => false
  pins : fh'.bpm.pinOf = fh.bpm.pinOf
  cached : ∀ q, fh'.bpm.pageTable.lookup q ≠ none →
    fh.bpm.pageTable.lookup q ≠ none ∨ q.fd = fh.fd ∧ q.pageNo < fh'.fileHdr.numPages

namespace Balanced

variable {fh fh' fh'' : RmFileHandle}

theorem refl (h : CohInv fh.bpm fun _ => false) : Balanced fh fh :=
  ⟨rfl, h, rfl, fun _ hq => .inl hq⟩

theorem trans (h1 : Balanced fh fh') (h2 : Balanced fh' fh'')
    (hn : fh'.fileHdr.numPages ≤ fh''.fileHdr.numPages) : Balanced fh fh'' := by
  refine ⟨h2.fd.trans h1.fd, h2.coh, h2.pins.trans h1.pins, fun q hq => ?_⟩
  rcases h2.cached q hq with hq | ⟨hfd, hlt⟩
  · exact (h1.cached q hq).imp_right fun ⟨hfd, hlt⟩ => ⟨hfd, by omega⟩
  · exact .inr ⟨hfd.trans h1.fd, hlt⟩

end Balanced

/-- The flags of a pool whose only possibly unreported write is on frame `f`. -/
def heldFlags (f : Nat) (b : Bool) : Nat → Bool := Function.update (fun _ => false) f b

@[simp] theorem heldFlags_false (f : Nat) : heldFlags f false = fun _ => false :=
  Function.update_eq_self f _

/-- An operation started from `fh` holds page `pid` in frame `f` of `fh'` (module doc); `b` says
whether the frame carries an unreported write. -/
structure Holding (fh fh' : RmFileHandle) (f : Nat) (pid : PageId) (b : Bool) : Prop where
  fd : fh'.fd = fh.fd
  coh : CohInv fh'.bpm (heldFlags f b)
  lookup : fh'.bpm.pageTable.lookup pid = some f
  pin : fh'.bpm.pinOf = Function.update fh.bpm.pinOf pid (fh.bpm.pinOf pid + 1)
  content : ∀ q, q ≠ pid → fh'.bpm.content q = fh.bpm.content q
  cached : ∀ q, q ≠ pid → fh'.bpm.pageTable.lookup q ≠ none → fh.bpm.pageTable.lookup q ≠ none

namespace Holding

variable {fh fh' : RmFileHandle} {f : Nat} {pid : PageId} {b : Bool}
  (hH : Holding fh fh' f pid b) (h : CohInv fh.bpm fun _ => false)
include hH

include h in
/-- The held frame is pinned. -/
theorem pos : 0 < (fh'.bpm.pages f).pinCount := by
  have := congrFun hH.pin pid
  rw [pinOf_of_lookup hH.lookup, Function.update_same] at this
  have := h.pool.pinOf_nonneg pid
  omega

/-- The held frame holds the held page. -/
theorem page : fh'.page f = fh'.bpm.content pid := by
  simp [RmFileHandle.page, BufferPoolManager.content, hH.lookup]

theorem id : (fh'.bpm.pages f).id = pid :=
  (hH.coh.pool.bound pid f ((hH.coh.pool.lookup_iff).1 hH.lookup)).1

include h in
/-- A write through the held frame changes the held page only. -/
theorem write (g : RmPage → RmPage) :
    Holding fh (fh'.write f g) f pid true ∧
      (fh'.write f g).bpm.content pid = g (fh'.bpm.content pid) := by
  obtain ⟨hc, hm, hp⟩ := hH.coh.write_frame hH.lookup (hH.pos h) g
  refine ⟨⟨hH.fd, by simpa [heldFlags] using hc, hH.lookup, hp.trans hH.pin, fun q hq => ?_,
    hH.cached⟩, ?_⟩
  · show (fh'.bpm.modifyPage f _).content q = _
    rw [hm, Function.update_noteq hq, hH.content q hq]
  · show (fh'.bpm.modifyPage f _).content pid = _
    rw [hm, Function.update_same]

include h in
/-- `mark_dirty` on the held frame reports its writes. -/
theorem markDirty :
    Holding fh (fh'.markDirty f) f pid false ∧ (fh'.markDirty f).bpm.content = fh'.bpm.content := by
  obtain ⟨hc, hm, hp⟩ := hH.coh.markDirty_frame hH.lookup (hH.pos h)
  refine ⟨⟨hH.fd, by simpa [heldFlags] using hc, hH.lookup, hp.trans hH.pin, fun q hq => ?_,
    hH.cached⟩, hm⟩
  exact (congrFun hm q).trans (hH.content q hq)

/-- A change of the file header, in memory and on disk, keeps the holding. -/
theorem setHdr (hdr d : RmFileHdr) :
    Holding fh { fh' with fileHdr := hdr, diskFileHdr := d } f pid b :=
  ⟨hH.fd, hH.coh, hH.lookup, hH.pin, hH.content, hH.cached⟩

omit hH in
include h in
/-- `release_page_handle` on the held frame pushes the held page on the free-page list. -/
theorem release (hH : Holding fh fh' f pid false) :
    Holding fh (fh'.releasePageHandle f) f pid false ∧
    (fh'.releasePageHandle f).fileHdr = { fh'.fileHdr with firstFreePageNo := pid.pageNo } ∧
    (fh'.releasePageHandle f).bpm.content pid =
      { fh'.bpm.content pid with pageHdr := { (fh'.bpm.content pid).pageHdr with
          nextFreePageNo := fh'.fileHdr.firstFreePageNo } } := by
  obtain ⟨hH1, hm1⟩ := hH.write h fun p =>
    { p with pageHdr := { p.pageHdr with nextFreePageNo := fh'.fileHdr.firstFreePageNo } }
  obtain ⟨hH2, hm2⟩ :=
    (hH1.setHdr { fh'.fileHdr with firstFreePageNo := (fh'.bpm.pages f).id.pageNo }
      fh'.diskFileHdr).markDirty h
  exact ⟨hH2, by simp [releasePageHandle, hH.id], (congrFun hm2 pid).trans hm1⟩

omit hH in
include h in
/-- Unpinning the held page, a page of the file below `num_pages`, ends the operation: every pin
count is as before the operation, and only the held page's content may have changed. -/
theorem unpin (hH : Holding fh fh' f pid false)
    (hp : pid.fd = fh.fd ∧ pid.pageNo < fh'.fileHdr.numPages) (d : Bool) :
    Balanced fh (fh'.unpin f d) ∧
    (fh'.unpin f d).bpm.content = Function.update fh.bpm.content pid (fh'.bpm.content pid) := by
  have hc : CohInv fh'.bpm fun _ => false := by simpa using hH.coh
  obtain ⟨hc', hm, hp'⟩ := hc.unpin_clean hH.lookup (hH.pos h) d
  have hu : fh'.unpin f d = { fh' with bpm := (fh'.bpm.unpinPage pid d).2 } := by
    rw [RmFileHandle.unpin, hH.id]
  rw [hu]
  refine ⟨⟨hH.fd, hc', ?_, fun q hq => ?_⟩, ?_⟩
  · rw [hp', hH.pin]
    simp
  · rw [unpinPage_pageTable] at hq
    by_cases hqp : q = pid
    · exact .inr (hqp ▸ hp)
    · exact .inl (hH.cached q hqp hq)
  · rw [hm]
    funext q
    by_cases hq : q = pid
    · subst hq; simp
    · rw [Function.update_noteq hq, hH.content q hq]

omit hH in
include h in
/-- Unpinning a page the operation left as it found it ends the operation with every page as
before. -/
theorem abort (hH : Holding fh fh' f pid false)
    (hp : pid.fd = fh.fd ∧ pid.pageNo < fh'.fileHdr.numPages)
    (hm : fh'.bpm.content pid = fh.bpm.content pid) (d : Bool) :
    Balanced fh (fh'.unpin f d) ∧ (fh'.unpin f d).bpm.content = fh.bpm.content := by
  obtain ⟨hb, hm'⟩ := hH.unpin h hp d
  exact ⟨hb, by rw [hm', hm, Function.update_eq_self]⟩

omit hH in
include h in
/-- `mark_dirty` and then `unpin_page(.., true)` end an operation that wrote the held page. -/
theorem commit (hH : Holding fh fh' f pid true)
    (hp : pid.fd = fh.fd ∧ pid.pageNo < fh'.fileHdr.numPages) :
    Balanced fh ((fh'.markDirty f).unpin f true) ∧
    ((fh'.markDirty f).unpin f true).bpm.content =
      Function.update fh.bpm.content pid (fh'.bpm.content pid) := by
  obtain ⟨hH1, hm1⟩ := hH.markDirty h
  rw [← hm1]
  exact hH1.unpin h hp true

end Holding

/-! ## Taking a page -/

/-- The page `create_new_page_handle` makes: an empty header and a clear bitmap. -/
def emptyPage (n : Int) : RmPage := ⟨⟨rmNoPage, 0⟩, Bitmap.init (fun _ => false) n, fun _ => []⟩

theorem ite_fileHdr (c : Prop) [Decidable c] (fh : RmFileHandle) (hdr : RmFileHdr) :
    (if c then { fh with fileHdr := hdr } else fh) =
      { fh with fileHdr := if c then hdr else fh.fileHdr } := by
  split_ifs <;> rfl

theorem ite_writeFileHdr (c : Prop) [Decidable c] (fh : RmFileHandle) (hdr : RmFileHdr) :
    (if c then writeFileHdr { fh with fileHdr := hdr } else fh) =
      { fh with fileHdr := if c then hdr else fh.fileHdr,
                diskFileHdr := if c then hdr else fh.diskFileHdr } := by
  split_ifs <;> rfl

theorem ite_hdrs (c : Prop) [Decidable c] (fh : RmFileHandle) (hdr d : RmFileHdr) :
    (if c then { fh with fileHdr := hdr, diskFileHdr := d } else fh) =
      { fh with fileHdr := if c then hdr else fh.fileHdr,
                diskFileHdr := if c then d else fh.diskFileHdr } := by
  split_ifs <;> rfl

theorem ite_firstFree (c : Prop) [Decidable c] (hdr : RmFileHdr) (x : Int) :
    (if c then { hdr with firstFreePageNo := x } else hdr) =
      { hdr with firstFreePageNo := if c then x else hdr.firstFreePageNo } := by
  split_ifs <;> rfl

/-- `fh'` is `fh` after `fetch_page_handle(page_no)` returned frame `f`: it holds data page
`page_no`, with the header and every page as they were. -/
structure Fetched (fh fh' : RmFileHandle) (f : Nat) (pageNo : Int) : Prop where
  holding : Holding fh fh' f ⟨fh.fd, pageNo⟩ false
  fileHdr : fh'.fileHdr = fh.fileHdr
  content : fh'.bpm.content = fh.bpm.content
  dataPage : rmFileHdrPage < pageNo ∧ pageNo < fh.fileHdr.numPages

namespace Fetched

variable {fh fh' : RmFileHandle} {f : Nat} {pageNo : Int} (hF : Fetched fh fh' f pageNo)
include hF

theorem page : fh'.page f = fh.bpm.content ⟨fh.fd, pageNo⟩ := by
  rw [hF.holding.page, hF.content]

theorem badSlot_iff (slotNo : Int) : fh'.badSlot slotNo ↔ fh.badSlot slotNo := by
  rw [badSlot, badSlot, hF.fileHdr]

/-- The fetched page is a page of the file below `num_pages`. -/
theorem held : (⟨fh.fd, pageNo⟩ : PageId).fd = fh.fd ∧ pageNo < fh'.fileHdr.numPages :=
  ⟨rfl, by rw [hF.fileHdr]; exact hF.dataPage.2⟩

/-- Unpinning the fetched page unwritten ends the operation with the header and every page as
they were. -/
theorem abort (h : CohInv fh.bpm fun _ => false) (d : Bool) :
    Balanced fh (fh'.unpin f d) ∧ (fh'.unpin f d).fileHdr = fh.fileHdr ∧
    (fh'.unpin f d).bpm.content = fh.bpm.content :=
  have hu := hF.holding.abort h hF.held (by rw [hF.content]) d
  ⟨hu.1, hF.fileHdr, hu.2⟩

end Fetched

section
variable {fh : RmFileHandle} (h : CohInv fh.bpm fun _ => false)
include h

/-- `fetch_page_handle(page_no)` raises and changes nothing, or holds the page, which is a data
page of the file. -/
theorem fetchPageHandle_spec (pageNo : Int) :
    (∃ e, fh.fetchPageHandle pageNo = (.error e, fh)) ∨
    ∃ f fh', fh.fetchPageHandle pageNo = (.ok f, fh') ∧ Fetched fh fh' f pageNo := by
  unfold fetchPageHandle
  split_ifs with hr
  · exact .inl ⟨_, rfl⟩
  · have hp : (⟨fh.fd, pageNo⟩ : PageId).pageNo ≠ invalidPageId := by
      simp only [rmFileHdrPage, invalidPageId] at hr ⊢; omega
    rcases hfp : fh.bpm.fetchPage ⟨fh.fd, pageNo⟩ with ⟨_ | f, bpm⟩
    · have hs := fetchPage_snd_of_none
        (show (fh.bpm.fetchPage ⟨fh.fd, pageNo⟩).1 = none by rw [hfp])
      rw [hfp] at hs
      subst hs
      exact .inl ⟨_, rfl⟩
    · obtain ⟨hc, hm, hfind, hpin, hcache⟩ := h.fetch_clean hp
        (show (fh.bpm.fetchPage ⟨fh.fd, pageNo⟩).1 = some f by rw [hfp])
      rw [hfp] at hc hm hfind hpin hcache
      exact .inr ⟨f, _, rfl,
        ⟨⟨rfl, by simpa using hc, hfind, hpin, fun q _ => congrFun hm q, hcache⟩,
          rfl, hm, by simp only [rmFileHdrPage] at hr ⊢; omega, by omega⟩⟩

/-- `create_new_page_handle()` with a fresh page from `allocate_page` finds no frame and changes
nothing, or holds the new page, empty, and counts it in the header. -/
theorem createNewPageHandle_spec {alloc : Int} (ha : alloc ≠ invalidPageId)
    (hn : fh.bpm.pageTable.lookup ⟨fh.fd, alloc⟩ = none) :
    (∃ e, fh.createNewPageHandle alloc = (.error e, fh)) ∨
    ∃ f fh', fh.createNewPageHandle alloc = (.ok f, fh') ∧
      Holding fh fh' f ⟨fh.fd, alloc⟩ false ∧
      fh'.bpm.content ⟨fh.fd, alloc⟩ = emptyPage fh.fileHdr.numRecordsPerPage ∧
      fh'.fileHdr = if alloc ≥ fh.fileHdr.numPages then
        { fh.fileHdr with numPages := alloc + 1 } else fh.fileHdr := by
  unfold createNewPageHandle
  rcases hnp : fh.bpm.newPage fh.fd alloc with ⟨_ | ⟨pid, f⟩, bpm⟩
  · have hs := newPage_snd_of_none ha (show (fh.bpm.newPage fh.fd alloc).1 = none by rw [hnp])
    rw [hnp] at hs
    subst hs
    exact .inl ⟨_, rfl⟩
  · obtain ⟨rfl, hc, hm, hfind, hpin, hcache⟩ := h.newPage_clean ha hn
      (show (fh.bpm.newPage fh.fd alloc).1 = some (pid, f) by rw [hnp])
    rw [hnp] at hc hm hfind hpin hcache
    have hH : Holding fh { fh with bpm := bpm } f ⟨fh.fd, alloc⟩ true :=
      ⟨rfl, hc, hfind, by rw [hpin]; simp [pinOf, hn],
        fun q hq => by show bpm.content q = _; rw [hm, Function.update_noteq hq], hcache⟩
    obtain ⟨hH1, hm1⟩ := hH.write h fun p =>
      { p with pageHdr := { p.pageHdr with numRecords := 0, nextFreePageNo := rmNoPage },
               bitmap := Bitmap.init p.bitmap fh.fileHdr.numRecordsPerPage }
    refine .inr ⟨f, _, rfl, ?_⟩
    dsimp only
    rw [ite_fileHdr]
    obtain ⟨hH2, hm2⟩ := (hH1.setHdr _ _).markDirty h
    refine ⟨hH2, hm2 ▸ hm1.trans ?_, rfl⟩
    show _ = (_ : RmPage)
    rw [show bpm.content ⟨fh.fd, alloc⟩ = 0 by rw [hm, Function.update_same]]
    rfl

/-- `create_page_handle()`: the head of the free-page list, as `fetch_page_handle` gives it, or,
on an empty list, a new page. -/
theorem createPageHandle_spec {alloc : Int} (ha : alloc ≠ invalidPageId)
    (hn : fh.bpm.pageTable.lookup ⟨fh.fd, alloc⟩ = none) :
    (∃ e, fh.createPageHandle alloc = (.error e, fh)) ∨
    ∃ f fh' pid, fh.createPageHandle alloc = (.ok f, fh') ∧ Holding fh fh' f pid false ∧
      fh'.fileHdr.numRecordsPerPage = fh.fileHdr.numRecordsPerPage ∧
      fh'.fileHdr.firstFreePageNo = fh.fileHdr.firstFreePageNo ∧
      ((fh.fileHdr.firstFreePageNo ≠ rmNoPage ∧ pid = ⟨fh.fd, fh.fileHdr.firstFreePageNo⟩ ∧
          fh'.fileHdr = fh.fileHdr ∧ fh'.bpm.content pid = fh.bpm.content pid ∧
          rmFileHdrPage < pid.pageNo ∧ pid.pageNo < fh.fileHdr.numPages) ∨
        (fh.fileHdr.firstFreePageNo = rmNoPage ∧ pid = ⟨fh.fd, alloc⟩ ∧
          fh'.bpm.content pid = emptyPage fh.fileHdr.numRecordsPerPage ∧
          fh'.fileHdr = if alloc ≥ fh.fileHdr.numPages then
            { fh.fileHdr with numPages := alloc + 1 } else fh.fileHdr)) := by
  unfold createPageHandle
  by_cases hfree : fh.fileHdr.firstFreePageNo = rmNoPage
  · rw [if_neg (not_not.2 hfree)]
    rcases createNewPageHandle_spec h ha hn with he | ⟨f, fh', he, hH, hm, hhdr⟩
    · exact .inl he
    · refine .inr ⟨f, fh', _, he, hH, by rw [hhdr]; split_ifs <;> rfl,
        by rw [hhdr]; split_ifs <;> rfl, .inr ⟨hfree, rfl, hm, hhdr⟩⟩
  · rw [if_pos hfree]
    rcases fetchPageHandle_spec h fh.fileHdr.firstFreePageNo with he | ⟨f, fh', he, hF⟩
    · exact .inl he
    · exact .inr ⟨f, fh', _, he, hF.holding, by rw [hF.fileHdr], by rw [hF.fileHdr],
        .inl ⟨hfree, rfl, hF.fileHdr, by rw [hF.content], hF.dataPage⟩⟩

end

/-! ## The operations -/

section
variable {fh : RmFileHandle} (h : CohInv fh.bpm fun _ => false)
include h

/-- `get_record(rid)` changes no page and no header, and returns the bytes of a set slot. -/
theorem getRecord_spec (rid : Rid) :
    Balanced fh (fh.getRecord rid).2 ∧ (fh.getRecord rid).2.fileHdr = fh.fileHdr ∧
    (fh.getRecord rid).2.bpm.content = fh.bpm.content ∧
    ((∃ e, (fh.getRecord rid).1 = .error e) ∨
      (¬ fh.badSlot rid.slotNo ∧
        (fh.bpm.content ⟨fh.fd, rid.pageNo⟩).bitmap rid.slotNo.toNat = true ∧
        (fh.getRecord rid).1 = .ok (fh.fileHdr.copyRecord
          ((fh.bpm.content ⟨fh.fd, rid.pageNo⟩).slots rid.slotNo.toNat)))) := by
  rcases fetchPageHandle_spec h rid.pageNo with ⟨e, he⟩ | ⟨f, fh', he, hF⟩
  · rw [getRecord, he]; exact ⟨.refl h, rfl, rfl, .inl ⟨e, rfl⟩⟩
  obtain ⟨hb, hhdr, hm⟩ := hF.abort h false
  rw [getRecord, he]
  dsimp only
  by_cases hbad : fh'.badSlot rid.slotNo
  · rw [if_pos hbad]; exact ⟨hb, hhdr, hm, .inl ⟨_, rfl⟩⟩
  rw [if_neg hbad]
  cases hbit : (fh.bpm.content ⟨fh.fd, rid.pageNo⟩).bitmap rid.slotNo.toNat
  · rw [if_pos (by simp [Bitmap.isSet, hF.page, hbit])]
    exact ⟨hb, hhdr, hm, .inl ⟨_, rfl⟩⟩
  · rw [if_neg (by simp [Bitmap.isSet, hF.page, hbit]), hF.page, hF.fileHdr]
    exact ⟨hb, hhdr, hm, .inr ⟨(hF.badSlot_iff _).not.1 hbad, rfl, rfl⟩⟩

/-- `update_record(rid, buf)` raises and changes no page, or copies `buf` into a set slot. -/
theorem updateRecord_spec (rid : Rid) (buf : List UInt8) :
    Balanced fh (fh.updateRecord rid buf).2 ∧ (fh.updateRecord rid buf).2.fileHdr = fh.fileHdr ∧
    ((∃ e, (fh.updateRecord rid buf).1 = .error e ∧
        (fh.updateRecord rid buf).2.bpm.content = fh.bpm.content) ∨
      ((fh.updateRecord rid buf).1 = .ok () ∧ ¬ fh.badSlot rid.slotNo ∧
        (fh.bpm.content ⟨fh.fd, rid.pageNo⟩).bitmap rid.slotNo.toNat = true ∧
        (fh.updateRecord rid buf).2.bpm.content = Function.update fh.bpm.content ⟨fh.fd, rid.pageNo⟩
          (let P := fh.bpm.content ⟨fh.fd, rid.pageNo⟩
           { P with slots := Function.update P.slots rid.slotNo.toNat (fh.fileHdr.copyRecord buf) })))
    := by
  rcases fetchPageHandle_spec h rid.pageNo with ⟨e, he⟩ | ⟨f, fh', he, hF⟩
  · rw [updateRecord, he]; exact ⟨.refl h, rfl, .inl ⟨e, rfl, rfl⟩⟩
  obtain ⟨hb, hhdr, hm⟩ := hF.abort h false
  rw [updateRecord, he]
  dsimp only
  by_cases hbad : fh'.badSlot rid.slotNo
  · rw [if_pos hbad]; exact ⟨hb, hhdr, .inl ⟨_, rfl, hm⟩⟩
  rw [if_neg hbad]
  cases hbit : (fh.bpm.content ⟨fh.fd, rid.pageNo⟩).bitmap rid.slotNo.toNat
  · rw [if_pos (by simp [Bitmap.isSet, hF.page, hbit])]
    exact ⟨hb, hhdr, .inl ⟨_, rfl, hm⟩⟩
  · rw [if_neg (by simp [Bitmap.isSet, hF.page, hbit])]
    obtain ⟨hH1, hm1⟩ := hF.holding.write h fun p =>
      { p with slots := Function.update p.slots rid.slotNo.toNat (fh'.fileHdr.copyRecord buf) }
    obtain ⟨hb1, hm2⟩ := hH1.commit h hF.held
    exact ⟨hb1, hF.fileHdr, .inr ⟨rfl, (hF.badSlot_iff _).not.1 hbad, rfl,
      by rw [hm2, hm1, hF.content, hF.fileHdr]⟩⟩

/-- `insert_record(rid, buf)` raises and changes no page, or copies `buf` into the slot, sets its
bit, and counts it if the bit was clear. -/
theorem insertRecordAt_spec (rid : Rid) (buf : List UInt8) :
    Balanced fh (fh.insertRecordAt rid buf).2 ∧ (fh.insertRecordAt rid buf).2.fileHdr = fh.fileHdr ∧
    ((∃ e, (fh.insertRecordAt rid buf).1 = .error e ∧
        (fh.insertRecordAt rid buf).2.bpm.content = fh.bpm.content) ∨
      ((fh.insertRecordAt rid buf).1 = .ok () ∧ ¬ fh.badSlot rid.slotNo ∧
        (fh.insertRecordAt rid buf).2.bpm.content = Function.update fh.bpm.content
          ⟨fh.fd, rid.pageNo⟩
          (let P := fh.bpm.content ⟨fh.fd, rid.pageNo⟩
           { P with slots := Function.update P.slots rid.slotNo.toNat (fh.fileHdr.copyRecord buf),
                    bitmap := Bitmap.set P.bitmap rid.slotNo.toNat,
                    pageHdr := { P.pageHdr with numRecords :=
                      (if P.bitmap rid.slotNo.toNat then P.pageHdr.numRecords
                        else P.pageHdr.numRecords + 1) } }))) := by
  rcases fetchPageHandle_spec h rid.pageNo with ⟨e, he⟩ | ⟨f, fh', he, hF⟩
  · rw [insertRecordAt, he]; exact ⟨.refl h, rfl, .inl ⟨e, rfl, rfl⟩⟩
  rw [insertRecordAt, he]
  dsimp only
  by_cases hbad : fh'.badSlot rid.slotNo
  · rw [if_pos hbad]
    obtain ⟨hb, hhdr, hm⟩ := hF.abort h false
    exact ⟨hb, hhdr, .inl ⟨_, rfl, hm⟩⟩
  rw [if_neg hbad]
  obtain ⟨hH1, hm1⟩ := hF.holding.write h fun p =>
    { p with slots := Function.update p.slots rid.slotNo.toNat (fh'.fileHdr.copyRecord buf) }
  cases hbit : (fh.bpm.content ⟨fh.fd, rid.pageNo⟩).bitmap rid.slotNo.toNat
  · rw [if_pos (by simp [Bitmap.isSet, hF.page, hbit])]
    obtain ⟨hH2, hm2⟩ := hH1.write h fun p =>
      { p with bitmap := Bitmap.set p.bitmap rid.slotNo.toNat,
               pageHdr := { p.pageHdr with numRecords := p.pageHdr.numRecords + 1 } }
    obtain ⟨hb, hm3⟩ := hH2.commit h hF.held
    exact ⟨hb, hF.fileHdr, .inr ⟨rfl, (hF.badSlot_iff _).not.1 hbad,
      by rw [hm3, hm2, hm1, hF.content, hF.fileHdr]; simp [hbit]⟩⟩
  · rw [if_neg (by simp [Bitmap.isSet, hF.page, hbit])]
    obtain ⟨hH2, hm2⟩ := hH1.write h fun p =>
      { p with bitmap := Bitmap.set p.bitmap rid.slotNo.toNat }
    obtain ⟨hb, hm3⟩ := hH2.commit h hF.held
    exact ⟨hb, hF.fileHdr, .inr ⟨rfl, (hF.badSlot_iff _).not.1 hbad,
      by rw [hm3, hm2, hm1, hF.content, hF.fileHdr]; simp [hbit]⟩⟩

/-- `delete_record(rid)` raises and changes nothing, or clears the slot's bit and uncounts it; a
page that was full goes to the head of the free-page list. -/
theorem deleteRecord_spec (rid : Rid) :
    Balanced fh (fh.deleteRecord rid).2 ∧
    ((∃ e, (fh.deleteRecord rid).1 = .error e ∧ (fh.deleteRecord rid).2.fileHdr = fh.fileHdr ∧
        (fh.deleteRecord rid).2.bpm.content = fh.bpm.content) ∨
      ((fh.deleteRecord rid).1 = .ok () ∧ ¬ fh.badSlot rid.slotNo ∧
        (fh.bpm.content ⟨fh.fd, rid.pageNo⟩).bitmap rid.slotNo.toNat = true ∧
        (let P := fh.bpm.content ⟨fh.fd, rid.pageNo⟩
         let wasFull := P.pageHdr.numRecords = fh.fileHdr.numRecordsPerPage
         (fh.deleteRecord rid).2.fileHdr =
            (if wasFull then { fh.fileHdr with firstFreePageNo := rid.pageNo } else fh.fileHdr) ∧
         (fh.deleteRecord rid).2.bpm.content = Function.update fh.bpm.content ⟨fh.fd, rid.pageNo⟩
          { P with bitmap := Bitmap.reset P.bitmap rid.slotNo.toNat,
                   pageHdr := { nextFreePageNo := if wasFull then fh.fileHdr.firstFreePageNo
                                  else P.pageHdr.nextFreePageNo,
                                numRecords := P.pageHdr.numRecords - 1 } }))) := by
  rcases fetchPageHandle_spec h rid.pageNo with ⟨e, he⟩ | ⟨f, fh', he, hF⟩
  · rw [deleteRecord, he]; exact ⟨.refl h, .inl ⟨e, rfl, rfl, rfl⟩⟩
  obtain ⟨hb, hhdr, hm⟩ := hF.abort h false
  rw [deleteRecord, he]
  dsimp only
  by_cases hbad : fh'.badSlot rid.slotNo
  · rw [if_pos hbad]; exact ⟨hb, .inl ⟨_, rfl, hhdr, hm⟩⟩
  rw [if_neg hbad]
  cases hbit : (fh.bpm.content ⟨fh.fd, rid.pageNo⟩).bitmap rid.slotNo.toNat
  · rw [if_pos (by simp [Bitmap.isSet, hF.page, hbit])]
    exact ⟨hb, .inl ⟨_, rfl, hhdr, hm⟩⟩
  rw [if_neg (by simp [Bitmap.isSet, hF.page, hbit])]
  obtain ⟨hH1, hm1⟩ := hF.holding.write h fun p =>
    { p with bitmap := Bitmap.reset p.bitmap rid.slotNo.toNat,
             pageHdr := { p.pageHdr with numRecords := p.pageHdr.numRecords - 1 } }
  obtain ⟨hH2, hm2⟩ := hH1.markDirty h
  have hP2 : ((fh'.write f _).markDirty f).page f = _ := hH2.page
  rw [hm2, hm1, hF.content] at hP2
  by_cases hfull : (fh.bpm.content ⟨fh.fd, rid.pageNo⟩).pageHdr.numRecords =
      fh.fileHdr.numRecordsPerPage
  · -- The page was full: `release_page_handle` puts it at the head of the free-page list.
    rw [if_pos ⟨by rw [hF.page, hF.fileHdr, hfull], by
      rw [hP2, markDirty_fileHdr, write_fileHdr, hF.fileHdr]
      show (fh.bpm.content ⟨fh.fd, rid.pageNo⟩).pageHdr.numRecords - 1 < _
      omega⟩]
    obtain ⟨hH3, hhdr3, hm3⟩ := hH2.release h
    obtain ⟨hb3, hm4⟩ := hH3.unpin h ⟨rfl, by rw [hhdr3]; exact hF.held.2⟩ true
    refine ⟨hb3, .inr ⟨rfl, (hF.badSlot_iff _).not.1 hbad, rfl, ?_, ?_⟩⟩
    · rw [unpin_fileHdr, hhdr3, if_pos hfull]
      simp [hF.fileHdr]
    · rw [hm4, hm3, hm2, hm1, hF.content, if_pos hfull]
      simp [hF.fileHdr]
  · rw [if_neg fun hc => hfull (by rw [← hF.page, ← hF.fileHdr]; exact hc.1)]
    obtain ⟨hb2, hm3⟩ := hH2.unpin h hF.held true
    refine ⟨hb2, .inr ⟨rfl, (hF.badSlot_iff _).not.1 hbad, rfl, ?_, ?_⟩⟩
    · simp [hF.fileHdr, hfull]
    · rw [hm3, hm2, hm1, hF.content, if_neg hfull]

/-- `insert_record(buf)` with a fresh page from `allocate_page` and room for a record on a page
raises and changes nothing, or copies `buf` into a clear slot of the page `create_page_handle`
gives and counts it. -/
theorem insertRecord_spec {alloc : Int} (ha : alloc ≠ invalidPageId)
    (hn : fh.bpm.pageTable.lookup ⟨fh.fd, alloc⟩ = none) (hcap : 0 < fh.fileHdr.numRecordsPerPage)
    (buf : List UInt8) :
    Balanced fh (fh.insertRecord buf alloc).2 ∧
    ((fh.insertRecord buf alloc).2.fileHdr.numRecordsPerPage = fh.fileHdr.numRecordsPerPage ∧
      (fh.insertRecord buf alloc).2.fileHdr.recordSize = fh.fileHdr.recordSize) ∧
    ((∃ e, (fh.insertRecord buf alloc).1 = .error e ∧
        (fh.insertRecord buf alloc).2.fileHdr = fh.fileHdr ∧
        (fh.insertRecord buf alloc).2.bpm.content = fh.bpm.content) ∨
      ∃ rid P, (fh.insertRecord buf alloc).1 = .ok rid ∧
        0 ≤ rid.slotNo ∧ rid.slotNo < fh.fileHdr.numRecordsPerPage ∧
        P.bitmap rid.slotNo.toNat = false ∧
        (fh.insertRecord buf alloc).2.bpm.content = Function.update fh.bpm.content
          ⟨fh.fd, rid.pageNo⟩
          { P with slots := Function.update P.slots rid.slotNo.toNat (fh.fileHdr.copyRecord buf),
                   bitmap := Bitmap.set P.bitmap rid.slotNo.toNat,
                   pageHdr := { P.pageHdr with numRecords := P.pageHdr.numRecords + 1 } } ∧
        ((fh.fileHdr.firstFreePageNo ≠ rmNoPage ∧ rid.pageNo = fh.fileHdr.firstFreePageNo ∧
            P = fh.bpm.content ⟨fh.fd, rid.pageNo⟩ ∧ rmFileHdrPage < rid.pageNo ∧
            rid.pageNo < fh.fileHdr.numPages ∧
            (fh.insertRecord buf alloc).2.fileHdr.numPages = fh.fileHdr.numPages) ∨
          (fh.fileHdr.firstFreePageNo = rmNoPage ∧ rid.pageNo = alloc ∧
            P = emptyPage fh.fileHdr.numRecordsPerPage ∧
            (fh.insertRecord buf alloc).2.fileHdr.numPages =
              if alloc ≥ fh.fileHdr.numPages then alloc + 1 else fh.fileHdr.numPages))) := by
  rcases createPageHandle_spec h ha hn with ⟨e, he⟩ | ⟨f, fh1, pid, he, hH, hn1, -, hcase⟩
  · rw [insertRecord, he]; exact ⟨.refl h, ⟨rfl, rfl⟩, .inl ⟨e, rfl, rfl, rfl⟩⟩
  obtain ⟨pno, rfl⟩ : ∃ pno, pid = ⟨fh.fd, pno⟩ := by
    rcases hcase with ⟨-, rfl, -⟩ | ⟨-, rfl, -⟩ <;> exact ⟨_, rfl⟩
  -- `create_page_handle` changes no header field but `num_pages`.
  have hrs1 : fh1.fileHdr.recordSize = fh.fileHdr.recordSize := by
    rcases hcase with ⟨-, -, hhdr, -⟩ | ⟨-, -, -, hhdr⟩ <;> rw [hhdr]
    split_ifs <;> rfl
  have hp : (⟨fh.fd, pno⟩ : PageId).fd = fh.fd ∧ pno < fh1.fileHdr.numPages := by
    refine ⟨rfl, ?_⟩
    rcases hcase with ⟨-, he, hhdr, -, -, hlt⟩ | ⟨-, he, -, hhdr⟩ <;> cases he
    · rw [hhdr]; exact hlt
    · rw [hhdr]
      split_ifs
      exacts [Int.lt_succ _, by omega]
  set P := fh1.bpm.content ⟨fh.fd, pno⟩ with hPdef
  have hP : fh1.page f = P := hH.page
  -- A page without a free slot is the head of the free-page list, as fetched: a new page is empty.
  have hfull : (Bitmap.firstBit false P.bitmap fh1.fileHdr.numRecordsPerPage =
        fh1.fileHdr.numRecordsPerPage ∨ P.pageHdr.numRecords ≥ fh1.fileHdr.numRecordsPerPage) →
      fh1.fileHdr = fh.fileHdr ∧ P = fh.bpm.content ⟨fh.fd, pno⟩ := by
    rcases hcase with ⟨-, -, hhdr, hm, -⟩ | ⟨-, -, hm, -⟩
    · exact fun _ => ⟨hhdr, hm⟩
    · rw [hm, hn1, emptyPage, Bitmap.firstBit_false_init _ hcap]
      intro hc; exfalso; simp only at hc; omega
  rw [insertRecord, he]
  dsimp only
  rw [hP]
  by_cases hc : Bitmap.firstBit false P.bitmap fh1.fileHdr.numRecordsPerPage =
      fh1.fileHdr.numRecordsPerPage ∨ P.pageHdr.numRecords ≥ fh1.fileHdr.numRecordsPerPage
  · rw [if_pos hc]
    obtain ⟨hhdr, hPe⟩ := hfull hc
    obtain ⟨hb, hm'⟩ := hH.abort h hp hPe false
    exact ⟨hb, by simp [hhdr], .inl ⟨_, rfl, by simp [hhdr], hm'⟩⟩
  · rw [if_neg hc]
    set slot := Bitmap.firstBit false P.bitmap fh1.fileHdr.numRecordsPerPage with hslot
    obtain ⟨hs0, hsn, hsb⟩ : -1 < slot ∧ slot < fh1.fileHdr.numRecordsPerPage ∧
        P.bitmap slot.toNat = false := by
      rcases @Bitmap.nextBit_spec false P.bitmap fh1.fileHdr.numRecordsPerPage (-1) (le_refl _) with
        ⟨he, -⟩ | ⟨h1, h2, h3, -⟩
      · exact absurd (.inl he) hc
      · exact ⟨h1, h2, h3⟩
    obtain ⟨hH1, hm1⟩ := hH.write h fun p =>
      { p with slots := Function.update p.slots slot.toNat (fh1.fileHdr.copyRecord buf),
               bitmap := Bitmap.set p.bitmap slot.toNat,
               pageHdr := { p.pageHdr with numRecords := p.pageHdr.numRecords + 1 } }
    obtain ⟨hH2, hm2⟩ := hH1.markDirty h
    simp only [ite_writeFileHdr, ite_hdrs, ite_firstFree]
    refine ⟨((hH2.setHdr _ _).unpin h ?_ true).1, by simp [hn1, hrs1],
      .inr ⟨⟨pno, slot⟩, P, by simp [hH2.id], show 0 ≤ slot by omega, show slot < _ by rw [← hn1]; exact hsn, hsb, ?_, ?_⟩⟩
    · exact hp
    · refine (hH2.unpin h hp true).2.trans ?_
      rw [hm2, hm1, RmFileHdr.copyRecord, hrs1]; rfl
    · rcases hcase with ⟨hff, he, hhdr, hm, hr⟩ | ⟨hff, he, hm, hhdr⟩ <;> cases he
      · exact .inl ⟨hff, rfl, hm, hr.1, hr.2, by simp [hhdr]⟩
      · refine .inr ⟨hff, rfl, hm, ?_⟩
        simp only [unpin_fileHdr, markDirty_fileHdr, write_fileHdr]
        rw [hhdr]
        split_ifs <;> rfl
end

/-- The loop of `next()` pins and unpins each page it reads, and changes no page and no header. -/
theorem scanPages_spec (hdr : RmFileHdr) : ∀ k rid (fh : RmFileHandle),
    CohInv fh.bpm (fun _ => false) →
    Balanced fh (RmScan.scanPages hdr k rid fh).2.2 ∧
    (RmScan.scanPages hdr k rid fh).2.2.fileHdr = fh.fileHdr ∧
    (RmScan.scanPages hdr k rid fh).2.2.bpm.content = fh.bpm.content
  | 0, _, fh, h => ⟨.refl h, rfl, rfl⟩
  | k + 1, rid, fh, h => by
    rw [RmScan.scanPages]
    split_ifs
    · rcases fetchPageHandle_spec h rid.pageNo with ⟨e, he⟩ | ⟨f, fh', he, hF⟩
      · rw [he]; exact ⟨.refl h, rfl, rfl⟩
      rw [he]
      dsimp only
      obtain ⟨hb, hhdr, hm⟩ := hF.abort h false
      split_ifs
      · exact ⟨hb, hhdr, hm⟩
      · obtain ⟨hb', hhdr', hm'⟩ := scanPages_spec hdr k _ _ hb.coh
        exact ⟨hb.trans hb' (congrArg RmFileHdr.numPages hhdr').ge, hhdr'.trans hhdr, hm'.trans hm⟩
    · exact ⟨.refl h, rfl, rfl⟩

end RmFileHandle

namespace RmScan

open RmFileHandle

variable {fh : RmFileHandle} (h : CohInv fh.bpm fun _ => false)
include h

/-- `next()` pins and unpins each page it reads, and changes no page and no header. -/
theorem next_spec (sc : RmScan) :
    Balanced fh (sc.next fh).2.2 ∧ (sc.next fh).2.2.fileHdr = fh.fileHdr ∧
    (sc.next fh).2.2.bpm.content = fh.bpm.content := by
  unfold next
  split_ifs
  · exact ⟨.refl h, rfl, rfl⟩
  · dsimp only
    exact scanPages_spec _ _ _ _ h

/-- The `RmScan` constructor does what `next()` does. -/
theorem init_spec (hasFileHandle : Bool) :
    Balanced fh (init hasFileHandle fh).2.2 ∧ (init hasFileHandle fh).2.2.fileHdr = fh.fileHdr ∧
    (init hasFileHandle fh).2.2.bpm.content = fh.bpm.content := by
  unfold init
  split_ifs
  · exact ⟨.refl h, rfl, rfl⟩
  · exact next_spec h _

end RmScan

end Rmdb
