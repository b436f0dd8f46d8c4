import Rmdb.Record.Proof.RecordMap

/-!
# The record file's replies do not depend on the pool

What a caller sees of a call is its reply (`RmReply`): the record `get_record` returns, the rid
`insert_record(buf)` returns, whether the other record operations raised and what, and the scan
and error of the scan's calls. Two handles are on the same file (`SameFile`) when they have the
same descriptor, header and pages, whatever their pools: of any size, with any pages cached, dirty
or evicted.

On two reachable handles on the same file, each over a pool that can give a frame (`Roomy`), every
call returns the same reply and leaves the two on the same file (`RmCall.reply_same`).
`get_record`, `update_record`, `delete_record` and `insert_record(rid, buf)` raise `ridError` and
otherwise read and write the one page they fetch (`getRecord_same` and the like).
`create_page_handle()` takes the same page on both, from the free-page list or as page `num_pages`
(`createPageHandle_same`), and the rest of `insert_record(buf)` reads only the header and that page
(`insertRecord_of_full`, `insertRecord_of_free`). The scan's loop reads each page it fetches
(`RmScan.scanPages_same`). So along every run of calls the two handles give the same replies
(`replies_ignore_pool`): no reply depends on the pool's size, on what it caches or on which frames
it evicts.
-/

namespace Rmdb

open BufferPoolManager RmFileHandle

/-- What a call of the record file's interface returns to its caller. -/
inductive RmReply
  | record (r : Except RmError (List UInt8))
  | rid (r : Except RmError Rid)
  | unit (r : Except RmError Unit)
  | scan (e : Option RmError) (sc : RmScan)

/-- The reply to a call on `fh`, where `allocate_page` gives `num_pages` as in `RmCall.run`. -/
def RmCall.reply : RmCall → RmFileHandle → RmReply
  | .getRecord rid, fh => .record (fh.getRecord rid).1
  | .insertRecord buf, fh => .rid (fh.insertRecord buf fh.fileHdr.numPages).1
  | .insertRecordAt rid buf, fh => .unit (fh.insertRecordAt rid buf).1
  | .deleteRecord rid, fh => .unit (fh.deleteRecord rid).1
  | .updateRecord rid buf, fh => .unit (fh.updateRecord rid buf).1
  | .scanInit hasFileHandle, fh =>
    .scan (RmScan.init hasFileHandle fh).1 (RmScan.init hasFileHandle fh).2.1
  | .scanNext sc, fh => .scan (sc.next fh).1 (sc.next fh).2.1

/-- The replies to a sequence of calls. -/
def replies : List RmCall → RmFileHandle → List RmReply
  | [], _ => []
  | c :: cs, fh => c.reply fh :: replies cs (c.run fh).2

/-! ## Handles on the same file -/

namespace SameFile

variable {fh fh' fh1 fh1' : RmFileHandle}

theorem symm (h : SameFile fh fh') : SameFile fh' fh := ⟨h.1.symm, h.2.1.symm, h.2.2.symm⟩

/-- Two handles on the same file, each moved by a call that keeps its file, stay on one file. -/
theorem between (hs : SameFile fh fh') (h1 : SameFile fh fh1) (h1' : SameFile fh' fh1') :
    SameFile fh1 fh1' :=
  (h1.symm.trans hs).trans h1'

theorem ridError_eq (hs : SameFile fh fh') (msg : String) (checkSet : Bool) (rid : Rid) :
    ridError fh' msg checkSet rid = ridError fh msg checkSet rid := by
  simp only [ridError, badSlot, hs.1, hs.2.1, hs.2.2]

end SameFile

/-- A result is fixed by the error it raised and the value it returns. -/
theorem RmCall.eq_of_raised {α : Type} {r r' : Except RmError α} (h : raised r' = raised r)
    (hok : ∀ a a', r = .ok a → r' = .ok a' → a' = a) : r' = r := by
  cases r with
  | error e => cases r' with
    | error e' => cases h; rfl
    | ok a' => cases h
  | ok a => cases r' with
    | error e' => cases h
    | ok a' => rw [hok a a' rfl rfl]

/-! ## `insert_record(buf)` after it holds its page -/

section
variable {fh fh1 : RmFileHandle} (h : CohInv fh.bpm fun _ => false) {alloc : Int} {f : Nat}
  {pid : PageId} (he : fh.createPageHandle alloc = (.ok f, fh1)) (hH : Holding fh fh1 f pid false)
  (hp : pid.fd = fh.fd ∧ pid.pageNo < fh1.fileHdr.numPages) {P : RmPage}
  (hP : fh1.bpm.content pid = P) {hdr : RmFileHdr} (hhdr : fh1.fileHdr = hdr) {slot : Int}
  (hslot : Bitmap.firstBit false P.bitmap hdr.numRecordsPerPage = slot)
include h he hH hp hP hhdr hslot

/-- On a held page `P` with no clear slot or with as many records as slots, `insert_record(buf)`
raises and puts the page back as it was. -/
theorem insertRecord_of_full (buf : List UInt8)
    (hfull : slot = hdr.numRecordsPerPage ∨ P.pageHdr.numRecords ≥ hdr.numRecordsPerPage) :
    (fh.insertRecord buf alloc).1 =
      .error (.rmdbError "Failed to find a free slot in a supposedly free page.") ∧
    (fh.insertRecord buf alloc).2.fd = fh.fd ∧ (fh.insertRecord buf alloc).2.fileHdr = hdr ∧
    (fh.insertRecord buf alloc).2.bpm.content = Function.update fh.bpm.content pid P := by
  rw [insertRecord, he]
  dsimp only
  rw [hH.page, hP, hhdr, hslot, if_pos hfull]
  obtain ⟨hb, hm⟩ := hH.unpin h hp false
  exact ⟨rfl, hb.fd, by rw [unpin_fileHdr, hhdr], by rw [hm, hP]⟩

/-- On a held page `P` with a clear slot and fewer records than slots, `insert_record(buf)` copies
`buf` into the first clear slot, counts it, and moves the head of the free-page list on when that
fills the page at the head. -/
theorem insertRecord_of_free (buf : List UInt8)
    (hfree : ¬(slot = hdr.numRecordsPerPage ∨ P.pageHdr.numRecords ≥ hdr.numRecordsPerPage)) :
    (fh.insertRecord buf alloc).1 = .ok ⟨pid.pageNo, slot⟩ ∧
    (fh.insertRecord buf alloc).2.fd = fh.fd ∧
    (fh.insertRecord buf alloc).2.fileHdr =
      (if P.pageHdr.numRecords + 1 = hdr.numRecordsPerPage ∧ hdr.firstFreePageNo = pid.pageNo then
        { hdr with firstFreePageNo := P.pageHdr.nextFreePageNo } else hdr) ∧
    (fh.insertRecord buf alloc).2.bpm.content = Function.update fh.bpm.content pid
      { P with slots := Function.update P.slots slot.toNat (hdr.copyRecord buf),
               bitmap := Bitmap.set P.bitmap slot.toNat,
               pageHdr := { P.pageHdr with numRecords := P.pageHdr.numRecords + 1 } } := by
  rw [insertRecord, he]
  dsimp only
  rw [hH.page, hP, hhdr, hslot, if_neg hfree]
  set g : RmPage → RmPage := fun p =>
    { p with slots := Function.update p.slots slot.toNat (hdr.copyRecord buf),
             bitmap := Bitmap.set p.bitmap slot.toNat,
             pageHdr := { p.pageHdr with numRecords := p.pageHdr.numRecords + 1 } }
  obtain ⟨hH1, hm1⟩ := hH.write h g
  obtain ⟨hH2, hm2⟩ := hH1.markDirty h
  set X := (fh1.write f g).markDirty f with hX
  have hpage : X.page f = g P := by rw [hH2.page, hm2, hm1, hP]
  have hXh : X.fileHdr = hdr := by rw [hX, markDirty_fileHdr, write_fileHdr, hhdr]
  simp only [ite_writeFileHdr, ite_hdrs, ite_firstFree, hpage, hH2.id]
  refine ⟨trivial, hH2.fd, ?_, ((hH2.setHdr _ _).unpin h ⟨hp.1, ?_⟩ true).2.trans ?_⟩
  · simp only [unpin_fileHdr, hXh]
    split_ifs <;> simp_all
  · show pid.pageNo < X.fileHdr.numPages
    rw [hXh, ← hhdr]; exact hp.2
  · show Function.update fh.bpm.content pid (X.bpm.content pid) = _
    rw [hm2, hm1, hP]

end

/-- With a frame to give, `create_new_page_handle()` holds page `num_pages`, empty, and counts it
in the header. -/
theorem createNewPageHandle_of_roomy {fh : RmFileHandle} (hI : FileInv fh) (hroom : Roomy fh) :
    ∃ f fh1, fh.createNewPageHandle fh.fileHdr.numPages = (.ok f, fh1) ∧
      Holding fh fh1 f ⟨fh.fd, fh.fileHdr.numPages⟩ false ∧
      fh1.bpm.content ⟨fh.fd, fh.fileHdr.numPages⟩ = emptyPage fh.fileHdr.numRecordsPerPage ∧
      fh1.fileHdr = { fh.fileHdr with numPages := fh.fileHdr.numPages + 1 } := by
  rcases createNewPageHandle_spec hI.coh hI.alloc_valid hI.alloc_fresh with
    ⟨e, he⟩ | ⟨f, fh1, he, hH, hm, hhdr⟩
  · have hs := newPage_isSome hroom fh.fd hI.alloc_valid
    unfold createNewPageHandle at he
    split at he
    · rename_i heq; rw [heq] at hs; cases hs
    · cases he
  · exact ⟨f, fh1, he, hH, hm, by rw [hhdr, if_pos (Int.le_refl _)]⟩

/-! ## Each call -/

/-- The loop of `next()` reads each page it fetches. -/
theorem RmScan.scanPages_same (hdr : RmFileHdr) : ∀ k rid {fh fh' : RmFileHandle},
    CohInv fh.bpm (fun _ => false) → Ready fh → CohInv fh'.bpm (fun _ => false) → Ready fh' →
    SameFile fh fh' →
    (RmScan.scanPages hdr k rid fh').1 = (RmScan.scanPages hdr k rid fh).1 ∧
    (RmScan.scanPages hdr k rid fh').2.1 = (RmScan.scanPages hdr k rid fh).2.1 ∧
    SameFile (RmScan.scanPages hdr k rid fh).2.2 (RmScan.scanPages hdr k rid fh').2.2
  | 0, _, _, _, _, _, _, _, hs => ⟨rfl, rfl, hs⟩
  | k + 1, rid, fh, fh', h, hR, h', hR', hs => by
    simp only [RmScan.scanPages]
    split_ifs
    · rcases fetchPageHandle_of_ready h hR rid.pageNo with ⟨hp, he⟩ | ⟨hp, f, fh1, he, hF⟩ <;>
        rcases fetchPageHandle_of_ready h' hR' rid.pageNo with
          ⟨hp', he'⟩ | ⟨hp', f', fh1', he', hF'⟩ <;>
        rw [hs.2.1] at hp'
      · rw [he, he', hs.1]; exact ⟨rfl, rfl, hs⟩
      · exact absurd hp hp'
      · exact absurd hp' hp
      rw [he, he']
      dsimp only
      rw [hF.page, hF'.page, hs.1, hs.2.2]
      obtain ⟨hb, hhdr, hm⟩ := hF.abort h false
      obtain ⟨hb', hhdr', hm'⟩ := hF'.abort h' false
      have hs1 := hs.between ⟨hb.fd, hhdr, hm⟩ ⟨hb'.fd, hhdr', hm'⟩
      split_ifs
      · exact ⟨rfl, rfl, hs1⟩
      · exact scanPages_same hdr k _ hb.coh (hR.of_caches hb (hF.caches (by simp))) hb'.coh
          (hR'.of_caches hb' (hF'.caches (by simp))) hs1
    · exact ⟨rfl, rfl, hs⟩

section
variable {fh fh' : RmFileHandle} (hI : FileInv fh) (hR : Ready fh) (hI' : FileInv fh')
  (hR' : Ready fh') (hs : SameFile fh fh')
include hI hR hI' hR' hs

theorem getRecord_same (rid : Rid) :
    (fh'.getRecord rid).1 = (fh.getRecord rid).1 ∧
    SameFile (fh.getRecord rid).2 (fh'.getRecord rid).2 := by
  obtain ⟨hb, hhdr, hc, hres⟩ := getRecord_spec hI.coh rid
  obtain ⟨hb', hhdr', hc', hres'⟩ := getRecord_spec hI'.coh rid
  refine ⟨RmCall.eq_of_raised ?_ fun a a' ha ha' => ?_, hs.between ⟨hb.fd, hhdr, hc⟩
    ⟨hb'.fd, hhdr', hc'⟩⟩
  · rw [getRecord_raised hI'.coh hR', getRecord_raised hI.coh hR, hs.ridError_eq]
  · rcases hres with ⟨e, he⟩ | ⟨-, -, hv⟩
    · rw [he] at ha; cases ha
    rcases hres' with ⟨e, he⟩ | ⟨-, -, hv'⟩
    · rw [he] at ha'; cases ha'
    rw [hv] at ha
    rw [hv', hs.1, hs.2.1, hs.2.2, ha] at ha'
    cases ha'; rfl

theorem updateRecord_same (rid : Rid) (buf : List UInt8) :
    (fh'.updateRecord rid buf).1 = (fh.updateRecord rid buf).1 ∧
    SameFile (fh.updateRecord rid buf).2 (fh'.updateRecord rid buf).2 := by
  have hr : RmCall.raised (fh'.updateRecord rid buf).1 =
      RmCall.raised (fh.updateRecord rid buf).1 := by
    rw [updateRecord_raised hI'.coh hR', updateRecord_raised hI.coh hR, hs.ridError_eq]
  obtain ⟨hb, hhdr, hres⟩ := updateRecord_spec hI.coh rid buf
  obtain ⟨hb', hhdr', hres'⟩ := updateRecord_spec hI'.coh rid buf
  refine ⟨RmCall.eq_of_raised hr fun _ _ _ _ => rfl, by rw [hb'.fd, hb.fd, hs.1],
    by rw [hhdr', hhdr, hs.2.1], ?_⟩
  rcases hres with ⟨e, he, hc⟩ | ⟨hok, -, -, hc⟩ <;>
    rcases hres' with ⟨e', he', hc'⟩ | ⟨hok', -, -, hc'⟩
  · rw [hc, hc', hs.2.2]
  · rw [he, hok'] at hr; cases hr
  · rw [hok, he'] at hr; cases hr
  · rw [hc, hc', hs.1, hs.2.1, hs.2.2]

theorem insertRecordAt_same (rid : Rid) (buf : List UInt8) :
    (fh'.insertRecordAt rid buf).1 = (fh.insertRecordAt rid buf).1 ∧
    SameFile (fh.insertRecordAt rid buf).2 (fh'.insertRecordAt rid buf).2 := by
  have hr : RmCall.raised (fh'.insertRecordAt rid buf).1 =
      RmCall.raised (fh.insertRecordAt rid buf).1 := by
    rw [insertRecordAt_raised hI'.coh hR', insertRecordAt_raised hI.coh hR, hs.ridError_eq]
  obtain ⟨hb, hhdr, hres⟩ := insertRecordAt_spec hI.coh rid buf
  obtain ⟨hb', hhdr', hres'⟩ := insertRecordAt_spec hI'.coh rid buf
  refine ⟨RmCall.eq_of_raised hr fun _ _ _ _ => rfl, by rw [hb'.fd, hb.fd, hs.1],
    by rw [hhdr', hhdr, hs.2.1], ?_⟩
  rcases hres with ⟨e, he, hc⟩ | ⟨hok, -, hc⟩ <;>
    rcases hres' with ⟨e', he', hc'⟩ | ⟨hok', -, hc'⟩
  · rw [hc, hc', hs.2.2]
  · rw [he, hok'] at hr; cases hr
  · rw [hok, he'] at hr; cases hr
  · rw [hc, hc', hs.1, hs.2.1, hs.2.2]

theorem deleteRecord_same (rid : Rid) :
    (fh'.deleteRecord rid).1 = (fh.deleteRecord rid).1 ∧
    SameFile (fh.deleteRecord rid).2 (fh'.deleteRecord rid).2 := by
  have hr : RmCall.raised (fh'.deleteRecord rid).1 = RmCall.raised (fh.deleteRecord rid).1 := by
    rw [deleteRecord_raised hI'.coh hR', deleteRecord_raised hI.coh hR, hs.ridError_eq]
  obtain ⟨hb, hres⟩ := deleteRecord_spec hI.coh rid
  obtain ⟨hb', hres'⟩ := deleteRecord_spec hI'.coh rid
  refine ⟨RmCall.eq_of_raised hr fun _ _ _ _ => rfl, ?_⟩
  rcases hres with ⟨e, he, hhdr, hc⟩ | ⟨hok, -, -, hhdr, hc⟩ <;>
    rcases hres' with ⟨e', he', hhdr', hc'⟩ | ⟨hok', -, -, hhdr', hc'⟩
  · exact hs.between ⟨hb.fd, hhdr, hc⟩ ⟨hb'.fd, hhdr', hc'⟩
  · rw [he, hok'] at hr; cases hr
  · rw [hok, he'] at hr; cases hr
  · exact ⟨by rw [hb'.fd, hb.fd, hs.1], by rw [hhdr', hhdr, hs.1, hs.2.1, hs.2.2],
      by rw [hc', hc, hs.1, hs.2.1, hs.2.2]⟩

/-- `create_page_handle()` raises the same error on both handles, or takes the same page on both
and leaves them on the same file. -/
theorem createPageHandle_same (hroom : Roomy fh) (hroom' : Roomy fh') :
    (∃ e, fh.createPageHandle fh.fileHdr.numPages = (.error e, fh) ∧
        fh'.createPageHandle fh'.fileHdr.numPages = (.error e, fh')) ∨
    ∃ f f' fh1 fh1' pid, fh.createPageHandle fh.fileHdr.numPages = (.ok f, fh1) ∧
      fh'.createPageHandle fh'.fileHdr.numPages = (.ok f', fh1') ∧
      Holding fh fh1 f pid false ∧ Holding fh' fh1' f' pid false ∧
      (pid.fd = fh.fd ∧ pid.pageNo < fh1.fileHdr.numPages) ∧ SameFile fh1 fh1' := by
  unfold createPageHandle
  rw [hs.2.1]
  by_cases hff : fh.fileHdr.firstFreePageNo = rmNoPage
  · rw [if_neg (not_not.2 hff), if_neg (not_not.2 hff)]
    obtain ⟨f, fh1, he, hH, hm, hhdr⟩ := createNewPageHandle_of_roomy hI hroom
    obtain ⟨f', fh1', he', hH', hm', hhdr'⟩ := createNewPageHandle_of_roomy hI' hroom'
    rw [hs.1, hs.2.1] at hH' hm'
    rw [hs.2.1] at hhdr' he'
    refine .inr ⟨f, f', fh1, fh1', _, he, he', hH, hH', ⟨rfl, by rw [hhdr]; exact Int.lt_succ _⟩,
      by rw [hH'.fd, hH.fd, hs.1], by rw [hhdr', hhdr], funext fun q => ?_⟩
    by_cases hq : q = ⟨fh.fd, fh.fileHdr.numPages⟩
    · rw [hq, hm, hm']
    · rw [hH'.content q hq, hH.content q hq, hs.2.2]
  · rw [if_pos hff, if_pos hff]
    rcases fetchPageHandle_of_ready hI.coh hR fh.fileHdr.firstFreePageNo with
        ⟨hp, he⟩ | ⟨hp, f, fh1, he, hF⟩ <;>
      rcases fetchPageHandle_of_ready hI'.coh hR' fh.fileHdr.firstFreePageNo with
        ⟨hp', he'⟩ | ⟨hp', f', fh1', he', hF'⟩ <;>
      rw [hs.2.1] at hp'
    · exact .inl ⟨_, he, by rw [he', hs.1]⟩
    · exact absurd hp hp'
    · exact absurd hp' hp
    · have hH' := hF'.holding
      rw [hs.1] at hH'
      exact .inr ⟨f, f', fh1, fh1', _, he, he', hF.holding, hH', hF.held,
        hs.between ⟨hF.holding.fd, hF.fileHdr, hF.content⟩ ⟨hF'.holding.fd, hF'.fileHdr, hF'.content⟩⟩

theorem insertRecord_same (hroom : Roomy fh) (hroom' : Roomy fh') (buf : List UInt8) :
    (fh'.insertRecord buf fh'.fileHdr.numPages).1 = (fh.insertRecord buf fh.fileHdr.numPages).1 ∧
    SameFile (fh.insertRecord buf fh.fileHdr.numPages).2
      (fh'.insertRecord buf fh'.fileHdr.numPages).2 := by
  rcases createPageHandle_same hI hR hI' hR' hs hroom hroom' with
    ⟨e, he, he'⟩ | ⟨f, f', fh1, fh1', pid, he, he', hH, hH', hp, hs1⟩
  · unfold insertRecord; rw [he, he']; exact ⟨rfl, hs⟩
  have hp' : pid.fd = fh'.fd ∧ pid.pageNo < fh1'.fileHdr.numPages := by
    rw [hs.1, hs1.2.1]; exact hp
  have hP' := congrFun hs1.2.2 pid
  by_cases hfull : Bitmap.firstBit false (fh1.bpm.content pid).bitmap
      fh1.fileHdr.numRecordsPerPage = fh1.fileHdr.numRecordsPerPage ∨
    (fh1.bpm.content pid).pageHdr.numRecords ≥ fh1.fileHdr.numRecordsPerPage
  · obtain ⟨r, hfd, hhdr, hc⟩ := insertRecord_of_full hI.coh he hH hp rfl rfl rfl buf hfull
    obtain ⟨r', hfd', hhdr', hc'⟩ :=
      insertRecord_of_full hI'.coh he' hH' hp' hP' hs1.2.1 rfl buf hfull
    exact ⟨r'.trans r.symm, by rw [hfd', hfd, hs.1], by rw [hhdr', hhdr],
      by rw [hc', hc, hs.2.2]⟩
  · obtain ⟨r, hfd, hhdr, hc⟩ := insertRecord_of_free hI.coh he hH hp rfl rfl rfl buf hfull
    obtain ⟨r', hfd', hhdr', hc'⟩ :=
      insertRecord_of_free hI'.coh he' hH' hp' hP' hs1.2.1 rfl buf hfull
    exact ⟨r'.trans r.symm, by rw [hfd', hfd, hs.1], by rw [hhdr', hhdr],
      by rw [hc', hc, hs.2.2]⟩

theorem RmScan.next_same (sc : RmScan) :
    (sc.next fh').1 = (sc.next fh).1 ∧ (sc.next fh').2.1 = (sc.next fh).2.1 ∧
    SameFile (sc.next fh).2.2 (sc.next fh').2.2 := by
  cases he : sc.isEnd
  · rw [RmScan.next_of_isEnd_eq_false he, RmScan.next_of_isEnd_eq_false he, hs.2.1]
    obtain ⟨h1, h2, h3⟩ := RmScan.scanPages_same fh.fileHdr _ sc.rid hI.coh hR hI'.coh hR' hs
    exact ⟨h1, by rw [h2], h3⟩
  · unfold RmScan.next
    rw [if_pos he, if_pos he]
    exact ⟨rfl, rfl, hs⟩

theorem RmScan.init_same (hasFileHandle : Bool) :
    (RmScan.init hasFileHandle fh').1 = (RmScan.init hasFileHandle fh).1 ∧
    (RmScan.init hasFileHandle fh').2.1 = (RmScan.init hasFileHandle fh).2.1 ∧
    SameFile (RmScan.init hasFileHandle fh).2.2 (RmScan.init hasFileHandle fh').2.2 := by
  unfold RmScan.init
  split_ifs
  · exact ⟨rfl, rfl, hs⟩
  · exact RmScan.next_same hI hR hI' hR' hs _

/-- Every call returns the same reply on two handles on the same file, each over a pool that can
give a frame, and leaves them on the same file. -/
theorem RmCall.reply_same (hroom : Roomy fh) (hroom' : Roomy fh') : ∀ c : RmCall,
    c.reply fh' = c.reply fh ∧ SameFile (c.run fh).2 (c.run fh').2
  | .getRecord rid =>
    have ⟨h1, h2⟩ := getRecord_same hI hR hI' hR' hs rid
    ⟨congrArg RmReply.record h1, h2⟩
  | .insertRecord buf =>
    have ⟨h1, h2⟩ := insertRecord_same hI hR hI' hR' hs hroom hroom' buf
    ⟨congrArg RmReply.rid h1, h2⟩
  | .insertRecordAt rid buf =>
    have ⟨h1, h2⟩ := insertRecordAt_same hI hR hI' hR' hs rid buf
    ⟨congrArg RmReply.unit h1, h2⟩
  | .deleteRecord rid =>
    have ⟨h1, h2⟩ := deleteRecord_same hI hR hI' hR' hs rid
    ⟨congrArg RmReply.unit h1, h2⟩
  | .updateRecord rid buf =>
    have ⟨h1, h2⟩ := updateRecord_same hI hR hI' hR' hs rid buf
    ⟨congrArg RmReply.unit h1, h2⟩
  | .scanInit hasFileHandle =>
    have ⟨h1, h2, h3⟩ := RmScan.init_same hI hR hI' hR' hs hasFileHandle
    ⟨by rw [RmCall.reply, RmCall.reply, h1, h2], h3⟩
  | .scanNext sc =>
    have ⟨h1, h2, h3⟩ := RmScan.next_same hI hR hI' hR' hs sc
    ⟨by rw [RmCall.reply, RmCall.reply, h1, h2], h3⟩

end

/-! ## Every run -/

/-- Along every run of calls, two reachable handles on the same file, each over a pool that can
give a frame, receive the same replies and stay on the same file: no reply depends on the pool's
size, on which pages it caches or on which frames it evicts. -/
theorem replies_ignore_pool {fh fh' : RmFileHandle} (hr : Reachable fh) (hr' : Reachable fh')
    (hroom : Roomy fh) (hroom' : Roomy fh') (hs : SameFile fh fh') :
    ∀ cs : List RmCall, replies cs fh' = replies cs fh ∧ SameFile (runAll cs fh) (runAll cs fh')
  | [] => ⟨rfl, hs⟩
  | c :: cs =>
    have hI := FileInv.of_reachable hr
    have hI' := FileInv.of_reachable hr'
    have ⟨h1, h2⟩ := RmCall.reply_same hI hr.ready hI' hr'.ready hs hroom hroom' c
    have ⟨h3, h4⟩ := replies_ignore_pool (.step c hr) (.step c hr')
      (Roomy.run hI hr.ready hroom c) (Roomy.run hI' hr'.ready hroom' c) h2 cs
    ⟨by rw [replies, replies, h1, h3], h4⟩

/-- The file of `freshFile 2` on a pool of three frames. -/
def freshFileThreeFrames : RmFileHandle :=
  ⟨0, ⟨1, 1, 2, rmNoPage⟩, create 3 ⟨fun _ => 0⟩, ⟨1, 1, 2, rmNoPage⟩⟩

/-- A fresh file on pools of one and of three frames: three inserts, which evict page 1 from the
one frame, a delete, a get and a scan. -/
theorem replies_ignore_pool_three_frames :
    let cs : List RmCall := [.insertRecord [7], .insertRecord [8], .insertRecord [9],
      .deleteRecord ⟨1, 0⟩, .getRecord ⟨2, 0⟩, .scanInit true]
    Reachable (freshFile 2) ∧ Reachable freshFileThreeFrames ∧ Roomy (freshFile 2) ∧
    Roomy freshFileThreeFrames ∧ SameFile (freshFile 2) freshFileThreeFrames ∧
    (replies cs freshFileThreeFrames = replies cs (freshFile 2) ∧
      SameFile (runAll cs (freshFile 2)) (runAll cs freshFileThreeFrames)) :=
  have hr : Reachable (freshFile 2) := freshFile_reachable (by decide)
  have hr' : Reachable freshFileThreeFrames :=
    .fresh ⟨CohInv.of_reachable (Tracked.Reachable.init (PoolInit.create (D := RmPage) 3 _)),
      rfl, rfl, by decide, fun _ _ _ => rfl⟩
  have hroom : Roomy (freshFile 2) := by decide
  have hroom' : Roomy freshFileThreeFrames := by decide
  have hs : SameFile (freshFile 2) freshFileThreeFrames := ⟨rfl, rfl, rfl⟩
  ⟨hr, hr', hroom, hroom', hs, replies_ignore_pool hr hr' hroom hroom' hs _⟩

end Rmdb
