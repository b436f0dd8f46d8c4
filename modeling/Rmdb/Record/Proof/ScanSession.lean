import Rmdb.Record.Proof.ScanLoop

/-!
# A scan while its file changes

A scan of a record file is open from its constructor until `is_end()`, and meanwhile the file
may take any call of its interface (`ScanEvent`). `scanSession` runs the constructor and then the
events, and records for each what it yields (`yielded`: the scan's rid, after a `next()` that
returned without raising and left the scan open) and the handle after it.

`Open` is what holds along the way: the rids yielded so far are increasing and no later than the
cursor, and every slot up to the cursor (every slot of the file, once the scan is at its end)
whose bit stayed set has been yielded. `Open.next` and `Open.call` are the step lemmas, from
`scanPages_cursor` and the operation specs, and `Open.run` the run lemma. With no call in
between, the scan reads one file (`SameFile`) and, on a reachable file, never fails to fetch
(`scanRun_nexts`), so it yields `liveRids` one by one (`scanSession_nexts`).

`scan_yields_live_rids` collects the guarantees: the yielded rids increase, each is live when it
is yielded, a scan that reaches its end has yielded every slot whose bit stayed set, and with no
call in between the constructor and `k` calls of `next()` yield the first `k + 1` live rids and
reach the end exactly when there are at most `k`.
-/

namespace Rmdb

open BufferPoolManager RmFileHandle

/-- What happens while a scan of a file is open: a `next()` of the scan, or a call of the file. -/
inductive ScanEvent
  | next
  | call (c : RmCall)

/-- What a `next()` that returned `res` yields: the scan's rid, when it returned without raising
and the scan is not at its end. -/
def yielded (res : Option RmError × RmScan × RmFileHandle) : Option Rid :=
  match res.1 with
  | some _ => none
  | none => if res.2.1.isEnd then none else some res.2.1.rid

/-- One event on the scan `sc` of `fh`: what it yields, and the scan and handle after it. -/
def ScanEvent.step : ScanEvent → RmScan → RmFileHandle → Option Rid × RmScan × RmFileHandle
  | .next, sc, fh => (yielded (sc.next fh), (sc.next fh).2)
  | .call c, sc, fh => (none, sc, (c.run fh).2)

/-- The scan `sc` of `fh` while the events `es` happen, until `is_end()`: what each event yields
with the handle after it, and the scan and handle at the end. -/
def scanRun : List ScanEvent → RmScan → RmFileHandle →
    List (Option Rid × RmFileHandle) × RmScan × RmFileHandle
  | [], sc, fh => ([], sc, fh)
  | e :: es, sc, fh =>
    if sc.isEnd then ([], sc, fh)
    else (((e.step sc fh).1, (e.step sc fh).2.2) ::
        (scanRun es (e.step sc fh).2.1 (e.step sc fh).2.2).1,
      (scanRun es (e.step sc fh).2.1 (e.step sc fh).2.2).2)

/-- A scan of `fh` from its constructor `RmScan(file_handle)` while the events `es` happen. -/
def scanSession (es : List ScanEvent) (fh : RmFileHandle) :
    List (Option Rid × RmFileHandle) × RmScan × RmFileHandle :=
  ((yielded (RmScan.init true fh), (RmScan.init true fh).2.2) ::
      (scanRun es (RmScan.init true fh).2.1 (RmScan.init true fh).2.2).1,
    (scanRun es (RmScan.init true fh).2.1 (RmScan.init true fh).2.2).2)

/-- The constructor is a `next()` from before the first slot of the first data page. -/
theorem scanSession_eq (es : List ScanEvent) (fh : RmFileHandle) :
    scanSession es fh = scanRun (.next :: es) ⟨true, ⟨rmFirstRecordPage, -1⟩⟩ fh := rfl

theorem scanRun_of_isEnd {sc : RmScan} (he : sc.isEnd = true) (es : List ScanEvent)
    (fh : RmFileHandle) : scanRun es sc fh = ([], sc, fh) := by
  cases es <;> simp [scanRun, he]

theorem filterMap_fst_cons {α β : Type} (x : Option α × β) (l : List (Option α × β)) :
    (x :: l).filterMap Prod.fst = x.1.toList ++ l.filterMap Prod.fst := by
  rcases x with ⟨_ | a, b⟩ <;> rfl

/-! ## `next()` -/

namespace RmScan

theorem isEnd_eq_false {sc : RmScan} (hh : sc.hasFileHandle = true)
    (hp : rmFirstRecordPage ≤ sc.rid.pageNo) : sc.isEnd = false := by
  simp only [isEnd, hh, rmNoPage, rmFirstRecordPage] at hp ⊢
  split_ifs <;> simp_all

theorem next_of_isEnd_eq_false {sc : RmScan} (he : sc.isEnd = false) (fh : RmFileHandle) :
    sc.next fh = ((scanPages fh.fileHdr (fh.fileHdr.numPages - sc.rid.pageNo).toNat sc.rid fh).1,
      { sc with rid := (scanPages fh.fileHdr (fh.fileHdr.numPages - sc.rid.pageNo).toNat
        sc.rid fh).2.1 },
      (scanPages fh.fileHdr (fh.fileHdr.numPages - sc.rid.pageNo).toNat sc.rid fh).2.2) := by
  rw [next, if_neg (by simp [he])]

/-- `next()` on a `Ready` file never raises. -/
theorem next_ok {fh : RmFileHandle} (h : CohInv fh.bpm fun _ => false) (hR : Ready fh)
    (sc : RmScan) : (sc.next fh).1 = none := by
  unfold next
  split_ifs
  · rfl
  · exact scanPages_ok _ _ _ h hR

end RmScan

/-! ## Calls that keep the file -/

/-- `fh'` has `fh`'s descriptor, header and pages, which are all that `Slot`, `IsSet` and `Live`
read. -/
def SameFile (fh fh' : RmFileHandle) : Prop :=
  fh'.fd = fh.fd ∧ fh'.fileHdr = fh.fileHdr ∧ fh'.bpm.content = fh.bpm.content

namespace SameFile

variable {fh fh' fh'' : RmFileHandle}

theorem refl (fh : RmFileHandle) : SameFile fh fh := ⟨rfl, rfl, rfl⟩

theorem trans (h : SameFile fh fh') (h' : SameFile fh' fh'') : SameFile fh fh'' :=
  ⟨h'.1.trans h.1, h'.2.1.trans h.2.1, h'.2.2.trans h.2.2⟩

theorem isSet (h : SameFile fh fh') (r : Rid) : IsSet fh' r ↔ IsSet fh r := by
  simp only [IsSet, h.1, h.2.2]

theorem live (h : SameFile fh fh') (r : Rid) : Live fh' r ↔ Live fh r := by
  simp only [Live, Slot, IsSet, h.1, h.2.1, h.2.2]

theorem of_next (h : CohInv fh.bpm fun _ => false) (sc : RmScan) : SameFile fh (sc.next fh).2.2 :=
  have hs := RmScan.next_spec h sc
  ⟨hs.1.fd, hs.2⟩

end SameFile

/-! ## The invariant of an open scan -/

/-- An open scan `sc` of `fh`, whose file has `n` slots a page, has yielded `Y`; `S` holds the
slots whose bits stayed set so far. The file keeps its invariant; `Y` increases and, while the
scan is open, is no later than the cursor, which is on a data page at slot `-1` or after; and
every slot of `S` up to the cursor (every slot of the file, once the scan is at its end) is in
`Y`. -/
structure Open (n : Int) (S : Rid → Prop) (Y : List Rid) (sc : RmScan) (fh : RmFileHandle) :
    Prop where
  inv : FileInv fh
  slots : fh.fileHdr.numRecordsPerPage = n
  handle : sc.hasFileHandle = true
  sorted : Y.Pairwise (· < ·)
  cursor : sc.isEnd = false →
    rmFirstRecordPage ≤ sc.rid.pageNo ∧ -1 ≤ sc.rid.slotNo ∧ ∀ y ∈ Y, y ≤ sc.rid
  covered : ∀ r, S r → rmFirstRecordPage ≤ r.pageNo → 0 ≤ r.slotNo → r.slotNo < n →
    (if sc.isEnd then r.pageNo < fh.fileHdr.numPages else r ≤ sc.rid) → r ∈ Y

namespace Open

variable {n : Int} {S : Rid → Prop} {Y : List Rid} {sc : RmScan} {fh : RmFileHandle}

theorem mono (hO : Open n S Y sc fh) {S' : Rid → Prop} (hS : ∀ r, S' r → S r) :
    Open n S' Y sc fh :=
  { hO with covered := fun r hr => hO.covered r (hS r hr) }

/-- The scan before its constructor's `next()`. -/
theorem start (hI : FileInv fh) :
    Open fh.fileHdr.numRecordsPerPage (fun _ => True) [] ⟨true, ⟨rmFirstRecordPage, -1⟩⟩ fh := by
  refine ⟨hI, rfl, rfl, List.Pairwise.nil, fun _ => ⟨le_rfl, le_rfl, fun _ h => absurd h
    (List.not_mem_nil _)⟩, fun r _ h1 h2 _ hle => absurd hle ?_⟩
  rw [RmScan.isEnd_eq_false rfl le_rfl, if_neg (by simp), Rid.le_iff]
  dsimp only
  omega

/-- A `next()` keeps the invariant, and what it yields is live. -/
theorem next (hO : Open n S Y sc fh) (he : sc.isEnd = false) :
    Open n (fun r => S r ∧ IsSet (sc.next fh).2.2 r) (Y ++ (yielded (sc.next fh)).toList)
      (sc.next fh).2.1 (sc.next fh).2.2 ∧
    ∀ r, yielded (sc.next fh) = some r → Live (sc.next fh).2.2 r := by
  obtain ⟨hp, hs, hY⟩ := hO.cursor he
  have hstop := scanPages_cursor _ sc.rid fh hO.inv.coh hp hs le_rfl
  have hI' : FileInv (sc.next fh).2.2 := hO.inv.run (.scanNext sc)
  have hsame := SameFile.of_next hO.inv.coh sc
  -- A slot of `S` whose bit is set is yielded: up to the cursor by `covered`; after it, only
  -- when the loop did not read it clear.
  have hkeep : ∀ r, S r → IsSet fh r → rmFirstRecordPage ≤ r.pageNo → 0 ≤ r.slotNo →
      r.slotNo < n → r.pageNo < fh.fileHdr.numPages → (Slot fh r → sc.rid < r → ¬ IsSet fh r) →
      r ∈ Y := fun r hS hb h1 h2 h3 h4 hclr =>
    (le_or_lt r sc.rid).elim (fun hrc => hO.covered r hS h1 h2 h3 (by rw [he]; exact hrc))
      fun hrc => absurd hb (hclr ⟨h1, h4, h2, hO.slots ▸ h3⟩ hrc)
  rw [RmScan.next_of_isEnd_eq_false he] at hI' hsame ⊢
  revert hstop hI' hsame
  rcases RmScan.scanPages fh.fileHdr (fh.fileHdr.numPages - sc.rid.pageNo).toNat sc.rid fh with
    ⟨_ | err, c', fh'⟩
  · intro hstop hI' hsame
    dsimp only [Stop] at hstop hI' hsame ⊢
    rcases hstop with ⟨rfl, hclr⟩ | ⟨hlt, hl, hclr⟩
    · -- The end: every slot after the cursor was read clear.
      have hend : ({ sc with rid := RmScan.endRid } : RmScan).isEnd = true := by
        simp [RmScan.isEnd, RmScan.endRid]
      have hy : yielded (none, { sc with rid := RmScan.endRid }, fh') = none := by
        simp [yielded, hend]
      simp only [hy, Option.toList, List.append_nil]
      refine ⟨⟨hI', hsame.2.1.symm ▸ hO.slots, hO.handle, hO.sorted,
        fun h => absurd h (by simp [hend]), fun r hr h1 h2 h3 hle => ?_⟩, fun r h => by cases h⟩
      rw [if_pos hend, hsame.2.1] at hle
      exact hkeep r hr.1 ((hsame.isSet r).1 hr.2) h1 h2 h3 hle (hclr r)
    · -- The next live slot.
      have he' : ({ sc with rid := c' } : RmScan).isEnd = false :=
        RmScan.isEnd_eq_false hO.handle hl.1.1
      have hy : yielded (none, { sc with rid := c' }, fh') = some c' := by simp [yielded, he']
      simp only [hy, Option.toList]
      refine ⟨⟨hI', hsame.2.1.symm ▸ hO.slots, hO.handle, ?_, fun _ => ⟨hl.1.1, by
        have := hl.1.2.2.1; dsimp only; omega, fun y hy' => ?_⟩, fun r hr h1 h2 h3 hle => ?_⟩,
        fun r h => by cases h; exact (hsame.live _).2 hl⟩
      · exact List.pairwise_append.2 ⟨hO.sorted, List.pairwise_singleton _ _,
          fun y hy' z hz => (List.mem_singleton.1 hz) ▸ (hY y hy').trans_lt hlt⟩
      · rcases List.mem_append.1 hy' with hy' | hy'
        · exact ((hY y hy').trans_lt hlt).le
        · exact (List.mem_singleton.1 hy').le
      · rw [if_neg (by simp [he'])] at hle
        rcases hle.lt_or_eq with hlt' | rfl
        · exact List.mem_append_left _ (hkeep r hr.1 ((hsame.isSet r).1 hr.2) h1 h2 h3
            (Rid.pageNo_lt_of_le hlt'.le hl.1.2.1) fun hs hrc => hclr r hs hrc hlt')
        · exact List.mem_append_right _ (List.mem_singleton_self _)
  · -- A fetch raised: the cursor stayed, or moved before a later page, read clear up to it.
    intro hstop hI' hsame
    dsimp only [Stop] at hstop hI' hsame ⊢
    obtain ⟨hc', hp', hn', hclr⟩ := hstop
    have he' : ({ sc with rid := c' } : RmScan).isEnd = false := RmScan.isEnd_eq_false hO.handle hp'
    have hy : yielded (some err, { sc with rid := c' }, fh') = none := rfl
    simp only [hy, Option.toList, List.append_nil]
    refine ⟨⟨hI', hsame.2.1.symm ▸ hO.slots, hO.handle, hO.sorted, fun _ => ⟨hp', ?_,
      fun y hy' => ?_⟩, fun r hr h1 h2 h3 hle => ?_⟩, fun r h => by cases h⟩
    · rcases hc' with rfl | ⟨-, hs'⟩ <;> dsimp only <;> omega
    · rcases hc' with rfl | ⟨hlt, -⟩
      · exact hY y hy'
      · exact (hY y hy').trans hlt.le
    · rw [if_neg (by simp [he'])] at hle
      refine hkeep r hr.1 ((hsame.isSet r).1 hr.2) h1 h2 h3 (Rid.pageNo_lt_of_le hle hn')
        fun hs hrc => ?_
      rcases hc' with rfl | ⟨-, hs'⟩
      · exact absurd hle (not_le.2 hrc)
      · exact hclr r hs hrc (lt_of_le_of_ne hle (by rintro rfl; omega))

/-- A call of the file keeps the invariant: the scan does not move, and a slot stays in `S` only
while its bit stays set. -/
theorem call (hO : Open n S Y sc fh) (he : sc.isEnd = false) (c : RmCall) :
    Open n (fun r => S r ∧ IsSet (c.run fh).2 r) Y sc (c.run fh).2 :=
  { hO with
    inv := hO.inv.run c
    slots := (hO.inv.run_slots c).trans hO.slots
    covered := fun r hr h1 h2 h3 hle =>
      hO.covered r hr.1 h1 h2 h3 (by rw [he] at hle ⊢; exact hle) }

/-- One event keeps the invariant, and what it yields is live. -/
theorem step (hO : Open n S Y sc fh) (he : sc.isEnd = false) : ∀ e : ScanEvent,
    Open n (fun r => S r ∧ IsSet (e.step sc fh).2.2 r) (Y ++ (e.step sc fh).1.toList)
      (e.step sc fh).2.1 (e.step sc fh).2.2 ∧
    ∀ r, (e.step sc fh).1 = some r → Live (e.step sc fh).2.2 r
  | .next => hO.next he
  | .call c => ⟨by rw [ScanEvent.step, Option.toList_none, List.append_nil]; exact hO.call he c,
      fun _ h => by cases h⟩

/-- A run that records nothing leaves the invariant as it was. -/
theorem nil (hO : Open n S Y sc fh) :
    Open n (fun r => S r ∧ ∀ x ∈ ([] : List (Option Rid × RmFileHandle)), IsSet x.2 r)
      (Y ++ ([] : List (Option Rid × RmFileHandle)).filterMap Prod.fst) sc fh := by
  rw [List.filterMap_nil, List.append_nil]
  exact hO.mono fun r h => h.1

/-- A run of events keeps the invariant, for the slots whose bits stay set in every state it
records, and everything it yields is live when it is yielded. -/
theorem run : ∀ (es : List ScanEvent) {S : Rid → Prop} {Y : List Rid} {sc : RmScan}
    {fh : RmFileHandle}, Open n S Y sc fh →
    Open n (fun r => S r ∧ ∀ x ∈ (scanRun es sc fh).1, IsSet x.2 r)
        (Y ++ (scanRun es sc fh).1.filterMap Prod.fst) (scanRun es sc fh).2.1
        (scanRun es sc fh).2.2 ∧
      ∀ x ∈ (scanRun es sc fh).1, ∀ r, x.1 = some r → Live x.2 r
  | [], _, _, _, _, hO => ⟨hO.nil, by simp [scanRun]⟩
  | e :: es, S, Y, sc, fh, hO => by
    by_cases he : sc.isEnd = true
    · rw [scanRun_of_isEnd he]
      exact ⟨hO.nil, by simp⟩
    obtain ⟨hO1, hl1⟩ := hO.step (Bool.not_eq_true _ ▸ he) e
    obtain ⟨hO2, hl2⟩ := run es hO1
    rw [scanRun, if_neg he]
    dsimp only
    refine ⟨?_, fun x hx r hr => ?_⟩
    · rw [filterMap_fst_cons, ← List.append_assoc]
      exact hO2.mono fun r ⟨hS, hx⟩ =>
        ⟨⟨hS, hx _ (List.mem_cons_self _ _)⟩, fun x hx' => hx x (List.mem_cons_of_mem _ hx')⟩
    · rcases List.mem_cons.1 hx with rfl | hx
      · exact hl1 r hr
      · exact hl2 x hx r hr

end Open

/-! ## A scan with nothing in between -/

/-- `k` calls of `next()` with nothing in between, on an open scan of a file that keeps its
invariant and can bring in its pages, read one file and never raise: they yield one rid each
until the scan reaches its end, and the call that reaches it yields none. -/
theorem scanRun_nexts : ∀ (k : Nat) {sc : RmScan} {fh : RmFileHandle}, FileInv fh → Ready fh →
    sc.isEnd = false →
    (∀ x ∈ (scanRun (List.replicate k .next) sc fh).1, SameFile fh x.2) ∧
    SameFile fh (scanRun (List.replicate k .next) sc fh).2.2 ∧
    ((scanRun (List.replicate k .next) sc fh).2.1.isEnd = false →
      ((scanRun (List.replicate k .next) sc fh).1.filterMap Prod.fst).length = k) ∧
    ((scanRun (List.replicate k .next) sc fh).2.1.isEnd = true →
      ((scanRun (List.replicate k .next) sc fh).1.filterMap Prod.fst).length < k)
  | 0, sc, fh, _, _, he => ⟨by simp [scanRun], .refl fh, fun _ => rfl, by simp [scanRun, he]⟩
  | k + 1, sc, fh, hI, hR, he => by
    have hok := RmScan.next_ok hI.coh hR sc
    have hs := SameFile.of_next hI.coh sc
    rw [List.replicate_succ, scanRun, if_neg (by simp [he])]
    dsimp only [ScanEvent.step]
    by_cases hend : (sc.next fh).2.1.isEnd = true
    · have hy : yielded (sc.next fh) = none := by simp [yielded, hok, hend]
      rw [scanRun_of_isEnd hend, hy]
      exact ⟨by simpa using hs, hs, fun h => absurd hend (by simp [h]), fun _ => by simp⟩
    have hy : yielded (sc.next fh) = some (sc.next fh).2.1.rid := by simp [yielded, hok, hend]
    have hI' : FileInv (sc.next fh).2.2 := hI.run (.scanNext sc)
    have hR' : Ready (sc.next fh).2.2 := hR.run hI (.scanNext sc)
    obtain ⟨hx, hlast, hlen, hlen'⟩ := scanRun_nexts k hI' hR' (by simpa using hend)
    rw [hy, filterMap_fst_cons]
    refine ⟨?_, hs.trans hlast, fun h => ?_, fun h => ?_⟩
    · exact List.forall_mem_cons.2 ⟨hs, fun x hx' => hs.trans (hx x hx')⟩
    · simp [hlen h]
    · simpa using hlen' h

/-- With no call in between, the constructor and `k` calls of `next()` on a reachable file yield
the first `k + 1` live rids in order, and reach the end exactly when there are at most `k`. -/
theorem scanSession_nexts {fh : RmFileHandle} (hr : Reachable fh) (k : Nat) :
    (scanSession (List.replicate k .next) fh).1.filterMap Prod.fst = (liveRids fh).take (k + 1) ∧
    ((scanSession (List.replicate k .next) fh).2.1.isEnd = true ↔ (liveRids fh).length ≤ k) := by
  have hI := FileInv.of_reachable hr
  rw [scanSession_eq, ← List.replicate_succ]
  obtain ⟨hO, hl⟩ := (Open.start hI).run (List.replicate (k + 1) .next)
  obtain ⟨hx, hlast, hlen, hlen'⟩ :=
    scanRun_nexts (k + 1) hI hr.ready
      (RmScan.isEnd_eq_false rfl le_rfl : RmScan.isEnd ⟨true, ⟨rmFirstRecordPage, -1⟩⟩ = false)
  generalize scanRun (List.replicate (k + 1) ScanEvent.next) ⟨true, ⟨rmFirstRecordPage, -1⟩⟩ fh = R
    at hO hl hx hlast hlen hlen' ⊢
  have hY : (R.1.filterMap Prod.fst).Pairwise (· < ·) := by simpa using hO.sorted
  have hlive : ∀ y ∈ R.1.filterMap Prod.fst, Live fh y := fun y hy => by
    obtain ⟨x, hx', hxy⟩ := List.mem_filterMap.1 hy
    exact (hx x hx').live y |>.1 (hl x hx' y hxy)
  have hcov : ∀ r, Live fh r → (if R.2.1.isEnd then r.pageNo < fh.fileHdr.numPages
      else r ≤ R.2.1.rid) → r ∈ R.1.filterMap Prod.fst := fun r hr hle => by
    have := hO.covered r ⟨trivial, fun x hx' => (hx x hx').isSet r |>.2 hr.2⟩ hr.1.1 hr.1.2.2.1
      hr.1.2.2.2 (by rw [hlast.2.1]; exact hle)
    simpa using this
  cases hend : R.2.1.isEnd
  · -- The scan is open: it has yielded the live rids up to its cursor, one a call.
    have hc := (hO.cursor hend).2.2
    have hfilter : R.1.filterMap Prod.fst = (liveRids fh).filter (· ≤ R.2.1.rid) :=
      eq_of_mem_iff hY ((liveRids_sorted fh).filter _) fun r => by
        simp only [List.mem_filter, mem_liveRids, decide_eq_true_eq]
        exact ⟨fun h => ⟨hlive r h, hc r (by simpa using h)⟩,
          fun h => hcov r h.1 (by rw [hend]; exact h.2)⟩
    have htake : R.1.filterMap Prod.fst = (liveRids fh).take (k + 1) := by
      rw [← hlen hend, hfilter, ← filter_le_eq_take (liveRids_sorted fh)]
    refine ⟨htake, ?_⟩
    have := congrArg List.length htake
    rw [hlen hend, List.length_take] at this
    simp only [Bool.false_eq_true, false_iff, not_le]
    omega
  · -- The scan is at its end: it has yielded every live rid, at most one a call.
    have hall : R.1.filterMap Prod.fst = liveRids fh :=
      eq_of_mem_iff hY (liveRids_sorted fh) fun r =>
        ⟨fun h => mem_liveRids.2 (hlive r h),
          fun h => hcov r (mem_liveRids.1 h) (by rw [hend]; exact (mem_liveRids.1 h).1.2.1)⟩
    have hle := hlen' hend
    rw [hall] at hle ⊢
    exact ⟨(List.take_of_length_le (by omega)).symm, iff_of_true rfl (by omega)⟩

/-- A scan of a reachable file, with any calls of the file in between: the rids it yields
increase; each is live in the state it is yielded in; once it reaches its end it has yielded
every slot whose bit stayed set in every state along the way; and with no call in between the
constructor and `k` calls of `next()` yield the first `k + 1` live rids and reach the end exactly
when there are at most `k`. -/
theorem scan_yields_live_rids {fh : RmFileHandle} (hr : Reachable fh) (es : List ScanEvent) :
    ((scanSession es fh).1.filterMap Prod.fst).Pairwise (· < ·) ∧
    (∀ x ∈ (scanSession es fh).1, ∀ r, x.1 = some r → Live x.2 r) ∧
    ((scanSession es fh).2.1.isEnd = true → ∀ r, Slot (scanSession es fh).2.2 r →
      (∀ x ∈ (scanSession es fh).1, IsSet x.2 r) → r ∈ (scanSession es fh).1.filterMap Prod.fst) ∧
    ∀ k, (scanSession (List.replicate k .next) fh).1.filterMap Prod.fst =
        (liveRids fh).take (k + 1) ∧
      ((scanSession (List.replicate k .next) fh).2.1.isEnd = true ↔ (liveRids fh).length ≤ k) := by
  obtain ⟨hO, hl⟩ := (Open.start (FileInv.of_reachable hr)).run (.next :: es)
  rw [← scanSession_eq] at hO hl
  refine ⟨by simpa using hO.sorted, hl, fun hend r hs hset => ?_, scanSession_nexts hr⟩
  have := hO.covered r ⟨trivial, hset⟩ hs.1 hs.2.2.1 (hO.slots ▸ hs.2.2.2)
    (by rw [hend]; exact hs.2.1)
  simpa using this

theorem scan_yields_live_rids_one_record :
    Reachable oneRecord ∧
    (((scanSession [] oneRecord).1.filterMap Prod.fst).Pairwise (· < ·) ∧
    (∀ x ∈ (scanSession [] oneRecord).1, ∀ r, x.1 = some r → Live x.2 r) ∧
    ((scanSession [] oneRecord).2.1.isEnd = true → ∀ r, Slot (scanSession [] oneRecord).2.2 r →
      (∀ x ∈ (scanSession [] oneRecord).1, IsSet x.2 r) →
        r ∈ (scanSession [] oneRecord).1.filterMap Prod.fst) ∧
    ∀ k, (scanSession (List.replicate k .next) oneRecord).1.filterMap Prod.fst =
        (liveRids oneRecord).take (k + 1) ∧
      ((scanSession (List.replicate k .next) oneRecord).2.1.isEnd = true ↔
        (liveRids oneRecord).length ≤ k)) :=
  ⟨oneRecord_reachable, scan_yields_live_rids oneRecord_reachable []⟩

end Rmdb
