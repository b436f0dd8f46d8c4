import Mathlib.Data.Prod.Lex
import Mathlib.Data.List.Sort
import Rmdb.Record.Proof.Spare

/-!
# Where the loop of `next()` stops

Rids are ordered by `(page_no, slot_no)`. A `Slot` of a file is a slot of one of its data pages,
`Live` when its bit is set, and `liveRids` lists the live slots in order (`mem_liveRids`,
`liveRids_sorted`).

From a cursor `c` the loop of `next()` stops (`Stop`, `scanPages_cursor`) at the first live slot
after `c`, at the end when there is none, or, when a fetch raises, at a cursor `c' ≥ c` before
which no slot after `c` is live: every slot it passes it has read clear. Its fuel,
`num_pages - page_no`, is enough to reach the end.
-/

namespace Rmdb

namespace Rid

/-- A rid's place in `(page_no, slot_no)` order. -/
def key (r : Rid) : Int ×ₗ Int := toLex (r.pageNo, r.slotNo)

theorem key_injective : Function.Injective key := fun ⟨_, _⟩ ⟨_, _⟩ h => by
  cases toLex.injective h; rfl

instance : LinearOrder Rid := LinearOrder.lift' key key_injective

theorem lt_iff {r r' : Rid} :
    r < r' ↔ r.pageNo < r'.pageNo ∨ r.pageNo = r'.pageNo ∧ r.slotNo < r'.slotNo :=
  Prod.Lex.lt_iff _ _

theorem le_iff {r r' : Rid} :
    r ≤ r' ↔ r.pageNo < r'.pageNo ∨ r.pageNo = r'.pageNo ∧ r.slotNo ≤ r'.slotNo :=
  Prod.Lex.le_iff _ _

end Rid

/-! ## Live slots -/

/-- `r` is a slot of a data page of `fh`'s file. -/
def Slot (fh : RmFileHandle) (r : Rid) : Prop :=
  rmFirstRecordPage ≤ r.pageNo ∧ r.pageNo < fh.fileHdr.numPages ∧ 0 ≤ r.slotNo ∧
    r.slotNo < fh.fileHdr.numRecordsPerPage

/-- The bit of slot `r` is set in `fh`. -/
def IsSet (fh : RmFileHandle) (r : Rid) : Prop :=
  (fh.bpm.content ⟨fh.fd, r.pageNo⟩).bitmap r.slotNo.toNat = true

/-- Slot `r` of `fh`'s file holds a record. -/
def Live (fh : RmFileHandle) (r : Rid) : Prop := Slot fh r ∧ IsSet fh r

/-- The records of `fh`'s file in `(page_no, slot_no)` order: the set slots of each data page,
page after page. -/
def liveRids (fh : RmFileHandle) : List Rid :=
  (List.range (fh.fileHdr.numPages - rmFirstRecordPage).toNat).flatMap fun i : Nat =>
    ((List.range fh.fileHdr.numRecordsPerPage.toNat).filter fun s : Nat =>
      (fh.bpm.content ⟨fh.fd, rmFirstRecordPage + i⟩).bitmap s).map fun s : Nat =>
        (⟨rmFirstRecordPage + i, s⟩ : Rid)

theorem mem_liveRids {fh : RmFileHandle} {r : Rid} : r ∈ liveRids fh ↔ Live fh r := by
  obtain ⟨p, s⟩ := r
  simp only [liveRids, Live, Slot, IsSet, List.mem_flatMap, List.mem_range, List.mem_map,
    List.mem_filter, Rid.mk.injEq, rmFirstRecordPage]
  constructor
  · rintro ⟨i, hi, t, ⟨ht, hb⟩, rfl, rfl⟩
    exact ⟨⟨by omega, by omega, by omega, by omega⟩, by simpa using hb⟩
  · rintro ⟨⟨h1, h2, h3, h4⟩, hb⟩
    refine ⟨(p - 1).toNat, by omega, s.toNat, ⟨by omega, ?_⟩, by omega, by omega⟩
    rw [show (1 : Int) + ((p - 1).toNat : Int) = p by omega]
    exact hb

theorem liveRids_sorted (fh : RmFileHandle) : (liveRids fh).Pairwise (· < ·) := by
  refine List.pairwise_flatMap.2 ⟨fun i _ => ?_, (List.pairwise_lt_range _).imp fun hij => ?_⟩
  · refine List.pairwise_map.2 ((List.pairwise_lt_range _).filter _ |>.imp fun hst => ?_)
    exact Rid.lt_iff.2 (.inr ⟨rfl, by dsimp only; omega⟩)
  · simp only [List.mem_map, List.mem_filter]
    rintro _ ⟨s, -, rfl⟩ _ ⟨t, -, rfl⟩
    exact Rid.lt_iff.2 (.inl (by dsimp only; omega))

/-- A sorted list's elements up to `c` are a prefix of it. -/
theorem filter_le_eq_take {l : List Rid} (hl : l.Pairwise (· < ·)) (c : Rid) :
    l.filter (· ≤ c) = l.take (l.filter (· ≤ c)).length := by
  induction l with
  | nil => rfl
  | cons a l ih =>
    rw [List.pairwise_cons] at hl
    by_cases ha : a ≤ c
    · rw [List.filter_cons_of_pos (by simpa using ha), List.length_cons, List.take_succ_cons,
        ← ih hl.2]
    · have hnil : l.filter (· ≤ c) = [] :=
        List.filter_eq_nil_iff.2 fun b hb hbc => ha ((hl.1 b hb).le.trans (by simpa using hbc))
      simp [ha, hnil]

/-- Two increasing lists of rids with the same elements are equal. -/
theorem eq_of_mem_iff {l l' : List Rid} (hl : l.Pairwise (· < ·)) (hl' : l'.Pairwise (· < ·))
    (h : ∀ r, r ∈ l ↔ r ∈ l') : l = l' :=
  List.eq_of_perm_of_sorted ((List.perm_ext_iff_of_nodup hl.nodup hl'.nodup).2 h) hl hl'

/-! ## The loop -/

/-- Where the loop of `next()` on `fh` from cursor `c` may stop, with the error it raised if
any: at the end, every slot after `c` clear; at the first live slot after `c`; or, raising, at
`c` or before the first slot of a later page, every slot between clear. -/
def Stop (fh : RmFileHandle) (c : Rid) : Option RmError × Rid → Prop
  | (none, c') => (c' = RmScan.endRid ∧ ∀ r, Slot fh r → c < r → ¬ IsSet fh r) ∨
      (c < c' ∧ Live fh c' ∧ ∀ r, Slot fh r → c < r → r < c' → ¬ IsSet fh r)
  | (some _, c') => (c' = c ∨ c < c' ∧ c'.slotNo = -1) ∧ rmFirstRecordPage ≤ c'.pageNo ∧
      c'.pageNo < fh.fileHdr.numPages ∧ ∀ r, Slot fh r → c < r → r < c' → ¬ IsSet fh r

/-- `Stop` reads only the descriptor, the header and the pages. -/
theorem Stop.congr {fh fh' : RmFileHandle} (hfd : fh'.fd = fh.fd) (hhdr : fh'.fileHdr = fh.fileHdr)
    (hc : fh'.bpm.content = fh.bpm.content) (c : Rid) (res : Option RmError × Rid) :
    Stop fh' c res ↔ Stop fh c res := by
  rcases res with ⟨_ | _, c'⟩ <;> simp only [Stop, Live, Slot, IsSet, hfd, hhdr, hc]

/-- From a cursor on page `p`, every slot of a later page comes after the start of page `p + 1`;
so a page read clear after slot `s` joins what the rest of the loop read clear. -/
theorem clear_of_next_page {fh : RmFileHandle} {p s : Int} {P : Rid → Prop}
    (hpage : ∀ r, Slot fh r → r.pageNo = p → s < r.slotNo → ¬ IsSet fh r)
    (hrest : ∀ r, Slot fh r → (⟨p + 1, -1⟩ : Rid) < r → P r → ¬ IsSet fh r) :
    ∀ r, Slot fh r → (⟨p, s⟩ : Rid) < r → P r → ¬ IsSet fh r := by
  intro r hr hlt hP
  rw [Rid.lt_iff] at hlt
  by_cases hp : r.pageNo = p
  · exact hpage r hr hp (by dsimp only at hlt; omega)
  · exact hrest r hr (Rid.lt_iff.2 (by dsimp only at hlt ⊢; have := hr.2.2.1; omega)) hP

theorem Rid.pageNo_lt_of_le {r c : Rid} {N : Int} (h : r ≤ c) (hc : c.pageNo < N) :
    r.pageNo < N := by
  rw [Rid.le_iff] at h; omega

open BufferPoolManager RmFileHandle in
/-- The loop of `next()` from a cursor on a data page, with fuel to reach the last page, stops
where `Stop` says. -/
theorem scanPages_cursor : ∀ (k : Nat) (rid : Rid) (fh : RmFileHandle),
    CohInv fh.bpm (fun _ => false) → rmFirstRecordPage ≤ rid.pageNo → -1 ≤ rid.slotNo →
    (fh.fileHdr.numPages - rid.pageNo).toNat ≤ k →
    Stop fh rid ((RmScan.scanPages fh.fileHdr k rid fh).1,
      (RmScan.scanPages fh.fileHdr k rid fh).2.1)
  | 0, rid, fh, _, _, _, hk => by
    refine .inl ⟨rfl, fun r hr hlt => absurd hlt ?_⟩
    rw [Rid.lt_iff]; have := hr.2.1; omega
  | k + 1, rid, fh, h, hp, hs, hk => by
    rw [RmScan.scanPages]
    split_ifs with hr
    swap
    · refine .inl ⟨rfl, fun r hr' hlt => absurd hlt ?_⟩
      rw [Rid.lt_iff]; have := hr'.2.1; omega
    rcases fetchPageHandle_spec h rid.pageNo with ⟨e, he⟩ | ⟨f, fh', he, hF⟩ <;> rw [he]
    · exact ⟨.inl rfl, hp, hr.1, fun r _ h1 h2 => absurd (h1.trans h2) (lt_irrefl _)⟩
    dsimp only
    rw [hF.page]
    obtain ⟨hb, hhdr, hm⟩ := hF.abort h false
    rcases @Bitmap.nextBit_spec true (fh.bpm.content ⟨fh.fd, rid.pageNo⟩).bitmap
      fh.fileHdr.numRecordsPerPage rid.slotNo hs with ⟨hn, hclr⟩ | ⟨h1, h2, h3, hclr⟩
    · -- Page `page_no` has no set slot after the cursor: the loop goes on from the next page.
      rw [if_neg (by rw [hn]; exact lt_irrefl _)]
      have ih := scanPages_cursor k ⟨rid.pageNo + 1, -1⟩ _ hb.coh (by dsimp only; omega) le_rfl
        (by rw [hhdr]; dsimp only; omega)
      rw [hhdr, Stop.congr hb.fd hhdr hm] at ih
      have hpage : ∀ r, Slot fh r → r.pageNo = rid.pageNo → rid.slotNo < r.slotNo →
          ¬ IsSet fh r := fun r hr' hrp hrs => by
        unfold IsSet; rw [hrp]
        exact hclr r.slotNo.toNat (by omega) (by have := hr'.2.2; omega)
      have hc1 : rid < ⟨rid.pageNo + 1, -1⟩ := Rid.lt_iff.2 (.inl (by dsimp only; omega))
      revert ih
      rcases RmScan.scanPages fh.fileHdr k ⟨rid.pageNo + 1, -1⟩ (fh'.unpin f false) with
        ⟨_ | e, c', fh''⟩
      · rintro (⟨rfl, hrest⟩ | ⟨hlt, hlive, hrest⟩)
        · exact .inl ⟨rfl, fun r hr' hlt' => clear_of_next_page (P := fun _ => True) hpage
            (fun r hr' h _ => hrest r hr' h) r hr' hlt' trivial⟩
        · exact .inr ⟨hc1.trans hlt, hlive, clear_of_next_page hpage hrest⟩
      · rintro ⟨hc', hp', hn', hrest⟩
        refine ⟨.inr ?_, hp', hn', clear_of_next_page hpage hrest⟩
        rcases hc' with rfl | ⟨hlt, hs'⟩
        · exact ⟨hc1, rfl⟩
        · exact ⟨hc1.trans hlt, hs'⟩
    · -- The next set slot of page `page_no`.
      rw [if_pos h2]
      dsimp only
      refine .inr ⟨Rid.lt_iff.2 (.inr ⟨rfl, h1⟩), ⟨⟨hp, hr.1, by dsimp only; omega, h2⟩, h3⟩,
        fun r hr' hlt hlt' => ?_⟩
      rw [Rid.lt_iff] at hlt hlt'
      dsimp only at hlt'
      have hrp : r.pageNo = rid.pageNo := by omega
      unfold IsSet; rw [hrp]
      exact hclr r.slotNo.toNat (by have := hr'.2.2.1; omega) (by have := hr'.2.2.1; omega)

end Rmdb
