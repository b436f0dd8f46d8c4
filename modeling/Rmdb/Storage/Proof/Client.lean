import Rmdb.Storage.Proof.Coherence

/-!
# A client that reports at once

The record layer marks a frame dirty right after it writes it, so between its calls the pool
carries no unreported write: `CohInv s fun _ => false`. For such a client this module says what
each call does to the content of the pages and to their pin counts, `pinOf` (0 for a page not in
the pool):

* a `fetch_page` that returns a frame pins its page once more and keeps the content
  (`CohInv.fetch_clean`); one that returns nothing changes nothing (`fetchPage_snd_of_none`);
* a `new_page` that returns a frame pins the new page once and zeroes it, with the write of the
  zeroes not yet reported (`CohInv.newPage_clean`); one that returns nothing changes nothing when
  `allocate_page` succeeds (`newPage_snd_of_none`), and otherwise may take a frame
  (`newPage_leaks_victim`);
* a write into a held frame changes the content of its page only (`CohInv.write_frame`), and
  `mark_dirty` reports it (`CohInv.markDirty_frame`);
* `unpin_page` on a held page unpins it once and keeps the content (`CohInv.unpin_clean`);
* `flush_all_pages(fd)` leaves every page of `fd` on the disk as its content
  (`CohInv.flushAllPages_readPage`).
-/

namespace Rmdb

namespace BufferPoolManager

variable {D : Type}

/-- The pin count of page `pid`, 0 when the page is not in the pool. -/
def pinOf (s : BufferPoolManager D) (pid : PageId) : Int :=
  match s.pageTable.lookup pid with
  | some f => (s.pages f).pinCount
  | none => 0

/-! ## Pin counts of pages -/

section
variable {s s' : BufferPoolManager D} {q : PageId}

theorem pinOf_of_mem (h : PoolInv s) {g : Nat} (hm : (q, g) ∈ s.pageTable) :
    s.pinOf q = (s.pages g).pinCount := by
  simp [pinOf, (h.lookup_iff).2 hm]

theorem pinOf_of_not_mem (hn : ∀ g, (q, g) ∉ s.pageTable) : s.pinOf q = 0 := by
  simp [pinOf, Table.lookup_eq_none.2 hn]

theorem pinOf_of_lookup {f : Nat} (hb : s.pageTable.lookup q = some f) :
    s.pinOf q = (s.pages f).pinCount := by
  simp [pinOf, hb]

theorem PoolInv.pinOf_nonneg (h : PoolInv s) (q : PageId) : 0 ≤ s.pinOf q := by
  unfold pinOf; split
  · exact h.pinNonneg _
  · exact le_refl _

/-- A change of the frame `f` of page `pid` alone: only `pid`'s pin count can change. -/
theorem pinOf_frame (h : PoolInv s) {pid : PageId} {f : Nat} {c : Int}
    (hb : s.pageTable.lookup pid = some f) (ht : s'.pageTable = s.pageTable)
    (ho : ∀ g, g ≠ f → (s'.pages g).pinCount = (s.pages g).pinCount)
    (hc : (s'.pages f).pinCount = c) : s'.pinOf = Function.update s.pinOf pid c := by
  funext q
  rw [Function.update_apply]
  split
  · subst q; simp [pinOf, ht, hb, hc]
  · rename_i hqp
    cases hq : s.pageTable.lookup q with
    | none => simp [pinOf, ht, hq]
    | some g =>
      have hgf : g ≠ f := fun e =>
        hqp (h.entry_inj ((h.lookup_iff).1 hq) (e ▸ (h.lookup_iff).1 hb))
      simp [pinOf, ht, hq, ho g hgf]

/-- Binding an evicted frame to `pid` pins `pid` once and unbinds a page of pin count 0. -/
theorem pinOf_rebind (h : PoolInv s) {v : Nat} {pid : PageId}
    (hv : v ∈ s.freeList ∨ v ∈ s.replacer.frames) (hp : pid.pageNo ≠ invalidPageId)
    (hn : s.pageTable.lookup pid = none) (hr : Rebind s s' v pid) :
    s'.pinOf = Function.update s.pinOf pid 1 := by
  have h' := h.rebind hv hp hn hr
  funext q
  rw [Function.update_apply]
  split
  · subst q; rw [pinOf_of_mem h' (g := v) (by simp [hr.pageTable]), hr.pin]
  · rename_i hqp
    have hmem : ∀ g, (q, g) ∈ s'.pageTable ↔ (q, g) ∈ s.pageTable ∧ g ≠ v := fun g => by
      rw [hr.pageTable, h.rebind_mem hv hn]; simp [hqp]
    by_cases hqv : (q, v) ∈ s.pageTable
    · have hn' : ∀ g, (q, g) ∉ s'.pageTable := fun g hm =>
        ((hmem g).1 hm).2 (h.key_inj ((hmem g).1 hm).1 hqv)
      rw [pinOf_of_not_mem hn', pinOf_of_mem h hqv]
      rcases hv with hv | hv
      · exact absurd (Table.mem_values.2 ⟨q, hqv⟩) (h.freeUnbound v hv)
      · exact (h.pin_of_frames hv).symm
    · cases hf : s.pageTable.lookup q with
      | some g =>
        have hm := (h.lookup_iff).1 hf
        have hgv : g ≠ v := fun e => hqv (e ▸ hm)
        rw [pinOf_of_mem h' ((hmem g).2 ⟨hm, hgv⟩), pinOf_of_mem h hm, hr.other g hgv]
      | none =>
        rw [pinOf_of_not_mem fun g hm => Table.lookup_eq_none.1 hf g ((hmem g).1 hm).1,
          pinOf_of_not_mem (Table.lookup_eq_none.1 hf)]

theorem pinOf_modifyPage (h : PoolInv s) {pid : PageId} {f : Nat} {g : Page D → Page D}
    (hb : s.pageTable.lookup pid = some f) (hpin : (g (s.pages f)).pinCount = (s.pages f).pinCount) :
    (s.modifyPage f g).pinOf = s.pinOf := by
  have hc : ((s.modifyPage f g).pages f).pinCount = s.pinOf pid := by
    simpa [pinOf_of_lookup hb] using hpin
  rw [pinOf_frame h hb (by rfl) (fun g' hg => by simp [hg]) hc, Function.update_eq_self]

end

/-! ## Calls that return no frame -/

section
variable [Zero D] {s : BufferPoolManager D}

theorem fetchPage_snd_of_none {pid : PageId} (hf : (s.fetchPage pid).1 = none) :
    (s.fetchPage pid).2 = s := by
  cases hfind : s.pageTable.lookup pid with
  | some f => rw [fetchPage_of_lookup hfind] at hf; cases hf
  | none =>
    cases hv : s.findVictimPage with
    | none => rw [fetchPage_of_no_victim hfind hv]
    | some p => rw [fetchPage_of_victim hfind hv] at hf; cases hf

/-- When `allocate_page` succeeds, `new_page` returns nothing only when it finds no victim, and
then changes nothing. -/
theorem newPage_snd_of_none {fd alloc : Int} (ha : alloc ≠ invalidPageId)
    (hf : (s.newPage fd alloc).1 = none) : (s.newPage fd alloc).2 = s := by
  cases hv : s.findVictimPage with
  | none => simp [BufferPoolManager.newPage, hv]
  | some p => rw [newPage_of_victim hv ha] at hf; cases hf

end

/-! ## The calls of a client that reports at once -/

namespace CohInv

section
variable {s : BufferPoolManager D} {u : Nat → Bool} (h : CohInv s u) {pid : PageId} {f : Nat}
  (hb : s.pageTable.lookup pid = some f) (hpin : 0 < (s.pages f).pinCount)
include h hb hpin

/-- A write into the frame of a held page changes that page's content only. -/
theorem write_frame (g : D → D) :
    CohInv (s.modifyPage f fun p => { p with data := g p.data }) (Function.update u f true) ∧
    (s.modifyPage f fun p => { p with data := g p.data }).content =
      Function.update s.content pid (g (s.content pid)) ∧
    (s.modifyPage f fun p => { p with data := g p.data }).pinOf = s.pinOf := by
  have hv : f ∈ s.pageTable.values := Table.mem_values.2 ⟨pid, (h.pool.lookup_iff).1 hb⟩
  refine ⟨h.write (d := g (s.pages f).data) ⟨hv, hpin⟩, funext fun q => ?_, ?_⟩
  · rw [Function.update_apply]
    split
    · subst q; simp [content, hb]
    · rename_i hqp
      cases hq : s.pageTable.lookup q with
      | none => simp [content, hq]
      | some g' =>
        have hgf : g' ≠ f := fun e =>
          hqp (h.pool.entry_inj ((h.pool.lookup_iff).1 hq) (e ▸ (h.pool.lookup_iff).1 hb))
        simp [content, hq, hgf]
  · exact pinOf_modifyPage h.pool hb rfl

/-- `mark_dirty` on a held frame reports its writes. -/
theorem markDirty_frame :
    CohInv (s.markDirty f) (Function.update u f false) ∧ (s.markDirty f).content = s.content ∧
    (s.markDirty f).pinOf = s.pinOf := by
  have hv : f ∈ s.pageTable.values := Table.mem_values.2 ⟨pid, (h.pool.lookup_iff).1 hb⟩
  exact ⟨h.markDirty ⟨hv, hpin⟩, content_markDirty f, pinOf_modifyPage h.pool hb rfl⟩

end

section
variable [Zero D] {s : BufferPoolManager D} (h : CohInv s fun _ => false)
include h

theorem unpin_clean {pid : PageId} {f : Nat} (hb : s.pageTable.lookup pid = some f)
    (hpin : 0 < (s.pages f).pinCount) (d : Bool) :
    CohInv (s.unpinPage pid d).2 (fun _ => false) ∧ (s.unpinPage pid d).2.content = s.content ∧
    (s.unpinPage pid d).2.pinOf = Function.update s.pinOf pid (s.pinOf pid - 1) := by
  have hc := h.unpinPage
    (show (Tracked.mk s fun _ => false).Reports (.call (.unpinPage pid d)) by
      cases d; exact fun _ _ _ => rfl; trivial)
  have hu : (Tracked.mk s fun _ => false).unreportedAfter (.call (.unpinPage pid d)) =
      fun _ => false := by
    cases d
    · rfl
    · simp only [Tracked.unreportedAfter, hb]; exact Function.update_eq_self f _
  refine ⟨hu ▸ hc, content_unpinPage pid d, ?_⟩
  rw [unpinPage_of_pos hb hpin]
  exact pinOf_frame h.pool hb (by rfl) (fun g' hg => by simp [hg]) (by simp [pinOf_of_lookup hb])

/-- A `fetch_page` that returns a frame pins the page once more and keeps the content. -/
theorem fetch_clean {pid : PageId} {f : Nat} (hp : pid.pageNo ≠ invalidPageId)
    (hf : (s.fetchPage pid).1 = some f) :
    CohInv (s.fetchPage pid).2 (fun _ => false) ∧ (s.fetchPage pid).2.content = s.content ∧
    (s.fetchPage pid).2.pageTable.lookup pid = some f ∧
    (s.fetchPage pid).2.pinOf = Function.update s.pinOf pid (s.pinOf pid + 1) ∧
    ∀ q, q ≠ pid → (s.fetchPage pid).2.pageTable.lookup q ≠ none → s.pageTable.lookup q ≠ none := by
  refine ⟨h.fetchPage hp, (h.content_fetchPage hp).1, ?_⟩
  cases hfind : s.pageTable.lookup pid with
  | some g =>
    rw [fetchPage_of_lookup hfind] at hf ⊢
    obtain rfl := Option.some.inj hf
    refine ⟨by simpa using hfind, ?_, fun q _ hq => hq⟩
    exact pinOf_frame h.pool hfind (by rfl) (fun g' hg => by simp [hg])
      (by simp [pinOf_of_lookup hfind])
  | none =>
    cases hv : s.findVictimPage with
    | none => rw [fetchPage_of_no_victim hfind hv] at hf; cases hf
    | some p =>
      obtain ⟨hvm, hr⟩ := Rebind.of_fetchPage h.pool.toBooks hp hfind hv
      have hfv : p.1 = f := by
        rw [fetchPage_fst hfind, hv] at hf; exact Option.some.inj hf
      subst hfv
      refine ⟨((h.pool.rebind hvm hp hfind hr).lookup_iff).2 (by simp [hr.pageTable]), ?_,
        fun q hq => hr.lookup_ne_none hq⟩
      rw [pinOf_rebind h.pool hvm hp hfind hr]
      simp [pinOf, hfind]

/-- A `new_page` that returns a frame binds it to the new page, pinned once and zeroed, with the
zeroes not yet reported. -/
theorem newPage_clean {fd alloc : Int} {pid : PageId} {f : Nat} (ha : alloc ≠ invalidPageId)
    (hn : s.pageTable.lookup ⟨fd, alloc⟩ = none) (hf : (s.newPage fd alloc).1 = some (pid, f)) :
    pid = ⟨fd, alloc⟩ ∧ CohInv (s.newPage fd alloc).2 (Function.update (fun _ => false) f true) ∧
    (s.newPage fd alloc).2.content = Function.update s.content pid 0 ∧
    (s.newPage fd alloc).2.pageTable.lookup pid = some f ∧
    (s.newPage fd alloc).2.pinOf = Function.update s.pinOf pid 1 ∧
    ∀ q, q ≠ pid → (s.newPage fd alloc).2.pageTable.lookup q ≠ none → s.pageTable.lookup q ≠ none := by
  cases hv : s.findVictimPage with
  | none => simp [BufferPoolManager.newPage, hv] at hf
  | some p =>
    obtain ⟨hvm, hr⟩ := Rebind.of_newPage h.pool.toBooks ha hv
    have hc := h.newPage ha hn
    simp only [Tracked.unreportedAfter, hf] at hc
    rw [newPage_of_victim hv ha] at hf
    obtain ⟨rfl, rfl⟩ := Prod.mk.inj (Option.some.inj hf)
    refine ⟨rfl, hc, funext fun q => ?_, ((h.pool.rebind hvm ha hn hr).lookup_iff).2
      (by simp [hr.pageTable]), pinOf_rebind h.pool hvm ha hn hr, fun q hq => hr.lookup_ne_none hq⟩
    rw [h.content_newPage ha hn q, newPage_of_victim hv ha, Function.update_apply]
    simp [eq_comm]

omit [Zero D] in
/-- `flush_all_pages(fd)` leaves on the disk the content of every page of `fd`. -/
theorem flushAllPages_readPage {fd : Int} {pid : PageId} (hfd : pid.fd = fd) :
    (s.flushAllPages fd).diskManager.readPage pid = s.content pid := by
  have hc := h.flushAllPages fd
  rw [← h.pool.content_flushAllPages fd]
  cases hfind : s.pageTable.lookup pid with
  | none => simp [content, BufferPoolManager.flushAllPages, foldl_flushEntry_pageTable, hfind]
  | some f =>
    have hm := Table.mem_of_lookup hfind
    have hm' : (pid, f) ∈ (s.flushAllPages fd).pageTable := by
      rw [BufferPoolManager.flushAllPages, foldl_flushEntry_pageTable]; exact hm
    rw [content_of_mem hc.pool hm']
    exact (hc.clean pid f hm' (foldl_flushEntry_cleans fd hfd _ _ hm) rfl).symm

end

end CohInv

end BufferPoolManager

end Rmdb
