import Rmdb.Storage.Proof.PoolInv

/-!
# What an operation does to the frames it does not take

`find_victim_page` takes a free frame or one the replacer holds, so never a frame that a client
holds a pin on (`PoolInv.victim_ne`). Hence no operation of the pool moves or clobbers a pinned
page (`pinned_page_stable`): the page table still maps it to its frame, and the frame keeps its
`id` and its data, so a page handle stays valid while its pin is held.

A failed `new_page` is another matter. When `allocate_page` fails after `find_victim_page` took a
frame, `new_page` returns `nullptr` without giving the frame back (`newPage_leaks_victim`).
-/

namespace Rmdb

namespace BufferPoolManager

variable {D : Type}

/-- `allocate_page` hands out `INVALID_PAGE_ID` or a page that is not in the page table. -/
def AllocOk (s : BufferPoolManager D) : BpmCall → Prop
  | .newPage fd alloc => alloc = invalidPageId ∨ s.pageTable.lookup ⟨fd, alloc⟩ = none
  | _ => True

namespace PoolInv

variable {s : BufferPoolManager D} (h : PoolInv s)
include h

/-- A victim is never a frame a client holds. -/
theorem victim_ne {v f : Nat} (hv : v ∈ s.freeList ∨ v ∈ s.replacer.frames)
    (hf : f ∈ s.pageTable.values) (hpin : 0 < (s.pages f).pinCount) : v ≠ f := by
  rintro rfl
  rcases hv with hv | hv
  · exact h.not_free_of_values hf hv
  · have := h.pin_of_frames hv; omega

/-- A page mapped to another frame than the victim is not the victim's old page. -/
theorem ne_victim_id {v f : Nat} {q : PageId} (hv : v ∈ s.freeList ∨ v ∈ s.replacer.frames)
    (hq : (q, f) ∈ s.pageTable) (hvf : v ≠ f) : q ≠ (s.pages v).id := by
  rintro rfl
  rcases hv with hv | hv
  · exact (h.bound _ f hq).2 (h.freeFrame v hv).1
  · exact hvf (h.key_inj ((h.mem_table).2 ⟨((h.replacerMem v).1 hv).1, rfl⟩) hq)

end PoolInv

/-- A page the calls keep: still mapped to `f`, which keeps its `id` and data. -/
def Keeps (s s' : BufferPoolManager D) (pid : PageId) (f : Nat) : Prop :=
  s'.pageTable.lookup pid = some f ∧ (s'.pages f).id = pid ∧ (s'.pages f).data = (s.pages f).data

namespace PoolInv

variable {s : BufferPoolManager D} (h : PoolInv s) {pid : PageId} {f : Nat}
  (hf : s.pageTable.lookup pid = some f) (hpin : 0 < (s.pages f).pinCount)
include h hf hpin

omit hpin in
theorem keeps_self : Keeps s s pid f := ⟨hf, (h.bound pid f ((h.lookup_iff).1 hf)).1, rfl⟩

/-- Binding a victim to a new page keeps a pinned page. -/
theorem keeps_victim [Zero D] {v : Nat} {s1 : BufferPoolManager D} {q : PageId}
    (hv : s.findVictimPage = some (v, s1)) (hq : s.pageTable.lookup q = none)
    {g : Page D → Page D} {r : LRUReplacer Nat} :
    Keeps s { (s1.updatePage v q).modifyPage v g with replacer := r } pid f := by
  obtain ⟨hvm, r', -, -, rfl⟩ := h.findVictimPage_spec hv
  have hfv := h.victim_ne hvm (Table.mem_values.2 ⟨pid, (h.lookup_iff).1 hf⟩) hpin
  have hqp : pid ≠ q := by rintro rfl; simp [hf] at hq
  refine ⟨updatePage_lookup _ _ _ hf hqp (h.ne_victim_id hvm ((h.lookup_iff).1 hf) hfv), ?_, ?_⟩ <;>
    simp [Ne.symm hfv, updatePage_pages_of_ne _ _ _ (Ne.symm hfv), (h.keeps_self hf).2.1]

omit hpin in
theorem keeps_modifyPage {f' : Nat} {g : Page D → Page D} (hid : (g (s.pages f')).id = (s.pages f').id)
    (hd : (g (s.pages f')).data = (s.pages f').data) : Keeps s (s.modifyPage f' g) pid f := by
  rcases eq_or_ne f f' with rfl | hff
  · exact ⟨by simpa using hf, by simpa [hid] using (h.keeps_self hf).2.1, by simpa using hd⟩
  · exact ⟨by simpa using hf, by simpa [hff] using (h.keeps_self hf).2.1, by simp [hff]⟩

theorem keeps_fetchPage [Zero D] (q : PageId) : Keeps s (s.fetchPage q).2 pid f := by
  cases hq : s.pageTable.lookup q with
  | some f' =>
    rw [fetchPage_of_lookup hq]
    exact h.keeps_modifyPage (g := fun p => { p with pinCount := p.pinCount + 1 }) hf rfl rfl
  | none =>
    cases hv : s.findVictimPage with
    | none => rw [fetchPage_of_no_victim hq hv]; exact h.keeps_self hf
    | some p => rw [fetchPage_of_victim hq hv]; exact h.keeps_victim hf hpin hv hq

theorem keeps_newPage [Zero D] {fd alloc : Int} (ha : s.AllocOk (.newPage fd alloc)) :
    Keeps s (s.newPage fd alloc).2 pid f := by
  cases hv : s.findVictimPage with
  | none => simp only [BufferPoolManager.newPage, hv]; exact h.keeps_self hf
  | some p =>
    obtain ⟨v, s1⟩ := p
    by_cases hai : alloc = invalidPageId
    · simp only [BufferPoolManager.newPage, hv, hai, if_true]
      obtain ⟨-, r, -, -, rfl⟩ := h.findVictimPage_spec hv
      exact h.keeps_self hf
    · rw [newPage_of_victim hv hai]
      exact h.keeps_victim hf hpin hv (ha.resolve_left hai)

omit hpin in
theorem keeps_unpinPage (q : PageId) (d : Bool) : Keeps s (s.unpinPage q d).2 pid f := by
  cases hq : s.pageTable.lookup q with
  | none => simp only [BufferPoolManager.unpinPage, hq]; exact h.keeps_self hf
  | some f' =>
    by_cases hpos : 0 < (s.pages f').pinCount
    · rw [unpinPage_of_pos hq hpos]
      exact h.keeps_modifyPage
        (g := fun p => { p with pinCount := p.pinCount - 1, isDirty := p.isDirty || d }) hf rfl rfl
    · simp only [BufferPoolManager.unpinPage, hq, if_pos (not_lt.1 hpos)]; exact h.keeps_self hf

omit hpin in
theorem keeps_writeBack (f' : Nat) : Keeps s (s.writeBack f') pid f :=
  h.keeps_modifyPage (g := fun p => { p with isDirty := false }) hf rfl rfl

omit hpin in
theorem keeps_flushAllPages (fd : Int) : Keeps s (s.flushAllPages fd) pid f := by
  obtain ⟨b, hb⟩ := foldl_flushEntry_pages fd f s.pageTable s
  refine ⟨?_, ?_, ?_⟩
  · rw [BufferPoolManager.flushAllPages, foldl_flushEntry_pageTable]; exact hf
  · rw [BufferPoolManager.flushAllPages, hb]; exact (h.keeps_self hf).2.1
  · rw [BufferPoolManager.flushAllPages, hb]

theorem keeps_deletePage [Zero D] (q : PageId) : Keeps s (s.deletePage q).2 pid f := by
  cases hq : s.pageTable.lookup q with
  | none => simp only [BufferPoolManager.deletePage, hq]; exact h.keeps_self hf
  | some f' =>
    by_cases hpos : 0 < (s.pages f').pinCount
    · simp only [BufferPoolManager.deletePage, hq, if_pos hpos]; exact h.keeps_self hf
    · rw [deletePage_of_unpinned hq hpos]
      have hff : f ≠ f' := by rintro rfl; exact hpos hpin
      have hqp : q ≠ pid := fun e => hff (Option.some.inj (hf.symm.trans (e ▸ hq)))
      refine ⟨by simp [hqp, hf], ?_, ?_⟩ <;> simp [hff, (h.keeps_self hf).2.1]

end PoolInv

/-- In a reachable pool, a page pinned to frame `f` is still mapped to `f` after any call, with
the same `id` and the same data, so a handle on it stays valid while its pin is held. -/
theorem pinned_page_stable [Zero D] {s : BufferPoolManager D} (hr : Reachable s) {pid : PageId}
    {f : Nat} (hf : s.pageTable.lookup pid = some f) (hpin : 0 < (s.pages f).pinCount)
    (c : BpmCall) (hc : s.AllocOk c) :
    (c.apply s).pageTable.lookup pid = some f ∧ ((c.apply s).pages f).id = pid ∧
      ((c.apply s).pages f).data = (s.pages f).data := by
  have h := PoolInv.of_reachable hr
  cases c with
  | fetchPage q => exact h.keeps_fetchPage hf hpin q
  | newPage fd alloc => exact h.keeps_newPage hf hpin hc
  | unpinPage q d => exact h.keeps_unpinPage hf q d
  | flushPage q =>
    show Keeps s (s.flushPage q).2 pid f
    unfold BufferPoolManager.flushPage
    split
    · exact h.keeps_self hf
    · exact h.keeps_writeBack hf _
  | flushAllPages fd => exact h.keeps_flushAllPages hf fd
  | deletePage q => exact h.keeps_deletePage hf hpin q
  | markDirty f' => exact h.keeps_modifyPage (g := fun p => { p with isDirty := true }) hf rfl rfl

/-- A fresh pool of one frame over a zeroed disk. -/
def oneFrame : BufferPoolManager Nat := create 1 ⟨fun _ => 0⟩

/-- One frame, holding page 1 pinned: fetching page 2 finds no victim and leaves it in place. -/
theorem pinned_page_stable_one_frame :
    let s := (oneFrame.fetchPage ⟨0, 1⟩).2
    let c := BpmCall.fetchPage ⟨0, 2⟩
    Reachable s ∧ s.pageTable.lookup ⟨0, 1⟩ = some 0 ∧ 0 < (s.pages 0).pinCount ∧ s.AllocOk c ∧
      (c.apply s).pageTable.lookup ⟨0, 1⟩ = some 0 ∧ ((c.apply s).pages 0).id = ⟨0, 1⟩ ∧
      ((c.apply s).pages 0).data = (s.pages 0).data :=
  have hr : Reachable (oneFrame.fetchPage ⟨0, 1⟩).2 :=
    .step (.call (.fetchPage ⟨0, 1⟩)) (.init (PoolInit.create 1 _))
      (by simp [PoolOp.Pre, invalidPageId])
  have h1 : (oneFrame.fetchPage ⟨0, 1⟩).2.pageTable.lookup ⟨0, 1⟩ = some 0 := by decide
  have h2 : 0 < ((oneFrame.fetchPage ⟨0, 1⟩).2.pages 0).pinCount := by decide
  ⟨hr, h1, h2, trivial, pinned_page_stable hr h1 h2 (.fetchPage ⟨0, 2⟩) trivial⟩

/-! ## A failed `new_page` -/

/-- `oneFrame` after page 1 was fetched and unpinned: frame 0 is the replacer's. -/
def pageOneUnpinned : BufferPoolManager Nat :=
  ((oneFrame.fetchPage ⟨0, 1⟩).2.unpinPage ⟨0, 1⟩ false).2

/-- `allocate_page` failing after `find_victim_page` took the victim: with the victim from the
free list, frame 0 ends on neither the free list nor the page table; with the victim from the
replacer (page 1 fetched and unpinned), frame 0 stays bound and unpinned but leaves the
replacer. -/
theorem newPage_leaks_victim :
    (oneFrame.freeList = [0] ∧ (oneFrame.newPage 0 invalidPageId).1 = none ∧
      (oneFrame.newPage 0 invalidPageId).2.freeList = [] ∧
      (oneFrame.newPage 0 invalidPageId).2.pageTable = []) ∧
    (pageOneUnpinned.replacer.frames = [0] ∧ (pageOneUnpinned.newPage 0 invalidPageId).1 = none ∧
      (pageOneUnpinned.newPage 0 invalidPageId).2.pageTable = [(⟨0, 1⟩, 0)] ∧
      ((pageOneUnpinned.newPage 0 invalidPageId).2.pages 0).pinCount = 0 ∧
      (pageOneUnpinned.newPage 0 invalidPageId).2.replacer.frames = []) := by
  decide

end BufferPoolManager

end Rmdb
