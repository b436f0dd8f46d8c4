import Rmdb.Storage.Proof.Client
import Rmdb.Storage.Proof.Leak

/-!
# When the pool refuses a call

`find_victim_page` finds no frame exactly when the free list and the replacer are empty
(`findVictimPage_eq_none_iff`). By the books of the frames that is exactly when every frame of the
pool is held (bound and pinned) or lost (`Books.victimless_iff`), and where no frame is lost, as in
every `Reachable` pool, exactly when every frame is held (`PoolInv.victimless_iff`). A cached,
unpinned page keeps its frame in the replacer there (`frames_ne_nil_of_lookup`).

So in every pool reached from a constructed one, failed allocations included, each call refuses
only for its stated reason (`pool_refusals`): `fetch_page` returns no frame exactly when the page is
not in the pool and every frame is held or lost, `new_page` exactly when `allocate_page` fails or
every frame is held or lost, `unpin_page` refuses exactly a page whose pin count is 0, `flush_page`
exactly a page not in the pool, and `delete_page` exactly a pinned page. Only a failed allocation
loses a frame (`frames_lost_to_failed_allocations`).
-/

namespace Rmdb

theorem LRUReplacer.victim_isSome {F : Type} [DecidableEq F] {r : LRUReplacer F}
    (h : r.frames ≠ []) : r.victim.1.isSome := by
  rcases hv : r.victim with ⟨_ | f, r'⟩
  · exact absurd (victim_none hv).2 h
  · rfl

namespace BufferPoolManager

variable {D : Type} {s : BufferPoolManager D}

/-! ## Finding a frame -/

theorem findVictimPage_isSome (h : s.replacer.frames ≠ []) : s.findVictimPage.isSome := by
  unfold findVictimPage
  split
  · rfl
  · have := LRUReplacer.victim_isSome h
    split
    · rfl
    · simp_all

theorem findVictimPage_eq_none_iff :
    s.findVictimPage = none ↔ s.freeList = [] ∧ s.replacer.frames = [] := by
  refine ⟨fun hv => ⟨?_, ?_⟩, fun ⟨hfl, hfr⟩ => ?_⟩
  · cases hfl : s.freeList with
    | nil => rfl
    | cons f rest => simp [findVictimPage, hfl] at hv
  · by_contra hfr
    have := findVictimPage_isSome hfr
    rw [hv] at this; cases this
  · simp [findVictimPage, hfl, LRUReplacer.victim, List.map_eq_nil_iff.1 hfr]

/-- `fetch_page` finds a frame when the replacer holds one. -/
theorem fetchPage_isSome [Zero D] (h : s.replacer.frames ≠ []) (pid : PageId) :
    (s.fetchPage pid).1.isSome := by
  cases hfind : s.pageTable.lookup pid with
  | some f => rw [fetchPage_of_lookup hfind]; rfl
  | none =>
    obtain ⟨p, hv⟩ := Option.isSome_iff_exists.1 (findVictimPage_isSome h)
    rw [fetchPage_of_victim hfind hv]; rfl

/-- `new_page` finds a frame when the free list or the replacer holds one. -/
theorem newPage_isSome [Zero D] (h : s.freeList ≠ [] ∨ s.replacer.frames ≠ []) (fd : Int)
    {alloc : Int} (ha : alloc ≠ invalidPageId) : (s.newPage fd alloc).1.isSome := by
  obtain ⟨⟨v, s1⟩, hv⟩ := Option.ne_none_iff_exists'.1 fun hv => by
    rw [findVictimPage_eq_none_iff] at hv; tauto
  rw [newPage_of_victim hv ha]; rfl

/-- A cached, unpinned page's frame is in the replacer. -/
theorem frames_ne_nil_of_lookup (h : PoolInv s) {q : PageId} {f : Nat}
    (hf : s.pageTable.lookup q = some f) (hp : s.pinOf q = 0) : s.replacer.frames ≠ [] :=
  List.ne_nil_of_mem ((h.replacerMem f).2
    ⟨Table.mem_values.2 ⟨q, Table.mem_of_lookup hf⟩, (pinOf_of_lookup hf).symm.trans hp⟩)

/-! ## What each call refuses -/

theorem flushPage_eq_false_iff [Zero D] (pid : PageId) :
    (s.flushPage pid).1 = false ↔ s.pageTable.lookup pid = none := by
  cases hf : s.pageTable.lookup pid <;> simp [flushPage, hf]

theorem deletePage_eq_false_iff [Zero D] (pid : PageId) :
    (s.deletePage pid).1 = false ↔ 0 < s.pinOf pid := by
  cases hf : s.pageTable.lookup pid with
  | none => simp [deletePage, pinOf, hf]
  | some f => simp only [deletePage, pinOf, hf]; split_ifs <;> simp <;> omega

namespace Books

variable (h : Books s)
include h

/-- No frame is free or evictable exactly when every frame of the pool is held or lost. -/
theorem victimless_iff :
    s.freeList = [] ∧ s.replacer.frames = [] ↔ ∀ f < s.poolSize, s.Holds f ∨ s.Lost f := by
  constructor
  · rintro ⟨hfl, hfr⟩ f hf
    by_cases hp : 0 < (s.pages f).pinCount
    · exact .inl ⟨h.pinned f hf hp, hp⟩
    · exact .inr ⟨hf, by simp [hfl], by simp [hfr], le_antisymm (not_lt.1 hp) (h.pinNonneg f)⟩
  · intro hall
    refine ⟨List.eq_nil_iff_forall_not_mem.2 fun f hf => ?_,
      List.eq_nil_iff_forall_not_mem.2 fun f hf => ?_⟩
    · rcases hall f (h.poolFrame f (.inl hf)) with hh | hl
      · exact h.freeUnbound f hf hh.1
      · exact hl.2.1 hf
    · rcases hall f (h.poolFrame f (.inr (h.evictable f hf).1)) with hh | hl
      · have := h.pin_of_frames hf; have := hh.2; omega
      · exact hl.2.2.1 hf

theorem fetchPage_eq_none_iff [Zero D] (pid : PageId) :
    (s.fetchPage pid).1 = none ↔
      s.pageTable.lookup pid = none ∧ ∀ f < s.poolSize, s.Holds f ∨ s.Lost f := by
  cases hfind : s.pageTable.lookup pid with
  | some f => simp [fetchPage_of_lookup hfind]
  | none =>
    rw [fetchPage_fst hfind, Option.map_eq_none', findVictimPage_eq_none_iff, h.victimless_iff]
    simp

theorem newPage_eq_none_iff [Zero D] (fd alloc : Int) :
    (s.newPage fd alloc).1 = none ↔
      alloc = invalidPageId ∨ ∀ f < s.poolSize, s.Holds f ∨ s.Lost f := by
  rw [← h.victimless_iff, ← findVictimPage_eq_none_iff]
  rcases hv : s.findVictimPage with _ | ⟨v, s1⟩
  · simp [BufferPoolManager.newPage, hv]
  · by_cases ha : alloc = invalidPageId
    · simp [BufferPoolManager.newPage, hv, ha]
    · rw [newPage_of_victim hv ha]; simp [ha]

/-- `unpin_page` refuses exactly a page whose pin count is 0; pin counts are never negative. -/
theorem unpinPage_eq_false_iff [Zero D] (pid : PageId) (isDirty : Bool) :
    (s.unpinPage pid isDirty).1 = false ↔ s.pinOf pid = 0 := by
  cases hf : s.pageTable.lookup pid with
  | none => simp [BufferPoolManager.unpinPage, pinOf, hf]
  | some f =>
    have := h.pinNonneg f
    simp only [BufferPoolManager.unpinPage, pinOf, hf]
    split_ifs <;> simp <;> omega

end Books

/-- Where no frame is lost, no frame is free or evictable exactly when every frame is held. -/
theorem PoolInv.victimless_iff (h : PoolInv s) :
    s.freeList = [] ∧ s.replacer.frames = [] ↔ ∀ f < s.poolSize, s.Holds f :=
  h.toBooks.victimless_iff.trans (forall₂_congr fun f _ => or_iff_left (h.complete f))

/-- In every pool reached from a constructed pool, failed allocations included, each call refuses
only for its stated reason: `fetch_page` returns no frame exactly when the page is not in the
pool and every frame is held (bound and pinned) or lost, `new_page` exactly when `allocate_page`
fails or every frame is held or lost, `unpin_page` refuses exactly a page whose pin count is 0 (a
page not in the pool counts 0), `flush_page` exactly a page not in the pool, and `delete_page`
exactly a pinned page. -/
theorem pool_refusals [Zero D] (hr : ReachableAny s) (pid : PageId) (isDirty : Bool)
    (fd alloc : Int) :
    ((s.fetchPage pid).1 = none ↔
      s.pageTable.lookup pid = none ∧ ∀ f < s.poolSize, s.Holds f ∨ s.Lost f) ∧
    ((s.newPage fd alloc).1 = none ↔
      alloc = invalidPageId ∨ ∀ f < s.poolSize, s.Holds f ∨ s.Lost f) ∧
    ((s.unpinPage pid isDirty).1 = false ↔ s.pinOf pid = 0) ∧
    ((s.flushPage pid).1 = false ↔ s.pageTable.lookup pid = none) ∧
    ((s.deletePage pid).1 = false ↔ 0 < s.pinOf pid) :=
  have h := Books.of_reachableAny hr
  ⟨h.fetchPage_eq_none_iff pid, h.newPage_eq_none_iff fd alloc,
    h.unpinPage_eq_false_iff pid isDirty, flushPage_eq_false_iff pid, deletePage_eq_false_iff pid⟩

/-- One frame, lost to a `new_page` whose `allocate_page` failed: `fetch_page` and `new_page`
find no frame although no client holds one. -/
theorem pool_refusals_lost_frame :
    let s := PoolOp.runAll [.call (.newPage 0 invalidPageId)] oneFrame
    ReachableAny s ∧ s.Lost 0 ∧ (s.fetchPage ⟨0, 2⟩).1 = none ∧ (s.newPage 0 2).1 = none ∧
    ((s.fetchPage ⟨0, 2⟩).1 = none ↔ s.pageTable.lookup ⟨0, 2⟩ = none ∧
      ∀ f < s.poolSize, s.Holds f ∨ s.Lost f) ∧
    ((s.newPage 0 2).1 = none ↔
      (2 : Int) = invalidPageId ∨ ∀ f < s.poolSize, s.Holds f ∨ s.Lost f) ∧
    ((s.unpinPage ⟨0, 2⟩ false).1 = false ↔ s.pinOf ⟨0, 2⟩ = 0) ∧
    ((s.flushPage ⟨0, 2⟩).1 = false ↔ s.pageTable.lookup ⟨0, 2⟩ = none) ∧
    ((s.deletePage ⟨0, 2⟩).1 = false ↔ 0 < s.pinOf ⟨0, 2⟩) :=
  have hr : ReachableAny (PoolOp.runAll [.call (.newPage 0 invalidPageId)] oneFrame) :=
    (ReachableAny.init (PoolInit.create 1 _)).runAll _ (by decide)
  ⟨hr, by decide, by decide, by decide, pool_refusals hr ⟨0, 2⟩ false 0 2⟩

end BufferPoolManager

end Rmdb
