import Rmdb.Storage.Proof.PoolInv

/-!
# The pool as a coherent cache

`content s pid`: the data of the frame bound to `pid`, else the Disk Manager's page. A client
writes a frame only while it holds a pin on it, and reports the write (`unpin_page(..., true)`,
`mark_dirty`) before it gives up the pin; a page that `new_page` created counts as written.
`Tracked` follows, for each frame, whether it carries a write not yet reported.

`CohInv`: a bound frame that is clean and carries no unreported write holds its page's data on
disk, and a frame with an unreported write is pinned. Every step keeps it (`CohInv.step`); a
victim or a deleted page is then written back, or already on disk (`CohInv.writeBackDirty_disk`),
and so (`content_coherent`):

* every call but `new_page` leaves `content` unchanged, evictions included, and `new_page` sets
  the new page's content to its zeroed frame;
* `fetch_page` returns a frame holding the page's content;
* after `flush_all_pages(fd)` the disk holds the content of every page of `fd` whose frame carries
  no unreported write.

The last point cannot drop its condition: `flush_all_pages` writes only dirty frames, so a write
that its holder has not yet reported stays in the frame (`flushAllPages_skips_unreported`).
-/

namespace Rmdb

namespace BufferPoolManager

variable {D : Type}

/-- `M(pid)`: the data of the frame bound to `pid`, else the Disk Manager's page. -/
def content (s : BufferPoolManager D) (pid : PageId) : D :=
  match s.pageTable.lookup pid with
  | some f => (s.pages f).data
  | none => s.diskManager.readPage pid

section
variable {s s' : BufferPoolManager D} {q : PageId}

theorem content_of_mem (h : PoolInv s) {g : Nat} (hm : (q, g) ∈ s.pageTable) :
    s.content q = (s.pages g).data := by
  simp [content, (h.lookup_iff).2 hm]

theorem content_of_not_mem (hn : ∀ g, (q, g) ∉ s.pageTable) :
    s.content q = s.diskManager.readPage q := by
  simp [content, Table.lookup_eq_none.2 hn]

/-- One page table, one disk and the same data in every frame give the same content. -/
theorem content_congr (ht : s'.pageTable = s.pageTable) (hd : s'.diskManager = s.diskManager)
    (hp : ∀ g, (s'.pages g).data = (s.pages g).data) : s'.content = s.content := by
  funext q
  unfold content
  rw [ht, hd]
  cases s.pageTable.lookup q <;> simp [hp]

end

/-! ## `flush_all_pages` -/

section
variable (fd : Int)

theorem flushEntry_pages (s : BufferPoolManager D) (e : PageId × Nat) (g : Nat) :
    (flushEntry fd s e).pages g =
      if e.1.fd = fd ∧ g = e.2 then { s.pages g with isDirty := false } else s.pages g := by
  unfold flushEntry
  by_cases he : e.1.fd = fd <;> by_cases hg : g = e.2 <;> simp [he, hg]

theorem flushEntry_diskManager (s : BufferPoolManager D) (e : PageId × Nat) :
    (flushEntry fd s e).diskManager = if e.1.fd = fd ∧ (s.pages e.2).isDirty then
      s.diskManager.writePage (s.pages e.2).id (s.pages e.2).data else s.diskManager := by
  unfold flushEntry
  by_cases he : e.1.fd = fd <;> simp [he, writeBackDirty_diskManager]

/-- `flush_all_pages` makes no frame dirty. -/
theorem foldl_flushEntry_clean (g : Nat) : ∀ (l : Table PageId Nat) (s : BufferPoolManager D),
    (s.pages g).isDirty = false → ((l.foldl (flushEntry fd) s).pages g).isDirty = false
  | [], _, h => h
  | e :: l, s, h => foldl_flushEntry_clean g l _ (by rw [flushEntry_pages]; split <;> simp [h])

/-- `flush_all_pages(fd)` cleans the frame of every entry of `fd` it visits. -/
theorem foldl_flushEntry_cleans {k : PageId} {g : Nat} (hk : k.fd = fd) :
    ∀ (l : Table PageId Nat) (s : BufferPoolManager D), (k, g) ∈ l →
      ((l.foldl (flushEntry fd) s).pages g).isDirty = false
  | e :: l, s, hm => by
    rcases List.mem_cons.1 hm with rfl | hm
    · exact foldl_flushEntry_clean fd g l _ (by simp [flushEntry_pages, hk])
    · exact foldl_flushEntry_cleans hk l _ hm

/-- `flush_all_pages` writes no page that a visited frame does not hold. -/
theorem foldl_flushEntry_disk {q : PageId} : ∀ (l : Table PageId Nat) (s : BufferPoolManager D),
    (∀ e ∈ l, (s.pages e.2).id ≠ q) →
      (l.foldl (flushEntry fd) s).diskManager.readPage q = s.diskManager.readPage q
  | [], _, _ => rfl
  | e :: l, s, h => by
    have hid : ∀ g, ((flushEntry fd s e).pages g).id = (s.pages g).id := fun g => by
      rw [flushEntry_pages]; split <;> rfl
    rw [List.foldl_cons, foldl_flushEntry_disk l _ fun e' he' => by
      rw [hid]; exact h e' (List.mem_cons_of_mem _ he'), flushEntry_diskManager]
    split <;> simp [Ne.symm (h e (List.mem_cons_self _ _))]

end

/-! ## Unreported writes -/

/-- A pool and, for each frame, whether it carries a write that its holder has not reported. -/
structure Tracked (D : Type) where
  pool : BufferPoolManager D
  unreported : Nat → Bool

namespace Tracked

variable [Zero D]

/-- The flags after a step: a write sets its frame's flag, `mark_dirty` and
`unpin_page(..., true)` clear it, and the frame `new_page` returns counts as written. -/
def unreportedAfter (t : Tracked D) : PoolOp D → Nat → Bool
  | .write f _ => Function.update t.unreported f true
  | .call (.markDirty f) => Function.update t.unreported f false
  | .call (.unpinPage pid d) =>
    match d, t.pool.pageTable.lookup pid with
    | true, some f => Function.update t.unreported f false
    | _, _ => t.unreported
  | .call (.newPage fd alloc) =>
    match (t.pool.newPage fd alloc).1 with
    | some (_, v) => Function.update t.unreported v true
    | none => t.unreported
  | .call _ => t.unreported

/-- A step. -/
def step (t : Tracked D) (op : PoolOp D) : Tracked D :=
  ⟨op.apply t.pool, t.unreportedAfter op⟩

/-- The clients' discipline: a pin is given up by `unpin_page(..., false)` only with no unreported
write on the frame. -/
def Reports (t : Tracked D) : PoolOp D → Prop
  | .call (.unpinPage pid false) => ∀ f, t.pool.pageTable.lookup pid = some f →
    (t.pool.pages f).pinCount = 1 → t.unreported f = false
  | _ => True

/-- The states reachable from a constructed pool by steps that meet their preconditions and the
discipline. -/
inductive Reachable : Tracked D → Prop
  | init {s : BufferPoolManager D} : PoolInit s → Reachable ⟨s, fun _ => false⟩
  | step {t : Tracked D} (op : PoolOp D) : Reachable t → op.Pre t.pool → t.Reports op →
      Reachable (t.step op)

end Tracked

/-- The coherence invariant (module doc) of a pool `s` with flags `u`. -/
structure CohInv (s : BufferPoolManager D) (u : Nat → Bool) : Prop where
  pool : PoolInv s
  clean : ∀ pid f, (pid, f) ∈ s.pageTable → (s.pages f).isDirty = false → u f = false →
    (s.pages f).data = s.diskManager.readPage pid
  held : ∀ f, u f = true → 0 < (s.pages f).pinCount

namespace CohInv

variable {s s' : BufferPoolManager D} {u w : Nat → Bool} (h : CohInv s u)
include h

/-- An unpinned frame carries no unreported write. -/
theorem reported {f : Nat} (hz : (s.pages f).pinCount = 0) : u f = false := by
  cases hu : u f
  · rfl
  · have := h.held f hu; omega

/-- Writing back a bound frame with no unreported write leaves the disk as if it were written,
dirty or not. -/
theorem writeBackDirty_disk {k : PageId} {f : Nat} (hm : (k, f) ∈ s.pageTable) (hu : u f = false)
    (q : PageId) : (s.writeBackDirty f).diskManager.readPage q =
      if q = k then (s.pages f).data else s.diskManager.readPage q := by
  rw [writeBackDirty_diskManager, (h.pool.bound k f hm).1]
  cases hd : (s.pages f).isDirty
  · simp only [Bool.false_eq_true, if_false]
    split
    · rename_i hq; rw [hq]; exact (h.clean k f hm hd hu).symm
    · rfl
  · simp

/-- The disk after the eviction of a free or unpinned frame `v`: `v`'s page holds its data. -/
theorem evict_disk {v : Nat} (hv : v ∈ s.freeList ∨ v ∈ s.replacer.frames) (q : PageId) :
    (if (s.pages v).id.pageNo ≠ invalidPageId then (s.writeBackDirty v).diskManager
      else s.diskManager).readPage q =
      if (q, v) ∈ s.pageTable then (s.pages v).data else s.diskManager.readPage q := by
  rcases hv with hv | hv
  · have hn : (q, v) ∉ s.pageTable := fun hm =>
      h.pool.freeUnbound v hv (Table.mem_values.2 ⟨q, hm⟩)
    simp [(h.pool.freeFrame v hv).1, hn]
  · obtain ⟨hvv, hz⟩ := (h.pool.replacerMem v).1 hv
    have hm : ((s.pages v).id, v) ∈ s.pageTable := (h.pool.mem_table).2 ⟨hvv, rfl⟩
    rw [if_pos (h.pool.valid_of_values hvv), h.writeBackDirty_disk hm (h.reported hz)]
    simp only [h.pool.mem_table, hvv, true_and, eq_comm]

/-- A step that changes frame `f` and its flag only, and neither the page table nor the disk. -/
theorem frame {f : Nat} (hp : PoolInv s') (ht : s'.pageTable = s.pageTable)
    (hd : s'.diskManager = s.diskManager) (ho : ∀ g, g ≠ f → s'.pages g = s.pages g ∧ w g = u g)
    (hf : (s'.pages f).isDirty = false → w f = false →
      (s'.pages f).data = (s.pages f).data ∧ (s.pages f).isDirty = false ∧ u f = false)
    (hheld : w f = true → 0 < (s'.pages f).pinCount) : CohInv s' w := by
  refine ⟨hp, fun pid g hm hdg hug => ?_, fun g hg => ?_⟩
  · rw [ht] at hm
    rw [hd]
    by_cases hgf : g = f
    · subst hgf
      obtain ⟨e, hd0, hu0⟩ := hf hdg hug
      rw [e]; exact h.clean pid g hm hd0 hu0
    · obtain ⟨e, eu⟩ := ho g hgf
      rw [e] at hdg ⊢; rw [eu] at hug
      exact h.clean pid g hm hdg hug
  · by_cases hgf : g = f
    · subst hgf; exact hheld hg
    · obtain ⟨e, eu⟩ := ho g hgf
      rw [e]; exact h.held g (eu ▸ hg)

/-- `flush_page`: the frame's data is written to its page. -/
theorem writeBack {f : Nat} (hf : f ∈ s.pageTable.values) : CohInv (s.writeBack f) u := by
  refine ⟨h.pool.writeBack hf, fun k g hm hdg hug => ?_, fun g hg => ?_⟩
  · have hm' : (k, g) ∈ s.pageTable := hm
    by_cases hgf : g = f
    · subst hgf; simp [(h.pool.bound k g hm').1]
    · have hk : k ≠ (s.pages f).id := fun e =>
        hgf (h.pool.key_inj hm' ((h.pool.mem_table).2 ⟨hf, e.symm⟩))
      simp only [writeBack_pages, hgf, if_false] at hdg ⊢
      simpa [hk] using h.clean k g hm' hdg hug
  · by_cases hgf : g = f
    · subst hgf; simpa using h.held g hg
    · simpa [hgf] using h.held g hg

theorem writeBackDirty {f : Nat} (hf : f ∈ s.pageTable.values) :
    CohInv (s.writeBackDirty f) u := by
  unfold BufferPoolManager.writeBackDirty; split
  · exact h.writeBack hf
  · exact h

/-- Binding an evicted frame `v` to `pid`, where `v`'s data is `pid`'s page on disk unless its
flag is set. -/
theorem rebind {v : Nat} {pid : PageId} (hv : v ∈ s.freeList ∨ v ∈ s.replacer.frames)
    (hp : pid.pageNo ≠ invalidPageId) (hn : s.pageTable.lookup pid = none) (hr : Rebind s s' v pid)
    (hdata : w v = false → (s'.pages v).data = s'.diskManager.readPage pid)
    (hu : ∀ g, g ≠ v → w g = u g) : CohInv s' w := by
  refine ⟨h.pool.rebind hv hp hn hr, fun k g hm hdg hug => ?_, fun g hg => ?_⟩
  · have hm' : (k, g) ∈ s'.pageTable := hm
    rw [hr.pageTable, h.pool.rebind_mem hv hn] at hm'
    rcases hm' with ⟨rfl, rfl⟩ | ⟨hm', hgv⟩
    · exact hdata hug
    · have hkv : (k, v) ∉ s.pageTable := fun hk => hgv (h.pool.key_inj hm' hk)
      show (s'.pages g).data = s'.diskManager.readPage k
      rw [hr.diskManager, h.evict_disk hv, if_neg hkv, hr.other g hgv]
      rw [hr.other g hgv] at hdg
      exact h.clean k g hm' hdg (hu g hgv ▸ hug)
  · by_cases hgv : g = v
    · subst hgv; show 0 < (s'.pages g).pinCount; rw [hr.pin]; omega
    · show 0 < (s'.pages g).pinCount
      rw [hr.other g hgv]; exact h.held g (hu g hgv ▸ hg)

/-- The content after binding an evicted frame `v` to `pid`: unchanged but at `pid`. -/
theorem content_rebind {v : Nat} {pid : PageId} (hv : v ∈ s.freeList ∨ v ∈ s.replacer.frames)
    (hp : pid.pageNo ≠ invalidPageId) (hn : s.pageTable.lookup pid = none) (hr : Rebind s s' v pid)
    {q : PageId} (hq : q ≠ pid) : s'.content q = s.content q := by
  have h' := h.pool.rebind hv hp hn hr
  have hmem : ∀ g, (q, g) ∈ s'.pageTable ↔ (q, g) ∈ s.pageTable ∧ g ≠ v := fun g => by
    rw [hr.pageTable, h.pool.rebind_mem hv hn]; simp [hq]
  by_cases hqv : (q, v) ∈ s.pageTable
  · have hn' : ∀ g, (q, g) ∉ s'.pageTable := fun g hm =>
      ((hmem g).1 hm).2 (h.pool.key_inj ((hmem g).1 hm).1 hqv)
    rw [content_of_not_mem hn', content_of_mem h.pool hqv, hr.diskManager, h.evict_disk hv,
      if_pos hqv]
  · cases hf : s.pageTable.lookup q with
    | some g =>
      have hm := (h.pool.lookup_iff).1 hf
      have hgv : g ≠ v := fun e => hqv (e ▸ hm)
      rw [content_of_mem h' ((hmem g).2 ⟨hm, hgv⟩), content_of_mem h.pool hm, hr.other g hgv]
    | none =>
      have hn' : ∀ g, (q, g) ∉ s'.pageTable := fun g hm =>
        Table.lookup_eq_none.1 hf g ((hmem g).1 hm).1
      rw [content_of_not_mem hn', content_of_not_mem (Table.lookup_eq_none.1 hf), hr.diskManager,
        h.evict_disk hv, if_neg hqv]

/-- `flush_page`. -/
theorem flushPage (pid : PageId) : CohInv (s.flushPage pid).2 u := by
  cases hfind : s.pageTable.lookup pid with
  | none => simp only [BufferPoolManager.flushPage, hfind]; exact h
  | some f =>
    simp only [BufferPoolManager.flushPage, hfind]
    exact h.writeBack (Table.mem_values.2 ⟨pid, Table.mem_of_lookup hfind⟩)

/-- `flush_all_pages`: each entry it visits is a `flush_page` or nothing. -/
theorem flushAllPages (fd : Int) : CohInv (s.flushAllPages fd) u := by
  unfold BufferPoolManager.flushAllPages
  suffices ∀ (l : Table PageId Nat) (t : BufferPoolManager D), CohInv t u →
      t.pageTable = s.pageTable → (∀ e ∈ l, e ∈ s.pageTable) →
        CohInv (l.foldl (flushEntry fd) t) u
    from this _ _ h rfl fun _ he => he
  intro l
  induction l with
  | nil => exact fun t ht _ _ => ht
  | cons e l ih =>
    intro t ht htab hl
    refine ih _ ?_ ?_ fun e' he' => hl e' (List.mem_cons_of_mem _ he')
    · unfold flushEntry; split
      · exact ht.writeBackDirty (Table.mem_values.2 ⟨e.1, htab ▸ hl e (List.mem_cons_self _ _)⟩)
      · exact ht
    · unfold flushEntry; split <;> simp [htab]

/-- `mark_dirty` reports the writes to the frame. -/
theorem markDirty {f : Nat} (hf : s.Holds f) :
    CohInv (s.markDirty f) (Function.update u f false) :=
  h.frame (f := f) (h.pool.markDirty hf.1) rfl rfl
    (fun g hg => by simp [BufferPoolManager.markDirty, hg])
    (fun hd _ => by simp [BufferPoolManager.markDirty] at hd) fun hu => by simp at hu

/-- A client's write into a frame it holds. -/
theorem write {f : Nat} {d : D} (hf : s.Holds f) :
    CohInv (s.modifyPage f (fun p => { p with data := d })) (Function.update u f true) :=
  h.frame (f := f) (h.pool.modifyPage hf.1 rfl rfl) rfl rfl (fun g hg => by simp [hg])
    (fun _ hu => by simp at hu) fun _ => by simpa using hf.2

end CohInv

/-! ## The steps -/

section
variable [Zero D] {s : BufferPoolManager D} {pid : PageId} {v : Nat} {s1 : BufferPoolManager D}

/-- A miss of `fetch_page` reads the page into the victim frame. -/
theorem fetchPage_miss_data (hfind : s.pageTable.lookup pid = none)
    (hv : s.findVictimPage = some (v, s1)) :
    ((s.fetchPage pid).2.pages v).data = (s.fetchPage pid).2.diskManager.readPage pid := by
  rw [fetchPage_of_victim hfind hv]; simp

/-- `new_page` zeroes the victim frame. -/
theorem newPage_data {fd alloc : Int} (hv : s.findVictimPage = some (v, s1))
    (ha : alloc ≠ invalidPageId) : ((s.newPage fd alloc).2.pages v).data = 0 := by
  rw [newPage_of_victim hv ha]
  simp [updatePage_pages _ _ _ (show PageId.pageNo ⟨fd, alloc⟩ ≠ _ from ha)]

end

namespace CohInv

variable [Zero D] {s : BufferPoolManager D} {u : Nat → Bool} (h : CohInv s u)
include h

theorem fetchPage {pid : PageId} (hp : pid.pageNo ≠ invalidPageId) :
    CohInv (s.fetchPage pid).2 u := by
  cases hfind : s.pageTable.lookup pid with
  | some f =>
    have hpf := h.pool.fetchPage hp
    rw [fetchPage_of_lookup hfind] at hpf ⊢
    refine h.frame (f := f) (w := u) hpf rfl rfl (fun g hg => ⟨by simp [hg], rfl⟩)
      (fun hd hu => ⟨by simp, by simpa using hd, hu⟩) fun hu => ?_
    have := h.held f hu; simp; omega
  | none =>
    cases hv : s.findVictimPage with
    | none => rw [fetchPage_of_no_victim hfind hv]; exact h
    | some p =>
      obtain ⟨hvm, hr⟩ := Rebind.of_fetchPage h.pool.toBooks hp hfind hv
      exact h.rebind hvm hp hfind hr (fun _ => fetchPage_miss_data hfind hv) fun _ _ => rfl

theorem newPage {fd alloc : Int} (ha : alloc ≠ invalidPageId)
    (hn : s.pageTable.lookup ⟨fd, alloc⟩ = none) :
    CohInv (s.newPage fd alloc).2 ((Tracked.mk s u).unreportedAfter (.call (.newPage fd alloc))) := by
  cases hv : s.findVictimPage with
  | none => simp only [Tracked.unreportedAfter, BufferPoolManager.newPage, hv]; exact h
  | some p =>
    obtain ⟨hvm, hr⟩ := Rebind.of_newPage h.pool.toBooks ha hv
    simp only [Tracked.unreportedAfter, newPage_of_victim hv ha] at hr ⊢
    exact h.rebind hvm ha hn hr (by simp) fun g hg => by simp [hg]

theorem unpinPage {pid : PageId} {d : Bool}
    (hrep : (Tracked.mk s u).Reports (.call (.unpinPage pid d))) :
    CohInv (s.unpinPage pid d).2 ((Tracked.mk s u).unreportedAfter (.call (.unpinPage pid d))) := by
  have hpu := h.pool.unpinPage pid d
  cases hfind : s.pageTable.lookup pid with
  | none =>
    simp only [Tracked.unreportedAfter, BufferPoolManager.unpinPage, hfind]
    cases d <;> exact h
  | some f =>
    by_cases hpos : 0 < (s.pages f).pinCount
    · rw [unpinPage_of_pos hfind hpos] at hpu ⊢
      cases d with
      | true =>
        refine h.frame (f := f) hpu rfl rfl (fun g hg => ⟨by simp [hg], ?_⟩) (fun hd _ => ?_)
          fun hu => ?_
        · simp [Tracked.unreportedAfter, hfind, hg]
        · simp at hd
        · simp [Tracked.unreportedAfter, hfind] at hu
      | false =>
        have hu1 : (s.pages f).pinCount = 1 → u f = false := hrep f hfind
        refine h.frame (f := f) hpu rfl rfl (fun g hg => ⟨by simp [hg], ?_⟩)
          (fun hd hu => ⟨by simp, by simpa using hd, hu⟩) fun hu => ?_
        · simp [Tracked.unreportedAfter]
        · simp only [Tracked.unreportedAfter] at hu
          have := h.held f hu
          have : (s.pages f).pinCount ≠ 1 := fun e => by simp [hu1 e] at hu
          simp; omega
    · have hz : (s.pages f).pinCount = 0 := by have := h.pool.pinNonneg f; omega
      simp only [Tracked.unreportedAfter, BufferPoolManager.unpinPage, hfind,
        if_pos (not_lt.1 hpos)]
      cases d
      · exact h
      · have e : Function.update u f false = u := by
          rw [← h.reported hz]; exact Function.update_eq_self f u
        show CohInv s (Function.update u f false)
        rw [e]; exact h

theorem deletePage (pid : PageId) : CohInv (s.deletePage pid).2 u := by
  have hpd := h.pool.deletePage pid
  cases hfind : s.pageTable.lookup pid with
  | none => simp only [BufferPoolManager.deletePage, hfind]; exact h
  | some f =>
    by_cases hpos : 0 < (s.pages f).pinCount
    · simp only [BufferPoolManager.deletePage, hfind, if_pos hpos]; exact h
    · rw [deletePage_of_unpinned hfind hpos] at hpd ⊢
      have hm : (pid, f) ∈ s.pageTable := Table.mem_of_lookup hfind
      have hz : (s.pages f).pinCount = 0 := by have := h.pool.pinNonneg f; omega
      refine ⟨hpd, fun k g hk hdg hug => ?_, fun g hg => ?_⟩
      · have hk' : (k, g) ∈ s.pageTable ∧ k ≠ pid := Table.mem_erase.1 hk
        have hg : g ≠ f := fun e => hk'.2 (h.pool.entry_inj hk'.1 (e ▸ hm))
        simp only [modifyPage_pages, hg, if_false, writeBackDirty_pages, modifyPage_diskManager]
          at hdg ⊢
        rw [h.writeBackDirty_disk hm (h.reported hz) k, if_neg hk'.2]
        exact h.clean k g hk'.1 hdg hug
      · by_cases hgf : g = f
        · subst hgf; simp [h.reported hz] at hg
        · simpa [hgf] using h.held g hg

/-- Every step that meets its preconditions and the discipline keeps the invariant. -/
theorem step {op : PoolOp D} (hpre : op.Pre s) (hrep : (Tracked.mk s u).Reports op) :
    CohInv (op.apply s) ((Tracked.mk s u).unreportedAfter op) := by
  cases op with
  | write f d => exact h.write hpre
  | call c =>
    cases c with
    | fetchPage pid => exact h.fetchPage hpre
    | newPage fd alloc => exact h.newPage hpre.1 hpre.2
    | unpinPage pid d => exact h.unpinPage hrep
    | flushPage pid => exact h.flushPage pid
    | flushAllPages fd => exact h.flushAllPages fd
    | deletePage pid => exact h.deletePage pid
    | markDirty f => exact h.markDirty hpre

end CohInv

theorem CohInv.of_reachable [Zero D] {t : Tracked D} (ht : t.Reachable) :
    CohInv t.pool t.unreported := by
  induction ht with
  | init hi =>
    exact ⟨PoolInv.init hi, fun _ _ hm => by simp [hi.pageTable] at hm,
      fun _ hu => absurd hu (by simp)⟩
  | step op _ hpre hrep ih => exact ih.step hpre hrep

/-! ## The content of the pages -/

section
variable {s : BufferPoolManager D}

theorem content_unpinPage (pid : PageId) (d : Bool) : (s.unpinPage pid d).2.content = s.content := by
  cases hfind : s.pageTable.lookup pid with
  | none => simp only [BufferPoolManager.unpinPage, hfind]
  | some f =>
    by_cases hpos : 0 < (s.pages f).pinCount
    · rw [unpinPage_of_pos hfind hpos]
      exact content_congr rfl rfl fun g => by by_cases hg : g = f <;> simp [hg]
    · simp only [BufferPoolManager.unpinPage, hfind, if_pos (not_lt.1 hpos)]

theorem content_markDirty (f : Nat) : (s.markDirty f).content = s.content :=
  content_congr rfl rfl fun g => by by_cases hg : g = f <;> simp [BufferPoolManager.markDirty, hg]

theorem PoolInv.content_flushPage (h : PoolInv s) (pid : PageId) :
    (s.flushPage pid).2.content = s.content := by
  cases hfind : s.pageTable.lookup pid with
  | none => simp only [BufferPoolManager.flushPage, hfind]
  | some f =>
    simp only [BufferPoolManager.flushPage, hfind]
    funext q
    have hid : (s.pages f).id = pid := (h.bound pid f (Table.mem_of_lookup hfind)).1
    cases hq : s.pageTable.lookup q with
    | some g =>
      simp only [content, writeBack_pageTable, hq, writeBack_pages]
      by_cases hg : g = f <;> simp [hg]
    | none =>
      have hqp : q ≠ pid := fun e => by rw [e, hfind] at hq; cases hq
      simp [content, hq, hid, hqp]

theorem PoolInv.content_flushAllPages (h : PoolInv s) (fd : Int) :
    (s.flushAllPages fd).content = s.content := by
  funext q
  cases hq : s.pageTable.lookup q with
  | some g =>
    obtain ⟨b, hb⟩ := foldl_flushEntry_pages fd g s.pageTable s
    simp only [content, BufferPoolManager.flushAllPages, foldl_flushEntry_pageTable, hq, hb]
  | none =>
    simp only [content, BufferPoolManager.flushAllPages, foldl_flushEntry_pageTable, hq]
    refine foldl_flushEntry_disk fd _ _ fun e he hid => Table.lookup_eq_none.1 hq e.2 ?_
    rw [← hid, (h.bound e.1 e.2 he).1]; exact he

end

namespace CohInv

variable [Zero D] {s : BufferPoolManager D} {u : Nat → Bool} (h : CohInv s u)
include h

/-- `fetch_page` keeps the content and returns a frame holding the page's content. -/
theorem content_fetchPage {pid : PageId} (hp : pid.pageNo ≠ invalidPageId) :
    (s.fetchPage pid).2.content = s.content ∧
      ∀ f, (s.fetchPage pid).1 = some f → ((s.fetchPage pid).2.pages f).data = s.content pid := by
  cases hfind : s.pageTable.lookup pid with
  | some f =>
    rw [fetchPage_of_lookup hfind]
    refine ⟨content_congr rfl rfl fun g => by by_cases hg : g = f <;> simp [hg], ?_⟩
    rintro g ⟨⟩
    simp [content, hfind]
  | none =>
    cases hv : s.findVictimPage with
    | none => rw [fetchPage_of_no_victim hfind hv]; exact ⟨rfl, fun _ e => nomatch e⟩
    | some p =>
      obtain ⟨v, s1⟩ := p
      obtain ⟨hvm, hr⟩ := Rebind.of_fetchPage h.pool.toBooks hp hfind hv
      have hpid : ((s.fetchPage pid).2.pages v).data = s.content pid := by
        rw [fetchPage_miss_data hfind hv, hr.diskManager, h.evict_disk hvm,
          if_neg (Table.lookup_eq_none.1 hfind v)]
        simp [content, hfind]
      refine ⟨funext fun q => ?_, fun f hf => ?_⟩
      · by_cases hq : q = pid
        · subst hq
          rw [content_of_mem (g := v) (h.pool.rebind hvm hp hfind hr) (by simp [hr.pageTable]),
            hpid]
        · exact h.content_rebind hvm hp hfind hr hq
      · simp only [fetchPage_fst hfind, hv, Option.map_some', Option.some.injEq] at hf
        subst hf; exact hpid

/-- `new_page` sets the content of the new page to its zeroed frame. -/
theorem content_newPage {fd alloc : Int} (ha : alloc ≠ invalidPageId)
    (hn : s.pageTable.lookup ⟨fd, alloc⟩ = none) (q : PageId) :
    (s.newPage fd alloc).2.content q =
      if (s.newPage fd alloc).1.isSome ∧ q = ⟨fd, alloc⟩ then 0 else s.content q := by
  cases hv : s.findVictimPage with
  | none => simp [BufferPoolManager.newPage, hv]
  | some p =>
    obtain ⟨hvm, hr⟩ := Rebind.of_newPage h.pool.toBooks ha hv
    by_cases hq : q = ⟨fd, alloc⟩
    · subst hq
      rw [content_of_mem (g := p.1) (h.pool.rebind hvm ha hn hr) (by simp [hr.pageTable]),
        newPage_data hv ha,
        newPage_of_victim hv ha]
      simp
    · rw [if_neg fun e => hq e.2]; exact h.content_rebind hvm ha hn hr hq

/-- `delete_page` writes back a page it drops, or finds it already on disk. -/
theorem content_deletePage (pid : PageId) : (s.deletePage pid).2.content = s.content := by
  cases hfind : s.pageTable.lookup pid with
  | none => simp only [BufferPoolManager.deletePage, hfind]
  | some f =>
    by_cases hpos : 0 < (s.pages f).pinCount
    · simp only [BufferPoolManager.deletePage, hfind, if_pos hpos]
    · rw [deletePage_of_unpinned hfind hpos]
      have hm := Table.mem_of_lookup hfind
      have hz : (s.pages f).pinCount = 0 := by have := h.pool.pinNonneg f; omega
      funext q
      have hdisk := h.writeBackDirty_disk hm (h.reported hz) q
      by_cases hq : pid = q
      · subst hq; simp [content, hfind, hdisk]
      · cases hg : s.pageTable.lookup q with
        | none => simp [content, hq, hg, hdisk, Ne.symm hq]
        | some g =>
          have hgf : g ≠ f := fun e =>
            hq (h.pool.entry_inj hm (e ▸ Table.mem_of_lookup hg))
          simp [content, hq, hg, hgf]

end CohInv

/-- The pool is a coherent cache of the disk under the clients' discipline: every call but
`new_page` keeps `content`, and `new_page` sets the new page's content to zeroes; `fetch_page`
returns a frame holding the page's content; after `flush_all_pages(fd)` the disk holds the
content of every page of `fd` whose frame carries no unreported write. -/
theorem content_coherent [Zero D] {t : Tracked D} (ht : t.Reachable) :
    (∀ c : BpmCall, (PoolOp.call c).Pre t.pool → (∀ fd alloc, c ≠ .newPage fd alloc) →
      (c.apply t.pool).content = t.pool.content) ∧
    (∀ fd alloc, (PoolOp.call (.newPage fd alloc)).Pre t.pool → ∀ q,
      (t.pool.newPage fd alloc).2.content q =
        if (t.pool.newPage fd alloc).1.isSome ∧ q = ⟨fd, alloc⟩ then 0 else t.pool.content q) ∧
    (∀ pid f, pid.pageNo ≠ invalidPageId → (t.pool.fetchPage pid).1 = some f →
      ((t.pool.fetchPage pid).2.pages f).data = t.pool.content pid) ∧
    (∀ fd pid, pid.fd = fd → (∀ f, t.pool.pageTable.lookup pid = some f → t.unreported f = false) →
      (t.pool.flushAllPages fd).diskManager.readPage pid = (t.pool.flushAllPages fd).content pid) := by
  have h := CohInv.of_reachable ht
  refine ⟨fun c hpre hne => ?_, fun fd alloc hpre q => h.content_newPage hpre.1 hpre.2 q,
    fun pid f hp hf => (h.content_fetchPage hp).2 f hf, fun fd pid hfd hu => ?_⟩
  · cases c with
    | fetchPage pid => exact (h.content_fetchPage hpre).1
    | newPage fd alloc => exact absurd rfl (hne fd alloc)
    | unpinPage pid d => exact content_unpinPage pid d
    | flushPage pid => exact h.pool.content_flushPage pid
    | flushAllPages fd => exact h.pool.content_flushAllPages fd
    | deletePage pid => exact h.content_deletePage pid
    | markDirty f => exact content_markDirty f
  · have hc := h.flushAllPages fd
    cases hfind : t.pool.pageTable.lookup pid with
    | none => simp [content, flushAllPages, foldl_flushEntry_pageTable, hfind]
    | some f =>
      have hm := Table.mem_of_lookup hfind
      have hm' : (pid, f) ∈ (t.pool.flushAllPages fd).pageTable := by
        rw [flushAllPages, foldl_flushEntry_pageTable]; exact hm
      rw [content_of_mem hc.pool hm']
      exact (hc.clean pid f hm' (foldl_flushEntry_cleans fd hfd _ _ hm) (hu f hfind)).symm

/-- One frame: page `(0, 1)` fetched into it, and the frame written with `5` by its holder, who
has not reported the write yet. -/
def writtenUnreported : Tracked Nat :=
  ((Tracked.mk (create 1 ⟨fun _ => 0⟩) fun _ => false).step (.call (.fetchPage ⟨0, 1⟩))).step
    (.write 0 5)

theorem writtenUnreported_reachable : writtenUnreported.Reachable :=
  .step _ (.step _ (.init (PoolInit.create 1 _)) (by simp [PoolOp.Pre, invalidPageId]) trivial)
    (by simp only [PoolOp.Pre, Holds]; decide) trivial

theorem content_coherent_written :
    writtenUnreported.Reachable ∧
    (∀ c : BpmCall, (PoolOp.call c).Pre writtenUnreported.pool →
      (∀ fd alloc, c ≠ .newPage fd alloc) →
      (c.apply writtenUnreported.pool).content = writtenUnreported.pool.content) ∧
    (∀ fd alloc, (PoolOp.call (.newPage fd alloc)).Pre writtenUnreported.pool → ∀ q,
      (writtenUnreported.pool.newPage fd alloc).2.content q =
        if (writtenUnreported.pool.newPage fd alloc).1.isSome ∧ q = ⟨fd, alloc⟩ then 0
        else writtenUnreported.pool.content q) ∧
    (∀ pid f, pid.pageNo ≠ invalidPageId → (writtenUnreported.pool.fetchPage pid).1 = some f →
      ((writtenUnreported.pool.fetchPage pid).2.pages f).data = writtenUnreported.pool.content pid) ∧
    (∀ fd pid, pid.fd = fd →
      (∀ f, writtenUnreported.pool.pageTable.lookup pid = some f →
        writtenUnreported.unreported f = false) →
      (writtenUnreported.pool.flushAllPages fd).diskManager.readPage pid =
        (writtenUnreported.pool.flushAllPages fd).content pid) :=
  ⟨writtenUnreported_reachable, content_coherent writtenUnreported_reachable⟩

/-- There the write is not yet reported, and `flush_all_pages(0)` leaves page `(0, 1)` zero on
disk while its content is `5`. -/
theorem flushAllPages_skips_unreported :
    writtenUnreported.Reachable ∧ writtenUnreported.unreported 0 = true ∧
      (writtenUnreported.pool.flushAllPages 0).diskManager.readPage ⟨0, 1⟩ = 0 ∧
      (writtenUnreported.pool.flushAllPages 0).content ⟨0, 1⟩ = 5 :=
  ⟨writtenUnreported_reachable, by decide, by decide, by decide⟩

end BufferPoolManager

end Rmdb
