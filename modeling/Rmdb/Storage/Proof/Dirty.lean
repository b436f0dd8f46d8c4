import Rmdb.Storage.Proof.Pins

/-!
# The dirty flag

A frame's dirty flag says that its data may differ from its page on disk. `DirtyStep s s' f` is the
discipline a step from `s` to `s'` keeps on frame `f`: it sets the flag only on a frame a client
holds (bound and pinned), and clears it only once the frame's data is on disk, at the frame's page.

`unpin_page(page_id, true)` and `mark_dirty` set the flag of a held frame
(`dirtyStep_unpinPage`, `dirtyStep_markDirty`). `flush_page` writes its frame whether or not it is
dirty (`dirtyStep_flushPage`); `delete_page` and the `update_page` inside `fetch_page` and
`new_page` write a dirty frame back before they free or rebind it (`dirtyStep_deletePage`,
`PoolInv.dirtyStep_rebind`); `flush_all_pages` writes each dirty frame of the file once, and no
later entry of its loop writes that page again, as the pages of distinct entries differ
(`foldl_flushEntry_written`). Fetch hits and writes leave the flag alone. So in every reachable pool
every step keeps the discipline (`dirty_flag_discipline`).
-/

namespace Rmdb

namespace BufferPoolManager

variable {D : Type} {s s' : BufferPoolManager D}

/-- A step from `s` to `s'` sets the dirty flag of frame `f` only if a client held `f`, and clears
it only once `f`'s data is on disk, at `f`'s page. -/
def DirtyStep (s s' : BufferPoolManager D) (f : Nat) : Prop :=
  ((s.pages f).isDirty = false → (s'.pages f).isDirty = true → s.Holds f) ∧
  ((s.pages f).isDirty = true → (s'.pages f).isDirty = false →
    s'.diskManager.readPage (s.pages f).id = (s.pages f).data)

namespace DirtyStep

variable {f : Nat}

/-- A step that leaves the flag as it was. -/
theorem of_flag (h : (s'.pages f).isDirty = (s.pages f).isDirty) : DirtyStep s s' f :=
  ⟨fun h0 h1 => (by rw [h, h0] at h1; cases h1), fun h0 h1 => (by rw [h, h0] at h1; cases h1)⟩

/-- A step that clears the flag, having written a dirty frame's data to its page. -/
theorem of_write (hc : (s'.pages f).isDirty = false)
    (hw : (s.pages f).isDirty = true → s'.diskManager.readPage (s.pages f).id = (s.pages f).data) :
    DirtyStep s s' f :=
  ⟨fun _ h1 => (by rw [hc] at h1; cases h1), fun h0 _ => hw h0⟩

/-- A step on a held frame that keeps a set flag set. -/
theorem of_held (hH : s.Holds f)
    (hset : (s.pages f).isDirty = true → (s'.pages f).isDirty = true) : DirtyStep s s' f :=
  ⟨fun _ _ => hH, fun h0 h1 => (by rw [hset h0] at h1; cases h1)⟩

end DirtyStep

/-! ## `flush_all_pages` -/

section
variable (fd : Int) (g : Nat)

/-- `flush_all_pages`' loop sets no flag. -/
theorem foldl_flushEntry_dirty : ∀ (l : Table PageId Nat) (s : BufferPoolManager D),
    ((l.foldl (flushEntry fd) s).pages g).isDirty = true → (s.pages g).isDirty = true
  | [], _, h => h
  | e :: l, s, h => by
    have := foldl_flushEntry_dirty l _ h
    rw [flushEntry_pages] at this
    split at this
    · cases this
    · exact this

/-- `flush_all_pages`' loop clears the flag of a frame only after writing the frame's data to its
page, which no later entry writes again: the frames of distinct entries have distinct pages. -/
theorem foldl_flushEntry_written : ∀ (l : Table PageId Nat) (s : BufferPoolManager D),
    (l.map Prod.snd).Nodup →
    (∀ e ∈ l, ∀ e' ∈ l, e.2 ≠ e'.2 → (s.pages e.2).id ≠ (s.pages e'.2).id) →
    (s.pages g).isDirty = true → ((l.foldl (flushEntry fd) s).pages g).isDirty = false →
    (l.foldl (flushEntry fd) s).diskManager.readPage (s.pages g).id = (s.pages g).data
  | [], _, _, _, hd, hc => by rw [List.foldl_nil, hd] at hc; cases hc
  | e :: l, s, hnd, hid, hd, hc => by
    rw [List.map_cons, List.nodup_cons] at hnd
    have hid1 : ∀ x, ((flushEntry fd s e).pages x).id = (s.pages x).id := fun x => by
      rw [flushEntry_pages]; split <;> rfl
    by_cases hw : e.1.fd = fd ∧ g = e.2
    · -- The entry of `g` writes it; the rest of the loop writes other pages.
      obtain ⟨hfd, rfl⟩ := hw
      rw [List.foldl_cons, foldl_flushEntry_disk fd l _ fun e' he' => ?_, flushEntry_diskManager,
        if_pos ⟨hfd, hd⟩, DiskManager.readPage_writePage, if_pos rfl]
      rw [hid1]
      exact hid e' (List.mem_cons_of_mem _ he') e (List.mem_cons_self _ _)
        fun h => hnd.1 (h ▸ List.mem_map_of_mem _ he')
    · have hg : (flushEntry fd s e).pages g = s.pages g := by rw [flushEntry_pages, if_neg hw]
      rw [List.foldl_cons] at hc ⊢
      rw [← hg]
      exact foldl_flushEntry_written l _ hnd.2
        (fun x hx y hy hxy => by
          rw [hid1, hid1]
          exact hid x (List.mem_cons_of_mem _ hx) y (List.mem_cons_of_mem _ hy) hxy)
        (hg ▸ hd) hc

end

/-! ## Each call -/

section
variable (g : Nat)

theorem dirtyStep_unpinPage (pid : PageId) (isDirty : Bool) :
    DirtyStep s (s.unpinPage pid isDirty).2 g := by
  cases hf : s.pageTable.lookup pid with
  | none => exact .of_flag (by simp [unpinPage, hf])
  | some f =>
    by_cases hpos : 0 < (s.pages f).pinCount
    · rw [unpinPage_of_pos hf hpos]
      by_cases hg : g = f
      · subst hg
        exact .of_held ⟨Table.mem_values.2 ⟨pid, Table.mem_of_lookup hf⟩, hpos⟩ fun hd => by simp [hd]
      · exact .of_flag (by simp [hg])
    · exact .of_flag (by simp [unpinPage, hf, not_lt.1 hpos])

theorem dirtyStep_flushPage (pid : PageId) : DirtyStep s (s.flushPage pid).2 g := by
  unfold flushPage
  split
  · exact .of_flag rfl
  · rename_i f _
    by_cases hg : g = f
    · subst hg; exact .of_write (by simp) fun _ => by simp
    · exact .of_flag (by simp [hg])

theorem dirtyStep_deletePage [Zero D] (pid : PageId) : DirtyStep s (s.deletePage pid).2 g := by
  cases hf : s.pageTable.lookup pid with
  | none => exact .of_flag (by simp [deletePage, hf])
  | some f =>
    by_cases hpos : 0 < (s.pages f).pinCount
    · exact .of_flag (by simp [deletePage, hf, hpos])
    · rw [deletePage_of_unpinned hf hpos]
      by_cases hg : g = f
      · subst hg; exact .of_write (by simp) fun hd => by simp [writeBackDirty_diskManager, hd]
      · exact .of_flag (by simp [hg])

theorem dirtyStep_markDirty {f : Nat} (hH : s.Holds f) : DirtyStep s (s.markDirty f) g := by
  by_cases hg : g = f
  · subst hg; exact .of_held hH fun _ => by simp [markDirty]
  · exact .of_flag (by simp [markDirty, hg])

/-- A victim, written back when dirty, is rebound clean. -/
theorem PoolInv.dirtyStep_rebind (h : PoolInv s) {v : Nat} {pid : PageId}
    (hvm : v ∈ s.freeList ∨ v ∈ s.replacer.frames) (hr : Rebind s s' v pid) : DirtyStep s s' g := by
  by_cases hg : g = v
  · subst hg
    refine .of_write hr.dirty fun hd => ?_
    have hv : g ∈ s.pageTable.values := by
      rcases hvm with hfl | hfr
      · rw [(h.freeFrame g hfl).2.2] at hd; cases hd
      · exact ((h.replacerMem g).1 hfr).1
    rw [hr.diskManager, if_pos (h.valid_of_values hv), writeBackDirty_diskManager, if_pos hd,
      DiskManager.readPage_writePage, if_pos rfl]
  · exact .of_flag (by rw [hr.other g hg])

theorem PoolInv.dirtyStep_flushAllPages (h : PoolInv s) (fd : Int) :
    DirtyStep s (s.flushAllPages fd) g := by
  refine ⟨fun h0 h1 => absurd (foldl_flushEntry_dirty fd g _ s h1) (by rw [h0]; decide),
    foldl_flushEntry_written fd g _ s h.values_nodup fun e he e' he' hne => ?_⟩
  rw [(h.bound _ _ he).1, (h.bound _ _ he').1]
  exact fun hk => hne (h.key_inj he (hk ▸ he'))

/-- Every step keeps the discipline of every frame's dirty flag. -/
theorem PoolInv.dirtyStep [Zero D] (h : PoolInv s) (op : PoolOp D) (hpre : op.Pre s) :
    DirtyStep s (op.apply s) g := by
  rcases op with c | ⟨f, d⟩
  · cases c with
    | fetchPage pid =>
      show DirtyStep s (s.fetchPage pid).2 g
      cases hfind : s.pageTable.lookup pid with
      | some f =>
        rw [fetchPage_of_lookup hfind]
        exact .of_flag (by by_cases hg : g = f <;> simp [hg])
      | none =>
        cases hv : s.findVictimPage with
        | none => rw [fetchPage_of_no_victim hfind hv]; exact .of_flag rfl
        | some p =>
          obtain ⟨hvm, hr⟩ := Rebind.of_fetchPage h.toBooks hpre hfind hv
          exact h.dirtyStep_rebind g hvm hr
    | newPage fd alloc =>
      show DirtyStep s (s.newPage fd alloc).2 g
      cases hv : s.findVictimPage with
      | none => exact .of_flag (by simp [BufferPoolManager.newPage, hv])
      | some p =>
        obtain ⟨hvm, hr⟩ := Rebind.of_newPage h.toBooks hpre.1 hv
        exact h.dirtyStep_rebind g hvm hr
    | unpinPage pid isDirty => exact dirtyStep_unpinPage g pid isDirty
    | flushPage pid => exact dirtyStep_flushPage g pid
    | flushAllPages fd => exact h.dirtyStep_flushAllPages g fd
    | deletePage pid => exact dirtyStep_deletePage g pid
    | markDirty f => exact dirtyStep_markDirty g hpre
  · exact .of_flag (by by_cases hg : g = f <;> simp [hg])

end

/-- In every reachable pool, every step keeps the discipline of every frame's dirty flag: it sets
the flag only on a frame a client holds (bound and pinned), through `unpin_page(page_id, true)` or
`mark_dirty`; and it clears the flag only once the frame's data is on disk at the frame's page,
written by `flush_page`, by `flush_all_pages`, or by the write-back of a victim or a deleted page. -/
theorem dirty_flag_discipline [Zero D] (hr : Reachable s) (op : PoolOp D) (hpre : op.Pre s)
    (f : Nat) :
    ((s.pages f).isDirty = false → ((op.apply s).pages f).isDirty = true → s.Holds f) ∧
    ((s.pages f).isDirty = true → ((op.apply s).pages f).isDirty = false →
      (op.apply s).diskManager.readPage (s.pages f).id = (s.pages f).data) :=
  (PoolInv.of_reachable hr).dirtyStep f op hpre

/-- One frame holding page 1 pinned: `unpin_page(page 1, true)` sets its flag. -/
theorem dirty_flag_discipline_unpin :
    let s := (oneFrame.fetchPage ⟨0, 1⟩).2
    let op : PoolOp Nat := .call (.unpinPage ⟨0, 1⟩ true)
    Reachable s ∧ op.Pre s ∧
    (((s.pages 0).isDirty = false → ((op.apply s).pages 0).isDirty = true → s.Holds 0) ∧
    ((s.pages 0).isDirty = true → ((op.apply s).pages 0).isDirty = false →
      (op.apply s).diskManager.readPage (s.pages 0).id = (s.pages 0).data)) :=
  have hr : Reachable (oneFrame.fetchPage ⟨0, 1⟩).2 :=
    .step (.call (.fetchPage ⟨0, 1⟩)) (.init (PoolInit.create 1 _))
      (by simp [PoolOp.Pre, invalidPageId])
  ⟨hr, trivial, dirty_flag_discipline hr (.call (.unpinPage ⟨0, 1⟩ true)) trivial 0⟩

end BufferPoolManager

end Rmdb
