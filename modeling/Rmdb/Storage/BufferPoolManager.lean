import Rmdb.Replacer.LruReplacer

/-!
# The buffer pool manager

`BufferPoolManager` (`buffer_pool_manager.cpp`) over frames whose data has type `D`: the frame
array, the page table, the free list, the LRU replacer over frame ids, and the Disk Manager it
reads and writes pages through. `reset_memory` zeroes a frame's data, so `D` has a `Zero`.

An operation returns what the source returns (a frame id for a `Page*`, `none` for `nullptr`)
and the state after it. The Disk Manager is an external collaborator: its pages are a function of
the `PageId`, and what its `allocate_page` returns is an argument of `newPage`.
-/

namespace Rmdb

/-- Modelled from the spec: the Disk Manager's pages, read and written whole (`read_page`,
`write_page`). -/
structure DiskManager (D : Type) where
  pages : PageId → D

namespace DiskManager

variable {D : Type}

/-- `read_page(fd, page_no, buf, PAGE_SIZE)`. -/
def readPage (dm : DiskManager D) (pid : PageId) : D := dm.pages pid

/-- `write_page(fd, page_no, buf, PAGE_SIZE)`. -/
def writePage (dm : DiskManager D) (pid : PageId) (d : D) : DiskManager D :=
  ⟨Function.update dm.pages pid d⟩

@[simp] theorem readPage_writePage (dm : DiskManager D) (pid q : PageId) (d : D) :
    (dm.writePage pid d).readPage q = if q = pid then d else dm.readPage q := by
  simp [readPage, writePage, Function.update_apply]

end DiskManager

/-- Modelled from the spec: the `Page` a frame holds (`id_`, `data_`, `is_dirty_`,
`pin_count_`). -/
structure Page (D : Type) where
  id : PageId
  data : D
  isDirty : Bool
  pinCount : Int

/-- `BufferPoolManager`: `pool_size_`, `pages_`, `page_table_`, `free_list_`, `replacer_` and
`disk_manager_`. -/
structure BufferPoolManager (D : Type) where
  poolSize : Nat
  pages : Nat → Page D
  pageTable : Table PageId Nat
  freeList : List Nat
  replacer : LRUReplacer Nat
  diskManager : DiskManager D

namespace BufferPoolManager

variable {D : Type}

/-- Modelled from the spec: the pool as the constructor leaves it, every frame on the free list
in order, unbound (`page_no = INVALID_PAGE_ID`), unpinned and clean, and the page table and the
replacer empty. -/
def create [Zero D] (poolSize : Nat) (dm : DiskManager D) : BufferPoolManager D where
  poolSize := poolSize
  pages := fun _ => ⟨⟨-1, invalidPageId⟩, 0, false, 0⟩
  pageTable := []
  freeList := List.range poolSize
  replacer := LRUReplacer.empty
  diskManager := dm

/-! ## Frames -/

/-- The state with frame `f` changed by `g`. -/
def modifyPage (s : BufferPoolManager D) (f : Nat) (g : Page D → Page D) : BufferPoolManager D :=
  { s with pages := Function.update s.pages f (g (s.pages f)) }

/-- Writes frame `f` to its page on disk and clears its dirty flag. -/
def writeBack (s : BufferPoolManager D) (f : Nat) : BufferPoolManager D :=
  { s.modifyPage f fun p => { p with isDirty := false } with
    diskManager := s.diskManager.writePage (s.pages f).id (s.pages f).data }

/-- `if (page->is_dirty()) { write_page(...); page->is_dirty_ = false; }` -/
def writeBackDirty (s : BufferPoolManager D) (f : Nat) : BufferPoolManager D :=
  if (s.pages f).isDirty then s.writeBack f else s

/-- Modelled from the spec: `mark_dirty(page)`, declared in the header, reports a write to the
frame by setting its dirty flag. -/
def markDirty (s : BufferPoolManager D) (f : Nat) : BufferPoolManager D :=
  s.modifyPage f fun p => { p with isDirty := true }

section
variable (s : BufferPoolManager D) (f : Nat) (g : Page D → Page D)

@[simp] theorem modifyPage_poolSize : (s.modifyPage f g).poolSize = s.poolSize := rfl
@[simp] theorem modifyPage_pageTable : (s.modifyPage f g).pageTable = s.pageTable := rfl
@[simp] theorem modifyPage_freeList : (s.modifyPage f g).freeList = s.freeList := rfl
@[simp] theorem modifyPage_replacer : (s.modifyPage f g).replacer = s.replacer := rfl
@[simp] theorem modifyPage_diskManager : (s.modifyPage f g).diskManager = s.diskManager := rfl

@[simp] theorem modifyPage_pages (f' : Nat) :
    (s.modifyPage f g).pages f' = if f' = f then g (s.pages f) else s.pages f' := by
  simp [modifyPage, Function.update_apply]

@[simp] theorem writeBack_poolSize : (s.writeBack f).poolSize = s.poolSize := rfl
@[simp] theorem writeBack_pageTable : (s.writeBack f).pageTable = s.pageTable := rfl
@[simp] theorem writeBack_freeList : (s.writeBack f).freeList = s.freeList := rfl
@[simp] theorem writeBack_replacer : (s.writeBack f).replacer = s.replacer := rfl

@[simp] theorem writeBack_diskManager :
    (s.writeBack f).diskManager = s.diskManager.writePage (s.pages f).id (s.pages f).data := rfl

@[simp] theorem writeBack_pages (f' : Nat) :
    (s.writeBack f).pages f' = if f' = f then { s.pages f with isDirty := false } else s.pages f' :=
  modifyPage_pages s f (fun p => { p with isDirty := false }) f'

@[simp] theorem writeBackDirty_poolSize : (s.writeBackDirty f).poolSize = s.poolSize := by
  unfold writeBackDirty; split <;> rfl

@[simp] theorem writeBackDirty_pageTable : (s.writeBackDirty f).pageTable = s.pageTable := by
  unfold writeBackDirty; split <;> rfl

@[simp] theorem writeBackDirty_freeList : (s.writeBackDirty f).freeList = s.freeList := by
  unfold writeBackDirty; split <;> rfl

@[simp] theorem writeBackDirty_replacer : (s.writeBackDirty f).replacer = s.replacer := by
  unfold writeBackDirty; split <;> rfl

@[simp] theorem writeBackDirty_pages (f' : Nat) :
    (s.writeBackDirty f).pages f' =
      if f' = f then { s.pages f with isDirty := false } else s.pages f' := by
  unfold writeBackDirty
  split
  · exact writeBack_pages s f f'
  · split
    · subst f'; rename_i hd; cases h : s.pages f; simp_all
    · rfl

theorem writeBackDirty_diskManager :
    (s.writeBackDirty f).diskManager = if (s.pages f).isDirty then
      s.diskManager.writePage (s.pages f).id (s.pages f).data else s.diskManager := by
  unfold writeBackDirty; split <;> rfl

end

/-! ## The operations -/

variable [Zero D]

/-- `find_victim_page`: the front of the free list, else the replacer's victim. -/
def findVictimPage (s : BufferPoolManager D) : Option (Nat × BufferPoolManager D) :=
  match s.freeList with
  | f :: rest => some (f, { s with freeList := rest })
  | [] =>
    match s.replacer.victim with
    | (some f, r) => some (f, { s with replacer := r })
    | (none, _) => none

/-- `update_page(page, new_page_id, new_frame_id)`: writes the frame's old page back if it is
dirty and unmaps it, then maps `newPageId` to the frame and zeroes its data. -/
def updatePage (s : BufferPoolManager D) (f : Nat) (newPageId : PageId) : BufferPoolManager D :=
  let s := if (s.pages f).id.pageNo ≠ invalidPageId then
      let s := s.writeBackDirty f
      { s with pageTable := s.pageTable.erase (s.pages f).id }
    else s
  if newPageId.pageNo ≠ invalidPageId then
    { s with pageTable := s.pageTable.set newPageId f }.modifyPage f
      fun p => { p with id := newPageId, data := 0 }
  else
    s.modifyPage f fun p => { p with id := newPageId, pinCount := 0, isDirty := false, data := 0 }

/-- `fetch_page(page_id)`. -/
def fetchPage (s : BufferPoolManager D) (pid : PageId) : Option Nat × BufferPoolManager D :=
  match s.pageTable.lookup pid with
  | some f =>
    let s := s.modifyPage f fun p => { p with pinCount := p.pinCount + 1 }
    (some f, { s with replacer := s.replacer.pin f })
  | none =>
    match s.findVictimPage with
    | none => (none, s)
    | some (v, s) =>
      let s := s.updatePage v pid
      let s := s.modifyPage v
        fun p => { p with data := s.diskManager.readPage pid, pinCount := 1, isDirty := false }
      (some v, { s with replacer := s.replacer.pin v })

/-- `unpin_page(page_id, is_dirty)`. -/
def unpinPage (s : BufferPoolManager D) (pid : PageId) (isDirty : Bool) :
    Bool × BufferPoolManager D :=
  match s.pageTable.lookup pid with
  | none => (false, s)
  | some f =>
    if (s.pages f).pinCount ≤ 0 then (false, s)
    else
      let s := s.modifyPage f
        fun p => { p with pinCount := p.pinCount - 1, isDirty := p.isDirty || isDirty }
      (true, if (s.pages f).pinCount = 0 then { s with replacer := s.replacer.unpin f } else s)

/-- `flush_page(page_id)`: writes the page back whether or not it is dirty. -/
def flushPage (s : BufferPoolManager D) (pid : PageId) : Bool × BufferPoolManager D :=
  match s.pageTable.lookup pid with
  | none => (false, s)
  | some f => (true, s.writeBack f)

/-- `new_page(&page_id)`, where `fd` is `page_id->fd` and `alloc` what
`disk_manager_->allocate_page(fd)` returns. -/
def newPage (s : BufferPoolManager D) (fd alloc : Int) :
    Option (PageId × Nat) × BufferPoolManager D :=
  match s.findVictimPage with
  | none => (none, s)
  | some (v, s) =>
    if alloc = invalidPageId then (none, s)
    else
      let s := s.updatePage v ⟨fd, alloc⟩
      let s := s.modifyPage v fun p => { p with pinCount := 1, isDirty := false }
      (some (⟨fd, alloc⟩, v), { s with replacer := s.replacer.pin v })

/-- `delete_page(page_id)`. -/
def deletePage (s : BufferPoolManager D) (pid : PageId) : Bool × BufferPoolManager D :=
  match s.pageTable.lookup pid with
  | none => (true, s)
  | some f =>
    if (s.pages f).pinCount > 0 then (false, s)
    else
      let s := s.writeBackDirty f
      let s := { s with pageTable := s.pageTable.erase pid }
      let s := s.modifyPage f fun p =>
        { p with id := { p.id with pageNo := invalidPageId }, pinCount := 0, isDirty := false,
                 data := 0 }
      (true, { s with replacer := s.replacer.pin f, freeList := s.freeList ++ [f] })

/-- One entry `(page_id, frame_id)` of `flush_all_pages`' loop over the page table. -/
def flushEntry (fd : Int) (s : BufferPoolManager D) (e : PageId × Nat) : BufferPoolManager D :=
  if e.1.fd = fd then s.writeBackDirty e.2 else s

/-- `flush_all_pages(fd)`: writes back every dirty page of `fd` in the page table. -/
def flushAllPages (s : BufferPoolManager D) (fd : Int) : BufferPoolManager D :=
  s.pageTable.foldl (flushEntry fd) s

/-! ## The outcomes of the operations -/

omit [Zero D] in
theorem foldl_flushEntry_pageTable (fd : Int) :
    ∀ (l : Table PageId Nat) (s : BufferPoolManager D), (l.foldl (flushEntry fd) s).pageTable = s.pageTable
  | [], _ => rfl
  | e :: l, s => by
    rw [List.foldl_cons, foldl_flushEntry_pageTable fd l]
    unfold flushEntry; split <;> simp

omit [Zero D] in
theorem foldl_flushEntry_replacer (fd : Int) :
    ∀ (l : Table PageId Nat) (s : BufferPoolManager D), (l.foldl (flushEntry fd) s).replacer = s.replacer
  | [], _ => rfl
  | e :: l, s => by
    rw [List.foldl_cons, foldl_flushEntry_replacer fd l]
    unfold flushEntry; split <;> simp

omit [Zero D] in
/-- `flush_all_pages` changes no frame but its dirty flag. -/
theorem foldl_flushEntry_pages (fd : Int) (g : Nat) :
    ∀ (l : Table PageId Nat) (s : BufferPoolManager D),
      ∃ b, (l.foldl (flushEntry fd) s).pages g = { s.pages g with isDirty := b }
  | [], s => ⟨(s.pages g).isDirty, rfl⟩
  | e :: l, s => by
    obtain ⟨b, hb⟩ := foldl_flushEntry_pages fd g l (flushEntry fd s e)
    rw [List.foldl_cons, hb]
    unfold flushEntry
    split
    · by_cases hg : g = e.2
      · subst hg; exact ⟨b, by simp⟩
      · exact ⟨b, by simp [hg]⟩
    · exact ⟨b, rfl⟩

section
variable (s : BufferPoolManager D) (f : Nat) (pid : PageId)

@[simp] theorem updatePage_poolSize : (s.updatePage f pid).poolSize = s.poolSize := by
  simp only [updatePage]; split_ifs <;> simp

@[simp] theorem updatePage_freeList : (s.updatePage f pid).freeList = s.freeList := by
  simp only [updatePage]; split_ifs <;> simp

@[simp] theorem updatePage_replacer : (s.updatePage f pid).replacer = s.replacer := by
  simp only [updatePage]; split_ifs <;> simp

theorem updatePage_pageTable (hp : pid.pageNo ≠ invalidPageId) :
    (s.updatePage f pid).pageTable =
      (if (s.pages f).id.pageNo ≠ invalidPageId then s.pageTable.erase (s.pages f).id
       else s.pageTable).set pid f := by
  simp only [updatePage]; split_ifs <;> simp

theorem updatePage_pages (hp : pid.pageNo ≠ invalidPageId) (g : Nat) :
    (s.updatePage f pid).pages g = if g = f then
      { s.pages f with
        id := pid, data := 0,
        isDirty := if (s.pages f).id.pageNo ≠ invalidPageId then false else (s.pages f).isDirty }
      else s.pages g := by
  simp only [updatePage]; split_ifs <;> simp_all

theorem updatePage_pages_of_ne {g : Nat} (hg : g ≠ f) : (s.updatePage f pid).pages g = s.pages g := by
  simp only [updatePage]; split_ifs <;> simp [hg]

theorem updatePage_lookup {q : PageId} {g : Nat} (hq : s.pageTable.lookup q = some g) (hqp : q ≠ pid)
    (hqo : q ≠ (s.pages f).id) : (s.updatePage f pid).pageTable.lookup q = some g := by
  simp only [updatePage]; split_ifs <;> simp [Ne.symm hqp, Ne.symm hqo, hq]

theorem updatePage_diskManager :
    (s.updatePage f pid).diskManager = if (s.pages f).id.pageNo ≠ invalidPageId then
      (s.writeBackDirty f).diskManager else s.diskManager := by
  simp only [updatePage]; split_ifs <;> simp

end

section
variable {s : BufferPoolManager D} {pid : PageId} {f : Nat}

theorem fetchPage_of_lookup (hfind : s.pageTable.lookup pid = some f) :
    s.fetchPage pid = (some f,
      { s.modifyPage f (fun p => { p with pinCount := p.pinCount + 1 }) with
        replacer := s.replacer.pin f }) := by
  simp only [fetchPage, hfind]; rfl

omit [Zero D] in
theorem unpinPage_of_pos {d : Bool} (hfind : s.pageTable.lookup pid = some f)
    (hpos : 0 < (s.pages f).pinCount) :
    s.unpinPage pid d = (true,
      { s.modifyPage f (fun p => { p with pinCount := p.pinCount - 1, isDirty := p.isDirty || d }) with
        replacer := if (s.pages f).pinCount = 1 then s.replacer.unpin f else s.replacer }) := by
  simp only [unpinPage, hfind, if_neg (not_le.2 hpos), modifyPage_pages, if_true]
  by_cases h1 : (s.pages f).pinCount = 1
  · simp [h1]
  · simp only [h1, if_false]; rw [if_neg (by omega)]; rfl

omit [Zero D] in
@[simp] theorem unpinPage_pageTable (pid : PageId) (d : Bool) :
    (s.unpinPage pid d).2.pageTable = s.pageTable := by
  unfold unpinPage
  split
  · rfl
  · dsimp only
    split_ifs <;> rfl

theorem fetchPage_of_victim {v : Nat} {s1 : BufferPoolManager D}
    (hfind : s.pageTable.lookup pid = none) (hv : s.findVictimPage = some (v, s1)) :
    s.fetchPage pid = (some v,
      { (s1.updatePage v pid).modifyPage v (fun p =>
          { p with data := (s1.updatePage v pid).diskManager.readPage pid, pinCount := 1,
                   isDirty := false }) with
        replacer := s1.replacer.pin v }) := by
  simp only [fetchPage, hfind, hv, modifyPage_replacer, updatePage_replacer]

theorem fetchPage_of_no_victim (hfind : s.pageTable.lookup pid = none)
    (hv : s.findVictimPage = none) : s.fetchPage pid = (none, s) := by
  simp only [fetchPage, hfind, hv]

theorem newPage_of_victim {v : Nat} {s1 : BufferPoolManager D} {fd alloc : Int}
    (hv : s.findVictimPage = some (v, s1)) (ha : alloc ≠ invalidPageId) :
    s.newPage fd alloc = (some (⟨fd, alloc⟩, v),
      { (s1.updatePage v ⟨fd, alloc⟩).modifyPage v (fun p =>
          { p with pinCount := 1, isDirty := false }) with
        replacer := s1.replacer.pin v }) := by
  simp only [newPage, hv, if_neg ha, modifyPage_replacer, updatePage_replacer]

theorem fetchPage_fst (hfind : s.pageTable.lookup pid = none) :
    (s.fetchPage pid).1 = s.findVictimPage.map Prod.fst := by
  cases hv : s.findVictimPage with
  | none => rw [fetchPage_of_no_victim hfind hv]; rfl
  | some p => rw [fetchPage_of_victim hfind hv]; rfl

theorem newPage_snd {fd alloc : Int} (ha : alloc ≠ invalidPageId) :
    (s.newPage fd alloc).1.map Prod.snd = s.findVictimPage.map Prod.fst := by
  cases hv : s.findVictimPage with
  | none => simp [newPage, hv]
  | some p => rw [newPage_of_victim hv ha]; rfl

theorem deletePage_of_unpinned (hfind : s.pageTable.lookup pid = some f)
    (hz : ¬ 0 < (s.pages f).pinCount) :
    s.deletePage pid = (true,
      { ((s.writeBackDirty f).modifyPage f fun p =>
          { p with id := { p.id with pageNo := invalidPageId }, pinCount := 0, isDirty := false,
                   data := 0 }) with
        pageTable := s.pageTable.erase pid, replacer := s.replacer.pin f,
        freeList := s.freeList ++ [f] }) := by
  simp only [deletePage, hfind, if_neg hz, modifyPage_pageTable, modifyPage_replacer,
    modifyPage_freeList, writeBackDirty_pageTable, writeBackDirty_replacer, writeBackDirty_freeList]
  rfl

end

end BufferPoolManager

/-! ## Clients of the pool -/

/-- A call of the buffer pool manager's interface. `markDirty` names the frame whose `Page*` the
caller holds. -/
inductive BpmCall
  | fetchPage (pid : PageId)
  | newPage (fd alloc : Int)
  | unpinPage (pid : PageId) (isDirty : Bool)
  | flushPage (pid : PageId)
  | flushAllPages (fd : Int)
  | deletePage (pid : PageId)
  | markDirty (f : Nat)

/-- The state after a call, its result dropped. -/
def BpmCall.apply {D : Type} [Zero D] : BpmCall → BufferPoolManager D → BufferPoolManager D
  | .fetchPage pid, s => (s.fetchPage pid).2
  | .newPage fd alloc, s => (s.newPage fd alloc).2
  | .unpinPage pid d, s => (s.unpinPage pid d).2
  | .flushPage pid, s => (s.flushPage pid).2
  | .flushAllPages fd, s => s.flushAllPages fd
  | .deletePage pid, s => (s.deletePage pid).2
  | .markDirty f, s => s.markDirty f

section
variable {D : Type} [Zero D] (s : BufferPoolManager D)

@[simp] theorem BpmCall.apply_fetchPage (pid : PageId) :
    (BpmCall.fetchPage pid).apply s = (s.fetchPage pid).2 := rfl
@[simp] theorem BpmCall.apply_newPage (fd alloc : Int) :
    (BpmCall.newPage fd alloc).apply s = (s.newPage fd alloc).2 := rfl
@[simp] theorem BpmCall.apply_unpinPage (pid : PageId) (d : Bool) :
    (BpmCall.unpinPage pid d).apply s = (s.unpinPage pid d).2 := rfl
@[simp] theorem BpmCall.apply_flushPage (pid : PageId) :
    (BpmCall.flushPage pid).apply s = (s.flushPage pid).2 := rfl
@[simp] theorem BpmCall.apply_flushAllPages (fd : Int) :
    (BpmCall.flushAllPages fd).apply s = s.flushAllPages fd := rfl
@[simp] theorem BpmCall.apply_deletePage (pid : PageId) :
    (BpmCall.deletePage pid).apply s = (s.deletePage pid).2 := rfl
@[simp] theorem BpmCall.apply_markDirty (f : Nat) :
    (BpmCall.markDirty f).apply s = s.markDirty f := rfl

end

/-- A step of the pool's clients: a call, or a write into the data of a frame through the
`Page*` a client holds. -/
inductive PoolOp (D : Type)
  | call (c : BpmCall)
  | write (f : Nat) (d : D)

/-- The state after a step. -/
def PoolOp.apply {D : Type} [Zero D] : PoolOp D → BufferPoolManager D → BufferPoolManager D
  | .call c, s => c.apply s
  | .write f d, s => s.modifyPage f fun p => { p with data := d }

@[simp] theorem PoolOp.apply_call {D : Type} [Zero D] (c : BpmCall) (s : BufferPoolManager D) :
    (PoolOp.call c).apply s = c.apply s := rfl

@[simp] theorem PoolOp.apply_write {D : Type} [Zero D] (f : Nat) (d : D) (s : BufferPoolManager D) :
    (PoolOp.write f d).apply s = s.modifyPage f fun p => { p with data := d } := rfl

end Rmdb
