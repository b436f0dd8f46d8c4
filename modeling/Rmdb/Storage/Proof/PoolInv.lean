import Rmdb.Storage.Proof.Books

/-!
# The pool invariant

`PoolInv s`: the books of the frames (`Books`) with no frame lost. So the page table has distinct
keys, each bound to the frame whose `id` it is; every frame of `[0, poolSize)` is either on the
free list (once, unbound, unpinned and clean) or a value of the page table (`PoolInv.inPool`); pin
counts are non-negative; and the replacer is well formed and holds exactly the bound frames with
pin count 0 (`PoolInv.replacerMem`).

It holds initially (`PoolInv.init`) and every step of the pool's clients keeps it
(`PoolInv.step`), given the preconditions `PoolOp.Pre`: fetched pages are valid, `allocate_page`
hands out a valid page not in the page table, and a client marks or writes only a frame it holds.
Such a step keeps the books and loses no frame (`Books.noLoss`), so no frame is lost afterwards
either (`PoolInv.of_noLoss`).

`PoolOp.Pre` bars every `new_page` whose `allocate_page` fails, so `Reachable` pools, and every
result stated over them, are those of runs in which no allocation failed. Such a `new_page` keeps
the books but loses the victim frame it took (`Books.newPage_failed`, `newPage_leaks_victim`); the
pools that runs with failed allocations reach are those of `ReachableAny`.
-/

namespace Rmdb

namespace BufferPoolManager

variable {D : Type}

/-! ## Reachable states -/

/-- A client holds frame `f`: it is bound and pinned. -/
def Holds (s : BufferPoolManager D) (f : Nat) : Prop :=
  f ∈ s.pageTable.values ∧ 0 < (s.pages f).pinCount

/-- The pool as constructed: every frame of `[0, poolSize)` on the free list once, every frame
unbound, unpinned and clean, the page table and the replacer empty. -/
structure PoolInit (s : BufferPoolManager D) : Prop where
  freeList : ∀ f, f ∈ s.freeList ↔ f < s.poolSize
  freeNodup : s.freeList.Nodup
  pageTable : s.pageTable = []
  lruList : s.replacer.lruList = []
  lruHash : s.replacer.lruHash = []
  frame : ∀ f, (s.pages f).id.pageNo = invalidPageId ∧ (s.pages f).pinCount = 0 ∧
    (s.pages f).isDirty = false

end BufferPoolManager

open BufferPoolManager

/-- The pool invariant's preconditions on a step. -/
def PoolOp.Pre {D : Type} (s : BufferPoolManager D) : PoolOp D → Prop
  | .call (.fetchPage pid) => pid.pageNo ≠ invalidPageId
  | .call (.newPage fd alloc) => alloc ≠ invalidPageId ∧ s.pageTable.lookup ⟨fd, alloc⟩ = none
  | .call (.markDirty f) => s.Holds f
  | .call _ => True
  | .write f _ => s.Holds f

/-- The pool after a run of steps. -/
def PoolOp.runAll {D : Type} [Zero D] :
    List (PoolOp D) → BufferPoolManager D → BufferPoolManager D
  | [], s => s
  | op :: ops, s => PoolOp.runAll ops (op.apply s)

/-- Every step of the run meets its precondition in the state it starts from. -/
def PoolOp.Valid {D : Type} [Zero D] : List (PoolOp D) → BufferPoolManager D → Prop
  | [], _ => True
  | op :: ops, s => op.Pre s ∧ PoolOp.Valid ops (op.apply s)

instance {D : Type} (s : BufferPoolManager D) (f : Nat) : Decidable (s.Holds f) :=
  inferInstanceAs (Decidable (_ ∧ _))

instance PoolOp.decidablePre {D : Type} (s : BufferPoolManager D) :
    (op : PoolOp D) → Decidable (op.Pre s)
  | .call (.fetchPage pid) => inferInstanceAs (Decidable (pid.pageNo ≠ invalidPageId))
  | .call (.newPage _ _) => inferInstanceAs (Decidable (_ ∧ _))
  | .call (.unpinPage _ _) => instDecidableTrue
  | .call (.flushPage _) => instDecidableTrue
  | .call (.flushAllPages _) => instDecidableTrue
  | .call (.deletePage _) => instDecidableTrue
  | .call (.markDirty f) => inferInstanceAs (Decidable (s.Holds f))
  | .write f _ => inferInstanceAs (Decidable (s.Holds f))

instance PoolOp.decidableValid {D : Type} [Zero D] :
    (ops : List (PoolOp D)) → (s : BufferPoolManager D) → Decidable (PoolOp.Valid ops s)
  | [], _ => instDecidableTrue
  | op :: ops, s =>
    have := PoolOp.decidableValid ops (op.apply s)
    inferInstanceAs (Decidable (_ ∧ _))

namespace BufferPoolManager

variable {D : Type} [Zero D]

theorem PoolInit.create (n : Nat) (dm : DiskManager D) : PoolInit (create n dm) :=
  ⟨by simp [BufferPoolManager.create], List.nodup_range n, rfl, rfl, rfl, fun _ => ⟨rfl, rfl, rfl⟩⟩

/-- The states reachable from a constructed pool by steps that meet their preconditions. -/
inductive Reachable : BufferPoolManager D → Prop
  | init {s : BufferPoolManager D} : PoolInit s → Reachable s
  | step {s : BufferPoolManager D} (op : PoolOp D) : Reachable s → op.Pre s →
      Reachable (op.apply s)

theorem Reachable.runAll {s : BufferPoolManager D} (hr : Reachable s) :
    ∀ ops : List (PoolOp D), PoolOp.Valid ops s → Reachable (PoolOp.runAll ops s)
  | [], _ => hr
  | op :: ops, ⟨hpre, hv⟩ => (Reachable.step op hr hpre).runAll ops hv

/-- Every step that meets its preconditions keeps the books and loses no frame. -/
theorem Books.noLoss {s : BufferPoolManager D} (h : Books s) {op : PoolOp D}
    (hpre : op.Pre s) : NoLoss s (op.apply s) := by
  cases op with
  | write f d => exact h.modifyPage (g := fun p => { p with data := d }) hpre.1 rfl rfl
  | call c =>
    cases c with
    | fetchPage pid => exact h.fetchPage hpre
    | newPage fd alloc => exact h.newPage hpre.1 hpre.2
    | unpinPage pid d => exact h.unpinPage pid d
    | flushPage pid => exact h.flushPage pid
    | flushAllPages fd => exact h.flushAllPages fd
    | deletePage pid => exact h.deletePage pid
    | markDirty f => exact h.markDirty hpre.1

end BufferPoolManager

namespace BufferPoolManager

variable {D : Type}

/-- The pool invariant: the books of the frames with no frame lost (module doc). -/
structure PoolInv (s : BufferPoolManager D) extends Books s : Prop where
  complete : ∀ f, ¬ s.Lost f

namespace PoolInv

variable {s : BufferPoolManager D} (h : PoolInv s)
include h

/-- Each frame of the pool is free or bound. -/
theorem inPool (f : Nat) : f ∈ s.freeList ∨ f ∈ s.pageTable.values ↔ f < s.poolSize := by
  refine ⟨h.poolFrame f, fun hf => ?_⟩
  by_contra hno
  rw [not_or] at hno
  have hz : (s.pages f).pinCount = 0 :=
    le_antisymm (not_lt.1 fun hp => hno.2 (h.pinned f hf hp)) (h.pinNonneg f)
  exact h.complete f ⟨hf, hno.1, fun hm => hno.2 (h.evictable f hm).1, hz⟩

/-- The replacer holds exactly the bound frames with pin count 0. -/
theorem replacerMem (f : Nat) :
    f ∈ s.replacer.frames ↔ f ∈ s.pageTable.values ∧ (s.pages f).pinCount = 0 := by
  refine ⟨h.evictable f, fun ⟨hv, hz⟩ => ?_⟩
  by_contra hfr
  exact h.complete f ⟨h.poolFrame f (.inr hv), h.not_free_of_values hv, hfr, hz⟩

/-- A step that keeps the books and loses no frame keeps the invariant. -/
theorem of_noLoss {s' : BufferPoolManager D} (hn : NoLoss s s') : PoolInv s' :=
  ⟨hn.books, fun f hf => h.complete f (hn.lost f hf)⟩

theorem rebind {s' : BufferPoolManager D} {v : Nat} {pid : PageId}
    (hv : v ∈ s.freeList ∨ v ∈ s.replacer.frames) (hp : pid.pageNo ≠ invalidPageId)
    (hn : s.pageTable.lookup pid = none) (hr : Rebind s s' v pid) : PoolInv s' :=
  h.of_noLoss (h.toBooks.rebind hv hp hn hr)

theorem writeBack {f : Nat} (hf : f ∈ s.pageTable.values) : PoolInv (s.writeBack f) :=
  h.of_noLoss (h.toBooks.writeBack hf)

theorem modifyPage {f : Nat} {g : Page D → Page D} (hf : f ∈ s.pageTable.values)
    (hid : (g (s.pages f)).id = (s.pages f).id)
    (hpin : (g (s.pages f)).pinCount = (s.pages f).pinCount) : PoolInv (s.modifyPage f g) :=
  h.of_noLoss (h.toBooks.modifyPage hf hid hpin)

theorem markDirty {f : Nat} (hf : f ∈ s.pageTable.values) : PoolInv (s.markDirty f) :=
  h.of_noLoss (h.toBooks.markDirty hf)

theorem unpinPage (pid : PageId) (d : Bool) : PoolInv (s.unpinPage pid d).2 :=
  h.of_noLoss (h.toBooks.unpinPage pid d)

variable [Zero D]

theorem fetchPage {pid : PageId} (hp : pid.pageNo ≠ invalidPageId) :
    PoolInv (s.fetchPage pid).2 :=
  h.of_noLoss (h.toBooks.fetchPage hp)

theorem deletePage (pid : PageId) : PoolInv (s.deletePage pid).2 :=
  h.of_noLoss (h.toBooks.deletePage pid)

/-- Every step that meets its preconditions keeps the invariant. -/
theorem step {op : PoolOp D} (hpre : op.Pre s) : PoolInv (op.apply s) :=
  h.of_noLoss (h.toBooks.noLoss hpre)

end PoolInv

theorem Books.init {s : BufferPoolManager D} (h : PoolInit s) : Books s where
  keys := by simp [h.pageTable, Table.keys]
  freeNodup := h.freeNodup
  freeUnbound := by simp [h.pageTable, Table.values]
  poolFrame := by simp [h.pageTable, Table.values, h.freeList]
  bound := by simp [h.pageTable]
  freeFrame := fun f _ => h.frame f
  pinNonneg := fun f => (h.frame f).2.1.symm.le
  pinned := fun f _ hp => absurd (h.frame f).2.1 hp.ne'
  replacerWf := ⟨by simp [h.lruList], by simp [h.lruList], by simp [LRUReplacer.frames, h.lruList],
    by simp [h.lruHash, Table.keys], by simp [h.lruList, h.lruHash]⟩
  evictable := by simp [LRUReplacer.frames, h.lruList]

/-- A constructed pool has every frame of the pool on the free list, so none lost. -/
theorem PoolInit.not_lost {s : BufferPoolManager D} (h : PoolInit s) (f : Nat) : ¬ s.Lost f :=
  fun hl => hl.2.1 ((h.freeList f).2 hl.1)

theorem PoolInv.init {s : BufferPoolManager D} (h : PoolInit s) : PoolInv s :=
  ⟨Books.init h, h.not_lost⟩

theorem PoolInv.of_reachable [Zero D] {s : BufferPoolManager D} (h : Reachable s) : PoolInv s := by
  induction h with
  | init hi => exact PoolInv.init hi
  | step op _ hpre ih => exact ih.step hpre


/-! ## The invariant of every reachable pool -/

/-- Every reachable pool: (a) the page table is injective and maps each page to the frame bound
to it; (b) each frame of `[0, poolSize)` is on the free list or a value of the page table, once;
(c) the replacer holds exactly the bound frames with pin count 0; (d) pin counts are non-negative
and free frames unbound, unpinned and clean; so `find_victim_page` returns only unpinned
frames. -/
theorem pool_invariant [Zero D] {s : BufferPoolManager D} (hr : Reachable s) :
    (∀ p q f, s.pageTable.lookup p = some f → s.pageTable.lookup q = some f → p = q) ∧
    (∀ p f, s.pageTable.lookup p = some f → (s.pages f).id = p) ∧
    (∀ f, f < s.poolSize → s.freeList.count f + s.pageTable.values.count f = 1) ∧
    (∀ f, f ∈ s.replacer.frames ↔ f ∈ s.pageTable.values ∧ (s.pages f).pinCount = 0) ∧
    (∀ f, 0 ≤ (s.pages f).pinCount) ∧
    (∀ f ∈ s.freeList, (s.pages f).id.pageNo = invalidPageId ∧ (s.pages f).pinCount = 0 ∧
      (s.pages f).isDirty = false) ∧
    (∀ v s', s.findVictimPage = some (v, s') → (s.pages v).pinCount = 0) := by
  have h := PoolInv.of_reachable hr
  refine ⟨fun p q f hp hq => h.entry_inj ((h.lookup_iff).1 hp) ((h.lookup_iff).1 hq),
    fun p f hp => (h.bound p f ((h.lookup_iff).1 hp)).1, fun f hf => ?_, h.replacerMem, h.pinNonneg,
    h.freeFrame, fun v s' hv => ?_⟩
  · rcases (h.inPool f).2 hf with hl | hv
    · rw [List.count_eq_one_of_mem h.freeNodup hl,
        List.count_eq_zero_of_not_mem (h.freeUnbound f hl)]
    · rw [List.count_eq_zero_of_not_mem (h.not_free_of_values hv),
        List.count_eq_one_of_mem h.values_nodup hv]
  · rcases (h.findVictimPage_spec hv).1 with hl | hm
    · exact (h.freeFrame v hl).2.1
    · exact h.pin_of_frames hm

/-- Two frames: page 1 fetched, page 2 made, written and unpinned dirty, page 3 fetched into the
frame of page 2 (the eviction writes page 2 back), and page 1 unpinned, so that the replacer offers
frame 0. -/
theorem pool_invariant_after_eviction :
    let s := PoolOp.runAll [.call (.fetchPage ⟨0, 1⟩), .call (.newPage 0 2), .write 1 5,
      .call (.unpinPage ⟨0, 2⟩ true), .call (.fetchPage ⟨0, 3⟩), .call (.unpinPage ⟨0, 1⟩ false)]
      (create (D := Nat) 2 ⟨fun _ => 0⟩)
    Reachable s ∧ s.freeList = [] ∧ (s.findVictimPage.map Prod.fst) = some 0 ∧
    (∀ p q f, s.pageTable.lookup p = some f → s.pageTable.lookup q = some f → p = q) ∧
    (∀ p f, s.pageTable.lookup p = some f → (s.pages f).id = p) ∧
    (∀ f, f < s.poolSize → s.freeList.count f + s.pageTable.values.count f = 1) ∧
    (∀ f, f ∈ s.replacer.frames ↔ f ∈ s.pageTable.values ∧ (s.pages f).pinCount = 0) ∧
    (∀ f, 0 ≤ (s.pages f).pinCount) ∧
    (∀ f ∈ s.freeList, (s.pages f).id.pageNo = invalidPageId ∧ (s.pages f).pinCount = 0 ∧
      (s.pages f).isDirty = false) ∧
    (∀ v s', s.findVictimPage = some (v, s') → (s.pages v).pinCount = 0) :=
  have hv : PoolOp.Valid [.call (.fetchPage ⟨0, 1⟩), .call (.newPage 0 2), .write 1 5,
      .call (.unpinPage ⟨0, 2⟩ true), .call (.fetchPage ⟨0, 3⟩),
      .call (.unpinPage ⟨0, 1⟩ false)] (create (D := Nat) 2 ⟨fun _ => 0⟩) := by
    decide
  have hr := (Reachable.init (PoolInit.create 2 _)).runAll _ hv
  ⟨hr, by decide, by decide, pool_invariant hr⟩

end BufferPoolManager

end Rmdb
