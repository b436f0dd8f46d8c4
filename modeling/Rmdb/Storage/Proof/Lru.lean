import Rmdb.Storage.Proof.PoolInv

/-!
# The replacement policy

`Timed`: a pool with a clock that counts its steps and, for each frame, the step at which its pin
count last dropped from positive to 0 (`dropTime`). A step moves a frame into the replacer only
when its pin count drops to 0 in that step, at the head of the list, and otherwise only removes
frames (`PoolInv.replacer_step`). So the replacer lists the bound unpinned frames by decreasing
drop time (`LruInv`), and a miss of `fetch_page` or `new_page` takes the front of the free list,
or else the frame whose pin count dropped to 0 longest ago (`lru_victim`).
-/

namespace Rmdb

namespace BufferPoolManager

variable {D : Type}

/-- `f`'s pin count dropped from positive to 0 between `s` and `s'`. -/
def Drops (s s' : BufferPoolManager D) (f : Nat) : Prop :=
  0 < (s.pages f).pinCount ∧ (s'.pages f).pinCount = 0

theorem not_drops {s s' : BufferPoolManager D}
    (hp : ∀ g, (s'.pages g).pinCount = (s.pages g).pinCount ∨ 0 < (s'.pages g).pinCount ∨
      (s.pages g).pinCount = 0) (g : Nat) : ¬ Drops s s' g := by
  unfold Drops; rcases hp g with h | h | h <;> omega

/-- A step that keeps the replacer and every pin count only removes frames (none at all). -/
theorem removes_of_same {s s' : BufferPoolManager D} (hr : s'.replacer = s.replacer)
    (hp : ∀ g, (s'.pages g).pinCount = (s.pages g).pinCount) :
    s'.replacer.frames.Sublist s.replacer.frames ∧ ∀ f, ¬ Drops s s' f :=
  ⟨by rw [hr], not_drops fun g => .inl (hp g)⟩

/-- A rebinding only removes frames: it pins the victim and drops it from the replacer. -/
theorem Rebind.removes {s s' : BufferPoolManager D} {v : Nat} {pid : PageId}
    (hr : Rebind s s' v pid) :
    s'.replacer.frames.Sublist s.replacer.frames ∧ ∀ f, ¬ Drops s s' f :=
  ⟨hr.frames ▸ List.filter_sublist _, not_drops fun g => by
    by_cases hg : g = v
    · subst hg; exact .inr (.inl (by rw [hr.pin]; omega))
    · exact .inl (by rw [hr.other g hg])⟩

namespace PoolInv

variable {s : BufferPoolManager D} (h : PoolInv s)
include h

/-- What a step does to the replacer: it only removes frames, or it pushes at the head the one
frame whose pin count dropped to 0. -/
theorem replacer_step [Zero D] {op : PoolOp D} (hpre : op.Pre s) :
    ((op.apply s).replacer.frames.Sublist s.replacer.frames ∧ ∀ f, ¬ Drops s (op.apply s) f) ∨
    ∃ f, Drops s (op.apply s) f ∧ (∀ g, Drops s (op.apply s) g → g = f) ∧
      (op.apply s).replacer.frames = f :: s.replacer.frames := by
  cases op with
  | write f d => exact .inl <| removes_of_same rfl fun g => by by_cases hg : g = f <;> simp [hg]
  | call c =>
    cases c with
    | fetchPage pid =>
      simp only [PoolOp.apply_call, BpmCall.apply_fetchPage]
      cases hfind : s.pageTable.lookup pid with
      | some f =>
        rw [fetchPage_of_lookup hfind]
        refine .inl ⟨?_, not_drops fun g => ?_⟩
        · simp only [LRUReplacer.pin_frames h.replacerWf]; exact List.filter_sublist _
        · by_cases hg : g = f
          · subst hg; have := h.pinNonneg g; simp only [modifyPage_pages, if_true]; omega
          · simp [hg]
      | none =>
        cases hv : s.findVictimPage with
        | none =>
          rw [fetchPage_of_no_victim hfind hv]
          exact .inl <| removes_of_same rfl fun _ => rfl
        | some p => exact .inl (Rebind.of_fetchPage h.toBooks hpre hfind hv).2.removes
    | newPage fd alloc =>
      simp only [PoolOp.apply_call, BpmCall.apply_newPage]
      cases hv : s.findVictimPage with
      | none =>
        simp only [BufferPoolManager.newPage, hv]
        exact .inl <| removes_of_same rfl fun _ => rfl
      | some p => exact .inl (Rebind.of_newPage h.toBooks hpre.1 hv).2.removes
    | unpinPage pid d =>
      simp only [PoolOp.apply_call, BpmCall.apply_unpinPage]
      cases hfind : s.pageTable.lookup pid with
      | none =>
        simp only [BufferPoolManager.unpinPage, hfind]
        exact .inl <| removes_of_same rfl fun _ => rfl
      | some f =>
        by_cases hpos : 0 < (s.pages f).pinCount
        · have hnf : f ∉ s.replacer.frames := fun hm => by have := h.pin_of_frames hm; omega
          rw [unpinPage_of_pos hfind hpos]
          by_cases h1 : (s.pages f).pinCount = 1
          · refine .inr ⟨f, ⟨hpos, by simp [h1]⟩, fun g hg => ?_, ?_⟩
            · by_contra hgf
              obtain ⟨hp, hz⟩ := hg
              simp only [modifyPage_pages, hgf, if_false] at hz
              omega
            · simp [h1, LRUReplacer.unpin_frames h.replacerWf, hnf]
          · refine .inl ⟨by simp [h1], not_drops fun g => ?_⟩
            by_cases hg : g = f
            · subst hg; simp only [modifyPage_pages, if_true]; omega
            · simp [hg]
        · simp only [BufferPoolManager.unpinPage, hfind, if_pos (not_lt.1 hpos)]
          exact .inl <| removes_of_same rfl fun _ => rfl
    | flushPage pid =>
      simp only [PoolOp.apply_call, BpmCall.apply_flushPage]
      unfold BufferPoolManager.flushPage
      split
      · exact .inl <| removes_of_same rfl fun _ => rfl
      · rename_i f _
        exact .inl <| removes_of_same rfl fun g => by by_cases hg : g = f <;> simp [hg]
    | flushAllPages fd =>
      simp only [PoolOp.apply_call, BpmCall.apply_flushAllPages]
      refine .inl <| removes_of_same (foldl_flushEntry_replacer fd _ _) fun g => ?_
      obtain ⟨b, hb⟩ := foldl_flushEntry_pages fd g s.pageTable s
      simp only [BufferPoolManager.flushAllPages, hb]
    | deletePage pid =>
      simp only [PoolOp.apply_call, BpmCall.apply_deletePage]
      cases hfind : s.pageTable.lookup pid with
      | none =>
        simp only [BufferPoolManager.deletePage, hfind]
        exact .inl <| removes_of_same rfl fun _ => rfl
      | some f =>
        by_cases hpos : 0 < (s.pages f).pinCount
        · simp only [BufferPoolManager.deletePage, hfind, if_pos hpos]
          exact .inl <| removes_of_same rfl fun _ => rfl
        · rw [deletePage_of_unpinned hfind hpos]
          refine .inl ⟨by simp [LRUReplacer.pin_frames h.replacerWf], not_drops fun g => ?_⟩
          by_cases hg : g = f
          · subst hg; have := h.pinNonneg g; omega
          · simp [hg]
    | markDirty f =>
      simp only [PoolOp.apply_call, BpmCall.apply_markDirty]
      exact .inl <| removes_of_same rfl fun g => by
        by_cases hg : g = f <;> simp [BufferPoolManager.markDirty, hg]

end PoolInv

/-! ## Drop times -/

/-- A pool, the number of steps it took, and for each frame the step at which its pin count last
dropped from positive to 0. -/
structure Timed (D : Type) where
  pool : BufferPoolManager D
  clock : Nat
  dropTime : Nat → Nat

namespace Timed

variable [Zero D]

/-- A step, stamping the frames whose pin count drops to 0 in it. -/
def step (t : Timed D) (op : PoolOp D) : Timed D where
  pool := op.apply t.pool
  clock := t.clock + 1
  dropTime f := if 0 < (t.pool.pages f).pinCount ∧ ((op.apply t.pool).pages f).pinCount = 0
    then t.clock else t.dropTime f

/-- The timed pools reachable from a constructed pool. -/
inductive Reachable : Timed D → Prop
  | init {s : BufferPoolManager D} : PoolInit s → Reachable ⟨s, 0, fun _ => 0⟩
  | step {t : Timed D} (op : PoolOp D) : Reachable t → op.Pre t.pool → Reachable (t.step op)

theorem Reachable.pool {t : Timed D} (h : t.Reachable) : BufferPoolManager.Reachable t.pool := by
  induction h with
  | init hi => exact .init hi
  | step op _ hpre ih => exact .step op ih hpre

end Timed

/-- The replacer lists its frames by decreasing drop time, all before the clock. -/
structure LruInv (t : Timed D) : Prop where
  pool : PoolInv t.pool
  sorted : t.pool.replacer.frames.Pairwise fun a b => t.dropTime b < t.dropTime a
  past : ∀ f ∈ t.pool.replacer.frames, t.dropTime f < t.clock

namespace LruInv

variable [Zero D] {t : Timed D} (h : LruInv t)
include h

theorem step {op : PoolOp D} (hpre : op.Pre t.pool) : LruInv (t.step op) := by
  have hp := h.pool.step hpre
  rcases h.pool.replacer_step hpre with ⟨hsub, hnd⟩ | ⟨f, hdf, huniq, hfr⟩
  · have hdt : (t.step op).dropTime = t.dropTime := funext fun g => if_neg (hnd g)
    refine ⟨hp, ?_, fun g hg => ?_⟩
    · rw [hdt]; exact h.sorted.sublist hsub
    · rw [hdt]; exact Nat.lt_succ_of_lt (h.past g (hsub.subset hg))
  · have hdf' : (t.step op).dropTime f = t.clock := if_pos hdf
    have hdg : ∀ g, g ≠ f → (t.step op).dropTime g = t.dropTime g := fun g hg =>
      if_neg fun hd => hg (huniq g hd)
    have hnd := hp.replacerWf.framesNodup
    simp only [Timed.step] at hnd
    rw [hfr, List.nodup_cons] at hnd
    have hne : ∀ b ∈ t.pool.replacer.frames, b ≠ f := fun b hb e => hnd.1 (e ▸ hb)
    refine ⟨hp, ?_, fun g hg => ?_⟩
    · show ((op.apply t.pool).replacer.frames).Pairwise _
      rw [hfr]
      refine List.pairwise_cons.2 ⟨fun b hb => ?_, h.sorted.imp_of_mem fun ha hb hab => ?_⟩
      · rw [hdf', hdg b (hne b hb)]; exact h.past b hb
      · rwa [hdg _ (hne _ ha), hdg _ (hne _ hb)]
    · change g ∈ (op.apply t.pool).replacer.frames at hg
      rw [hfr] at hg
      show (t.step op).dropTime g < t.clock + 1
      rcases List.mem_cons.1 hg with rfl | hg
      · rw [hdf']; exact Nat.lt_succ_self _
      · rw [hdg g (hne g hg)]; exact Nat.lt_succ_of_lt (h.past g hg)

end LruInv

theorem LruInv.of_reachable [Zero D] {t : Timed D} (h : t.Reachable) : LruInv t := by
  induction h with
  | init hi => exact ⟨PoolInv.init hi, by simp [LRUReplacer.frames, hi.lruList],
      by simp [LRUReplacer.frames, hi.lruList]⟩
  | step op _ hpre ih => exact ih.step hpre

/-! ## The frame a miss takes -/

/-- The frame `r` a miss takes (module doc): the front of the free list while there is one;
otherwise a bound frame with pin count 0 whose pin count dropped to 0 before every other such
frame's, and none only when no bound frame has pin count 0. -/
def LruChoice (t : Timed D) (r : Option Nat) : Prop :=
  (∀ f rest, t.pool.freeList = f :: rest → r = some f) ∧
  (t.pool.freeList = [] →
    (r = none ↔ ∀ g ∈ t.pool.pageTable.values, (t.pool.pages g).pinCount ≠ 0) ∧
    ∀ v, r = some v → v ∈ t.pool.pageTable.values ∧ (t.pool.pages v).pinCount = 0 ∧
      ∀ g ∈ t.pool.pageTable.values, (t.pool.pages g).pinCount = 0 → g ≠ v →
        t.dropTime v < t.dropTime g)

theorem LruInv.choice {t : Timed D} (h : LruInv t) :
    LruChoice t (t.pool.findVictimPage.map Prod.fst) := by
  refine ⟨fun f rest hfl => by simp [findVictimPage, hfl], fun hfl => ?_⟩
  have hnone : t.pool.replacer.frames = [] ↔
      ∀ g ∈ t.pool.pageTable.values, (t.pool.pages g).pinCount ≠ 0 := by
    rw [List.eq_nil_iff_forall_not_mem]
    exact forall_congr' fun g => by rw [h.pool.replacerMem]; tauto
  rcases hv : t.pool.replacer.victim with ⟨_ | v, r⟩
  · have := (LRUReplacer.victim_none hv).2
    simp only [findVictimPage, hfl, hv, Option.map_none']
    exact ⟨by simpa using hnone.1 this, fun v hv => by simp at hv⟩
  · obtain ⟨hfr, -⟩ := LRUReplacer.victim_some h.pool.replacerWf hv
    simp only [findVictimPage, hfl, hv, Option.map_some', Option.some.injEq]
    have hvm : v ∈ t.pool.replacer.frames := by simp [hfr]
    have hsorted := h.sorted
    rw [hfr, List.pairwise_append] at hsorted
    refine ⟨⟨fun e => absurd e (Option.some_ne_none v),
      fun hall => absurd (hnone.2 hall) (by simp [hfr])⟩, ?_⟩
    rintro _ rfl
    refine ⟨((h.pool.replacerMem v).1 hvm).1, h.pool.pin_of_frames hvm, fun g hg hz hgv => ?_⟩
    have hgm : g ∈ t.pool.replacer.frames := (h.pool.replacerMem g).2 ⟨hg, hz⟩
    rw [hfr, List.mem_append, List.mem_singleton] at hgm
    exact hsorted.2.2 g (hgm.resolve_right hgv) v (List.mem_singleton_self v)

/-- A miss of `fetch_page` and a `new_page` take the front of the free list while there is one,
and else the bound unpinned frame whose pin count dropped to 0 longest ago; they return `nullptr`
only when there is no such frame. -/
theorem lru_victim [Zero D] {t : Timed D} (ht : t.Reachable) :
    (∀ pid, t.pool.pageTable.lookup pid = none → LruChoice t (t.pool.fetchPage pid).1) ∧
    (∀ fd alloc, alloc ≠ invalidPageId →
      LruChoice t ((t.pool.newPage fd alloc).1.map Prod.snd)) := by
  have h := LruInv.of_reachable ht
  exact ⟨fun pid hf => by rw [fetchPage_fst hf]; exact h.choice,
    fun fd alloc ha => by rw [newPage_snd ha]; exact h.choice⟩

/-- Two frames: pages 1 and 2 fetched, then unpinned in that order. -/
def twoUnpinned : Timed Nat :=
  ((((⟨create 2 ⟨fun _ => 0⟩, 0, fun _ => 0⟩ : Timed Nat).step (.call (.fetchPage ⟨0, 1⟩))).step
    (.call (.fetchPage ⟨0, 2⟩))).step (.call (.unpinPage ⟨0, 1⟩ false))).step
    (.call (.unpinPage ⟨0, 2⟩ false))

theorem lru_victim_two_unpinned :
    twoUnpinned.Reachable ∧
    (∀ pid, twoUnpinned.pool.pageTable.lookup pid = none →
      LruChoice twoUnpinned (twoUnpinned.pool.fetchPage pid).1) ∧
    (∀ fd alloc, alloc ≠ invalidPageId →
      LruChoice twoUnpinned ((twoUnpinned.pool.newPage fd alloc).1.map Prod.snd)) :=
  have hr : twoUnpinned.Reachable :=
    .step _ (.step _ (.step _ (.step _ (.init (PoolInit.create 2 _))
      (by simp [PoolOp.Pre, invalidPageId])) (by simp [PoolOp.Pre, invalidPageId])) trivial) trivial
  ⟨hr, lru_victim hr⟩

/-- Fetching page 3 there evicts frame 0, the frame of page 1, unpinned first. -/
example : (twoUnpinned.pool.fetchPage ⟨0, 3⟩).1 = some 0 := by decide

end BufferPoolManager

end Rmdb
