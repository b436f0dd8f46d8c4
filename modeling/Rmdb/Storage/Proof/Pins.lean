import Rmdb.Storage.Proof.Refusal

/-!
# Pin counts move only as their callers ask

A client pins a page with `fetch_page` or `new_page` and releases it with `unpin_page`.
`BpmCall.pinDelta` is what a call asked of the pin count of a page, read off what the call
returned: one pin for the page that `fetch_page` or `new_page` returns a frame for, one release for
the page that `unpin_page` unpins. In every reachable pool each step changes every pin count by
exactly that (`PoolInv.pinOf_step`): the evictions inside `fetch_page` and `new_page` take only
unpinned frames, `delete_page` drops only an unpinned page, and flushes, `mark_dirty` and writes
leave pin counts alone. So along any run from a constructed pool the pin count of every page is the
pins its callers took minus those they released (`pins_match_callers`): no pin is lost or made up.
-/

namespace Rmdb

open BufferPoolManager

/-- What a call asked of the pin count of page `q`, read off what it returned. -/
def BpmCall.pinDelta {D : Type} [Zero D] (s : BufferPoolManager D) : BpmCall → PageId → Int
  | .fetchPage pid, q => if (s.fetchPage pid).1.isSome ∧ q = pid then 1 else 0
  | .newPage fd alloc, q => if (s.newPage fd alloc).1.isSome ∧ q = ⟨fd, alloc⟩ then 1 else 0
  | .unpinPage pid isDirty, q => if (s.unpinPage pid isDirty).1 ∧ q = pid then -1 else 0
  | _, _ => 0

/-- A write into a frame asks nothing of the pin counts. -/
def PoolOp.pinDelta {D : Type} [Zero D] (s : BufferPoolManager D) : PoolOp D → PageId → Int
  | .call c, q => c.pinDelta s q
  | .write _ _, _ => 0

/-- The pins that the run's calls asked of page `q`, each read off its own step. -/
def PoolOp.pinsAsked {D : Type} [Zero D] : List (PoolOp D) → BufferPoolManager D → PageId → Int
  | [], _, _ => 0
  | op :: ops, s, q => op.pinDelta s q + PoolOp.pinsAsked ops (op.apply s) q

namespace BufferPoolManager

variable {D : Type} {s s' : BufferPoolManager D}

/-! ## Each call -/

theorem pinOf_congr (ht : s'.pageTable = s.pageTable)
    (hp : ∀ g, (s'.pages g).pinCount = (s.pages g).pinCount) : s'.pinOf = s.pinOf := by
  funext q
  unfold pinOf
  rw [ht]
  cases s.pageTable.lookup q <;> simp [hp]

theorem pinOf_modifyPage_of_pin {f : Nat} {g : Page D → Page D}
    (hpin : (g (s.pages f)).pinCount = (s.pages f).pinCount) :
    (s.modifyPage f g).pinOf = s.pinOf :=
  pinOf_congr rfl fun g' => by by_cases hg : g' = f <;> simp [hg, hpin]

theorem pinOf_markDirty (f : Nat) : (s.markDirty f).pinOf = s.pinOf :=
  pinOf_modifyPage_of_pin rfl

theorem pinOf_writeBack (f : Nat) : (s.writeBack f).pinOf = s.pinOf :=
  pinOf_congr rfl fun g => by by_cases hg : g = f <;> simp [hg]

theorem pinOf_flushPage (pid : PageId) : (s.flushPage pid).2.pinOf = s.pinOf := by
  unfold flushPage
  split
  · rfl
  · exact pinOf_writeBack _

theorem pinOf_flushAllPages (fd : Int) : (s.flushAllPages fd).pinOf = s.pinOf :=
  pinOf_congr (foldl_flushEntry_pageTable fd _ s) fun g => by
    obtain ⟨b, hb⟩ := foldl_flushEntry_pages fd g s.pageTable s
    rw [flushAllPages, hb]

section

variable [Zero D] (h : PoolInv s)
include h

theorem PoolInv.pinOf_fetchPage {pid : PageId} (hp : pid.pageNo ≠ invalidPageId) :
    (s.fetchPage pid).2.pinOf =
      if (s.fetchPage pid).1.isSome then Function.update s.pinOf pid (s.pinOf pid + 1)
      else s.pinOf := by
  cases hfind : s.pageTable.lookup pid with
  | some f =>
    simp only [fetchPage_of_lookup hfind, Option.isSome_some, if_true]
    exact pinOf_frame h hfind rfl (fun g hg => by simp [hg]) (by simp [pinOf_of_lookup hfind])
  | none =>
    cases hv : s.findVictimPage with
    | none => rw [fetchPage_of_no_victim hfind hv]; rfl
    | some p =>
      obtain ⟨hvm, hr⟩ := Rebind.of_fetchPage h.toBooks hp hfind hv
      rw [pinOf_rebind h hvm hp hfind hr, fetchPage_fst hfind, hv]
      simp [pinOf, hfind]

theorem PoolInv.pinOf_newPage {fd alloc : Int} (ha : alloc ≠ invalidPageId)
    (hn : s.pageTable.lookup ⟨fd, alloc⟩ = none) :
    (s.newPage fd alloc).2.pinOf =
      if (s.newPage fd alloc).1.isSome then Function.update s.pinOf ⟨fd, alloc⟩ 1
      else s.pinOf := by
  cases hv : s.findVictimPage with
  | none => simp [BufferPoolManager.newPage, hv]
  | some p =>
    obtain ⟨hvm, hr⟩ := Rebind.of_newPage h.toBooks ha hv
    rw [pinOf_rebind h hvm ha hn hr, newPage_of_victim hv ha]
    rfl

omit [Zero D] in
theorem PoolInv.pinOf_unpinPage (pid : PageId) (isDirty : Bool) :
    (s.unpinPage pid isDirty).2.pinOf =
      if (s.unpinPage pid isDirty).1 then Function.update s.pinOf pid (s.pinOf pid - 1)
      else s.pinOf := by
  cases hf : s.pageTable.lookup pid with
  | none => simp [BufferPoolManager.unpinPage, hf]
  | some f =>
    by_cases hpos : 0 < (s.pages f).pinCount
    · rw [unpinPage_of_pos hf hpos, if_pos rfl]
      exact pinOf_frame h hf rfl (fun g hg => by simp [hg]) (by simp [pinOf_of_lookup hf])
    · simp [BufferPoolManager.unpinPage, hf, not_lt.1 hpos]

/-- `delete_page` drops only a page of pin count 0. -/
theorem PoolInv.pinOf_deletePage (pid : PageId) : (s.deletePage pid).2.pinOf = s.pinOf := by
  cases hf : s.pageTable.lookup pid with
  | none => simp [BufferPoolManager.deletePage, hf]
  | some f =>
    by_cases hpos : 0 < (s.pages f).pinCount
    · simp [BufferPoolManager.deletePage, hf, hpos]
    · rw [deletePage_of_unpinned hf hpos]
      funext q
      have h0 : (s.pages f).pinCount = 0 := le_antisymm (not_lt.1 hpos) (h.pinNonneg f)
      by_cases hq : pid = q
      · subst hq
        simp [pinOf, hf, h0]
      · cases hg : s.pageTable.lookup q with
        | none => simp [pinOf, hq, hg]
        | some g =>
          have hgf : g ≠ f := fun e =>
            hq (h.entry_inj ((h.lookup_iff).1 hf) (e ▸ (h.lookup_iff).1 hg))
          simp [pinOf, hq, hg, hgf]

/-! ## Each step, and every run -/

/-- Every step changes the pin count of each page by what it asked of it. -/
theorem PoolInv.pinOf_step (op : PoolOp D) (hpre : op.Pre s) (q : PageId) :
    (op.apply s).pinOf q = s.pinOf q + op.pinDelta s q := by
  rcases op with c | ⟨f, d⟩
  · cases c with
    | fetchPage pid =>
      simp only [PoolOp.apply_call, BpmCall.apply_fetchPage, h.pinOf_fetchPage hpre]
      by_cases hs : (s.fetchPage pid).1.isSome <;> rcases eq_or_ne q pid with rfl | hq <;>
        simp [PoolOp.pinDelta, BpmCall.pinDelta, *]
    | newPage fd alloc =>
      have h0 : s.pinOf ⟨fd, alloc⟩ = 0 := by simp [pinOf, hpre.2]
      simp only [PoolOp.apply_call, BpmCall.apply_newPage, h.pinOf_newPage hpre.1 hpre.2]
      by_cases hs : (s.newPage fd alloc).1.isSome <;> rcases eq_or_ne q ⟨fd, alloc⟩ with rfl | hq <;>
        simp [PoolOp.pinDelta, BpmCall.pinDelta, *]
    | unpinPage pid isDirty =>
      simp only [PoolOp.apply_call, BpmCall.apply_unpinPage, h.pinOf_unpinPage]
      by_cases hs : (s.unpinPage pid isDirty).1 <;> rcases eq_or_ne q pid with rfl | hq <;>
        simp [PoolOp.pinDelta, BpmCall.pinDelta, Int.sub_eq_add_neg, *]
    | flushPage pid => simp [pinOf_flushPage, PoolOp.pinDelta, BpmCall.pinDelta]
    | flushAllPages fd => simp [pinOf_flushAllPages, PoolOp.pinDelta, BpmCall.pinDelta]
    | deletePage pid => simp [h.pinOf_deletePage, PoolOp.pinDelta, BpmCall.pinDelta]
    | markDirty f => simp [pinOf_markDirty, PoolOp.pinDelta, BpmCall.pinDelta]
  · simp [pinOf_modifyPage_of_pin, PoolOp.pinDelta]

end

variable [Zero D]

/-- Along a run of steps that meet their preconditions from a reachable pool, each page's pin count
moves by the pins that the run's calls asked of it. -/
theorem pinOf_runAll : ∀ (ops : List (PoolOp D)) {s : BufferPoolManager D}, Reachable s →
    PoolOp.Valid ops s → ∀ q, (PoolOp.runAll ops s).pinOf q = s.pinOf q + PoolOp.pinsAsked ops s q
  | [], _, _, _, _ => by simp [PoolOp.runAll, PoolOp.pinsAsked]
  | op :: ops, s, hr, ⟨hpre, hv⟩, q => by
    rw [PoolOp.runAll, PoolOp.pinsAsked, pinOf_runAll ops (.step op hr hpre) hv q,
      (PoolInv.of_reachable hr).pinOf_step op hpre q, Int.add_assoc]

/-- From a constructed pool, along every run of steps that meet their preconditions, the pin count
of every page is the pins its callers took minus those they released: the evictions inside
`fetch_page` and `new_page`, `delete_page`, the flushes, `mark_dirty` and writes neither lose nor
make up a pin. -/
theorem pins_match_callers {s : BufferPoolManager D} (hs : PoolInit s) (ops : List (PoolOp D))
    (hv : PoolOp.Valid ops s) (q : PageId) :
    (PoolOp.runAll ops s).pinOf q = PoolOp.pinsAsked ops s q := by
  rw [pinOf_runAll ops (.init hs) hv q]
  simp [pinOf, hs.pageTable]

/-- One frame: page 1 fetched twice and unpinned once, then page 2 refused for want of a frame. -/
theorem pins_match_callers_one_frame :
    let ops : List (PoolOp Nat) := [.call (.fetchPage ⟨0, 1⟩), .call (.fetchPage ⟨0, 1⟩),
      .call (.unpinPage ⟨0, 1⟩ false), .call (.fetchPage ⟨0, 2⟩)]
    PoolInit oneFrame ∧ PoolOp.Valid ops oneFrame ∧
    (PoolOp.runAll ops oneFrame).pinOf ⟨0, 1⟩ = PoolOp.pinsAsked ops oneFrame ⟨0, 1⟩ :=
  have hv : PoolOp.Valid [.call (.fetchPage ⟨0, 1⟩), .call (.fetchPage ⟨0, 1⟩),
      .call (.unpinPage ⟨0, 1⟩ false), .call (.fetchPage ⟨0, 2⟩)] oneFrame := by
    simp [PoolOp.Valid, PoolOp.Pre, invalidPageId]
  ⟨PoolInit.create 1 _, hv, pins_match_callers (PoolInit.create 1 _) _ hv ⟨0, 1⟩⟩

example : (PoolOp.runAll [.call (.fetchPage ⟨0, 1⟩), .call (.fetchPage ⟨0, 1⟩),
    .call (.unpinPage ⟨0, 1⟩ false), .call (.fetchPage ⟨0, 2⟩)] oneFrame).pinOf ⟨0, 1⟩ = 1 := by
  decide

end BufferPoolManager

end Rmdb
