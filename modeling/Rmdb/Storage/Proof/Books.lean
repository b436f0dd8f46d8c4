import Mathlib.Algebra.Order.Ring.Nat
import Rmdb.Storage.BufferPoolManager

/-!
# The books of the frames

Each frame of the pool is in one of four places: on the free list, in the replacer (bound and
unpinned), held by a client (bound and pinned), or lost (`Lost`): in none of these, so that
`find_victim_page` never offers it again. `Books s` keeps the places apart: the page table has
distinct keys, each bound to the frame whose `id` it is; the free list holds frames of the pool
once each, unbound, unpinned and clean; the page table binds frames of the pool; pin counts are
non-negative and a pinned frame of the pool is bound; the replacer is well formed and holds only
bound, unpinned frames.

Every call keeps the books, a `new_page` whose `allocate_page` fails included, and none of them
loses a frame (`NoLoss`: a frame lost afterwards was lost before) but that `new_page`, which loses
the victim `find_victim_page` took for it (`Books.newPage_failed`). The steps that bind a victim
frame to a new page share `Books.rebind`; the steps that change one bound frame share
`Books.frameLocal`.
-/

namespace Rmdb

namespace BufferPoolManager

variable {D : Type}

/-- Frame `f` of the pool is lost: it is not free, not in the replacer and not pinned. -/
def Lost (s : BufferPoolManager D) (f : Nat) : Prop :=
  f < s.poolSize ∧ f ∉ s.freeList ∧ f ∉ s.replacer.frames ∧ (s.pages f).pinCount = 0

instance (s : BufferPoolManager D) (f : Nat) : Decidable (s.Lost f) :=
  inferInstanceAs (Decidable (_ ∧ _ ∧ _ ∧ _))

/-- The books of the frames (module doc). -/
structure Books (s : BufferPoolManager D) : Prop where
  keys : s.pageTable.keys.Nodup
  freeNodup : s.freeList.Nodup
  freeUnbound : ∀ f ∈ s.freeList, f ∉ s.pageTable.values
  poolFrame : ∀ f, f ∈ s.freeList ∨ f ∈ s.pageTable.values → f < s.poolSize
  bound : ∀ pid f, (pid, f) ∈ s.pageTable → (s.pages f).id = pid ∧ pid.pageNo ≠ invalidPageId
  freeFrame : ∀ f ∈ s.freeList, (s.pages f).id.pageNo = invalidPageId ∧
    (s.pages f).pinCount = 0 ∧ (s.pages f).isDirty = false
  pinNonneg : ∀ f, 0 ≤ (s.pages f).pinCount
  pinned : ∀ f < s.poolSize, 0 < (s.pages f).pinCount → f ∈ s.pageTable.values
  replacerWf : s.replacer.Wf
  evictable : ∀ f ∈ s.replacer.frames, f ∈ s.pageTable.values ∧ (s.pages f).pinCount = 0

/-- A step from `s` to `s'` keeps the books and loses no frame. -/
structure NoLoss (s s' : BufferPoolManager D) : Prop where
  books : Books s'
  lost : ∀ f, s'.Lost f → s.Lost f

theorem NoLoss.trans {s t u : BufferPoolManager D} (h1 : NoLoss s t) (h2 : NoLoss t u) :
    NoLoss s u :=
  ⟨h2.books, fun f hf => h1.lost f (h2.lost f hf)⟩

namespace Books

variable {s : BufferPoolManager D} (h : Books s)
include h

theorem noLoss_self : NoLoss s s := ⟨h, fun _ => id⟩

theorem lookup_iff {pid : PageId} {f : Nat} :
    s.pageTable.lookup pid = some f ↔ (pid, f) ∈ s.pageTable :=
  Table.lookup_iff_mem h.keys

/-- A bound frame's entry is keyed by its `id`. -/
theorem mem_table {pid : PageId} {f : Nat} :
    (pid, f) ∈ s.pageTable ↔ f ∈ s.pageTable.values ∧ (s.pages f).id = pid := by
  refine ⟨fun hm => ⟨Table.mem_values.2 ⟨pid, hm⟩, (h.bound pid f hm).1⟩, ?_⟩
  rintro ⟨hv, rfl⟩
  obtain ⟨k, hk⟩ := Table.mem_values.1 hv
  rwa [← (h.bound k f hk).1] at hk

theorem values_nodup : s.pageTable.values.Nodup := by
  have hk := h.keys
  unfold Table.keys at hk
  unfold Table.values
  refine (List.nodup_map_iff_inj_on ?_).2 ?_
  · exact List.Nodup.of_map _ hk
  · intro a ha b hb hab
    have h1 := (h.bound a.1 a.2 ha).1
    have h2 := (h.bound b.1 b.2 hb).1
    exact Prod.ext (by rw [← h1, ← h2, hab]) hab

theorem pin_of_frames {f : Nat} (hf : f ∈ s.replacer.frames) : (s.pages f).pinCount = 0 :=
  (h.evictable f hf).2

theorem not_free_of_values {f : Nat} (hf : f ∈ s.pageTable.values) : f ∉ s.freeList :=
  fun hfl => h.freeUnbound f hfl hf

theorem valid_of_values {f : Nat} (hf : f ∈ s.pageTable.values) :
    (s.pages f).id.pageNo ≠ invalidPageId := by
  obtain ⟨k, hk⟩ := Table.mem_values.1 hf
  obtain ⟨h1, h2⟩ := h.bound k f hk
  rwa [h1]

/-- Two entries with the same frame are the same entry. -/
theorem entry_inj {k k' : PageId} {f : Nat} (hk : (k, f) ∈ s.pageTable)
    (hk' : (k', f) ∈ s.pageTable) : k = k' := by
  rw [← (h.bound k f hk).1, ← (h.bound k' f hk').1]

/-- Two entries with the same page are the same entry. -/
theorem key_inj {k : PageId} {f g : Nat} (hf : (k, f) ∈ s.pageTable) (hg : (k, g) ∈ s.pageTable) :
    f = g :=
  Option.some.inj (((h.lookup_iff).2 hf).symm.trans ((h.lookup_iff).2 hg))

/-- The frames of the page table without the entry `(pid, f)`. -/
theorem values_erase {pid : PageId} {f g : Nat} (hm : (pid, f) ∈ s.pageTable) :
    g ∈ (s.pageTable.erase pid).values ↔ g ∈ s.pageTable.values ∧ g ≠ f := by
  simp only [Table.mem_values, Table.mem_erase]
  constructor
  · rintro ⟨k, hk, hkp⟩
    exact ⟨⟨k, hk⟩, fun e => hkp (h.entry_inj hk (e ▸ hm))⟩
  · rintro ⟨⟨k, hk⟩, hg⟩
    exact ⟨k, hk, fun e => hg (h.key_inj (e ▸ hk) hm)⟩

/-- A change of one bound frame `f` that keeps its `id` and touches the replacer only at `f`,
leaving `f` in the replacer only unpinned and out of it pinned or as it was. -/
theorem frameLocal {s' : BufferPoolManager D} {f : Nat} (hf : f ∈ s.pageTable.values)
    (hsz : s'.poolSize = s.poolSize) (ht : s'.pageTable = s.pageTable)
    (hfl : s'.freeList = s.freeList) (hpages : ∀ g, g ≠ f → s'.pages g = s.pages g)
    (hid : (s'.pages f).id = (s.pages f).id) (hpin : 0 ≤ (s'.pages f).pinCount)
    (hr : s'.replacer.Wf) (hrm : ∀ g, g ≠ f → (g ∈ s'.replacer.frames ↔ g ∈ s.replacer.frames))
    (hfr : f ∈ s'.replacer.frames → (s'.pages f).pinCount = 0)
    (hlost : f ∉ s'.replacer.frames → (s'.pages f).pinCount = 0 →
      f ∉ s.replacer.frames ∧ (s.pages f).pinCount = 0) :
    NoLoss s s' := by
  have hnf := h.not_free_of_values hf
  refine ⟨⟨ht ▸ h.keys, hfl ▸ h.freeNodup, ?_, ?_, ?_, ?_, ?_, ?_, hr, ?_⟩, ?_⟩
  · rw [hfl, ht]; exact h.freeUnbound
  · rw [hfl, ht, hsz]; exact h.poolFrame
  · intro pid g hm
    rw [ht] at hm
    by_cases hg : g = f
    · subst hg; rw [hid]; exact h.bound pid g hm
    · rw [hpages g hg]; exact h.bound pid g hm
  · intro g hg
    rw [hfl] at hg
    rw [hpages g fun e => hnf (e ▸ hg)]; exact h.freeFrame g hg
  · intro g
    by_cases hg : g = f
    · subst hg; exact hpin
    · rw [hpages g hg]; exact h.pinNonneg g
  · intro g hg hpos
    rw [ht]
    by_cases hgf : g = f
    · exact hgf ▸ hf
    · rw [hpages g hgf] at hpos; exact h.pinned g (hsz ▸ hg) hpos
  · intro g hg
    rw [ht]
    by_cases hgf : g = f
    · subst hgf; exact ⟨hf, hfr hg⟩
    · rw [hpages g hgf]; exact h.evictable g ((hrm g hgf).1 hg)
  · rintro g ⟨hg, hfree, hfr', hz⟩
    refine ⟨hsz ▸ hg, hfl ▸ hfree, ?_⟩
    by_cases hgf : g = f
    · subst hgf; exact hlost hfr' hz
    · exact ⟨fun hm => hfr' ((hrm g hgf).2 hm), hpages g hgf ▸ hz⟩

end Books

/-! ## Binding a victim frame -/

section
variable {s s1 : BufferPoolManager D} {v : Nat}

/-- `find_victim_page` takes a free frame or the replacer's victim, and leaves the other frames
where they were. -/
theorem Books.findVictimPage_spec (h : Books s) (hv : s.findVictimPage = some (v, s1)) :
    (v ∈ s.freeList ∨ v ∈ s.replacer.frames) ∧
    ∃ r : LRUReplacer Nat, r.Wf ∧ r.frames = s.replacer.frames.filter (· ≠ v) ∧
      s1 = { s with freeList := s.freeList.erase v, replacer := r } := by
  unfold findVictimPage at hv
  split at hv
  · rename_i g rest hfl
    simp only [Option.some.injEq, Prod.mk.injEq] at hv
    obtain ⟨rfl, rfl⟩ := hv
    have hvl : g ∈ s.freeList := hfl ▸ List.mem_cons_self _ _
    have hvf : g ∉ s.replacer.frames := fun hm =>
      h.not_free_of_values (h.evictable g hm).1 hvl
    refine ⟨.inl hvl, s.replacer, h.replacerWf, ?_, by simp [hfl]⟩
    refine (List.filter_eq_self.2 fun x hx => ?_).symm
    simpa using fun e : x = g => hvf (e ▸ hx)
  · rename_i hfl
    split at hv
    · rename_i g r hvic
      simp only [Option.some.injEq, Prod.mk.injEq] at hv
      obtain ⟨rfl, rfl⟩ := hv
      obtain ⟨hfr, hwf⟩ := LRUReplacer.victim_some h.replacerWf hvic
      have hnd := h.replacerWf.framesNodup
      rw [hfr, List.nodup_append] at hnd
      have hvr : g ∉ r.frames := fun hm => hnd.2.2 hm (List.mem_singleton_self g)
      refine ⟨.inr (by simp [hfr]), r, hwf, ?_, by simp [hfl]⟩
      rw [hfr, List.filter_append]
      simp only [List.filter_cons, ne_eq, not_true_eq_false, decide_False, List.filter_nil,
        List.append_nil, Bool.false_eq_true, if_false]
      refine (List.filter_eq_self.2 fun x hx => ?_).symm
      simpa using fun e : x = g => hvr (e ▸ hx)
    · simp at hv

/-- `find_victim_page` alone keeps the books and loses no frame but its victim. -/
theorem Books.findVictimPage_books (h : Books s) (hv : s.findVictimPage = some (v, s1)) :
    Books s1 ∧ ∀ g, s1.Lost g → s.Lost g ∨ g = v := by
  obtain ⟨-, r, hwf, hfr, rfl⟩ := h.findVictimPage_spec hv
  have hfl : ∀ g, g ∈ s.freeList.erase v → g ∈ s.freeList := fun g => List.mem_of_mem_erase
  refine ⟨⟨h.keys, h.freeNodup.erase v, fun g hg => h.freeUnbound g (hfl g hg),
    fun g hg => h.poolFrame g (hg.imp_left (hfl g)), h.bound,
    fun g hg => h.freeFrame g (hfl g hg), h.pinNonneg, h.pinned, hwf,
    fun g hg => h.evictable g (List.mem_of_mem_filter (hfr ▸ hg))⟩, ?_⟩
  rintro g ⟨hg, hfree, hfr', hz⟩
  by_cases hgv : g = v
  · exact .inr hgv
  · refine .inl ⟨hg, fun hm => hfree ((h.freeNodup.mem_erase_iff).2 ⟨hgv, hm⟩),
      fun hm => hfr' ?_, hz⟩
    simp [hfr, hm, hgv]

/-- What binding the victim frame `v` to `pid` leaves (`fetch_page` and `new_page`). -/
structure Rebind (s s' : BufferPoolManager D) (v : Nat) (pid : PageId) : Prop where
  poolSize : s'.poolSize = s.poolSize
  pageTable : s'.pageTable = (if (s.pages v).id.pageNo ≠ invalidPageId then
    s.pageTable.erase (s.pages v).id else s.pageTable).set pid v
  freeList : s'.freeList = s.freeList.erase v
  replacerWf : s'.replacer.Wf
  frames : s'.replacer.frames = s.replacer.frames.filter (· ≠ v)
  id : (s'.pages v).id = pid
  pin : (s'.pages v).pinCount = 1
  dirty : (s'.pages v).isDirty = false
  other : ∀ g, g ≠ v → s'.pages g = s.pages g
  diskManager : s'.diskManager = if (s.pages v).id.pageNo ≠ invalidPageId then
    (s.writeBackDirty v).diskManager else s.diskManager

variable [Zero D] {pid : PageId}

theorem Rebind.of_fetchPage (h : Books s) (hp : pid.pageNo ≠ invalidPageId)
    (hfind : s.pageTable.lookup pid = none) (hv : s.findVictimPage = some (v, s1)) :
    (v ∈ s.freeList ∨ v ∈ s.replacer.frames) ∧ Rebind s (s.fetchPage pid).2 v pid := by
  obtain ⟨hvm, r, hwf, hfr, rfl⟩ := h.findVictimPage_spec hv
  rw [fetchPage_of_victim hfind hv]
  refine ⟨hvm, ⟨by simp, by simp [updatePage_pageTable _ _ _ hp], by simp,
    LRUReplacer.pin_wf hwf v, by simp [LRUReplacer.pin_frames hwf, hfr, List.filter_filter],
    by simp [updatePage_pages _ _ _ hp], by simp, by simp,
    fun g hg => by simp [hg, updatePage_pages _ _ _ hp],
    by simp [updatePage_diskManager, writeBackDirty_diskManager]⟩⟩

theorem Rebind.of_newPage {fd alloc : Int} (h : Books s) (ha : alloc ≠ invalidPageId)
    (hv : s.findVictimPage = some (v, s1)) :
    (v ∈ s.freeList ∨ v ∈ s.replacer.frames) ∧ Rebind s (s.newPage fd alloc).2 v ⟨fd, alloc⟩ := by
  obtain ⟨hvm, r, hwf, hfr, rfl⟩ := h.findVictimPage_spec hv
  rw [newPage_of_victim hv ha]
  have hp : (⟨fd, alloc⟩ : PageId).pageNo ≠ invalidPageId := ha
  refine ⟨hvm, ⟨by simp, by simp [updatePage_pageTable _ _ _ hp], by simp,
    LRUReplacer.pin_wf hwf v, by simp [LRUReplacer.pin_frames hwf, hfr, List.filter_filter],
    by simp [updatePage_pages _ _ _ hp], by simp, by simp,
    fun g hg => by simp [hg, updatePage_pages _ _ _ hp],
    by simp [updatePage_diskManager, writeBackDirty_diskManager]⟩⟩

omit [Zero D] in
/-- A rebinding caches no page but `pid`. -/
theorem Rebind.lookup_ne_none {s' : BufferPoolManager D} (hr : Rebind s s' v pid) {q : PageId}
    (hq : q ≠ pid) (hf : s'.pageTable.lookup q ≠ none) : s.pageTable.lookup q ≠ none := by
  rw [hr.pageTable, Table.lookup_set, if_neg (Ne.symm hq)] at hf
  split_ifs at hf
  · rw [Table.lookup_erase] at hf
    split_ifs at hf
    exacts [absurd rfl hf, hf]
  · exact hf

end

namespace Books

variable {s : BufferPoolManager D} (h : Books s)
include h

theorem rebind_mem {v : Nat} {pid : PageId} (hv : v ∈ s.freeList ∨ v ∈ s.replacer.frames)
    (hn : s.pageTable.lookup pid = none) {k : PageId} {g : Nat} :
    (k, g) ∈ (if (s.pages v).id.pageNo ≠ invalidPageId then s.pageTable.erase (s.pages v).id
      else s.pageTable).set pid v ↔ (k = pid ∧ g = v) ∨ ((k, g) ∈ s.pageTable ∧ g ≠ v) := by
  have hk : (k, g) ∈ s.pageTable → k ≠ pid := fun hm e =>
    Table.lookup_eq_none.1 hn g (e ▸ hm)
  rcases hv with hv | hv
  · rw [if_neg (not_not.2 (h.freeFrame v hv).1), Table.mem_set]
    have hnv := h.freeUnbound v hv
    simp only [Prod.mk.injEq]
    refine or_congr_right ⟨fun ⟨hm, _⟩ => ⟨hm, fun e => hnv (Table.mem_values.2 ⟨k, e ▸ hm⟩)⟩,
      fun ⟨hm, _⟩ => ⟨hm, hk hm⟩⟩
  · have hvv := (h.evictable v hv).1
    rw [if_pos (h.valid_of_values hvv), Table.mem_set, Table.mem_erase]
    simp only [Prod.mk.injEq]
    refine or_congr_right
      ⟨fun ⟨⟨hm, hko⟩, _⟩ => ⟨hm, fun e => hko (by rw [← e, (h.bound k g hm).1])⟩,
      fun ⟨hm, hg⟩ => ⟨⟨hm, fun e => hg ?_⟩, hk hm⟩⟩
    exact h.key_inj hm ((h.mem_table).2 ⟨hvv, e.symm⟩)

/-- Binding a free or evictable frame to a page not in the page table keeps the books and loses
no frame: the victim ends bound and pinned. -/
theorem rebind {s' : BufferPoolManager D} {v : Nat} {pid : PageId}
    (hv : v ∈ s.freeList ∨ v ∈ s.replacer.frames) (hp : pid.pageNo ≠ invalidPageId)
    (hn : s.pageTable.lookup pid = none) (hr : Rebind s s' v pid) : NoLoss s s' := by
  have hmem : ∀ k g, (k, g) ∈ s'.pageTable ↔ (k = pid ∧ g = v) ∨ ((k, g) ∈ s.pageTable ∧ g ≠ v) :=
    fun k g => by rw [hr.pageTable, h.rebind_mem hv hn]
  have hvals : ∀ g, g ∈ s'.pageTable.values ↔ g = v ∨ (g ∈ s.pageTable.values ∧ g ≠ v) :=
    fun g => by simp only [Table.mem_values, hmem, exists_or, exists_and_right, exists_eq, true_and]
  have hvin : v < s.poolSize := h.poolFrame v (hv.imp_right fun hm => (h.evictable v hm).1)
  have hfl : ∀ g, g ∈ s'.freeList ↔ g ∈ s.freeList ∧ g ≠ v := fun g => by
    rw [hr.freeList, h.freeNodup.mem_erase_iff, and_comm]
  have hfr : ∀ g, g ∈ s'.replacer.frames ↔ g ∈ s.replacer.frames ∧ g ≠ v := fun g => by
    rw [hr.frames, List.mem_filter, decide_eq_true_iff]
  refine ⟨⟨?_, hr.freeList ▸ h.freeNodup.erase v, ?_, ?_, ?_, ?_, ?_, ?_, hr.replacerWf, ?_⟩, ?_⟩
  · rw [hr.pageTable]
    split_ifs
    · exact Table.keys_set (Table.keys_erase h.keys _) _ _
    · exact Table.keys_set h.keys _ _
  · intro g hg hgv
    rw [hfl] at hg
    rcases (hvals g).1 hgv with rfl | ⟨hm, -⟩
    · exact hg.2 rfl
    · exact h.freeUnbound g hg.1 hm
  · intro g hg
    rw [hfl, hvals] at hg
    rw [hr.poolSize]
    rcases hg with ⟨hg, -⟩ | rfl | ⟨hg, -⟩
    exacts [h.poolFrame g (.inl hg), hvin, h.poolFrame g (.inr hg)]
  · intro k g hm
    rcases (hmem k g).1 hm with ⟨rfl, rfl⟩ | ⟨hm, hg⟩
    · exact ⟨hr.id, hp⟩
    · rw [hr.other g hg]; exact h.bound k g hm
  · intro g hg
    rw [hfl] at hg
    rw [hr.other g hg.2]; exact h.freeFrame g hg.1
  · intro g
    by_cases hg : g = v
    · subst hg; rw [hr.pin]; omega
    · rw [hr.other g hg]; exact h.pinNonneg g
  · intro g hg hpos
    rw [hvals]
    by_cases hgv : g = v
    · exact .inl hgv
    · rw [hr.other g hgv] at hpos
      exact .inr ⟨h.pinned g (hr.poolSize ▸ hg) hpos, hgv⟩
  · intro g hg
    rw [hfr] at hg
    rw [hvals, hr.other g hg.2]
    exact ⟨.inr ⟨(h.evictable g hg.1).1, hg.2⟩, (h.evictable g hg.1).2⟩
  · rintro g ⟨hg, hfree, hfr', hz⟩
    have hgv : g ≠ v := by rintro rfl; rw [hr.pin] at hz; cases hz
    exact ⟨hr.poolSize ▸ hg, fun hm => hfree ((hfl g).2 ⟨hm, hgv⟩),
      fun hm => hfr' ((hfr g).2 ⟨hm, hgv⟩), hr.other g hgv ▸ hz⟩

/-! ## The calls -/

/-- A change of one bound frame that keeps its `id` and pin count. -/
theorem modifyPage {f : Nat} {g : Page D → Page D} (hf : f ∈ s.pageTable.values)
    (hid : (g (s.pages f)).id = (s.pages f).id)
    (hpin : (g (s.pages f)).pinCount = (s.pages f).pinCount) : NoLoss s (s.modifyPage f g) :=
  h.frameLocal hf rfl rfl rfl (fun g hg => by simp [hg]) (by simpa using hid)
    (by simpa [hpin] using h.pinNonneg f) h.replacerWf (fun _ _ => Iff.rfl)
    (fun hm => by simpa [hpin] using h.pin_of_frames hm)
    (fun hm hz => ⟨hm, by simpa [hpin] using hz⟩)

theorem writeBack {f : Nat} (hf : f ∈ s.pageTable.values) : NoLoss s (s.writeBack f) :=
  h.frameLocal hf rfl rfl rfl (fun g hg => by simp [hg]) (by simp) (by simpa using h.pinNonneg f)
    h.replacerWf (fun _ _ => Iff.rfl) (fun hm => by simpa using h.pin_of_frames hm)
    (fun hm hz => ⟨hm, by simpa using hz⟩)

theorem writeBackDirty {f : Nat} (hf : f ∈ s.pageTable.values) : NoLoss s (s.writeBackDirty f) := by
  unfold BufferPoolManager.writeBackDirty; split
  · exact h.writeBack hf
  · exact h.noLoss_self

theorem markDirty {f : Nat} (hf : f ∈ s.pageTable.values) : NoLoss s (s.markDirty f) :=
  h.modifyPage hf rfl rfl

theorem flushPage (pid : PageId) : NoLoss s (s.flushPage pid).2 := by
  cases hfind : s.pageTable.lookup pid with
  | none => simp only [BufferPoolManager.flushPage, hfind]; exact h.noLoss_self
  | some f =>
    simp only [BufferPoolManager.flushPage, hfind]
    exact h.writeBack (Table.mem_values.2 ⟨pid, Table.mem_of_lookup hfind⟩)

theorem flushAllPages (fd : Int) : NoLoss s (s.flushAllPages fd) := by
  unfold BufferPoolManager.flushAllPages
  suffices ∀ (l : Table PageId Nat) (t : BufferPoolManager D), NoLoss s t →
      t.pageTable = s.pageTable → (∀ e ∈ l, e ∈ s.pageTable) → NoLoss s (l.foldl (flushEntry fd) t)
    from this _ _ h.noLoss_self rfl fun _ he => he
  intro l
  induction l with
  | nil => exact fun t ht _ _ => ht
  | cons e l ih =>
    intro t ht htab hl
    refine ih _ ?_ ?_ fun e' he' => hl e' (List.mem_cons_of_mem _ he')
    · unfold flushEntry; split
      · exact ht.trans (ht.books.writeBackDirty
          (Table.mem_values.2 ⟨e.1, htab ▸ hl e (List.mem_cons_self _ _)⟩))
      · exact ht
    · unfold flushEntry; split <;> simp [htab]

theorem unpinPage (pid : PageId) (d : Bool) : NoLoss s (s.unpinPage pid d).2 := by
  cases hfind : s.pageTable.lookup pid with
  | none => simp only [BufferPoolManager.unpinPage, hfind]; exact h.noLoss_self
  | some f =>
    by_cases hpos : 0 < (s.pages f).pinCount
    · rw [unpinPage_of_pos hfind hpos]
      have hf : f ∈ s.pageTable.values := Table.mem_values.2 ⟨pid, Table.mem_of_lookup hfind⟩
      have hnf : f ∉ s.replacer.frames := fun hm => by have := h.pin_of_frames hm; omega
      refine h.frameLocal hf rfl rfl rfl (fun g hg => by simp [hg]) (by simp) (by simp; omega)
        ?_ (fun g hg => ?_) (fun hm => ?_) (fun hm hz => ?_)
      · split_ifs
        · exact LRUReplacer.unpin_wf h.replacerWf f
        · exact h.replacerWf
      · split_ifs
        · simp [LRUReplacer.unpin_frames h.replacerWf, hnf, hg]
        · rfl
      · split_ifs at hm with h1
        · simp [h1]
        · exact absurd hm hnf
      · simp only [modifyPage_pages, if_true] at hz
        have h1 : (s.pages f).pinCount = 1 := by omega
        simp [h1, LRUReplacer.unpin_frames h.replacerWf, hnf] at hm
    · simp only [BufferPoolManager.unpinPage, hfind, if_pos (not_lt.1 hpos)]; exact h.noLoss_self

variable [Zero D]

theorem fetchPage {pid : PageId} (hp : pid.pageNo ≠ invalidPageId) :
    NoLoss s (s.fetchPage pid).2 := by
  cases hfind : s.pageTable.lookup pid with
  | some f =>
    rw [fetchPage_of_lookup hfind]
    have hf : f ∈ s.pageTable.values := Table.mem_values.2 ⟨pid, Table.mem_of_lookup hfind⟩
    have := h.pinNonneg f
    refine h.frameLocal hf rfl rfl rfl (fun g hg => by simp [hg]) (by simp) (by simp; omega)
      (LRUReplacer.pin_wf h.replacerWf f)
      (fun g hg => by simp [LRUReplacer.pin_frames h.replacerWf, hg])
      (fun hm => by simp [LRUReplacer.pin_frames h.replacerWf] at hm) (fun _ hz => ?_)
    simp only [modifyPage_pages, if_true] at hz; omega
  | none =>
    cases hv : s.findVictimPage with
    | none => rw [fetchPage_of_no_victim hfind hv]; exact h.noLoss_self
    | some p =>
      obtain ⟨hvm, hr⟩ := Rebind.of_fetchPage h hp hfind hv
      exact h.rebind hvm hp hfind hr

/-- `new_page` with a page that `allocate_page` handed out. -/
theorem newPage {fd alloc : Int} (ha : alloc ≠ invalidPageId)
    (hn : s.pageTable.lookup ⟨fd, alloc⟩ = none) : NoLoss s (s.newPage fd alloc).2 := by
  cases hv : s.findVictimPage with
  | none => simp only [BufferPoolManager.newPage, hv]; exact h.noLoss_self
  | some p =>
    obtain ⟨hvm, hr⟩ := Rebind.of_newPage h ha hv
    exact h.rebind hvm ha hn hr

/-- `new_page` when `allocate_page` fails keeps the books, but loses the frame
`find_victim_page` took. -/
theorem newPage_failed (fd : Int) :
    Books (s.newPage fd invalidPageId).2 ∧ ∀ g, (s.newPage fd invalidPageId).2.Lost g →
      s.Lost g ∨ s.findVictimPage.map Prod.fst = some g := by
  cases hv : s.findVictimPage with
  | none =>
    simp only [BufferPoolManager.newPage, hv]
    exact ⟨h, fun g hg => .inl hg⟩
  | some p =>
    obtain ⟨v, s1⟩ := p
    simp only [BufferPoolManager.newPage, hv, if_true, Option.map_some']
    obtain ⟨hb, hl⟩ := h.findVictimPage_books hv
    exact ⟨hb, fun g hg => (hl g hg).imp_right fun e => congrArg some e.symm⟩

theorem deletePage (pid : PageId) : NoLoss s (s.deletePage pid).2 := by
  cases hfind : s.pageTable.lookup pid with
  | none => simp only [BufferPoolManager.deletePage, hfind]; exact h.noLoss_self
  | some f =>
    by_cases hpos : 0 < (s.pages f).pinCount
    · simp only [BufferPoolManager.deletePage, hfind, if_pos hpos]; exact h.noLoss_self
    · rw [deletePage_of_unpinned hfind hpos]
      have hm : (pid, f) ∈ s.pageTable := Table.mem_of_lookup hfind
      have hf : f ∈ s.pageTable.values := Table.mem_values.2 ⟨pid, hm⟩
      have hnf := h.not_free_of_values hf
      have hfp := h.poolFrame f (.inr hf)
      refine ⟨⟨Table.keys_erase h.keys pid, ?_, ?_, ?_, ?_, ?_, ?_, ?_,
        LRUReplacer.pin_wf h.replacerWf f, ?_⟩, ?_⟩
      · exact List.nodup_append.2 ⟨h.freeNodup, List.nodup_singleton f,
          fun g hg hg' => hnf (List.mem_singleton.1 hg' ▸ hg)⟩
      · intro g hg hgv
        rw [h.values_erase hm] at hgv
        simp only [List.mem_append, List.mem_singleton] at hg
        rcases hg with hg | rfl
        · exact h.freeUnbound g hg hgv.1
        · exact hgv.2 rfl
      · intro g hg
        simp only [List.mem_append, List.mem_singleton, h.values_erase hm] at hg
        simp only [modifyPage_poolSize, writeBackDirty_poolSize]
        rcases hg with (hg | rfl) | ⟨hg, -⟩
        exacts [h.poolFrame g (.inl hg), hfp, h.poolFrame g (.inr hg)]
      · intro k g hk
        simp only [Table.mem_erase] at hk
        have hg : g ≠ f := fun e => hk.2 (h.entry_inj hk.1 (e ▸ hm))
        simpa [hg] using h.bound k g hk.1
      · intro g hg
        simp only [List.mem_append, List.mem_singleton] at hg
        by_cases hgf : g = f
        · subst hgf; simp [invalidPageId]
        · simpa [hgf] using h.freeFrame g (hg.resolve_right hgf)
      · intro g
        by_cases hg : g = f
        · subst hg; simp
        · simpa [hg] using h.pinNonneg g
      · intro g hg hpos
        by_cases hgf : g = f
        · subst hgf; simp at hpos
        · simp only [modifyPage_pages, writeBackDirty_pages, hgf, if_false] at hpos
          exact (h.values_erase hm).2 ⟨h.pinned g (by simpa using hg) hpos, hgf⟩
      · intro g hg
        rw [LRUReplacer.pin_frames h.replacerWf, List.mem_filter, decide_eq_true_iff] at hg
        simpa [h.values_erase hm, hg.2] using h.evictable g hg.1
      · rintro g ⟨hg, hfree, hfr, hz⟩
        have hgf : g ≠ f := fun e => hfree (by simp [e])
        refine ⟨by simpa using hg, fun hm => hfree (by simp [hm]), fun hm => hfr ?_, ?_⟩
        · rw [LRUReplacer.pin_frames h.replacerWf]; simp [hm, hgf]
        · simpa [hgf] using hz

end Books

end BufferPoolManager

end Rmdb
