import Rmdb.Storage.Proof.Frames

/-!
# Runs in which `allocate_page` fails

`PoolOp.Pre` bars a `new_page` whose `allocate_page` fails; `PoolOp.PreAny` allows it, and
`ReachableAny` are the pools that runs of such steps reach. Their frames keep the books
(`Books.of_reachableAny`). A failed `new_page` loses the frame `find_victim_page` took for it
(`PoolOp.lostFrame`), and no other step loses any (`Books.step`). So along every run from a
constructed pool each lost frame is the victim of one of the run's failed allocations
(`frames_lost_to_failed_allocations`), and a run with none loses no frame.
-/

namespace Rmdb

open BufferPoolManager

/-- The step is a `new_page` whose `allocate_page` failed. -/
def PoolOp.allocFails {D : Type} : PoolOp D → Bool
  | .call (.newPage _ alloc) => decide (alloc = invalidPageId)
  | _ => false

/-- A step's precondition when `allocate_page` may fail: `PoolOp.Pre`, or a `new_page` given
`INVALID_PAGE_ID`. -/
def PoolOp.PreAny {D : Type} (s : BufferPoolManager D) (op : PoolOp D) : Prop :=
  op.Pre s ∨ op.allocFails = true

instance {D : Type} (s : BufferPoolManager D) (op : PoolOp D) : Decidable (op.PreAny s) :=
  inferInstanceAs (Decidable (_ ∨ _))

/-- The frame a step loses: the victim of a `new_page` whose `allocate_page` failed. -/
def PoolOp.lostFrame {D : Type} [Zero D] (s : BufferPoolManager D) (op : PoolOp D) : Option Nat :=
  if op.allocFails then s.findVictimPage.map Prod.fst else none

/-- The frames a run's failed allocations took. -/
def PoolOp.lostFrames {D : Type} [Zero D] : List (PoolOp D) → BufferPoolManager D → List Nat
  | [], _ => []
  | op :: ops, s => (op.lostFrame s).toList ++ PoolOp.lostFrames ops (op.apply s)

/-- Every step of the run meets `PoolOp.PreAny` in the state it starts from. -/
def PoolOp.ValidAny {D : Type} [Zero D] : List (PoolOp D) → BufferPoolManager D → Prop
  | [], _ => True
  | op :: ops, s => op.PreAny s ∧ PoolOp.ValidAny ops (op.apply s)

instance PoolOp.decidableValidAny {D : Type} [Zero D] :
    (ops : List (PoolOp D)) → (s : BufferPoolManager D) → Decidable (PoolOp.ValidAny ops s)
  | [], _ => instDecidableTrue
  | op :: ops, s =>
    have := PoolOp.decidableValidAny ops (op.apply s)
    inferInstanceAs (Decidable (_ ∧ _))

theorem PoolOp.allocFails_eq_true {D : Type} {op : PoolOp D} :
    op.allocFails = true ↔ ∃ fd, op = .call (.newPage fd invalidPageId) := by
  rcases op with (_ | ⟨fd, alloc⟩ | _ | _ | _ | _ | _) | _ <;> simp [allocFails]

namespace BufferPoolManager

variable {D : Type} [Zero D]

/-- The states reachable from a constructed pool by steps that meet `PoolOp.PreAny`. -/
inductive ReachableAny : BufferPoolManager D → Prop
  | init {s : BufferPoolManager D} : PoolInit s → ReachableAny s
  | step {s : BufferPoolManager D} (op : PoolOp D) : ReachableAny s → op.PreAny s →
      ReachableAny (op.apply s)

theorem ReachableAny.runAll {s : BufferPoolManager D} (hr : ReachableAny s) :
    ∀ ops : List (PoolOp D), PoolOp.ValidAny ops s → ReachableAny (PoolOp.runAll ops s)
  | [], _ => hr
  | op :: ops, ⟨hpre, hv⟩ => (ReachableAny.step op hr hpre).runAll ops hv

theorem Reachable.any {s : BufferPoolManager D} (hr : Reachable s) : ReachableAny s := by
  induction hr with
  | init hi => exact .init hi
  | step op _ hpre ih => exact .step op ih (.inl hpre)

/-- Every step keeps the books and loses no frame but the one a failed allocation takes. -/
theorem Books.step {s : BufferPoolManager D} (h : Books s) {op : PoolOp D}
    (hpre : op.PreAny s) :
    Books (op.apply s) ∧ ∀ f, (op.apply s).Lost f → s.Lost f ∨ op.lostFrame s = some f := by
  by_cases hfail : op.allocFails = true
  · obtain ⟨fd, rfl⟩ := PoolOp.allocFails_eq_true.1 hfail
    simpa [PoolOp.lostFrame, PoolOp.allocFails] using h.newPage_failed fd
  · have hn := h.noLoss (hpre.resolve_right hfail)
    exact ⟨hn.books, fun f hf => .inl (hn.lost f hf)⟩

/-- Along a run, every frame lost at its end was lost at its start or taken by one of its
failed allocations. -/
theorem Books.runAll {s : BufferPoolManager D} (h : Books s) :
    ∀ ops : List (PoolOp D), PoolOp.ValidAny ops s → Books (PoolOp.runAll ops s) ∧
      ∀ f, (PoolOp.runAll ops s).Lost f → s.Lost f ∨ f ∈ PoolOp.lostFrames ops s
  | [], _ => ⟨h, fun _ hf => .inl hf⟩
  | op :: ops, ⟨hpre, hv⟩ =>
    have ⟨hb, hl⟩ := h.step hpre
    have ⟨hb', hl'⟩ := hb.runAll ops hv
    ⟨hb', fun f hf => by
      simp only [PoolOp.lostFrames, List.mem_append, Option.mem_toList]
      rcases hl' f hf with h0 | hm
      · exact (hl f h0).imp_right fun e => .inl e
      · exact .inr (.inr hm)⟩

theorem Books.of_reachableAny {s : BufferPoolManager D} (hr : ReachableAny s) : Books s := by
  induction hr with
  | init hi => exact Books.init hi
  | step op _ hpre ih => exact (ih.step hpre).1

/-- Along every run from a constructed pool, failed allocations included, the frames keep their
books, and every lost frame (one not free, not in the replacer and not pinned, so that
`find_victim_page` never offers it) is the victim `find_victim_page` took for one of the run's
`new_page` calls whose `allocate_page` failed. -/
theorem frames_lost_to_failed_allocations {s : BufferPoolManager D} (hs : PoolInit s)
    (ops : List (PoolOp D)) (hv : PoolOp.ValidAny ops s) :
    Books (PoolOp.runAll ops s) ∧
      ∀ f, (PoolOp.runAll ops s).Lost f → f ∈ PoolOp.lostFrames ops s :=
  have ⟨hb, hl⟩ := (Books.init hs).runAll ops hv
  ⟨hb, fun f hf => (hl f hf).resolve_left (hs.not_lost f)⟩

/-- One frame: page 1 fetched and unpinned, then a `new_page` whose `allocate_page` fails takes
frame 0 from the replacer and keeps it. -/
theorem frames_lost_to_failed_allocations_one_frame :
    let ops : List (PoolOp Nat) := [.call (.fetchPage ⟨0, 1⟩), .call (.unpinPage ⟨0, 1⟩ false),
      .call (.newPage 0 invalidPageId)]
    PoolOp.ValidAny ops oneFrame ∧ (PoolOp.runAll ops oneFrame).Lost 0 ∧
    PoolOp.lostFrames ops oneFrame = [0] ∧
    Books (PoolOp.runAll ops oneFrame) ∧
      ∀ f, (PoolOp.runAll ops oneFrame).Lost f → f ∈ PoolOp.lostFrames ops oneFrame :=
  have hv : PoolOp.ValidAny [.call (.fetchPage ⟨0, 1⟩), .call (.unpinPage ⟨0, 1⟩ false),
      .call (.newPage 0 invalidPageId)] oneFrame := by
    decide
  ⟨hv, by decide, by decide, frames_lost_to_failed_allocations (PoolInit.create 1 _) _ hv⟩

end BufferPoolManager

end Rmdb
