import Mathlib.Data.List.Dedup
import Mathlib.Data.List.MinMax
import Rmdb.Replacer.LruReplacer

/-!
# The replacer refines the spec's queue

The spec describes the replacer as a queue of eligible frames: `unpin(f)` adds `f` as the newest
eligible frame unless it is already eligible, `pin(f)` removes `f` if present, and `victim()`
fails when no frame is eligible and otherwise removes and returns the eligible frame whose latest
absent-to-eligible unpin is the oldest. `LruQueue` is that queue, with a clock that stamps each
such unpin (`LruQueue.since`); `LruQueue.victim_some` says what its `victim` returns.

`Refines r q` relates a replacer to the queue: `r` is well formed and lists the queue's frames,
newest first by stamp. Each call keeps it and returns what the queue returns (`Refines.unpin`,
`Refines.pin`, `Refines.victim`), so from the empty replacer every sequence of calls answers as
the queue does, and the representation invariant in the spec's words (`RepInv`) holds after each
(`replacer_refines_queue`).
-/

namespace Rmdb

/-- A call on the replacer: `victim()`, `pin(frame_id)` or `unpin(frame_id)`. -/
inductive ReplacerCall (F : Type)
  | victim
  | pin (f : F)
  | unpin (f : F)
deriving DecidableEq, Repr

/-- The queue of eligible frames that the spec describes. `since f` is the time of the latest
unpin that made `f` eligible, on a clock that each such unpin advances. -/
structure LruQueue (F : Type) where
  eligible : List F
  since : F → Nat
  clock : Nat

namespace LruQueue

variable {F : Type} [DecidableEq F]

/-- No eligible frame. -/
def empty : LruQueue F := ⟨[], fun _ => 0, 0⟩

/-- `unpin(f)`: `f` becomes the newest eligible frame, unless it is eligible already. -/
def unpin (q : LruQueue F) (f : F) : LruQueue F :=
  if f ∈ q.eligible then q
  else ⟨f :: q.eligible, Function.update q.since f q.clock, q.clock + 1⟩

/-- `pin(f)`: `f` is no longer eligible. -/
def pin (q : LruQueue F) (f : F) : LruQueue F := { q with eligible := q.eligible.erase f }

/-- `victim()`: nothing when no frame is eligible, else the eligible frame that became eligible
longest ago, which stops being eligible. -/
def victim (q : LruQueue F) : Option F × LruQueue F :=
  match q.eligible.argmin q.since with
  | none => (none, q)
  | some f => (some f, q.pin f)

/-- One call, with the frame `victim` returns. -/
def call (q : LruQueue F) : ReplacerCall F → Option F × LruQueue F
  | .victim => q.victim
  | .pin f => (none, q.pin f)
  | .unpin f => (none, q.unpin f)

/-- A sequence of calls, with what each returned. -/
def calls (q : LruQueue F) : List (ReplacerCall F) → List (Option F) × LruQueue F
  | [] => ([], q)
  | c :: cs => ((q.call c).1 :: ((q.call c).2.calls cs).1, ((q.call c).2.calls cs).2)

theorem victim_none_iff (q : LruQueue F) : q.victim.1 = none ↔ q.eligible = [] := by
  rw [← List.argmin_eq_none (f := q.since), victim]
  split <;> simp_all

/-- `victim` returns an eligible frame stamped no later than any other, and removes it. -/
theorem victim_some {q : LruQueue F} {f : F} (h : q.victim.1 = some f) :
    f ∈ q.eligible ∧ (∀ g ∈ q.eligible, q.since f ≤ q.since g) ∧ q.victim.2 = q.pin f := by
  cases hm : q.eligible.argmin q.since with
  | none => simp [victim, hm] at h
  | some g =>
    simp only [victim, hm, Option.some.injEq] at h ⊢
    subst h
    exact ⟨List.argmin_mem hm, fun _ hb => List.le_of_mem_argmin hb hm, rfl⟩

end LruQueue

namespace LRUReplacer

variable {F : Type} [DecidableEq F]

/-- One call, with the frame `victim` returns (`none` when it returns false, and for `pin` and
`unpin`, which return nothing). -/
def call (r : LRUReplacer F) : ReplacerCall F → Option F × LRUReplacer F
  | .victim => r.victim
  | .pin f => (none, r.pin f)
  | .unpin f => (none, r.unpin f)

/-- A sequence of calls, with what each returned. -/
def calls (r : LRUReplacer F) : List (ReplacerCall F) → List (Option F) × LRUReplacer F
  | [] => ([], r)
  | c :: cs => ((r.call c).1 :: ((r.call c).2.calls cs).1, ((r.call c).2.calls cs).2)

/-! ## The representation invariant -/

/-- The representation invariant in the spec's words: no frame twice in `LRUlist_`, the keys of
`LRUhash_` are the frames of `LRUlist_`, each entry of `LRUhash_` names the node that holds its
frame, and `Size()` counts the distinct eligible frames. -/
structure RepInv (r : LRUReplacer F) : Prop where
  nodup : r.frames.Nodup
  keys : ∀ f, f ∈ r.lruHash.keys ↔ f ∈ r.frames
  points : ∀ f n, r.lruHash.lookup f = some n → (n, f) ∈ r.lruList
  size : r.size = r.frames.dedup.length

theorem Wf.repInv {r : LRUReplacer F} (h : r.Wf) : RepInv r where
  nodup := h.framesNodup
  keys f := by simp only [Table.keys, List.mem_map, mem_frames, ← h.hash]; simp
  points f n hn := (h.hash f n).1 (Table.mem_of_lookup hn)
  size := by rw [h.framesNodup.dedup, size, frames, List.length_map]

/-! ## Refinement -/

/-- `r` implements `q`: it is well formed, and its list holds the eligible frames, newest first
by the time they became eligible, all stamped before the clock. -/
structure Refines (r : LRUReplacer F) (q : LruQueue F) : Prop where
  wf : r.Wf
  perm : r.frames.Perm q.eligible
  newestFirst : r.frames.Pairwise fun f g => q.since g < q.since f
  stamped : ∀ f ∈ q.eligible, q.since f < q.clock

namespace Refines

variable {r : LRUReplacer F} {q : LruQueue F}

omit [DecidableEq F] in
theorem empty : Refines (LRUReplacer.empty : LRUReplacer F) LruQueue.empty :=
  ⟨wf_empty, List.Perm.refl _, List.Pairwise.nil, fun _ h => absurd h (List.not_mem_nil _)⟩

theorem unpin (h : Refines r q) (f : F) : Refines (r.unpin f) (q.unpin f) := by
  by_cases hf : f ∈ r.frames
  · rw [LRUReplacer.unpin, if_pos (h.wf.lookup_isSome.2 hf), LruQueue.unpin,
      if_pos (h.perm.subset hf)]
    exact h
  have hq : f ∉ q.eligible := fun hm => hf (h.perm.symm.subset hm)
  have hfr : (r.unpin f).frames = f :: r.frames := by rw [unpin_frames h.wf, if_neg hf]
  -- Stamps of the frames already listed stay as they were.
  have hs : ∀ g ∈ r.frames, Function.update q.since f q.clock g = q.since g :=
    fun g hg => Function.update_noteq (ne_of_mem_of_not_mem hg hf) _ _
  rw [LruQueue.unpin, if_neg hq]
  refine ⟨unpin_wf h.wf f, by rw [hfr]; exact h.perm.cons f, ?_, fun g hg => ?_⟩
  · rw [hfr, List.pairwise_cons]
    dsimp only
    refine ⟨fun g hg => ?_, h.newestFirst.imp_of_mem fun ha hb hab => ?_⟩
    · rw [Function.update_same, hs g hg]
      exact h.stamped g (h.perm.subset hg)
    · rwa [hs _ ha, hs _ hb]
  · rcases List.mem_cons.1 hg with rfl | hg
    · simp
    · have := h.stamped g hg
      dsimp only
      rw [Function.update_noteq (ne_of_mem_of_not_mem hg hq)]
      omega

theorem pin (h : Refines r q) (f : F) : Refines (r.pin f) (q.pin f) := by
  have hfr : (r.pin f).frames = r.frames.erase f := by
    rw [pin_frames h.wf, h.wf.framesNodup.erase_eq_filter]
    exact List.filter_congr fun x _ => by by_cases hx : x = f <;> simp [hx]
  refine ⟨pin_wf h.wf f, hfr ▸ h.perm.erase f, ?_,
    fun g hg => h.stamped g (List.mem_of_mem_erase hg)⟩
  rw [hfr]
  exact h.newestFirst.sublist (List.erase_sublist _ _)

/-- `victim` returns the frame at the list's back, which is the oldest by stamp. -/
theorem victim (h : Refines r q) :
    r.victim.1 = q.victim.1 ∧ Refines r.victim.2 q.victim.2 := by
  rcases hv : r.victim with ⟨_ | g, r'⟩
  · obtain ⟨rfl, hnil⟩ := victim_none hv
    have hq : q.eligible.argmin q.since = none :=
      List.argmin_eq_none.2 (hnil ▸ h.perm).nil_eq.symm
    simp only [LruQueue.victim, hq, true_and]
    exact h
  obtain ⟨hfr, hwf⟩ := victim_some h.wf hv
  have hord := h.newestFirst
  rw [hfr, List.pairwise_append] at hord
  have hg : g ∈ q.eligible := h.perm.subset (by rw [hfr]; exact List.mem_append_right _ (.head _))
  cases hm : q.eligible.argmin q.since with
  | none => exact absurd (List.argmin_eq_none.1 hm) (List.ne_nil_of_mem hg)
  | some m =>
    -- The queue's oldest frame is the list's last: every other listed frame is newer.
    obtain rfl : m = g := by
      by_contra hne
      have hm' := h.perm.symm.subset (List.argmin_mem hm)
      rw [hfr, List.mem_append, List.mem_singleton] at hm'
      exact List.not_lt_of_mem_argmin hg hm
        (hord.2.2 m (hm'.resolve_right hne) g (List.mem_singleton_self g))
    simp only [LruQueue.victim, hm, true_and]
    refine ⟨hwf, ?_, hord.1, fun x hx => h.stamped x (List.mem_of_mem_erase hx)⟩
    have := (h.perm.symm.trans (hfr ▸ List.perm_append_singleton m r'.frames)).erase m
    rwa [List.erase_cons_head, List.perm_comm] at this

/-- Each call returns what the queue returns, and keeps the relation. -/
theorem call (h : Refines r q) : ∀ c : ReplacerCall F,
    (r.call c).1 = (q.call c).1 ∧ Refines (r.call c).2 (q.call c).2
  | .victim => h.victim
  | .pin f => ⟨rfl, h.pin f⟩
  | .unpin f => ⟨rfl, h.unpin f⟩

theorem calls : ∀ (cs : List (ReplacerCall F)) {r : LRUReplacer F} {q : LruQueue F},
    Refines r q → (r.calls cs).1 = (q.calls cs).1 ∧ Refines (r.calls cs).2 (q.calls cs).2
  | [], _, _, h => ⟨rfl, h⟩
  | c :: cs, _, _, h => by
    obtain ⟨ho, h'⟩ := h.call c
    obtain ⟨hos, h''⟩ := calls cs h'
    exact ⟨by simp only [LRUReplacer.calls, LruQueue.calls, ho, hos], h''⟩

end Refines

/-- From the empty replacer, every sequence of `pin`, `unpin` and `victim` calls returns what the
spec's queue returns, and leaves a replacer that implements the queue and keeps the
representation invariant. -/
theorem replacer_refines_queue (cs : List (ReplacerCall F)) :
    ((empty : LRUReplacer F).calls cs).1 = ((LruQueue.empty : LruQueue F).calls cs).1 ∧
    RepInv ((empty : LRUReplacer F).calls cs).2 ∧
    Refines ((empty : LRUReplacer F).calls cs).2 ((LruQueue.empty : LruQueue F).calls cs).2 :=
  have h := Refines.calls cs Refines.empty
  ⟨h.1, h.2.wf.repInv, h.2⟩

/-- Frame 1, unpinned again after a `pin`, is newer than frame 2. -/
example : ((empty : LRUReplacer Nat).calls [.unpin 1, .unpin 2, .pin 1, .unpin 1, .victim]).1 =
    [none, none, none, none, some 2] := by decide

end LRUReplacer

end Rmdb
