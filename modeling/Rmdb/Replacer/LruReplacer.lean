import Rmdb.Common

/-!
# The LRU replacer

`LRUReplacer` (`lru_replacer.cpp`) keeps the frames that may be evicted in a `std::list`, the most
recently unpinned at the head, and a hash from each of them to the list node that holds it. A
node is named by a number handed out in order (`nextNode`); the numbers stand for the identity of
the `std::list` nodes that the hash's iterators point at.

`Wf` is the representation invariant: distinct nodes and frames, and the hash's entries are
exactly the list's nodes. Under it each operation is an operation on `frames`, the list's frames
(`victim_some`, `pin_frames`, `unpin_frames`), and keeps `Wf`.
-/

namespace Rmdb

/-- `LRUReplacer` over frame ids of type `F`. -/
structure LRUReplacer (F : Type) where
  /-- `LRUlist_`: the list nodes `(node, frame_id)`, the most recently unpinned first. -/
  lruList : List (Nat × F)
  /-- `LRUhash_`: the node of `LRUlist_` that holds each listed frame. -/
  lruHash : Table F Nat
  /-- The next fresh list node. -/
  nextNode : Nat

namespace LRUReplacer

variable {F : Type}

/-- A replacer with no eligible frame. -/
def empty : LRUReplacer F := ⟨[], [], 0⟩

/-- The eligible frames, the most recently unpinned first. -/
def frames (r : LRUReplacer F) : List F := r.lruList.map Prod.snd

theorem mem_frames {r : LRUReplacer F} {f : F} : f ∈ r.frames ↔ ∃ n, (n, f) ∈ r.lruList := by
  simp [frames]

@[simp] theorem frames_empty : (empty : LRUReplacer F).frames = [] := rfl

/-! ## The representation invariant -/

/-- Distinct nodes, all below `nextNode`, distinct frames, and a hash whose entries are the
list's nodes. -/
structure Wf (r : LRUReplacer F) : Prop where
  nodes : (r.lruList.map Prod.fst).Nodup
  fresh : ∀ e ∈ r.lruList, e.1 < r.nextNode
  framesNodup : r.frames.Nodup
  keys : r.lruHash.keys.Nodup
  hash : ∀ f n, (f, n) ∈ r.lruHash ↔ (n, f) ∈ r.lruList

theorem wf_empty : (empty : LRUReplacer F).Wf :=
  ⟨List.nodup_nil, by simp [empty], List.nodup_nil, List.nodup_nil, by simp [empty]⟩

/-- Two nodes with the same number are the same node. -/
theorem Wf.node_inj {r : LRUReplacer F} (h : r.Wf) {n : Nat} {f g : F} (hf : (n, f) ∈ r.lruList)
    (hg : (n, g) ∈ r.lruList) : f = g := by
  have := List.inj_on_of_nodup_map h.nodes hf hg rfl
  simpa using this

/-- Two nodes holding the same frame are the same node. -/
theorem Wf.frame_inj {r : LRUReplacer F} (h : r.Wf) {n m : Nat} {f : F}
    (hn : (n, f) ∈ r.lruList) (hm : (m, f) ∈ r.lruList) : n = m := by
  have := List.inj_on_of_nodup_map h.framesNodup hn hm rfl
  simpa using this

/-! ## The operations -/

variable [DecidableEq F]

/-- `victim`: removes and returns the frame at the list's back, the least recently unpinned. -/
def victim (r : LRUReplacer F) : Option F × LRUReplacer F :=
  match r.lruList.getLast? with
  | none => (none, r)
  | some (_, f) => (some f, { r with lruHash := r.lruHash.erase f, lruList := r.lruList.dropLast })

/-- `pin`: erases the node the hash points at, if `f` is listed. -/
def pin (r : LRUReplacer F) (f : F) : LRUReplacer F :=
  match r.lruHash.lookup f with
  | some n => { r with lruList := r.lruList.filter (·.1 ≠ n), lruHash := r.lruHash.erase f }
  | none => r

/-- `unpin`: pushes `f` at the head, unless the hash already holds it. -/
def unpin (r : LRUReplacer F) (f : F) : LRUReplacer F :=
  if (r.lruHash.lookup f).isSome then r
  else ⟨(r.nextNode, f) :: r.lruList, r.lruHash.set f r.nextNode, r.nextNode + 1⟩

/-- `Size`. -/
def size (r : LRUReplacer F) : Nat := r.lruList.length

theorem Wf.lookup_isSome {r : LRUReplacer F} (h : r.Wf) {f : F} :
    (r.lruHash.lookup f).isSome ↔ f ∈ r.frames := by
  rw [mem_frames, Option.isSome_iff_exists]
  simp only [Table.lookup_iff_mem h.keys, h.hash]

theorem victim_none {r r' : LRUReplacer F} (hv : r.victim = (none, r')) :
    r' = r ∧ r.frames = [] := by
  unfold victim at hv
  split at hv
  · rename_i hl
    simp only [Prod.mk.injEq, true_and] at hv
    exact ⟨hv.symm, by simp [frames, List.getLast?_eq_none_iff.1 hl]⟩
  · simp at hv

/-- `victim` returns the last frame, and removes it. -/
theorem victim_some {r r' : LRUReplacer F} {f : F} (h : r.Wf) (hv : r.victim = (some f, r')) :
    r.frames = r'.frames ++ [f] ∧ r'.Wf := by
  unfold victim at hv
  split at hv
  · simp at hv
  · rename_i n g hl
    simp only [Prod.mk.injEq, Option.some.injEq] at hv
    obtain ⟨rfl, rfl⟩ := hv
    obtain ⟨ys, hys⟩ := List.getLast?_eq_some_iff.1 hl
    have hfr : r.frames = ys.map Prod.snd ++ [g] := by simp [frames, hys]
    have hnd := h.framesNodup
    rw [hfr, List.nodup_append] at hnd
    have hg : ∀ e ∈ ys, e.2 ≠ g := fun e he hge =>
      hnd.2.2 (List.mem_map_of_mem _ he) (by simp [hge])
    refine ⟨by simp [hfr, frames, hys], ⟨?_, ?_, ?_, Table.keys_erase h.keys g, ?_⟩⟩
    · exact (List.Sublist.map _ (List.dropLast_sublist _)).nodup h.nodes
    · exact fun e he => h.fresh e (List.dropLast_sublist _ |>.subset he)
    · simpa [frames, hys] using hnd.1
    · intro f m
      simp only [Table.mem_erase, h.hash, hys, List.dropLast_concat, List.mem_append,
        List.mem_singleton, Prod.mk.injEq]
      constructor
      · rintro ⟨hm | ⟨-, rfl⟩, hf⟩
        · exact hm
        · exact absurd rfl hf
      · intro hm
        exact ⟨.inl hm, hg _ hm⟩

/-- `pin f` removes `f` from the eligible frames. -/
theorem pin_frames {r : LRUReplacer F} (h : r.Wf) (f : F) :
    (r.pin f).frames = r.frames.filter (· ≠ f) := by
  unfold pin
  split
  · rename_i n hn
    have hnf : (n, f) ∈ r.lruList := (h.hash f n).1 (Table.mem_of_lookup hn)
    simp only [frames, List.filter_map]
    congr 1
    refine List.filter_congr fun e he => ?_
    simp only [Function.comp, decide_eq_decide]
    exact ⟨fun hne hef => hne (h.frame_inj (hef ▸ he) hnf),
      fun hne hen => hne (h.node_inj hnf (hen ▸ he)).symm⟩
  · rename_i hn
    refine (List.filter_eq_self.2 fun g hg => ?_).symm
    have : (r.lruHash.lookup f).isSome = false := by simp [hn]
    simp only [decide_eq_true_eq]
    rintro rfl
    exact absurd ((h.lookup_isSome).2 hg) (by simp [this])

theorem pin_wf {r : LRUReplacer F} (h : r.Wf) (f : F) : (r.pin f).Wf := by
  unfold pin
  split
  · rename_i n hn
    have hnf : (n, f) ∈ r.lruList := (h.hash f n).1 (Table.mem_of_lookup hn)
    have hfr := pin_frames h f
    simp only [pin, hn] at hfr
    refine ⟨(List.Sublist.map _ (List.filter_sublist _)).nodup h.nodes,
      fun e he => h.fresh e (List.mem_of_mem_filter he), ?_, Table.keys_erase h.keys f, ?_⟩
    · rw [hfr]; exact h.framesNodup.filter _
    · intro g m
      simp only [Table.mem_erase, h.hash, List.mem_filter, decide_eq_true_eq]
      exact ⟨fun ⟨hm, hg⟩ => ⟨hm, fun hmn => hg (h.node_inj (hmn ▸ hm) hnf)⟩,
        fun ⟨hm, hmn⟩ => ⟨hm, fun hg => hmn (h.frame_inj (hg ▸ hm) hnf)⟩⟩
  · exact h

/-- `unpin f` adds `f` as the most recently unpinned frame, unless it is already eligible. -/
theorem unpin_frames {r : LRUReplacer F} (h : r.Wf) (f : F) :
    (r.unpin f).frames = if f ∈ r.frames then r.frames else f :: r.frames := by
  unfold unpin
  by_cases hf : f ∈ r.frames
  · rw [if_pos ((h.lookup_isSome).2 hf), if_pos hf]
  · rw [if_neg (mt (h.lookup_isSome).1 hf), if_neg hf]; rfl

theorem unpin_wf {r : LRUReplacer F} (h : r.Wf) (f : F) : (r.unpin f).Wf := by
  unfold unpin
  split
  · exact h
  · rename_i hs
    have hf : f ∉ r.frames := mt (h.lookup_isSome).2 hs
    have hn : r.nextNode ∉ r.lruList.map Prod.fst := fun hm => by
      obtain ⟨e, he, hne⟩ := List.mem_map.1 hm
      exact absurd (h.fresh e he) (by omega)
    refine ⟨List.nodup_cons.2 ⟨hn, h.nodes⟩, ?_, List.nodup_cons.2 ⟨hf, h.framesNodup⟩,
      Table.keys_set h.keys f _, ?_⟩
    · intro e he
      rcases List.mem_cons.1 he with rfl | he
      · exact Nat.lt_succ_self _
      · exact Nat.lt_succ_of_lt (h.fresh e he)
    · intro g m
      simp only [Table.mem_set, Prod.mk.injEq, h.hash, List.mem_cons]
      constructor
      · rintro (⟨rfl, rfl⟩ | ⟨hm, -⟩)
        · exact .inl ⟨rfl, rfl⟩
        · exact .inr hm
      · rintro (⟨rfl, rfl⟩ | hm)
        · exact .inl ⟨rfl, rfl⟩
        · refine .inr ⟨hm, fun hg => hf ?_⟩
          exact mem_frames.2 ⟨m, hg ▸ hm⟩

end LRUReplacer

end Rmdb
