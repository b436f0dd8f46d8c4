import Mathlib.Data.List.Nodup
import Mathlib.Data.List.Count

/-!
# Common definitions

The identifiers and constants the buffer pool and the record layer share, and `Table`, the
`std::unordered_map` in which the buffer pool manager keeps its page table and the replacer its
index of list nodes. The headers that declare the identifiers and constants are not part of the
sources; they are modelled from the spec's data model (its sections 3 and 6).
-/

namespace Rmdb

/-! ## Identifiers and constants -/

/-- Modelled from the spec: `INVALID_PAGE_ID`, the `page_no` of an unbound frame and of a failed
`allocate_page`. -/
def invalidPageId : Int := -1

/-- Modelled from the spec: `RM_FILE_HDR_PAGE`, the page holding a record file's header. -/
def rmFileHdrPage : Int := 0

/-- Modelled from the spec: `RM_FIRST_RECORD_PAGE`, the first data page of a record file. -/
def rmFirstRecordPage : Int := 1

/-- Modelled from the spec: `RM_NO_PAGE`, the end of the free-page list. -/
def rmNoPage : Int := -1

/-- Modelled from the spec: `PageId`, page `pageNo` of the file open as `fd`. -/
structure PageId where
  fd : Int
  pageNo : Int
deriving DecidableEq, Repr

/-- Modelled from the spec: `Rid`, slot `slotNo` of data page `pageNo`. -/
structure Rid where
  pageNo : Int
  slotNo : Int
deriving DecidableEq, Repr

/-! ## Hash tables -/

/-- `std::unordered_map<K, V>` as its list of entries, read with the core `List.lookup`
(`find(k)`). The invariants of its users keep the keys distinct (`keys.Nodup`, as
`Table.lookup_iff_mem` assumes), so iterating over the list visits each entry once. -/
abbrev Table (K V : Type) := List (K × V)

namespace Table

variable {K V : Type} [DecidableEq K]

/-- `erase(k)`. -/
def erase (t : Table K V) (k : K) : Table K V := t.filter fun e => e.1 ≠ k

/-- `t[k] = v`: assigns the entry of `k`, inserting it when absent. -/
def set (t : Table K V) (k : K) (v : V) : Table K V := (k, v) :: t.erase k

@[simp] theorem mem_erase {t : Table K V} {k : K} {e : K × V} :
    e ∈ t.erase k ↔ e ∈ t ∧ e.1 ≠ k := by
  simp [erase]

@[simp] theorem mem_set {t : Table K V} {k : K} {v : V} {e : K × V} :
    e ∈ t.set k v ↔ e = (k, v) ∨ (e ∈ t ∧ e.1 ≠ k) := by
  simp [set]

/-- `List.lookup_eq_none_iff` with the entries named by their value. -/
theorem lookup_eq_none {t : Table K V} {k : K} : t.lookup k = none ↔ ∀ v, (k, v) ∉ t := by
  simp only [List.lookup_eq_none_iff, bne_iff_ne, ne_eq]
  exact ⟨fun h v hm => h _ hm rfl, fun h p hp e => h p.2 (e ▸ hp)⟩

theorem mem_of_lookup {t : Table K V} {k : K} {v : V} (h : t.lookup k = some v) : (k, v) ∈ t := by
  obtain ⟨l₁, l₂, rfl, -⟩ := List.lookup_eq_some_iff.1 h
  simp

@[simp] theorem lookup_erase (t : Table K V) (k k' : K) :
    (t.erase k).lookup k' = if k = k' then none else t.lookup k' := by
  split_ifs with h
  · exact lookup_eq_none.2 fun v hm => (mem_erase.1 hm).2 h.symm
  · induction t with
    | nil => rfl
    | cons e t ih =>
      obtain ⟨a, b⟩ := e
      by_cases ha : a = k
      · subst ha; simpa [erase, List.lookup_cons, beq_eq_decide, Ne.symm h] using ih
      · simp only [erase, List.filter_cons, ne_eq, ha, not_false_eq_true, decide_True, if_true,
          List.lookup_cons] at ih ⊢
        rw [ih]

@[simp] theorem lookup_set (t : Table K V) (k k' : K) (v : V) :
    (t.set k v).lookup k' = if k = k' then some v else t.lookup k' := by
  by_cases h : k = k' <;> simp [set, List.lookup_cons, beq_eq_decide, h, Ne.symm]

/-! ### Distinct keys -/

/-- The keys of a table. -/
def keys (t : Table K V) : List K := t.map Prod.fst

/-- The values of a table, with their multiplicity. -/
def values (t : Table K V) : List V := t.map Prod.snd

theorem lookup_iff_mem {t : Table K V} (h : t.keys.Nodup) {k : K} {v : V} :
    t.lookup k = some v ↔ (k, v) ∈ t := by
  refine ⟨mem_of_lookup, fun hm => ?_⟩
  induction t with
  | nil => simp at hm
  | cons e t ih =>
    obtain ⟨a, b⟩ := e
    simp only [keys, List.map_cons, List.nodup_cons, List.mem_map] at h
    rcases List.mem_cons.1 hm with e | hm
    · cases e; simp
    · have ha : a ≠ k := fun e => h.1 ⟨(k, v), hm, e.symm ▸ rfl⟩
      simp [List.lookup_cons, beq_eq_decide, Ne.symm ha, ih h.2 hm]

theorem keys_erase {t : Table K V} (h : t.keys.Nodup) (k : K) : (t.erase k).keys.Nodup :=
  (List.Sublist.map _ (List.filter_sublist _)).nodup h

theorem keys_set {t : Table K V} (h : t.keys.Nodup) (k : K) (v : V) : (t.set k v).keys.Nodup := by
  refine List.nodup_cons.2 ⟨?_, keys_erase h k⟩
  simp [keys]

omit [DecidableEq K] in
theorem mem_values {t : Table K V} {v : V} : v ∈ t.values ↔ ∃ k, (k, v) ∈ t := by
  simp [values]

end Table

end Rmdb
