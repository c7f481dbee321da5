import Mathlib

/-!
# Regions of memory

A region is a list of cells. Reads and writes of ranges fail if they leave the region. A region
can be seen as a list of blocks of one width; ranges of whole blocks are then ranges of that
list.
-/

namespace Region

open List

variable {α : Type} {l l₀ data : List α} {offset size w i k n : Nat}

def read (l : List α) (offset size : Nat) : Option (List α) :=
  if offset + size ≤ l.length then some ((l.drop offset).take size) else none

def write (l : List α) (offset : Nat) (data : List α) : Option (List α) :=
  if offset + data.length ≤ l.length then
    some (l.take offset ++ data ++ l.drop (offset + data.length))
  else none

/-- Copy a range to another one, which may overlap it. -/
def move (l : List α) (target source size : Nat) : Option (List α) := do
  write l target (← read l source size)

/-- Copy a range to another one, which must not overlap it. -/
def copy (l : List α) (target source size : Nat) : Option (List α) :=
  if source + size ≤ target ∨ target + size ≤ source then move l target source size else none

theorem read_ok (h : offset + size ≤ l.length) :
    read l offset size = some ((l.drop offset).take size) :=
  if_pos h

theorem length_of_read (h : read l offset size = some data) : data.length = size := by
  unfold read at h
  split at h
  · cases h
    rw [length_take, length_drop]
    omega
  · cases h

theorem read_append (l₁ l₂ l₃ : List α) :
    read (l₁ ++ (l₂ ++ l₃)) l₁.length l₂.length = some l₂ := by
  rw [read_ok (by simp), drop_left, take_left]

theorem write_ok (h : offset + data.length ≤ l.length) :
    write l offset data = some (l.take offset ++ data ++ l.drop (offset + data.length)) :=
  if_pos h

theorem write_length (h : write l offset data = some l') : l'.length = l.length := by
  unfold write at h
  split at h
  · cases h
    simp only [length_append, length_take, length_drop]
    omega
  · cases h

theorem getElem?_write (h : write l offset data = some l') (j : Nat) :
    l'[j]? = if offset ≤ j ∧ j < offset + data.length then data[j - offset]? else l[j]? := by
  unfold write at h
  split at h
  · next hle =>
    cases h
    rw [append_assoc, getElem?_append, length_take_of_le (by omega)]
    by_cases hlt : j < offset
    · rw [if_pos hlt, if_neg (by omega), getElem?_take_of_lt hlt]
    · rw [if_neg hlt, getElem?_append]
      by_cases hin : j < offset + data.length
      · rw [if_pos (by omega), if_pos (by omega)]
      · rw [if_neg (by omega), if_neg (by omega), getElem?_drop]
        congr 1
        omega
  · cases h

theorem take_write (h : write l offset data = some l') :
    l'.take (offset + data.length) = l.take offset ++ data := by
  unfold write at h
  split at h
  · next hle =>
    cases h
    rw [take_append_of_le_length, take_of_length_le]
    all_goals rw [length_append, length_take]; omega
  · cases h

theorem write_append (h : write l offset data = some l₁)
    (hfits : offset + data.length + data'.length ≤ l.length) :
    ∃ l₂, write l₁ (offset + data.length) data' = some l₂ ∧
      write l offset (data ++ data') = some l₂ := by
  have hroom : offset + data.length + data'.length ≤ l₁.length := by rwa [write_length h]
  have hroom' : offset + (data ++ data').length ≤ l.length := by
    rw [length_append]
    omega
  refine ⟨_, write_ok hroom, ?_⟩
  rw [write_ok hroom', take_write h, length_append]
  congr 2
  · rw [append_assoc]
  · apply ext_getElem?
    intro j
    rw [getElem?_drop, getElem?_drop, getElem?_write h, if_neg (by omega)]
    congr 1
    omega

theorem write_nil (h : offset ≤ l.length) : write l offset [] = some l := by
  rw [write_ok (by simpa using h), append_nil, length_nil, Nat.add_zero, take_append_drop]

theorem write_map_range {β : Type} {f g : Nat → β} {data : List β}
    (hfits : offset + data.length ≤ n)
    (h : ∀ j < n, some (g j) = if offset ≤ j ∧ j < offset + data.length then
      data[j - offset]? else some (f j)) :
    write ((List.range n).map f) offset data = some ((List.range n).map g) := by
  have hroom : offset + data.length ≤ ((List.range n).map f).length := by
    rw [length_map, length_range]
    exact hfits
  rw [write_ok hroom]
  congr 1
  apply ext_getElem?
  intro j
  rw [getElem?_write (write_ok hroom), getElem?_map, getElem?_map]
  by_cases hj : j < n
  · rw [getElem?_range hj, Option.map_some, Option.map_some, h j hj]
  · rw [if_neg (by omega), getElem?_eq_none (by rw [length_range]; omega)]
    rfl

theorem read_map_range {β : Type} {f : Nat → β} (hfits : offset + size ≤ n) :
    read ((List.range n).map f) offset size =
      some ((List.range size).map fun i => f (offset + i)) := by
  rw [read_ok (by rw [length_map, length_range]; exact hfits)]
  congr 1
  apply ext_getElem?
  intro j
  by_cases hj : j < size
  · rw [getElem?_take_of_lt hj, getElem?_drop, getElem?_map, getElem?_map,
      getElem?_range (by omega), getElem?_range hj]
    rfl
  · rw [getElem?_take_eq_none (by omega), getElem?_map,
      getElem?_eq_none (by rw [length_range]; omega)]
    rfl

-- Blocks

/-- The block at a place, if blocks have `w` cells. -/
def block (w : Nat) (l : List α) (i : Nat) : List α := (l.drop (i * w)).take w

theorem getElem?_block (hj : j < w) : (block w l i)[j]? = l[i * w + j]? := by
  rw [block, getElem?_take_of_lt hj, getElem?_drop]

theorem block_congr (h : ∀ j < w, l[i * w + j]? = l'[k * w + j]?) : block w l i = block w l' k := by
  apply ext_getElem?
  intro j
  by_cases hj : j < w
  · rw [getElem?_block hj, getElem?_block hj, h j hj]
  · rw [block, block, getElem?_take_eq_none (by omega), getElem?_take_eq_none (by omega)]

theorem length_block (h : (i + 1) * w ≤ l.length) : (block w l i).length = w := by
  rw [block, length_take, length_drop]
  rw [Nat.add_one_mul] at h
  omega

theorem read_block (h : (i + 1) * w ≤ l.length) : read l (i * w) w = some (block w l i) :=
  read_ok (by rw [Nat.add_one_mul] at h; exact h)

theorem block_of_read (h : read l (k * w) (n * w) = some data) (hi : i < n) :
    block w data i = block w l (k + i) := by
  unfold read at h
  split at h
  · cases h
    refine block_congr fun j hj => ?_
    have hlt : i * w + j < n * w := by
      have := Nat.mul_le_mul_right w (Nat.succ_le_of_lt hi)
      rw [Nat.succ_mul] at this
      omega
    rw [getElem?_take_of_lt hlt, getElem?_drop, Nat.add_mul, Nat.add_assoc]
  · cases h

theorem block_of_write (h : write l (k * w) data = some l') (hdata : data.length = n * w)
    (i : Nat) :
    block w l' i = if k ≤ i ∧ i < k + n then block w data (i - k) else block w l i := by
  split
  · next hin =>
    refine block_congr fun j hj => ?_
    obtain ⟨d, rfl⟩ : ∃ d, i = k + d := ⟨i - k, by omega⟩
    have hlt : d * w + j < n * w := by
      have := Nat.mul_le_mul_right w (Nat.succ_le_of_lt (show d < n by omega))
      rw [Nat.succ_mul] at this
      omega
    rw [getElem?_write h, Nat.add_mul, if_pos (by omega), Nat.add_sub_cancel_left]
    congr 1
    omega
  · next hout =>
    refine block_congr fun j hj => ?_
    rw [getElem?_write h, if_neg]
    rintro ⟨hlow, hhigh⟩
    rw [hdata, ← Nat.add_mul] at hhigh
    refine hout ⟨?_, ?_⟩
    · by_contra hlt
      have := Nat.mul_le_mul_right w (Nat.succ_le_of_lt (Nat.lt_of_not_le hlt))
      rw [Nat.succ_mul] at this
      omega
    · by_contra hge
      have := Nat.mul_le_mul_right w (Nat.le_of_not_lt hge)
      omega

theorem block_of_write_one (h : write l (k * w) data = some l') (hdata : data.length = w)
    (i : Nat) :
    block w l' i = if i = k then data else block w l i := by
  rw [block_of_write (n := 1) h (by rw [hdata, Nat.one_mul])]
  by_cases hik : i = k
  · subst hik
    rw [if_pos ⟨Nat.le_refl _, Nat.lt_succ_self _⟩, if_pos rfl, Nat.sub_self, block, Nat.zero_mul,
      drop_zero, ← hdata, take_length]
  · rw [if_neg (by omega), if_neg hik]

-- Equal blocks

/-- `l` is `l₀` with `n` equal blocks from place `k` on. -/
structure Filled (w : Nat) (pattern : List α) (l₀ l : List α) (k n : Nat) : Prop where
  length : l.length = l₀.length
  blocks : ∀ i, block w l i = if k ≤ i ∧ i < k + n then pattern else block w l₀ i

variable {pattern : List α}

theorem Filled.none (w : Nat) (pattern l : List α) (k : Nat) : Filled w pattern l l k 0 :=
  ⟨rfl, fun i => (if_neg (by omega)).symm⟩

theorem Filled.write (h : Filled w pattern l₀ l k n) (hpattern : pattern.length = w)
    (hfits : (k + n + 1) * w ≤ l₀.length) :
    ∃ l', Region.write l ((k + n) * w) pattern = some l' ∧ Filled w pattern l₀ l' k (n + 1) := by
  have hroom : (k + n) * w + pattern.length ≤ l.length := by
    rw [h.length, hpattern, ← Nat.add_one_mul]
    exact hfits
  refine ⟨_, write_ok hroom, (write_length (write_ok hroom)).trans h.length, fun i => ?_⟩
  rw [block_of_write_one (write_ok hroom) hpattern, h.blocks]
  by_cases hi : i = k + n
  · rw [if_pos hi, if_pos (by omega)]
  · rw [if_neg hi]
    by_cases hin : k ≤ i ∧ i < k + n
    · rw [if_pos hin, if_pos (by omega)]
    · rw [if_neg hin, if_neg (by omega)]

theorem write_replicate (hfits : (k + n) * 1 ≤ l.length) :
    ∃ l', Region.write l (k * 1) (List.replicate n a) = some l' ∧ Filled 1 [a] l l' k n := by
  have hroom : k * 1 + (List.replicate n a).length ≤ l.length := by
    rw [length_replicate]
    omega
  refine ⟨_, write_ok hroom, write_length (write_ok hroom), fun i => ?_⟩
  rw [block_of_write (n := n) (write_ok hroom) (by rw [length_replicate, Nat.mul_one])]
  by_cases hin : k ≤ i ∧ i < k + n
  · rw [if_pos hin, if_pos hin, block, drop_replicate, take_replicate,
      Nat.min_eq_left (show 1 ≤ n - (i - k) * 1 by omega)]
    rfl
  · rw [if_neg hin, if_neg hin]

/-- Blocks that were written are copied behind them. -/
theorem Filled.copy (h : Filled w pattern l₀ l k n) (hm : m ≤ n)
    (hfits : (k + n + m) * w ≤ l₀.length) :
    ∃ l', Region.copy l ((k + n) * w) (k * w) (m * w) = some l' ∧
      Filled w pattern l₀ l' k (n + m) := by
  have hmn := Nat.mul_le_mul_right w hm
  have hfits' := hfits
  rw [← h.length, Nat.add_mul, Nat.add_mul] at hfits'
  have hread : read l (k * w) (m * w) = some ((l.drop (k * w)).take (m * w)) := read_ok (by omega)
  have hlength := length_of_read hread
  have hroom : (k + n) * w + ((l.drop (k * w)).take (m * w)).length ≤ l.length := by
    rw [hlength, Nat.add_mul]
    omega
  have hwrite := write_ok hroom
  refine ⟨_, ?_, (write_length hwrite).trans h.length, fun i => ?_⟩
  · rw [Region.copy, if_pos (.inl (by rw [Nat.add_mul]; omega)), move, hread]
    exact hwrite
  · rw [block_of_write hwrite hlength]
    by_cases hnew : k + n ≤ i ∧ i < k + n + m
    · rw [if_pos hnew, if_pos (by omega), block_of_read hread (by omega), h.blocks,
        if_pos (by omega)]
    · rw [if_neg hnew, h.blocks]
      by_cases hin : k ≤ i ∧ i < k + n
      · rw [if_pos hin, if_pos (by omega)]
      · rw [if_neg hin, if_neg (by omega)]

-- Ranges one after the other

/-- The ranges, each with its offset and size, follow each other from `first` to `last`. -/
def Tiles : List (Nat × Nat) → Nat → Nat → Prop
  | [], first, last => first = last
  | (offset, size) :: ranges, first, last => offset = first ∧ Tiles ranges (first + size) last

def InRange (i : Nat) (range : Nat × Nat) : Prop := range.1 ≤ i ∧ i < range.1 + range.2

section Tiles

variable {ranges : List (Nat × Nat)} {first last : Nat}

theorem Tiles.le (h : Tiles ranges first last) : first ≤ last := by
  induction ranges generalizing first with
  | nil => exact Nat.le_of_eq h
  | cons range ranges ih => exact Nat.le_trans (Nat.le_add_right _ _) (ih h.2)

theorem Tiles.bounds (h : Tiles ranges first last) {range : Nat × Nat} (hmem : range ∈ ranges)
    (hi : InRange i range) : first ≤ i ∧ i < last := by
  induction ranges generalizing first with
  | nil => cases hmem
  | cons head ranges ih =>
    obtain ⟨rfl, htail⟩ := h
    rcases mem_cons.mp hmem with rfl | hmem
    · exact ⟨hi.1, Nat.lt_of_lt_of_le hi.2 htail.le⟩
    · have := ih htail hmem
      omega

/-- Every place from the first to the last is in one of the ranges, and in no other. -/
theorem Tiles.existsUnique (h : Tiles ranges first last) (hfirst : first ≤ i) (hlast : i < last) :
    ∃! k : Nat, ∃ range, ranges[k]? = some range ∧ InRange i range := by
  induction ranges generalizing first with
  | nil =>
    have heq : first = last := h
    omega
  | cons head ranges ih =>
    obtain ⟨rfl, htail⟩ := h
    by_cases hi : i < head.1 + head.2
    · refine ⟨0, ⟨head, rfl, hfirst, hi⟩, fun k => ?_⟩
      rintro ⟨range, hk, hin⟩
      cases k with
      | zero => rfl
      | succ k =>
        have := (htail.bounds (mem_of_getElem? hk) hin).1
        omega
    · obtain ⟨k, hk, hunique⟩ := ih htail (by omega)
      refine ⟨k + 1, hk, fun j => ?_⟩
      rintro ⟨range, hj, hin⟩
      cases j with
      | zero =>
        cases hj
        exact absurd hin.2 hi
      | succ j => rw [hunique j ⟨range, hj, hin⟩]

theorem Tiles.flatMap (h : Tiles ranges first last) :
    (ranges.flatMap fun range => (l.drop range.1).take range.2) =
      (l.drop first).take (last - first) := by
  induction ranges generalizing first with
  | nil =>
    rw [show first = last from h, Nat.sub_self]
    rfl
  | cons head ranges ih =>
    obtain ⟨rfl, htail⟩ := h
    have hle := htail.le
    rw [flatMap_cons, ih htail, ← drop_drop, ← take_add]
    congr 1
    omega

end Tiles

end Region
