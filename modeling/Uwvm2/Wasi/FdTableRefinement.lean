import Uwvm2.Wasi.FdTable

/-!
# The descriptor table is a partial map

The table stands for the partial map `find` from numbers to descriptors. Under the
invariant `Inv`, which every call keeps, `path_open` adds a descriptor at a number that
was free, `fd_close` removes one and `fd_renumber` moves one; a call that fails changes
nothing.
-/

namespace Uwvm2.Wasi

open Function List Option

variable {F : Type}

-- Numbers

section Numbers

variable {fd : Int32}

theorem toInt_of_not_neg (h : ¬ fd < 0) : fd.toInt = opensPos fd := by
  rw [Int32.lt_iff_toInt_lt, Int32.toInt_zero] at h
  rw [opensPos, Int.toNat_of_nonneg (Int.not_lt.mp h)]

theorem opensPos_inj (h : ¬ fd < 0) (h' : ¬ fd' < 0) (heq : opensPos fd = opensPos fd') :
    fd = fd' := by
  rw [← Int32.toInt_inj, toInt_of_not_neg h, toInt_of_not_neg h', heq]

theorem toInt_ofNat (h : n < 2 ^ 31) : (Int32.ofNat n).toInt = n := Int32.toInt_ofNat_of_lt h

theorem ofNat_not_neg (h : n < 2 ^ 31) : ¬ Int32.ofNat n < 0 := by
  rw [Int32.lt_iff_toInt_lt, toInt_ofNat h, Int32.toInt_zero]
  omega

theorem opensPos_ofNat (h : n < 2 ^ 31) : opensPos (Int32.ofNat n) = n := by
  rw [opensPos, toInt_ofNat h, Int.toNat_natCast]

end Numbers

-- The partial map and the invariant

def closePosOf (opens : List (WasiFd F)) (j : Nat) : Option Nat := opens[j]?.bind WasiFd.closePos

namespace FdStorage

def find (storage : FdStorage F) (fd : Int32) : Option (WasiFd F) :=
  if fd < 0 then none
  else
    match storage.opens[opensPos fd]? with
    | some slot => if slot.closePos = none then some slot else none
    | none => storage.renumberMap.lookup fd

/-- What holds of the slots and entries themselves. -/
structure Consistent (storage : FdStorage F) : Prop where
  /-- `closes[p] = j` exactly when `opens[j].close_pos = p`. -/
  back : BackPointers storage.closes (closePosOf storage.opens)
  /-- A closed slot holds no file. -/
  closed_empty : ∀ slot ∈ storage.opens, slot.closePos ≠ none → ∀ file, slot.wasiFd ≠ .bound file
  /-- An entry beyond the vector is open. -/
  renumbered_open : ∀ ⦃fd slot⦄, storage.renumberMap.lookup fd = some slot → slot.closePos = none
  fits : storage.opens.length ≤ 2 ^ 31

structure Inv (storage : FdStorage F) : Prop extends storage.Consistent where
  /-- There is a gap between the vector and the map. -/
  keys_gt : ∀ ⦃fd⦄, fd ∈ storage.renumberMap → (storage.opens.length : Int) < fd.toInt

end FdStorage

-- Slots

section Slots

variable {opens : List (WasiFd F)} {j : Nat} {slot : WasiFd F}

theorem closePosOf_of_getElem? (h : opens[j]? = some slot) :
    closePosOf opens j = slot.closePos := by
  rw [closePosOf, h, bind_some]

theorem lt_of_closePosOf (h : closePosOf opens j ≠ none) : j < opens.length := by
  by_contra hge
  rw [closePosOf, getElem?_eq_none (Nat.le_of_not_lt hge)] at h
  exact h rfl

theorem closePosOf_set (hj : j < opens.length) :
    closePosOf (opens.set j slot) = update (closePosOf opens) j slot.closePos := by
  funext k
  by_cases hk : k = j
  · rw [hk, update_self, closePosOf, getElem?_set_self hj, bind_some]
  · rw [update_of_ne hk, closePosOf, getElem?_set_ne (Ne.symm hk), closePosOf]

theorem closePosOf_append (hslot : slot.closePos = none) :
    closePosOf (opens ++ [slot]) = closePosOf opens := by
  funext k
  rw [closePosOf, closePosOf, getElem?_append, getElem?_singleton]
  split_ifs with hlt hk
  · rfl
  · rw [getElem?_eq_none (Nat.le_of_not_lt hlt), bind_some, hslot, bind_none]
  · rw [getElem?_eq_none (Nat.le_of_not_lt hlt)]

theorem closePosOf_modify (hj : j < opens.length) :
    closePosOf (opens.modify j fun slot => { slot with closePos := some i }) =
      writePlace (closePosOf opens) (j, i) := by
  funext k
  by_cases hk : k = j
  · subst hk
    simp [writePlace, closePosOf, hj]
  · simp [writePlace, closePosOf, hk, getElem?_modify_ne _ _ (Ne.symm hk)]

end Slots

namespace FdStorage

section Calls

variable {storage : FdStorage F} {fd : Int32} {slot : WasiFd F}

theorem find_of_slot (hfd : ¬ fd < 0) (h : storage.opens[opensPos fd]? = some slot) :
    storage.find fd = if slot.closePos = none then some slot else none := by
  simp only [find, hfd, if_false, h]

theorem find_of_entry (hfd : ¬ fd < 0) (h : storage.opens[opensPos fd]? = none) :
    storage.find fd = storage.renumberMap.lookup fd := by
  simp only [find, hfd, if_false, h]

theorem find_of_neg (hfd : fd < 0) : storage.find fd = none := by
  simp only [find, hfd, if_true]

theorem find_eq_update {storage' : FdStorage F} (hfd : ¬ fd < 0)
    (hopens : ∀ j ≠ opensPos fd, storage'.opens[j]? = storage.opens[j]?)
    (hmap : ∀ fd' ≠ fd, storage'.renumberMap.lookup fd' = storage.renumberMap.lookup fd')
    (hvalue : storage'.find fd = value) : storage'.find = update storage.find fd value := by
  funext fd'
  by_cases heq : fd' = fd
  · rw [heq, update_self, hvalue]
  · rw [update_of_ne heq, find, find]
    split
    case isTrue => rfl
    case isFalse hneg =>
      rw [hopens _ fun hpos => heq (opensPos_inj hneg hfd hpos), hmap _ heq]

-- Folding the map into the vector

theorem erase_entries_length {α : Type} {β : α → Type} [DecidableEq α] {entries : AList β} {a : α}
    (h : a ∈ entries) : (entries.erase a).entries.length + 1 = entries.entries.length := by
  have hkeys : ∀ s : AList β, s.entries.length = s.keys.length := fun s => by
    rw [AList.keys, List.keys, length_map]
  rw [hkeys, hkeys, AList.keys_erase]
  exact length_erase_add_one (AList.mem_keys.mp h)

theorem Consistent.append (h : storage.Consistent) (hlt : storage.opens.length < 2 ^ 31)
    (hopen : slot.closePos = none) {entries : AList fun _ : Int32 => WasiFd F}
    (hentries : ∀ fd ≠ Int32.ofNat storage.opens.length,
      entries.lookup fd = storage.renumberMap.lookup fd)
    (hkey : entries.lookup (Int32.ofNat storage.opens.length) = none) :
    { storage with opens := storage.opens ++ [slot], renumberMap := entries }.Consistent ∧
      { storage with opens := storage.opens ++ [slot], renumberMap := entries }.find =
        update storage.find (Int32.ofNat storage.opens.length) (some slot) := by
  have hneg := ofNat_not_neg hlt
  have hpos := opensPos_ofNat hlt
  refine ⟨⟨?_, fun slot' hmem hclosed => ?_, fun fd slot' hlookup => ?_, ?_⟩, ?_⟩
  · simp only [closePosOf_append hopen]
    exact h.back
  · rcases mem_append.mp hmem with hmem | hmem
    · exact h.closed_empty slot' hmem hclosed
    · rw [mem_singleton.mp hmem] at hclosed
      exact absurd hopen hclosed
  · by_cases heq : fd = Int32.ofNat storage.opens.length
    · rw [heq, hkey] at hlookup
      cases hlookup
    · exact h.renumbered_open ((hentries fd heq).symm.trans hlookup)
  · simpa using Nat.succ_le_of_lt hlt
  · refine find_eq_update hneg (fun j hj => ?_) hentries ?_
    · rw [getElem?_append, getElem?_singleton]
      split_ifs with hlt hlast
      · rfl
      · omega
      · rw [getElem?_eq_none (Nat.le_of_not_lt hlt)]
    · simp [find, hneg, hpos, hopen]

section

variable (h : storage.Consistent)
  (hkeys : ∀ {fd}, fd ∈ storage.renumberMap → (storage.opens.length : Int) ≤ fd.toInt)

include h hkeys

/-- One round: the entry behind the last slot becomes a slot. -/
theorem Consistent.round
    (hslot : storage.renumberMap.lookup (Int32.ofNat storage.opens.length) = some slot) :
    ∃ storage', { storage with
          opens := storage.opens ++ [slot]
          renumberMap := storage.renumberMap.erase (Int32.ofNat storage.opens.length) } = storage' ∧
      storage'.Consistent ∧
      (∀ {fd}, fd ∈ storage'.renumberMap → (storage'.opens.length : Int) ≤ fd.toInt) ∧
      storage'.find = storage.find := by
  -- the entry's key is not wrapped around
  have hlt : storage.opens.length < 2 ^ 31 := by
    have hkey := hkeys (AList.lookup_isSome.mp (by rw [hslot]; rfl))
    have hlt := Int32.toInt_lt (Int32.ofNat storage.opens.length)
    omega
  have hint := toInt_ofNat hlt
  have hneg := ofNat_not_neg hlt
  obtain ⟨hcons, hfind⟩ := h.append hlt (h.renumbered_open hslot)
    (fun fd hne => AList.lookup_erase_ne hne) (AList.lookup_erase _ _)
  refine ⟨_, rfl, hcons, fun {fd} hmem => ?_, ?_⟩
  · obtain ⟨hne, hmem⟩ := AList.mem_erase.mp hmem
    have hle := hkeys hmem
    have hne : fd.toInt ≠ storage.opens.length :=
      fun heq => hne (Int32.toInt_inj.mp (heq.trans hint.symm))
    simp only [length_append, length_singleton]
    omega
  · have hold : storage.find (Int32.ofNat storage.opens.length) = some slot := by
      rw [find_of_entry hneg (by rw [opensPos_ofNat hlt]; simp), hslot]
    rw [hfind, ← hold, update_eq_self]

/-- The loop leaves a gap and does not change what numbers denote. -/
theorem Consistent.normalizeLoop {fuel : Nat} (hfuel : storage.renumberMap.entries.length ≤ fuel) :
    (normalizeLoop fuel storage).Inv ∧ (normalizeLoop fuel storage).find = storage.find := by
  induction fuel generalizing storage with
  | zero =>
    refine ⟨⟨h, fun fd hmem => ?_⟩, rfl⟩
    have hempty : storage.renumberMap.entries = [] := length_eq_zero_iff.mp (by omega)
    have hmem : fd ∈ storage.renumberMap := hmem
    rw [AList.mem_keys, AList.keys, hempty] at hmem
    cases hmem
  | succ fuel ih =>
    rw [FdStorage.normalizeLoop]
    split
    case h_1 hnone =>
      refine ⟨⟨h, fun fd hmem => ?_⟩, rfl⟩
      refine Int.lt_iff_le_and_ne.mpr ⟨hkeys hmem, fun heq => ?_⟩
      have hlt : storage.opens.length < 2 ^ 31 := by
        have hlt := Int32.toInt_lt fd
        omega
      have hfd : fd = Int32.ofNat storage.opens.length := by
        rw [← Int32.toInt_inj, toInt_ofNat hlt, heq]
      rw [← hfd] at hnone
      exact AList.lookup_eq_none.mp hnone hmem
    case h_2 slot hslot =>
      obtain ⟨storage', hstorage', hcons, hkeys', hfind⟩ := h.round hkeys hslot
      have hlen : storage'.renumberMap.entries.length + 1 = storage.renumberMap.entries.length := by
        rw [← hstorage']
        exact erase_entries_length (AList.lookup_isSome.mp (by rw [hslot]; rfl))
      rw [hstorage']
      obtain ⟨hinv, hfind'⟩ := ih hcons hkeys' (by omega)
      exact ⟨hinv, hfind'.trans hfind⟩

theorem Consistent.normalize : storage.normalize.Inv ∧ storage.normalize.find = storage.find :=
  h.normalizeLoop hkeys (Nat.le_refl _)

end

-- Slots and entries of a table

theorem Inv.entry (h : storage.Inv) (hmem : fd ∈ storage.renumberMap) :
    ¬ fd < 0 ∧ storage.opens[opensPos fd]? = none := by
  have hkey := h.keys_gt hmem
  have hneg : ¬ fd < 0 := by
    rw [Int32.lt_iff_toInt_lt, Int32.toInt_zero]
    omega
  rw [toInt_of_not_neg hneg] at hkey
  exact ⟨hneg, getElem?_eq_none (by omega)⟩

theorem Inv.closeSlot (h : storage.Inv) (hfd : ¬ fd < 0)
    (hslot : storage.opens[opensPos fd]? = some slot) (hopen : slot.closePos = none)
    (rest : WasiFd F) (hrest : ∀ file, rest.wasiFd ≠ .bound file) :
    (storage.closeSlot (opensPos fd) rest).Inv ∧
      (storage.closeSlot (opensPos fd) rest).find = update storage.find fd none := by
  obtain ⟨hpos, -⟩ := List.getElem?_eq_some_iff.mp hslot
  refine ⟨⟨⟨?_, fun slot' hmem hclosed => ?_, h.renumbered_open, ?_⟩, ?_⟩, ?_⟩
  · simp only [FdStorage.closeSlot]
    rw [closePosOf_set hpos]
    exact h.back.push ((closePosOf_of_getElem? hslot).trans hopen)
  · rcases mem_or_eq_of_mem_set hmem with hmem | rfl
    · exact h.closed_empty slot' hmem hclosed
    · exact hrest
  · simpa [FdStorage.closeSlot] using h.fits
  · simpa [FdStorage.closeSlot] using h.keys_gt
  · refine find_eq_update hfd (fun j hj => ?_) (fun _ _ => rfl) ?_
    · simp only [FdStorage.closeSlot, getElem?_set_ne (Ne.symm hj)]
    · rw [find_of_slot hfd (by simp only [FdStorage.closeSlot, getElem?_set_self hpos]; rfl)]
      exact if_neg nofun

theorem Inv.eraseEntry (h : storage.Inv) (hmem : fd ∈ storage.renumberMap) :
    { storage with renumberMap := storage.renumberMap.erase fd }.Inv ∧
      { storage with renumberMap := storage.renumberMap.erase fd }.find =
        update storage.find fd none := by
  obtain ⟨hfd, hnone⟩ := h.entry hmem
  refine ⟨⟨⟨h.back, h.closed_empty, fun fd' slot' hlookup => ?_, h.fits⟩, fun fd' hmem' => ?_⟩, ?_⟩
  · by_cases heq : fd' = fd
    · rw [heq, AList.lookup_erase] at hlookup
      cases hlookup
    · rw [AList.lookup_erase_ne heq] at hlookup
      exact h.renumbered_open hlookup
  · exact h.keys_gt (AList.mem_erase.mp hmem').2
  · refine find_eq_update hfd (fun _ _ => rfl) (fun _ hne => AList.lookup_erase_ne hne) ?_
    simp only [find, hfd, if_false, hnone, AList.lookup_erase]

/-- The slots are the same up to the places of closed ones. -/
def SameSlots (opens opens' : List (WasiFd F)) : Prop :=
  opens'.length = opens.length ∧ ∀ ⦃j : Nat⦄ ⦃slot' : WasiFd F⦄, opens'[j]? = some slot' →
    ∃ slot, opens[j]? = some slot ∧ slot' = { slot with closePos := slot'.closePos } ∧
      (slot'.closePos = none ↔ slot.closePos = none)

theorem SameSlots.refl {opens : List (WasiFd F)} : SameSlots opens opens :=
  ⟨rfl, fun _ slot' h => ⟨slot', h, rfl, Iff.rfl⟩⟩

theorem SameSlots.trans {opens : List (WasiFd F)} (h : SameSlots opens opens')
    (h' : SameSlots opens' opens'') : SameSlots opens opens'' := by
  refine ⟨h'.1.trans h.1, fun j slot'' hslot'' => ?_⟩
  obtain ⟨slot', hslot', heq', hopen'⟩ := h'.2 hslot''
  obtain ⟨slot, hslot, heq, hopen⟩ := h.2 hslot'
  refine ⟨slot, hslot, ?_, hopen'.trans hopen⟩
  rw [heq', heq]

theorem SameSlots.modify {opens : List (WasiFd F)} (hj : closePosOf opens j ≠ none) :
    SameSlots opens (opens.modify j fun slot => { slot with closePos := some i }) := by
  refine ⟨length_modify _ _ _, fun k slot' hslot' => ?_⟩
  by_cases hk : k = j
  · subst hk
    rw [getElem?_modify_eq] at hslot'
    obtain ⟨slot, hslot, rfl⟩ := map_eq_some_iff.mp hslot'
    rw [closePosOf_of_getElem? hslot] at hj
    exact ⟨slot, hslot, rfl, iff_of_false nofun hj⟩
  · rw [getElem?_modify_ne _ _ (Ne.symm hk)] at hslot'
    exact ⟨slot', hslot', rfl, Iff.rfl⟩

theorem foldl_modify {cells : List (Nat × Nat)} {opens : List (WasiFd F)}
    (hcells : ∀ cell ∈ cells, closePosOf opens cell.1 ≠ none) :
    closePosOf (cells.foldl (fun opens cell => opens.modify cell.1
        fun slot => { slot with closePos := some cell.2 }) opens) =
      cells.foldl writePlace (closePosOf opens) ∧
    SameSlots opens (cells.foldl (fun opens cell => opens.modify cell.1
        fun slot => { slot with closePos := some cell.2 }) opens) := by
  induction cells generalizing opens with
  | nil => exact ⟨rfl, .refl⟩
  | cons cell cells ih =>
    have hcell := hcells cell mem_cons_self
    have hwrite := closePosOf_modify (i := cell.2) (lt_of_closePosOf hcell)
    rw [foldl_cons, foldl_cons, ← hwrite]
    have hrest : ∀ cell' ∈ cells, closePosOf (opens.modify cell.1
        fun slot => { slot with closePos := some cell.2 }) cell'.1 ≠ none := fun cell' hmem => by
      rw [hwrite, writePlace]
      by_cases heq : cell'.1 = cell.1
      · rw [heq, update_self]
        exact some_ne_none _
      · rw [update_of_ne heq]
        exact hcells cell' (mem_cons_of_mem _ hmem)
    obtain ⟨hpos, hsame⟩ := ih hrest
    exact ⟨hpos, (SameSlots.modify hcell).trans hsame⟩

/-- An open descriptor is put in a slot, whose place in `closes` is given up if it had one. -/
theorem Inv.setSlot (h : storage.Inv) (hfd : ¬ fd < 0) (hpos : opensPos fd < storage.opens.length)
    (hopen : slot.closePos = none) {opens : List (WasiFd F)} {closes : List Nat}
    (hsame : SameSlots storage.opens opens)
    (hback : BackPointers closes (update (closePosOf opens) (opensPos fd) none)) :
    { storage with opens := opens.set (opensPos fd) slot, closes := closes }.Inv ∧
      { storage with opens := opens.set (opensPos fd) slot, closes := closes }.find =
        update storage.find fd (some slot) := by
  have hpos' : opensPos fd < opens.length := hsame.1 ▸ hpos
  refine ⟨⟨⟨?_, fun slot' hmem hclosed => ?_, h.renumbered_open, ?_⟩, ?_⟩, ?_⟩
  · simp only
    rw [closePosOf_set hpos', hopen]
    exact hback
  · rcases mem_or_eq_of_mem_set hmem with hmem | rfl
    · obtain ⟨j, hj⟩ := mem_iff_getElem?.mp hmem
      obtain ⟨old, hold, heq, hiff⟩ := hsame.2 hj
      have hempty := h.closed_empty old (mem_of_getElem? hold) (mt hiff.mpr hclosed)
      rwa [heq]
    · exact absurd hopen hclosed
  · simpa [hsame.1] using h.fits
  · simpa [hsame.1] using h.keys_gt
  · funext fd'
    by_cases heq : fd' = fd
    · rw [heq, update_self,
        find_of_slot hfd (getElem?_set_self hpos' : _ = some slot), if_pos hopen]
    · rw [update_of_ne heq, find, find]
      split
      case isTrue => rfl
      case isFalse hneg =>
        have hne : opensPos fd ≠ opensPos fd' := fun hp => heq (opensPos_inj hneg hfd hp.symm)
        simp only [getElem?_set_ne hne]
        cases hget : opens[opensPos fd']? with
        | none =>
          have hnone : storage.opens[opensPos fd']? = none := by
            rw [getElem?_eq_none_iff, ← hsame.1, ← getElem?_eq_none_iff, hget]
          rw [hnone]
        | some slot' =>
          obtain ⟨old, hold, hslot', hiff⟩ := hsame.2 hget
          rw [hold]
          by_cases hnone : old.closePos = none
          · have hnone' := hiff.mpr hnone
            have hsame' : slot' = old := by rw [hslot', hnone', ← hnone]
            rw [hsame']
          · simp only [hnone, mt hiff.mp hnone, if_false]

-- The calls

theorem Inv.allocate (h : storage.Inv) (hopen : slot.closePos = none) :
    (∃ errno, (errno = .eio ∨ errno = .emfile) ∧
        storage.allocate slot = (errno, none, storage)) ∨
      ∃ fd storage', storage.allocate slot = (.esuccess, some fd, storage') ∧ storage'.Inv ∧
        ¬ fd < 0 ∧ storage.find fd = none ∧
        storage'.find = update storage.find fd (some slot) := by
  fun_cases FdStorage.allocate storage slot with
  | case1 => exact .inl ⟨_, .inl rfl, rfl⟩
  | case3 _ _ pos hlast =>
    -- the last closed slot is used again
    obtain ⟨closes, hcloses⟩ := getLast?_eq_some_iff.mp hlast
    have hback := h.back
    rw [hcloses] at hback
    have hclosed : closePosOf storage.opens pos = some closes.length := hback.mp (by simp)
    have hpos : pos < storage.opens.length := lt_of_closePosOf (by rw [hclosed]; exact nofun)
    have hlt : pos < 2 ^ 31 := Nat.lt_of_lt_of_le hpos h.fits
    have hfd := ofNat_not_neg hlt
    have hpos' := opensPos_ofNat hlt
    obtain ⟨hinv, hfind⟩ := h.setSlot hfd (hpos'.symm ▸ hpos) hopen .refl (hpos'.symm ▸ hback.pop)
    rw [hpos'] at hinv hfind
    refine .inr ⟨_, _, rfl, ?_, hfd, ?_, ?_⟩
    · rwa [hcloses, dropLast_concat]
    · have hget := getElem?_eq_getElem hpos
      rw [closePosOf_of_getElem? hget] at hclosed
      rw [find_of_slot hfd (by rw [hpos', hget]), if_neg (by rw [hclosed]; exact nofun)]
    · rwa [hcloses, dropLast_concat]
  | case5 _ _ _ hroom =>
    have hlt : storage.opens.length < 2 ^ 31 := by
      simp only [fdMax] at hroom
      omega
    have hkey : storage.renumberMap.lookup (Int32.ofNat storage.opens.length) = none := by
      refine AList.lookup_eq_none.mpr fun hmem => ?_
      have hgt := h.keys_gt hmem
      rw [toInt_ofNat hlt] at hgt
      exact absurd hgt (Int.lt_irrefl _)
    obtain ⟨hcons, hfind⟩ := h.toConsistent.append hlt hopen (fun _ _ => rfl) hkey
    obtain ⟨hinv, hfind'⟩ := hcons.normalize fun {fd} hmem => by
      have hgt := h.keys_gt hmem
      simp only [length_append, length_singleton]
      omega
    have hfd := ofNat_not_neg hlt
    refine .inr ⟨_, _, rfl, hinv, hfd, ?_, hfind'.trans hfind⟩
    rw [find_of_entry hfd (by rw [opensPos_ofNat hlt]; simp), hkey]
  | _ => exact .inl ⟨_, .inr rfl, rfl⟩

theorem Inv.fdClose (h : storage.Inv) (fd : Int32) :
    (storage.find fd = none ∧ storage.fdClose fd = (.ebadf, storage)) ∨
      ∃ slot errno storage', storage.find fd = some slot ∧
        storage.fdClose fd = (errno, storage') ∧
        (errno = .esuccess ∨ errno = .eio ∧ slot.wasiFd = .null) ∧
        storage'.Inv ∧ storage'.find = update storage.find fd none := by
  fun_cases FdStorage.fdClose storage fd with
  | case1 hneg => exact .inl ⟨find_of_neg hneg, rfl⟩
  | case2 hneg hnone slot hslot =>
    obtain ⟨hinv, hfind⟩ := h.eraseEntry (AList.lookup_isSome.mp (by rw [hslot]; rfl))
    exact .inr ⟨slot, _, _, (find_of_entry hneg hnone).trans hslot, rfl, .inl rfl, hinv, hfind⟩
  | case3 hneg hnone hslot => exact .inl ⟨(find_of_entry hneg hnone).trans hslot, rfl⟩
  | case4 hneg slot hslot hclosed =>
    exact .inl ⟨(find_of_slot hneg hslot).trans (if_neg hclosed), rfl⟩
  | case5 hneg slot hslot hopen =>
    have hopen := not_not.mp hopen
    obtain ⟨hinv, hfind⟩ := h.closeSlot hneg hslot hopen { wasiFd := .null } nofun
    refine .inr ⟨slot, _, _, (find_of_slot hneg hslot).trans (if_pos hopen), rfl, ?_, hinv, hfind⟩
    cases hfile : slot.wasiFd with
    | null => exact .inr ⟨rfl, rfl⟩
    | unbound => exact .inl rfl
    | bound file => exact .inl rfl

theorem Inv.takeFrom (h : storage.Inv) (hfd : ¬ fd < 0) :
    (storage.find fd = none ∧ storage.takeFrom fd = none) ∨
      ∃ slot storage', storage.find fd = some slot ∧ slot.closePos = none ∧
        storage.takeFrom fd = some (slot, storage') ∧ storage'.Inv ∧
        storage'.find = update storage.find fd none := by
  fun_cases FdStorage.takeFrom storage fd with
  | case1 hnone =>
    have hfind := find_of_entry hfd hnone
    cases hslot : storage.renumberMap.lookup fd with
    | none => exact .inl ⟨hfind.trans hslot, rfl⟩
    | some slot =>
      obtain ⟨hinv, hfind'⟩ := h.eraseEntry (AList.lookup_isSome.mp (by rw [hslot]; rfl))
      exact .inr ⟨slot, _, hfind.trans hslot, h.renumbered_open hslot, rfl, hinv, hfind'⟩
  | case2 slot hslot hclosed => exact .inl ⟨(find_of_slot hfd hslot).trans (if_neg hclosed), rfl⟩
  | case3 slot hslot hopen =>
    have hopen := not_not.mp hopen
    obtain ⟨hinv, hfind⟩ := h.closeSlot hfd hslot hopen {} nofun
    exact .inr ⟨slot, _, (find_of_slot hfd hslot).trans (if_pos hopen), hopen, rfl, hinv, hfind⟩

theorem Inv.insertEntry (h : storage.Inv) (hfd : ¬ fd < 0)
    (hnone : storage.opens[opensPos fd]? = none) (hopen : slot.closePos = none) :
    { storage with renumberMap := storage.renumberMap.insert fd slot }.Consistent ∧
      (∀ {fd'}, fd' ∈ storage.renumberMap.insert fd slot →
        (storage.opens.length : Int) ≤ fd'.toInt) ∧
      { storage with renumberMap := storage.renumberMap.insert fd slot }.find =
        update storage.find fd (some slot) := by
  refine ⟨⟨h.back, h.closed_empty, fun fd' slot' hlookup => ?_, h.fits⟩, fun {fd'} hmem => ?_, ?_⟩
  · by_cases heq : fd' = fd
    · rw [heq, AList.lookup_insert] at hlookup
      cases hlookup
      exact hopen
    · rw [AList.lookup_insert_ne heq] at hlookup
      exact h.renumbered_open hlookup
  · rcases (AList.mem_insert _).mp hmem with rfl | hmem
    · rw [toInt_of_not_neg hfd]
      exact Int.ofNat_le.mpr (getElem?_eq_none_iff.mp hnone)
    · exact Int.le_of_lt (h.keys_gt hmem)
  · refine find_eq_update hfd (fun _ _ => rfl) (fun _ hne => AList.lookup_insert_ne hne) ?_
    simp only [find, hfd, if_false, hnone, AList.lookup_insert]

theorem Inv.putTo (h : storage.Inv) (hfd : ¬ fd < 0) (hopen : slot.closePos = none) :
    (storage.putTo fd slot).Inv ∧
      (storage.putTo fd slot).find = update storage.find fd (some slot) := by
  unfold FdStorage.putTo
  split
  case h_1 hnone =>
    obtain ⟨hcons, hkeys, hfind⟩ := h.insertEntry hfd hnone hopen
    split
    case h_1 old hold =>
      -- the key is not new, so the gap is still there
      refine ⟨⟨hcons, fun fd' hmem => ?_⟩, hfind⟩
      rcases (AList.mem_insert _).mp hmem with rfl | hmem
      · exact h.keys_gt (AList.lookup_isSome.mp (by rw [hold]; rfl))
      · exact h.keys_gt hmem
    case h_2 =>
      obtain ⟨hinv, hfind'⟩ := hcons.normalize hkeys
      exact ⟨hinv, hfind'.trans hfind⟩
  case h_2 old hold =>
    obtain ⟨hpos, -⟩ := List.getElem?_eq_some_iff.mp hold
    split
    case h_1 erasedPos herased =>
      have hplace := (closePosOf_of_getElem? hold).trans herased
      have hcloses := h.back.mpr hplace
      -- the slots behind it are closed, only their places change
      have hcells : ∀ cell ∈ (storage.closes.eraseIdx erasedPos).zipIdx.drop erasedPos,
          closePosOf storage.opens cell.1 ≠ none := fun cell hcell => by
        have hmem := mem_of_mem_eraseIdx (mem_of_getElem? (mem_drop_zipIdx.mp hcell).2)
        obtain ⟨p, hp⟩ := mem_iff_getElem?.mp hmem
        rw [h.back.mp hp]
        exact nofun
      obtain ⟨hfixed, hsame⟩ := foldl_modify hcells
      simp only [FdStorage.fixClosePos]
      refine h.setSlot hfd hpos hopen hsame ?_
      rw [hfixed]
      exact h.back.erase hcloses
    case h_2 hactive =>
      refine h.setSlot hfd hpos hopen .refl ?_
      rw [update_eq_self_iff.mpr ((closePosOf_of_getElem? hold).trans hactive).symm]
      exact h.back

theorem isOpen_eq (hfd : ¬ fd < 0) : storage.isOpen fd = (storage.find fd).isSome := by
  simp only [FdStorage.isOpen, find, hfd, if_false]
  cases storage.opens[opensPos fd]? with
  | none => rfl
  | some slot => cases hpos : slot.closePos <;> simp [hpos]

end Calls

-- Refinement

/-- The calls on a partial map from numbers to descriptors: what they return, the number
that they give to the guest and the map after them. -/
inductive MapCall (files : Int32 → Option (WasiFd F)) :
    Call F → Errno → Option Int32 → (Int32 → Option (WasiFd F)) → Prop
  | notOpened : MapCall files (.pathOpen (.error errno)) errno none files
  | noNumber : errno = .eio ∨ errno = .emfile →
    MapCall files (.pathOpen (.ok opened)) errno none files
  | opened : ¬ fd < 0 → files fd = none →
      MapCall files (.pathOpen (.ok opened)) .esuccess (some fd)
        (update files fd (some opened.newFd))
  | notClosed : files fd = none → MapCall files (.fdClose fd) .ebadf none files
  -- `eio` is returned for a descriptor that never had a file
  | closed : files fd = some slot → errno = .esuccess ∨ errno = .eio ∧ slot.wasiFd = .null →
      MapCall files (.fdClose fd) errno none (update files fd none)
  | notRenumbered : files fdFrom = none ∨ fdTo < 0 →
      MapCall files (.fdRenumber fdFrom fdTo) .ebadf none files
  | sameNumber : files fd = some slot → MapCall files (.fdRenumber fd fd) .esuccess none files
  | renumbered : files fdFrom = some slot → fdFrom ≠ fdTo → ¬ fdTo < 0 →
      MapCall files (.fdRenumber fdFrom fdTo) .esuccess none
        (update (update files fdFrom none) fdTo (some slot))

structure Refines (storage : FdStorage F) (c : Call F) : Prop where
  inv : (storage.call c).2.2.Inv
  map : MapCall storage.find c (storage.call c).1 (storage.call c).2.1 (storage.call c).2.2.find
  unchanged : (storage.call c).1 = .ebadf ∨ (storage.call c).1 = .emfile →
    (storage.call c).2.2 = storage

theorem Inv.refines_same {storage : FdStorage F} (h : storage.Inv)
    (hcall : storage.call c = (errno, none, storage))
    (hmap : MapCall storage.find c errno none storage.find) : storage.Refines c := by
  constructor <;> rw [hcall]
  · exact h
  · exact hmap
  · exact fun _ => rfl

theorem Inv.refines_next {storage : FdStorage F} (h : storage'.Inv)
    (hcall : storage.call c = (errno, number, storage'))
    (hmap : MapCall storage.find c errno number storage'.find)
    (herrno : errno ≠ .ebadf ∧ errno ≠ .emfile) : storage.Refines c := by
  constructor <;> rw [hcall]
  · exact h
  · exact hmap
  · exact fun hfail => absurd hfail (not_or.mpr herrno)

theorem Inv.refines {storage : FdStorage F} (h : storage.Inv) (c : Call F) : storage.Refines c := by
  cases c with
  | pathOpen result =>
    cases result with
    | error errno => exact h.refines_same rfl .notOpened
    | ok opened =>
      rcases h.allocate (rfl : opened.newFd.closePos = none) with
        ⟨errno, herrno, hresult⟩ | ⟨fd, storage', hresult, hinv, hfd, hfree, hfind⟩
      · exact h.refines_same hresult (.noNumber herrno)
      · exact hinv.refines_next hresult (hfind ▸ .opened hfd hfree) (by decide)
  | fdClose fd =>
    rcases h.fdClose fd with ⟨hnone, hresult⟩ | ⟨slot, errno, storage', hslot, hresult,
      herrno, hinv, hfind⟩
    · exact h.refines_same (by simp only [FdStorage.call, hresult]) (.notClosed hnone)
    · have hcall : storage.call (.fdClose fd) = (errno, none, storage') := by
        simp only [FdStorage.call, hresult]
      refine hinv.refines_next hcall (hfind ▸ .closed hslot herrno) ?_
      rcases herrno with rfl | ⟨rfl, -⟩ <;> decide
  | fdRenumber fdFrom fdTo =>
    by_cases hneg : fdFrom < 0 ∨ fdTo < 0
    · refine h.refines_same ?_ (.notRenumbered (hneg.imp_left find_of_neg))
      simp only [FdStorage.call, FdStorage.fdRenumber, hneg, if_true]
    obtain ⟨hneg₁, hneg₂⟩ := not_or.mp hneg
    by_cases heq : fdFrom = fdTo
    · subst heq
      have hcall : storage.call (.fdRenumber fdFrom fdFrom) =
          (if (storage.find fdFrom).isSome then .esuccess else .ebadf, none, storage) := by
        simp only [FdStorage.call, FdStorage.fdRenumber, hneg, if_false, if_true, isOpen_eq hneg₁]
      refine h.refines_same hcall ?_
      cases hfind : storage.find fdFrom with
      | none => exact .notRenumbered (.inl hfind)
      | some slot => exact .sameNumber hfind
    rcases h.takeFrom hneg₁ with ⟨hnone, htake⟩ | ⟨slot, storage', hslot, hopen, htake, hinv, hfind⟩
    · refine h.refines_same ?_ (.notRenumbered (.inl hnone))
      simp only [FdStorage.call, FdStorage.fdRenumber, hneg, heq, if_false, htake]
    · obtain ⟨hinv', hfind'⟩ := hinv.putTo hneg₂ hopen
      have hcall : storage.call (.fdRenumber fdFrom fdTo) =
          (.esuccess, none, storage'.putTo fdTo slot) := by
        simp only [FdStorage.call, FdStorage.fdRenumber, hneg, heq, if_false, htake]
      refine hinv'.refines_next hcall ?_ (by decide)
      rw [hfind', hfind]
      exact .renumbered hslot heq hneg₂

theorem Inv.run {storage : FdStorage F} (h : storage.Inv) (calls : List (Call F)) :
    (storage.run calls).Inv := by
  induction calls generalizing storage with
  | nil => exact h
  | cons c calls ih => exact ih (h.refines c).inv

/-- After any calls the invariant holds, and the next call is one on the partial map. -/
theorem run_refines (storage : FdStorage F) (h : storage.Inv) (calls : List (Call F)) :
    (storage.run calls).Inv ∧ ∀ c, (storage.run calls).Refines c :=
  ⟨h.run calls, (h.run calls).refines⟩

theorem inv_initial (files : List (Opened F)) (fdLimit : Nat) (hfits : files.length ≤ 2 ^ 31) :
    (initial files fdLimit).Inv where
  back p j := by
    have hopen : closePosOf (files.map Opened.newFd) j = none := by
      rw [closePosOf, getElem?_map]
      cases files[j]? <;> rfl
    simp [initial, hopen]
  closed_empty slot hmem hclosed := by
    obtain ⟨opened, -, rfl⟩ := mem_map.mp hmem
    exact absurd rfl hclosed
  renumbered_open fd slot hlookup := by simp [initial] at hlookup
  fits := by simpa [initial] using hfits
  keys_gt fd hmem := by simp [initial] at hmem

/-- Three files; the second moves beyond the vector, its slot is used again and the first is
closed. -/
def threeFiles : FdStorage Nat := initial [⟨10, 0, 0⟩, ⟨11, 0, 0⟩, ⟨12, 0, 0⟩] 8

def threeFilesCalls : List (Call Nat) :=
  [.fdRenumber 1 4, .pathOpen (.ok ⟨13, 0, 0⟩), .fdClose 0, .fdRenumber 1 3]

theorem run_refines_threeFiles : threeFiles.Inv ∧ (threeFiles.run threeFilesCalls).Inv ∧
      (threeFiles.run threeFilesCalls).closes = [0, 1] ∧
      ((threeFiles.run threeFilesCalls).opens.map WasiFd.wasiFd) =
        [.null, .unbound, .bound 12, .bound 13, .bound 11] ∧
      (threeFiles.run threeFilesCalls).Refines (.fdRenumber 4 0) := by
  have hinv : threeFiles.Inv := inv_initial _ _ (by decide)
  obtain ⟨hrun, hnext⟩ := run_refines threeFiles hinv threeFilesCalls
  exact ⟨hinv, hrun, by decide +kernel, by decide +kernel, hnext _⟩

end FdStorage

end Uwvm2.Wasi
