import Uwvm2.Object.AllocatorMemory

/-!
# Growth under concurrent operations

A growth that has seen no active operation has the buffer to itself: an operation that
counts itself active later still looks at the flag before it enters. So the buffer
holds the contents whenever no growth replaces it, and the history of all
operations and growths is one of an atomic memory.
-/

namespace Uwvm2.Object.AllocatorMemory

open Function List Option Finset
open RelyGuarantee

-- The outline

namespace Position

def holdsFlag : Position → Bool
  | .growWait _ | .growCheck _ | .growAllocate _ _ | .growCopy _ _ _ _ | .growClear _ _ _ _
  | .growDeallocate _ _ _ | .growSetBegin _ _ _ | .growSetLength _ _ | .growSetOrdered _ _
  | .growLeave => true
  | _ => false

def hasStopped : Position → Bool
  | .growWait _ => false
  | p => p.holdsFlag

def counted : Position → Bool
  | .enterCheck _ | .enterUndo _ => true
  | .insideBegin | .insideLength _ | .insideAccess _ _ | .insidePageSize | .exit => true
  | _ => false

def inside : Position → Bool
  | .insideBegin | .insideLength _ | .insideAccess _ _ | .insidePageSize | .exit => true
  | _ => false

def replacing : Position → Bool
  | .growAllocate _ _ | .growCopy _ _ _ _ | .growClear _ _ _ _ | .growDeallocate _ _ _
  | .growSetBegin _ _ _ | .growSetLength _ _ | .growSetOrdered _ _ => true
  | _ => false

end Position

/-- The buffer holds the contents. -/
def Settled (s : Memory) : Prop :=
  s.heap s.memoryBegin = some s.contents ∧ s.memoryLength = s.contents.length

structure Good (p : Params) (start : List UInt8) (s : Memory) : Prop where
  flag : s.stopped = true → s.growingFlag.isSome
  ops : s.activeOps = s.active.card
  settled : s.stopped = false → Settled s
  ordered : p.sequentiallyConsistentSize = true → s.orderedMemoryLength = s.contents.length
  replays : replay p.customPageSizeLog2 start s.trace = some s.contents
  faulted : s.faulted = false

structure Holds (t : Thread) (pos : Position) (s : Memory) : Prop where
  flag : s.growingFlag = some t ↔ pos.holdsFlag = true
  stopped : pos.holdsFlag = true → s.stopped = pos.hasStopped
  active : t ∈ s.active ↔ pos.counted = true
  calm : pos.inside = true → s.stopped = false

/-- The growth is within its limit, and no size overflows. -/
structure Enlarges (p : Params) (g : Growth) (curr : Nat) (s : Memory) : Prop where
  curr_eq : curr = s.contents.length
  size : p.growSize g = g.pageGrowSize * 2 ^ p.customPageSizeLog2
  length : p.newLength g curr = curr + p.growSize g
  le_limit : curr + p.growSize g ≤ g.maxLimitMemoryLength

def grown (p : Params) (g : Growth) (s : Memory) : List UInt8 :=
  s.contents ++ List.replicate (p.growSize g) 0

def Facts (p : Params) (s : Memory) : Position → Prop
  | .sizeOrdered => p.sequentiallyConsistentSize = true
  | .insideLength base => base = s.memoryBegin
  | .insideAccess base length => base = s.memoryBegin ∧ length = s.memoryLength
  | .growCheck _ | .growLeave => Settled s
  | .growAllocate g curr => Settled s ∧ Enlarges p g curr s
  | .growCopy g curr temp i =>
    Settled s ∧ Enlarges p g curr s ∧ temp ≠ s.memoryBegin ∧ i ≤ curr ∧
      s.heap temp = some (s.contents.take i ++ List.replicate (p.newLength g curr - i) 0)
  | .growClear g curr temp i =>
    Enlarges p g curr s ∧ curr ≤ i ∧ ∃ rest, i + rest.length = p.newLength g curr ∧
      s.heap temp = some (s.contents ++ List.replicate (i - curr) 0 ++ rest)
  | .growDeallocate g curr temp =>
    Enlarges p g curr s ∧ temp ≠ s.memoryBegin ∧ s.heap temp = some (grown p g s)
  | .growSetBegin g curr temp => Enlarges p g curr s ∧ s.heap temp = some (grown p g s)
  | .growSetLength g curr => Enlarges p g curr s ∧ s.heap s.memoryBegin = some (grown p g s)
  | .growSetOrdered g curr =>
    Enlarges p g curr s ∧ s.heap s.memoryBegin = some (grown p g s) ∧
      s.memoryLength = p.newLength g curr
  | _ => True

/-- What a step of `t` leaves to the other threads: their flag and their place in the count,
the place of the buffer while it is not replaced, and the memory of a growth that
replaces it. -/
structure Does (t : Thread) (s s' : Memory) : Prop where
  flag : ∀ u, u ≠ t → (s'.growingFlag = some u ↔ s.growingFlag = some u)
  active : ∀ u, u ≠ t → (u ∈ s'.active ↔ u ∈ s.active)
  stops : s.stopped = false → s'.stopped = true → s.active = ∅ ∧ s.growingFlag = some t
  resumes : s.stopped = true → s.growingFlag ≠ some t → s'.stopped = true
  calm : s.stopped = false → s'.memoryBegin = s.memoryBegin ∧ s'.memoryLength = s.memoryLength
  frame : s.stopped = true → s.growingFlag ≠ some t → s'.heap = s.heap ∧
    s'.memoryBegin = s.memoryBegin ∧ s'.memoryLength = s.memoryLength ∧ s'.contents = s.contents

def At (p : Params) (t : Thread) (pos : Position) (s : Memory) : Prop :=
  Holds t pos s ∧ Facts p s pos

-- Stability

variable {p : Params} {start : List UInt8} {t u : Thread} {pos pos' : Position} {s s' : Memory}

theorem Holds.stable (hu : u ≠ t) (h : Holds u pos s) (hd : Does t s s') : Holds u pos s' where
  flag := (hd.flag u hu).trans h.flag
  stopped hp := by
    have hflag : s.growingFlag ≠ some t := by
      rw [h.flag.mpr hp]
      exact fun heq => hu (some.inj heq)
    rw [← h.stopped hp]
    cases hs : s.stopped with
    | true => exact hd.resumes hs hflag
    | false => exact Bool.eq_false_iff.mpr fun hs' => hflag (hd.stops hs hs').2
  active := (hd.active u hu).trans h.active
  calm hp := by
    have hcounted : pos.counted = true := by cases pos <;> first | rfl | cases hp
    have hmem := h.active.mpr hcounted
    refine Bool.eq_false_iff.mpr fun hs' => ?_
    rw [(hd.stops (h.calm hp) hs').1] at hmem
    exact absurd hmem (notMem_empty u)

theorem Facts.congr (hf : Facts p s pos) (hheap : s'.heap = s.heap)
    (hbegin : s'.memoryBegin = s.memoryBegin) (hlength : s'.memoryLength = s.memoryLength)
    (hcontents : s'.contents = s.contents) : Facts p s' pos := by
  have henlarges {g : Growth} {curr : Nat} (h : Enlarges p g curr s) : Enlarges p g curr s' :=
    ⟨hcontents ▸ h.curr_eq, h.size, h.length, h.le_limit⟩
  have hsettled (h : Settled s) : Settled s' := by
    unfold Settled
    rw [hheap, hbegin, hlength, hcontents]
    exact h
  cases pos with
  | sizeOrdered => exact hf
  | insideLength base => exact Eq.trans hf hbegin.symm
  | insideAccess base length => exact ⟨hbegin ▸ hf.1, hlength ▸ hf.2⟩
  | growCheck | growLeave => exact hsettled hf
  | growAllocate g curr => exact ⟨hsettled hf.1, henlarges hf.2⟩
  | growCopy g curr temp i =>
    obtain ⟨h₁, h₂, h₃, h₄, h₅⟩ := hf
    exact ⟨hsettled h₁, henlarges h₂, hbegin ▸ h₃, h₄, by rw [hheap, hcontents]; exact h₅⟩
  | growClear g curr temp i =>
    obtain ⟨h₁, h₂, rest, h₃, h₄⟩ := hf
    exact ⟨henlarges h₁, h₂, rest, h₃, by rw [hheap, hcontents]; exact h₄⟩
  | growDeallocate g curr temp =>
    exact ⟨henlarges hf.1, hbegin ▸ hf.2.1, by rw [hheap, grown, hcontents]; exact hf.2.2⟩
  | growSetBegin g curr temp =>
    exact ⟨henlarges hf.1, by rw [hheap, grown, hcontents]; exact hf.2⟩
  | growSetLength g curr =>
    exact ⟨henlarges hf.1, by rw [hheap, hbegin, grown, hcontents]; exact hf.2⟩
  | growSetOrdered g curr =>
    exact ⟨henlarges hf.1, by rw [hheap, hbegin, grown, hcontents]; exact hf.2.1,
      hlength.trans hf.2.2⟩
  | _ => trivial

theorem At.stable (hu : u ≠ t) (h : At p u pos s) (hd : Does t s s') : At p u pos s' := by
  refine ⟨h.1.stable hu hd, ?_⟩
  cases hstopped : pos.hasStopped with
  | true =>
    have hholds : pos.holdsFlag = true := by cases pos <;> first | rfl | cases hstopped
    have hflag : s.growingFlag ≠ some t := by
      rw [h.1.flag.mpr hholds]
      exact fun heq => hu (some.inj heq)
    obtain ⟨hheap, hbegin, hlength, hcontents⟩ :=
      hd.frame ((h.1.stopped hholds).trans hstopped) hflag
    exact h.2.congr hheap hbegin hlength hcontents
  | false =>
    cases pos with
    | sizeOrdered => exact h.2
    | insideLength base => exact h.2.trans (hd.calm (h.1.calm rfl)).1.symm
    | insideAccess base length =>
      obtain ⟨hbegin, hlength⟩ := hd.calm (h.1.calm rfl)
      exact ⟨h.2.1.trans hbegin.symm, h.2.2.trans hlength.symm⟩
    | growCheck | growLeave | growAllocate | growCopy | growClear | growDeallocate | growSetBegin
    | growSetLength | growSetOrdered => cases hstopped
    | _ => trivial

-- Effects

structure Fits (p : Params) (start : List UInt8) (t : Thread) (s : Memory) (pos' : Position)
    (s' : Memory) : Prop where
  does : Does t s s'
  good : Good p start s'
  at_ : At p t pos' s'

theorem Does.refl (t : Thread) (s : Memory) : Does t s s where
  flag _ _ := Iff.rfl
  active _ _ := Iff.rfl
  stops hf ht := by cases hf.symm.trans ht
  resumes h _ := h
  calm _ := ⟨rfl, rfl⟩
  frame _ _ := ⟨rfl, rfl, rfl, rfl⟩

theorem Holds.move (h : Holds t pos s) (hflag : pos'.holdsFlag = pos.holdsFlag)
    (hstopped : pos'.hasStopped = pos.hasStopped) (hcounted : pos'.counted = pos.counted)
    (hcalm : pos'.inside = true → s.stopped = false) : Holds t pos' s :=
  ⟨hflag ▸ h.flag, by rw [hflag, hstopped]; exact h.stopped, hcounted ▸ h.active, hcalm⟩

theorem Fits.stay (hs : Good p start s) (h : Holds t pos s) (hf : Facts p s pos')
    (hcalm : pos'.inside = true → s.stopped = false) (hflag : pos'.holdsFlag = pos.holdsFlag)
    (hstopped : pos'.hasStopped = pos.hasStopped) (hcounted : pos'.counted = pos.counted) :
    Fits p start t s pos' s :=
  ⟨.refl t s, hs, h.move hflag hstopped hcounted hcalm, hf⟩

theorem card_lt (active : Finset Thread) : active.card < 2 ^ 64 - 1 := by
  have h := card_le_univ active
  rw [Fintype.card_fin] at h
  exact Nat.lt_of_le_of_lt h (by decide)

theorem Fits.fetchAdd (hs : Good p start s) (h : Holds t pos s) (hcounted : pos.counted = false)
    (hcounted' : pos'.counted = true) (hflag : pos'.holdsFlag = pos.holdsFlag)
    (hstopped : pos'.hasStopped = pos.hasStopped) (hcalm : pos'.inside = false)
    (hf : Facts p (AllocatorMemory.fetchAdd t s) pos') :
    Fits p start t s pos' (AllocatorMemory.fetchAdd t s) := by
  have hmem : t ∉ s.active := fun hm => by cases hcounted.symm.trans (h.active.mp hm)
  have hlt := card_lt s.active
  refine ⟨{ Does.refl t s with active := fun u hu => ?_ }, { hs with ops := ?_ },
    ⟨hflag ▸ h.flag, by rw [hflag, hstopped]; exact h.stopped,
      iff_of_true (mem_insert_self t _) hcounted', by rw [hcalm]; exact nofun⟩, hf⟩
  · simp [AllocatorMemory.fetchAdd, hu]
  · show (s.activeOps + 1) % 2 ^ 64 = (insert t s.active).card
    rw [card_insert_of_notMem hmem, hs.ops]
    exact Nat.mod_eq_of_lt (by omega)

theorem Fits.fetchSub (hs : Good p start s) (h : Holds t pos s) (hcounted : pos.counted = true)
    (hcounted' : pos'.counted = false) (hflag : pos'.holdsFlag = pos.holdsFlag)
    (hstopped : pos'.hasStopped = pos.hasStopped) (hcalm : pos'.inside = false)
    (hf : Facts p (AllocatorMemory.fetchSub t s) pos') :
    Fits p start t s pos' (AllocatorMemory.fetchSub t s) := by
  have hmem : t ∈ s.active := h.active.mpr hcounted
  refine ⟨{ Does.refl t s with active := fun u hu => ?_ }, { hs with ops := ?_ },
    ⟨hflag ▸ h.flag, by rw [hflag, hstopped]; exact h.stopped,
      iff_of_false (notMem_erase t _) (by rw [hcounted']; exact nofun),
      by rw [hcalm]; exact nofun⟩, hf⟩
  · simp [AllocatorMemory.fetchSub, hu]
  · have hpos : s.activeOps ≠ 0 := by
      rw [hs.ops]
      exact card_ne_zero_of_mem hmem
    show (if s.activeOps = 0 then sizeMax else s.activeOps - 1) = (s.active.erase t).card
    rw [if_neg hpos, hs.ops, card_erase_of_mem hmem]

theorem Good.log (hs : Good p start s)
    (he : apply p.customPageSizeLog2 s.contents e = some s.contents) :
    Good p start (s.log p e) := by
  have hcontents : (s.log p e).contents = s.contents := by
    show (apply p.customPageSizeLog2 s.contents e).getD s.contents = s.contents
    rw [he]
    rfl
  refine ⟨hs.flag, hs.ops, fun h => ?_, fun h => ?_, ?_, hs.faulted⟩
  · unfold Settled
    rw [hcontents]
    exact hs.settled h
  · rw [hcontents]
    exact hs.ordered h
  · rw [hcontents]
    exact (congrArg (·.bind (apply p.customPageSizeLog2 · e)) hs.replays).trans he

theorem Fits.log (h : Fits p start t s pos' s')
    (he : apply p.customPageSizeLog2 s'.contents e = some s'.contents) :
    Fits p start t s pos' (s'.log p e) := by
  have hcontents : (s'.log p e).contents = s'.contents := by
    show (apply p.customPageSizeLog2 s'.contents e).getD s'.contents = s'.contents
    rw [he]
    rfl
  refine ⟨{ h.does with frame := ?_ }, h.good.log he, { h.at_.1 with }, h.at_.2.congr rfl rfl rfl
    hcontents⟩
  rw [hcontents]
  exact h.does.frame

theorem Fits.write {length : Nat} (hs : Good p start s) (h : At p t (.insideAccess base length) s)
    (hoffset : offset < length) :
    Fits p start t s (.insideAccess base length)
      ((s.store base offset value).log p (.wrote offset value)) := by
  obtain ⟨h, rfl, rfl⟩ := h
  have hcalm := h.calm rfl
  obtain ⟨hbuffer, hlength⟩ := hs.settled hcalm
  rw [hlength] at hoffset
  have hstore : s.store s.memoryBegin offset value = { s with
      heap := update s.heap s.memoryBegin (some (s.contents.set offset value)) } := by
    simp only [Memory.store, hbuffer, if_pos hoffset]
  have happly : apply p.customPageSizeLog2 s.contents (.wrote offset value) =
      some (s.contents.set offset value) := if_pos hoffset
  rw [hstore]
  refine ⟨{ Does.refl t s with frame := fun hs' => by cases hcalm.symm.trans hs' },
    ⟨hs.flag, hs.ops, fun _ => ?_, fun hseq => ?_, ?_, hs.faulted⟩, { h with }, rfl, rfl⟩
  · simp only [Settled, Memory.log, happly, getD_some, update_self, length_set]
    exact ⟨trivial, hlength⟩
  · simp only [Memory.log, happly, getD_some, length_set]
    exact hs.ordered hseq
  · simp only [Memory.log, happly, getD_some, replay, hs.replays, bind_some]

theorem Position.hasStopped_eq (h : pos.hasStopped = true) :
    pos.holdsFlag = true ∧ pos.counted = false ∧ pos.inside = false := by
  cases pos <;> first | exact ⟨rfl, rfl, rfl⟩ | cases h

/-- A growth that has seen no active operation may do with the buffer what it likes. -/
theorem Fits.replace (hs : Good p start s) (h : Holds t pos s) (hpos : pos.hasStopped = true)
    (hpos' : pos'.hasStopped = true)
    (hf : Facts p { s with heap := heap, memoryBegin := memoryBegin, memoryLength := memoryLength }
      pos') :
    Fits p start t s pos'
      { s with heap := heap, memoryBegin := memoryBegin, memoryLength := memoryLength } := by
  obtain ⟨hflag, hcounted, _⟩ := Position.hasStopped_eq hpos
  obtain ⟨hflag', hcounted', hinside'⟩ := Position.hasStopped_eq hpos'
  have hstopped : s.stopped = true := (h.stopped hflag).trans hpos
  have hmine : s.growingFlag = some t := h.flag.mpr hflag
  have hholds : Holds t pos' s := h.move (hflag'.trans hflag.symm) (hpos'.trans hpos.symm)
    (hcounted'.trans hcounted.symm) (by rw [hinside']; exact nofun)
  exact ⟨{ Does.refl t s with
      calm := fun hf => by cases hstopped.symm.trans hf
      frame := fun _ hne => absurd hmine hne },
    { hs with settled := fun hf => by cases hstopped.symm.trans hf }, { hholds with }, hf⟩

theorem Fits.grew (hs : Good p start s) (h : Holds t pos s) (hpos : pos.hasStopped = true)
    (henlarges : Enlarges p g curr s) (hbuffer : s.heap s.memoryBegin = some (grown p g s))
    (hlength : memoryLength = p.newLength g curr)
    (hordered : p.sequentiallyConsistentSize = true → ordered = p.newLength g curr) :
    Fits p start t s .growLeave
      (({ s with memoryLength := memoryLength, orderedMemoryLength := ordered } : Memory).log p
        (.grew g.pageGrowSize g.maxLimitMemoryLength (curr >>> p.customPageSizeLog2))) := by
  obtain ⟨rfl, hsize, hnew, hlimit⟩ := henlarges
  obtain ⟨hflag, hcounted, _⟩ := Position.hasStopped_eq hpos
  have hstopped : s.stopped = true := (h.stopped hflag).trans hpos
  have hmine : s.growingFlag = some t := h.flag.mpr hflag
  have hholds : Holds t .growLeave s := h.move hflag.symm hpos.symm hcounted.symm nofun
  have happly : apply p.customPageSizeLog2 s.contents (.grew g.pageGrowSize g.maxLimitMemoryLength
      (s.contents.length >>> p.customPageSizeLog2)) = some (grown p g s) := by
    rw [grown, hsize]
    exact if_pos ⟨rfl, hsize ▸ hlimit⟩
  have hgrown : (grown p g s).length = p.newLength g s.contents.length := by
    rw [grown, length_append, length_replicate, hnew]
  refine ⟨{ Does.refl t s with
      calm := fun hf => by cases hstopped.symm.trans hf
      frame := fun _ hne => absurd hmine hne },
    ⟨hs.flag, hs.ops, fun hf => absurd (hstopped.symm.trans hf) nofun, fun hseq => ?_, ?_,
      hs.faulted⟩,
    { hholds with }, ?_⟩
  · simp only [Memory.log, happly, getD_some]
    exact (hordered hseq).trans hgrown.symm
  · simp only [Memory.log, happly, getD_some, replay, hs.replays, bind_some]
  · simp only [Facts, Settled, Memory.log, happly, getD_some]
    exact ⟨hbuffer, hlength.trans hgrown.symm⟩

-- Bytes

theorem set_take_append_replicate {bytes : List UInt8} (hi : bytes[i]? = some value)
    (hn : bytes.length ≤ n) :
    (bytes.take i ++ List.replicate (n - i) 0).set i value =
      bytes.take (i + 1) ++ List.replicate (n - (i + 1)) 0 := by
  obtain ⟨hlt, _⟩ := List.getElem?_eq_some_iff.mp hi
  have hrep : n - i = (n - (i + 1)) + 1 := by omega
  have hlen : (bytes.take i).length = i := length_take_of_le (Nat.le_of_lt hlt)
  rw [hrep, replicate_succ, set_append_right _ _ (Nat.le_of_eq hlen), hlen, Nat.sub_self,
    set_cons_zero, take_add_one, hi, append_assoc]
  rfl

theorem set_append_replicate {b : UInt8} (hi : bytes.length ≤ i) :
    (bytes ++ List.replicate (i - bytes.length) 0 ++ b :: rest).set i 0 =
      bytes ++ List.replicate (i + 1 - bytes.length) 0 ++ rest := by
  have hlen : (bytes ++ List.replicate (i - bytes.length) (0 : UInt8)).length = i := by
    rw [length_append, length_replicate]
    omega
  have hrep : i + 1 - bytes.length = (i - bytes.length) + 1 := by omega
  rw [set_append_right _ _ (Nat.le_of_eq hlen), hlen, Nat.sub_self, set_cons_zero, hrep,
    replicate_succ', ← append_assoc, append_assoc _ [0] rest]
  rfl

theorem Memory.store_eq (hbuffer : s.heap buffer = some bytes) (hi : i < bytes.length) :
    s.store buffer i value =
      { s with heap := update s.heap buffer (some (bytes.set i value)) } := by
  simp only [Memory.store, hbuffer, if_pos hi]

-- Steps

section Growth

variable {g : Growth} {curr temp i : Nat}

theorem Enlarges.of_checks (hcurr : curr = s.contents.length)
    (h : ¬ (sizeMax >>> p.customPageSizeLog2 < g.pageGrowSize ∨ g.maxLimitMemoryLength < curr ∨
      g.maxLimitMemoryLength - curr < p.growSize g)) : Enlarges p g curr s := by
  simp only [not_or, Nat.not_lt] at h
  obtain ⟨hpages, hcurr', hgrow⟩ := h
  have hlimit := g.limit_lt
  have hmul : g.pageGrowSize * 2 ^ p.customPageSizeLog2 ≤ sizeMax := by
    rw [Nat.shiftRight_eq_div_pow] at hpages
    exact (Nat.le_div_iff_mul_le (Nat.two_pow_pos _)).mp hpages
  have hsize : p.growSize g = g.pageGrowSize * 2 ^ p.customPageSizeLog2 := by
    unfold Params.growSize
    rw [Nat.shiftLeft_eq]
    exact Nat.mod_eq_of_lt (Nat.lt_of_le_of_lt hmul (by decide))
  refine ⟨hcurr, hsize, ?_, by omega⟩
  exact Nat.mod_eq_of_lt (by omega)

theorem check_sound (hs : Good p start s) (h : At p t (.growCheck g) s) :
    Leads (Fits p start t s) (advance p t turn s (.growCheck g)) := by
  obtain ⟨h, hsettled⟩ := h
  have hcurr : p.currLength s = s.contents.length := by
    unfold Params.currLength
    split
    next hseq => exact hs.ordered hseq
    next => exact hsettled.2
  have hfits : Fits p start t s .growLeave s := .stay hs h hsettled nofun rfl rfl rfl
  exact .ite (fun _ => .some (hfits.log (e := .failed g.pageGrowSize) rfl)) fun hchecks =>
    .some (.stay hs h ⟨hsettled, .of_checks hcurr hchecks⟩ nofun rfl rfl rfl)

theorem reallocate_heap (rest : List UInt8) (hsettled : Settled s) :
    (s.reallocate temp rest).heap temp = some (s.contents ++ rest) := by
  simp only [Memory.reallocate, hsettled.1, map_some, update_self]

section

variable (hs : Good p start s)

include hs

theorem allocate_sound (h : At p t (.growAllocate g curr) s) :
    Leads (Fits p start t s) (allocate p g curr s turn) := by
  obtain ⟨h, hsettled, henlarges⟩ := h
  cases turn with
  | fail =>
    have hfits : Fits p start t s .growLeave s := .stay hs h hsettled nofun rfl rfl rfl
    exact .ite (fun _ => .some (hfits.log (e := .failed g.pageGrowSize) rfl)) fun _ =>
      .some ⟨{ Does.refl t s with }, { hs with }, { h with }, hsettled, { henlarges with }⟩
  | allocate temp rest =>
    simp only [allocate]
    split
    next =>
      refine .guard fun _ => .replace hs h rfl rfl ⟨{ henlarges with }, ?_⟩
      exact reallocate_heap _ hsettled
    next =>
      refine .guard fun hcond =>
        .replace hs h rfl rfl ⟨{ henlarges with }, Nat.le_refl _, rest, ?_, ?_⟩
      · rw [hcond.2, henlarges.length]
      · rw [Nat.sub_self, replicate_zero, append_nil]
        exact reallocate_heap rest hsettled
    next =>
      refine .guard fun hnone => ?_
      have hne : temp ≠ s.memoryBegin := fun heq => by
        rw [heq, hsettled.1] at hnone
        cases hnone
      refine .replace hs h rfl rfl ⟨⟨?_, hsettled.2⟩, { henlarges with }, hne, Nat.zero_le _, ?_⟩
      · exact (update_of_ne hne.symm _ _).trans hsettled.1
      · exact update_self _ _ _
  | _ => exact .none

theorem copy_sound (h : At p t (.growCopy g curr temp i) s) :
    Leads (Fits p start t s) (advance p t turn s (.growCopy g curr temp i)) := by
  obtain ⟨h, hsettled, henlarges, hne, hi, hbuffer⟩ := h
  have hcurr := henlarges.curr_eq
  have hnew := henlarges.length
  refine .ite (fun hdone => ?_) fun hnot => ?_
  · subst hdone
    refine .some (.stay hs h ⟨henlarges, hne, ?_⟩ nofun rfl rfl rfl)
    rw [hbuffer, grown, hnew, Nat.add_sub_cancel_left, take_of_length_le (by omega)]
  · obtain ⟨value, hvalue⟩ : ∃ value, s.contents[i]? = some value :=
      ⟨_, getElem?_eq_getElem (by omega)⟩
    have hload : s.load? s.memoryBegin i = some value := by
      simp only [Memory.load?, hsettled.1, bind_some, hvalue]
    have hlt : i < (s.contents.take i ++ List.replicate (p.newLength g curr - i) 0).length := by
      rw [length_append, length_take, length_replicate]
      omega
    rw [hload]
    dsimp only
    rw [Memory.store_eq hbuffer hlt]
    refine .some (.replace hs h rfl rfl ⟨⟨?_, hsettled.2⟩, { henlarges with }, hne, by omega, ?_⟩)
    · exact (update_of_ne hne.symm _ _).trans hsettled.1
    · refine (update_self _ _ _).trans (congrArg some ?_)
      exact set_take_append_replicate hvalue (by omega)

theorem clear_sound (h : At p t (.growClear g curr temp i) s) :
    Leads (Fits p start t s) (advance p t turn s (.growClear g curr temp i)) := by
  obtain ⟨h, henlarges, hi, rest, hrest, hbuffer⟩ := h
  have hnew := henlarges.length
  refine .ite (fun hdone => ?_) fun hnot => ?_
  · obtain rfl : rest = [] := length_eq_zero_iff.mp (by omega)
    refine .some (.stay hs h ⟨henlarges, ?_⟩ nofun rfl rfl rfl)
    rw [hbuffer, grown, hdone, hnew, Nat.add_sub_cancel_left, append_nil]
  · obtain rfl := henlarges.curr_eq
    cases rest with
    | nil => exact absurd hrest hnot
    | cons b rest =>
      rw [length_cons] at hrest
      have hlt : i < (s.contents ++ List.replicate (i - s.contents.length) 0 ++ b ::
          rest).length := by
        rw [length_append, length_append, length_replicate, length_cons]
        omega
      rw [Memory.store_eq hbuffer hlt]
      refine .some (.replace hs h rfl rfl ⟨{ henlarges with }, by omega, rest, by omega, ?_⟩)
      exact (update_self _ _ _).trans (congrArg some (set_append_replicate hi))

theorem testAndSet_sound (h : Holds t (.growTestAndSet g) s) :
    Leads (Fits p start t s) (advance p t turn s (.growTestAndSet g)) := by
  refine .ite (fun _ => .some (.stay hs h trivial nofun rfl rfl rfl)) fun hflag => .some ?_
  rw [Bool.not_eq_true, isSome_eq_false_iff, isNone_iff_eq_none] at hflag
  have hstopped : s.stopped = false := Bool.eq_false_iff.mpr fun hs' => by
    have := hs.flag hs'
    rw [hflag] at this
    cases this
  refine ⟨{ Does.refl t s with flag := fun u hu => ?_, frame := ?_ },
    { hs with flag := fun _ => rfl }, ⟨iff_of_true rfl rfl, fun _ => hstopped, h.active, nofun⟩,
    trivial⟩
  · rw [hflag]
    exact iff_of_false (fun heq => hu (some.inj heq).symm) nofun
  · exact fun _ _ => ⟨rfl, rfl, rfl, rfl⟩

theorem wait_sound (h : Holds t (.growWait g) s) :
    Leads (Fits p start t s) (advance p t turn s (.growWait g)) := by
  refine .ite (fun _ => .some (.stay hs h trivial nofun rfl rfl rfl)) fun hops => .some ?_
  have hactive : s.active = ∅ := card_eq_zero.mp (hs.ops.symm.trans (not_not.mp hops))
  have hmine : s.growingFlag = some t := h.flag.mpr rfl
  refine ⟨{ Does.refl t s with
      stops := fun _ _ => ⟨hactive, hmine⟩, resumes := fun _ _ => rfl },
    { hs with flag := fun _ => by rw [hmine]; rfl, settled := nofun },
    ⟨h.flag, fun _ => rfl, h.active, nofun⟩, ?_⟩
  exact hs.settled (h.stopped rfl)

theorem leave_sound (h : At p t .growLeave s) :
    Fits p start t s .outside { s with growingFlag := none, stopped := false } := by
  obtain ⟨h, hsettled⟩ := h
  have hmine : s.growingFlag = some t := h.flag.mpr rfl
  refine ⟨{ Does.refl t s with
      flag := fun u hu => iff_of_false nofun fun heq => hu ?_
      stops := nofun
      resumes := fun _ hne => absurd hmine hne },
    { hs with flag := nofun, settled := fun _ => hsettled },
    ⟨iff_of_false nofun nofun, nofun, h.active, nofun⟩, trivial⟩
  exact some.inj (heq.symm.trans hmine)

end

end Growth

theorem start_sound (op : Call) (hs : Good p start s) (h : Holds t .outside s) :
    Leads (Fits p start t s) (some (AllocatorMemory.start p s op)) := by
  have hsize : Leads (Fits p start t s) (some (AllocatorMemory.start p s .getPageSize)) := by
    simp only [AllocatorMemory.start]
    split
    next hseq => exact .some (.stay hs h hseq nofun rfl rfl rfl)
    next => exact .some (.stay hs h trivial nofun rfl rfl rfl)
  cases op with
  | operation => exact .some (.stay hs h trivial nofun rfl rfl rfl)
  | getPageSize => exact hsize
  | grow g =>
    by_cases hzero : g.pageGrowSize = 0
    · simpa only [AllocatorMemory.start, if_pos hzero] using hsize
    · simp only [AllocatorMemory.start, if_neg hzero]
      exact .some (.stay hs h trivial nofun rfl rfl rfl)

theorem access_sound {length : Nat} (hs : Good p start s)
    (hat : At p t (.insideAccess base length) s) :
    Leads (Fits p start t s) (advance p t turn s (.insideAccess base length)) := by
  have h := hat.1
  have hcalm := h.calm rfl
  cases turn with
  | write offset value => exact .guard fun hoffset => .write hs hat hoffset
  | read offset =>
    refine .guard fun hoffset => ?_
    obtain ⟨_, rfl, rfl⟩ := hat
    obtain ⟨hbuffer, hlength⟩ := hs.settled hcalm
    have hload : s.load? s.memoryBegin offset = s.contents[offset]? := by
      rw [Memory.load?, hbuffer]
      rfl
    have hfits : Fits p start t s (.insideAccess s.memoryBegin s.memoryLength) s :=
      .stay hs h ⟨rfl, rfl⟩ (fun _ => hcalm) rfl rfl rfl
    refine hfits.log (if_pos ⟨hload.symm, ?_⟩)
    rw [hload, getElem?_eq_getElem (hlength ▸ hoffset)]
    rfl
  | proceed => exact .some (.stay hs h trivial (fun _ => hcalm) rfl rfl rfl)
  | _ => exact .none

theorem advance_sound {turn : Turn} (hs : Good p start s) (hat : At p t pos s) :
    Leads (Fits p start t s) (advance p t turn s pos) := by
  have h : Holds t pos s := hat.1
  cases pos with
  | outside => exact .none
  | sizeOrdered =>
    have hfits : Fits p start t s .outside s := .stay hs h trivial nofun rfl rfl rfl
    exact .some (hfits.log (if_pos (by rw [hs.ordered hat.2])))
  | enterTest k =>
    exact .ite (fun _ => .some (.stay hs h trivial nofun rfl rfl rfl)) fun _ =>
      .some (.stay hs h trivial nofun rfl rfl rfl)
  | enterAdd k => exact .some (.fetchAdd hs h rfl rfl rfl rfl rfl trivial)
  | enterCheck k =>
    refine .ite (fun _ => .some (.stay hs h trivial nofun rfl rfl rfl)) fun hflag => ?_
    -- a growth that has stopped the others still holds the flag
    have hcalm : s.stopped = false := Bool.eq_false_iff.mpr fun hs' => hflag (hs.flag hs')
    cases k with
    | operation | pageSize => exact .some (.stay hs h trivial (fun _ => hcalm) rfl rfl rfl)
  | enterUndo k | exit => exact .some (.fetchSub hs h rfl rfl rfl rfl rfl trivial)
  | insideBegin => exact .some (.stay hs h rfl (fun _ => h.calm rfl) rfl rfl rfl)
  | insideLength base => exact .some (.stay hs h ⟨hat.2, rfl⟩ (fun _ => h.calm rfl) rfl rfl rfl)
  | insideAccess base length => exact access_sound hs hat
  | insidePageSize =>
    have hcalm := h.calm rfl
    have hfits : Fits p start t s .exit s := .stay hs h trivial (fun _ => hcalm) rfl rfl rfl
    exact .some (hfits.log (if_pos (by rw [(hs.settled hcalm).2])))
  | growTestAndSet g => exact testAndSet_sound hs h
  | growWait g => exact wait_sound hs h
  | growCheck g => exact check_sound hs hat
  | growAllocate g curr => exact allocate_sound hs hat
  | growCopy g curr temp i => exact copy_sound hs hat
  | growClear g curr temp i => exact clear_sound hs hat
  | growDeallocate g curr temp =>
    obtain ⟨_, henlarges, hne, hbuffer⟩ := hat
    refine .some (.replace hs h rfl rfl ⟨{ henlarges with }, ?_⟩)
    exact (update_of_ne hne _ _).trans hbuffer
  | growSetBegin g curr temp =>
    obtain ⟨_, henlarges, hbuffer⟩ := hat
    exact .some (.replace hs h rfl rfl ⟨{ henlarges with }, hbuffer⟩)
  | growSetLength g curr =>
    obtain ⟨_, henlarges, hbuffer⟩ := hat
    exact .ite (fun _ => .some (.replace hs h rfl rfl ⟨{ henlarges with }, hbuffer, rfl⟩))
      fun hseq =>
      .some (.grew hs h rfl henlarges hbuffer rfl fun h => absurd h hseq)
  | growSetOrdered g curr =>
    obtain ⟨_, henlarges, hbuffer, hlength⟩ := hat
    exact .some (.grew hs h rfl henlarges hbuffer hlength fun _ => rfl)
  | growLeave => exact .some (leave_sound hs hat)

theorem act_sound (hs : Good p start s) (hat : At p t pos s) :
    Leads (Fits p start t s) (act p t turn pos s) := by
  refine .ite (fun _ => .none) fun _ => ?_
  split
  case h_1 op => exact start_sound op hs hat.1
  case h_2 => exact .none
  case h_3 => exact advance_sound hs hat

-- Runs

def outline (p : Params) (start : List UInt8) : Outline (act p) where
  Good := Good p start
  At := At p
  Does := Does
  sound hs hat hact :=
    have h := act_sound hs hat hact
    ⟨h.does, h.good, h.at_⟩
  stable hu _ h hd := h.stable hu hd

/-- The contents as `init_by_page_count` leaves them. -/
def initialContents (p : Params) (initPageCount : Nat) : List UInt8 :=
  List.replicate (initPageCount <<< p.customPageSizeLog2) 0

theorem outline_initial (p : Params) (initPageCount : Nat) :
    (outline p (initialContents p initPageCount)).Holds (initial p initPageCount) := by
  refine ⟨⟨nofun, rfl, fun _ => ⟨?_, rfl⟩, fun hseq => if_pos hseq, rfl, rfl⟩,
    fun t => ⟨⟨iff_of_false nofun nofun, nofun, iff_of_false ?_ nofun, nofun⟩, trivial⟩⟩
  · simp only [initial, update_self]
  · exact notMem_empty t

/-- No operation is inside while a growth replaces the buffer. -/
theorem not_inside_of_replacing (h : At p t pos s) (hreplacing : pos.replacing = true)
    (h' : At p u pos' s) : pos'.inside = false := by
  have hpos : pos.holdsFlag = true ∧ pos.hasStopped = true := by
    cases pos <;> first | exact ⟨rfl, rfl⟩ | cases hreplacing
  refine Bool.eq_false_iff.mpr fun hinside => ?_
  have hstopped := (h.1.stopped hpos.1).trans hpos.2
  cases hstopped.symm.trans (h'.1.calm hinside)

theorem settled_of_not_replacing (h : (outline p start).Holds cfg)
    (hnot : ∀ t, (cfg.position t).replacing = false) : Settled cfg.shared := by
  obtain ⟨hs, hat⟩ := h
  cases hstopped : cfg.shared.stopped with
  | false => exact hs.settled hstopped
  | true =>
    obtain ⟨t, hflag⟩ := isSome_iff_exists.mp (hs.flag hstopped)
    obtain ⟨hholds, hfacts⟩ := hat t
    have hpos := hholds.flag.mp hflag
    have hstop : (cfg.position t).hasStopped = true := (hholds.stopped hpos).symm.trans hstopped
    have hreplacing := hnot t
    generalize cfg.position t = pos at hfacts hstop hreplacing
    cases pos with
    | growCheck | growLeave => exact hfacts
    | growAllocate | growCopy | growClear | growDeallocate | growSetBegin | growSetLength
    | growSetOrdered => cases hreplacing
    | _ => cases hstop

/-- In every schedule no operation is inside its guarded region while a growth replaces the
buffer, no operation touches a buffer that is not there, and the history is one of an
atomic memory, whose contents are in the buffer whenever it is not being replaced. -/
theorem run_growth {initPageCount : Nat} {schedule : List (Thread × Turn)}
    {cfg : Config Thread Position Memory}
    (hrun : run (act p) (initial p initPageCount) schedule = some cfg) :
    (∀ t u, (cfg.position t).replacing = true → (cfg.position u).inside = false) ∧
      cfg.shared.faulted = false ∧
      ∃ contents, replay p.customPageSizeLog2 (initialContents p initPageCount) cfg.shared.trace =
          some contents ∧
        (p.sequentiallyConsistentSize = true → cfg.shared.orderedMemoryLength = contents.length) ∧
        ((∀ t, (cfg.position t).replacing = false) →
          cfg.shared.heap cfg.shared.memoryBegin = some contents ∧
            cfg.shared.memoryLength = contents.length) := by
  have h := (outline p _).run (outline_initial p initPageCount) hrun
  refine ⟨fun t u ht => not_inside_of_replacing (h.2 t) ht (h.2 u), h.1.faulted, _, h.1.replays,
    h.1.ordered, fun hnot => settled_of_not_replacing h hnot⟩

/-- Pages of one byte, and a strict allocator without reallocation. -/
def bytePages : Params := ⟨0, true, .unsupported, .unsupported, by decide⟩

def writeGrow : List (Thread × Turn) :=
  let g : Growth := ⟨1, 4, true, by decide, by decide⟩
  (0, .call .operation) :: List.replicate 5 (0, .proceed) ++
  (1, .call (.grow g)) :: List.replicate 2 (1, .proceed) ++
  (0, .write 0 7) :: List.replicate 2 (0, .proceed) ++
  [(1, .proceed), (1, .proceed), (1, .allocate 128 [])] ++ List.replicate 6 (1, .proceed)

theorem run_growth_writeGrow :
    ∃ cfg, run (act bytePages) (initial bytePages 1) writeGrow = some cfg ∧
      cfg.shared.trace = [.grew 1 4 1, .wrote 0 7] ∧ cfg.shared.faulted = false ∧
      replay 0 [0] cfg.shared.trace = some [7, 0] ∧ cfg.shared.orderedMemoryLength = 2 := by
  have hmap : (run (act bytePages) (initial bytePages 1) writeGrow).map
      (·.shared.trace) = some [.grew 1 4 1, .wrote 0 7] := by decide
  obtain ⟨cfg, hrun, htrace⟩ := map_eq_some_iff.mp hmap
  obtain ⟨_, hfaulted, contents, hreplay, hordered, _⟩ := run_growth hrun
  have hcontents : replay 0 [0] cfg.shared.trace = some [7, 0] := by
    rw [htrace]
    decide
  obtain rfl : contents = [7, 0] := some.inj (hreplay.symm.trans hcontents)
  exact ⟨cfg, hrun, htrace, hfaulted, hcontents, hordered rfl⟩

end Uwvm2.Object.AllocatorMemory
