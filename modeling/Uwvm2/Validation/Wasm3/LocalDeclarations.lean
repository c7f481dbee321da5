import Uwvm2.Validation.Wasm3.TypeBinary
import Uwvm2.Validation.Wasm3.Validator

/-!
# Local declarations

The locals of a function are kept as the runs of its binary. Looking up a local in the runs
is looking it up in the expanded declarations (`find_scanned`). Which locals without a
default value have been set is kept with an undo log, and restoring a checkpoint restores
what was set when it was taken (`Reached.isInitialized_restore`).
-/

namespace Uwvm2.Validation.Wasm3

open List

-- Runs

structure Core3LocalRun where
  count : Nat
  firstIndex : Nat
  binaryOffset : Nat
  type : CoreValueType
  deriving DecidableEq, Repr

structure Core3LocalDeclarations where
  runs : List Core3LocalRun := []
  parameterCount : Nat := 0
  totalCount : Nat := 0
  deriving DecidableEq, Repr

namespace Core3LocalDeclarations

/-- The search between the runs `first` and `last`, for at most `fuel` rounds. -/
def search (runs : List Core3LocalRun) (index : Nat) : Nat → Nat → Nat → Option CoreValueType
  | 0, _, _ => none
  | fuel + 1, first, last =>
    if first = last then none
    else
      let middle := first + (last - first) / 2
      match runs[middle]? with
      | none => none
      | some run =>
        if index < run.firstIndex then search runs index fuel first middle
        else if run.count ≤ index - run.firstIndex then search runs index fuel (middle + 1) last
        else some run.type

def find (d : Core3LocalDeclarations) (index : Nat) : Option CoreValueType :=
  if index < d.parameterCount ∨ d.totalCount ≤ index then none
  else search d.runs index (d.runs.length + 1) 0 d.runs.length

def expand (runs : List Core3LocalRun) : List CoreValueType :=
  runs.flatMap fun run => List.replicate run.count run.type

end Core3LocalDeclarations

inductive Core3LocalError
  | ok
  | binary
  | tooManyLocals
  | unknownType
  deriving DecidableEq, Repr

structure Core3LocalResult where
  error : Core3LocalError := .ok
  binaryOffset : Nat := 0
  binaryError : RecursiveTypeBinaryError := .ok
  deriving DecidableEq, Repr

def maximumLocals : Nat := 0xffffffff

def readRun (r : Reader Core3LocalResult) (ctx : RecursiveTypeContext) (total : Nat) :
    Read Core3LocalResult (Core3LocalRun × Nat) := do
  let binaryOffset ← get
  let count ← r.u32
  let type ← r.value
  if type.kind = .reference ∧ type.heap.isDefined ∧ !ctx.contains (toU64 type.heap.code) then
    throw ⟨.unknownType, binaryOffset, .ok⟩
  else if count > maximumLocals - total then throw ⟨.tooManyLocals, binaryOffset, .ok⟩
  else pure (⟨count, total, binaryOffset, type⟩, total + count)

/-- The declarations at the beginning of a body, and the rest of the body. -/
def scanCore3LocalDeclarations (leb : LebScanner) (body : List UInt8) (parameterCount : Nat)
    (ctx : RecursiveTypeContext) :
    Except Core3LocalResult (List UInt8 × Core3LocalDeclarations) := do
  ensure (parameterCount ≤ maximumLocals) ⟨.tooManyLocals, 0, .ok⟩
  let r : Reader Core3LocalResult := ⟨body, leb, fun e => ⟨.binary, e.errorOffset, e.error⟩⟩
  let ((runs, totalCount), position) ← r.listFrom 2 48 (readRun r ctx) parameterCount 0
  pure (body.drop position, ⟨runs, parameterCount, totalCount⟩)

-- Lookup

def Core3LocalRun.Covers (run : Core3LocalRun) (index : Nat) : Prop :=
  run.firstIndex ≤ index ∧ index < run.firstIndex + run.count

def Placed : Nat → List Core3LocalRun → Prop
  | _, [] => True
  | first, run :: rest => run.firstIndex = first ∧ Placed (first + run.count) rest

namespace Placed

variable {first index : Nat} {run : Core3LocalRun} {runs : List Core3LocalRun}

theorem le (h : Placed first runs) (hrun : run ∈ runs) : first ≤ run.firstIndex := by
  induction runs generalizing first with
  | nil => cases hrun
  | cons head rest ih =>
    rcases mem_cons.mp hrun with rfl | hrest
    · exact h.1.ge
    · exact Nat.le_of_add_right_le (ih h.2 hrest)

theorem pairwise (h : Placed first runs) :
    runs.Pairwise fun a b => a.firstIndex + a.count ≤ b.firstIndex := by
  induction runs generalizing first with
  | nil => exact .nil
  | cons head rest ih =>
    refine .cons (fun b hb => ?_) (ih h.2)
    rw [h.1]
    exact h.2.le hb

theorem getElem?_expand (h : Placed first runs) (hrun : run ∈ runs) (hcovers : run.Covers index) :
    (Core3LocalDeclarations.expand runs)[index - first]? = some run.type := by
  obtain ⟨hle, hlt⟩ := hcovers
  induction runs generalizing first with
  | nil => cases hrun
  | cons head rest ih =>
    rw [Core3LocalDeclarations.expand, flatMap_cons]
    rcases mem_cons.mp hrun with rfl | hrest
    · rw [getElem?_append_left (by rw [length_replicate, ← h.1]; omega),
        getElem?_replicate_of_lt (by rw [← h.1]; omega)]
    · have hfirst := h.2.le hrest
      rw [getElem?_append_right (by rw [length_replicate]; omega), length_replicate,
        Nat.sub_sub]
      exact ih h.2 hrest

theorem exists_covers (h : Placed first runs) (hle : first ≤ index)
    (hlt : index < first + (Core3LocalDeclarations.expand runs).length) :
    ∃ run ∈ runs, run.Covers index := by
  induction runs generalizing first with
  | nil => exact absurd hlt (Nat.not_lt.mpr hle)
  | cons head rest ih =>
    rw [Core3LocalDeclarations.expand, flatMap_cons, length_append,
      length_replicate] at hlt
    by_cases hhead : index < first + head.count
    · exact ⟨head, mem_cons_self, h.1.le.trans hle, h.1.symm ▸ hhead⟩
    · obtain ⟨run, hrun, hcovers⟩ := ih h.2 (Nat.le_of_not_lt hhead) (by
        rw [Core3LocalDeclarations.expand]
        omega)
      exact ⟨run, mem_cons_of_mem _ hrun, hcovers⟩

end Placed

theorem search_cases (hpairwise : runs.Pairwise fun a b => a.firstIndex + a.count ≤ b.firstIndex)
    (hle : first ≤ last) (hlast : last ≤ runs.length) (hfuel : last - first < fuel)
    (hbetween : ∀ k run, runs[k]? = some run → run.Covers index → first ≤ k ∧ k < last) :
    (∃ run ∈ runs, run.Covers index ∧
      Core3LocalDeclarations.search runs index fuel first last = some run.type) ∨
    (∀ run ∈ runs, ¬ run.Covers index) ∧
      Core3LocalDeclarations.search runs index fuel first last = none := by
  induction fuel generalizing first last with
  | zero => exact absurd hfuel (Nat.not_lt_zero _)
  | succ fuel ih =>
    rw [Core3LocalDeclarations.search]
    by_cases hempty : first = last
    · rw [if_pos hempty]
      refine .inr ⟨fun run hrun hcovers => ?_, rfl⟩
      obtain ⟨k, hk⟩ := mem_iff_getElem?.mp hrun
      have hbounds := hbetween k run hk hcovers
      omega
    rw [if_neg hempty]
    have hfirst : first ≤ first + (last - first) / 2 := by omega
    have hmiddle : first + (last - first) / 2 < last := by omega
    generalize first + (last - first) / 2 = middle at hfirst hmiddle ⊢
    obtain ⟨run, hrun⟩ : ∃ run, runs[middle]? = some run :=
      ⟨_, getElem?_eq_getElem (hmiddle.trans_le hlast)⟩
    have hordered {j k : Nat} {a b : Core3LocalRun} (hjk : j < k) (ha : runs[j]? = some a)
        (hb : runs[k]? = some b) : a.firstIndex + a.count ≤ b.firstIndex := by
      obtain ⟨hj, rfl⟩ := List.getElem?_eq_some_iff.mp ha
      obtain ⟨hk, rfl⟩ := List.getElem?_eq_some_iff.mp hb
      exact pairwise_iff_getElem.mp hpairwise j k hj hk hjk
    simp only [hrun]
    split
    case isTrue hbefore =>
      -- a run of the local starts before this one
      refine ih hfirst (hmiddle.le.trans hlast) (by omega) fun k other hk hcovers => ?_
      refine ⟨(hbetween k other hk hcovers).1, Nat.lt_of_not_le fun hmk => ?_⟩
      obtain ⟨hle, -⟩ := hcovers
      rcases Nat.eq_or_lt_of_le hmk with rfl | hlt
      · cases hrun.symm.trans hk
        omega
      · have hends := hordered hlt hrun hk
        omega
    case isFalse hfrom =>
      split
      case isTrue hbehind =>
        refine ih hmiddle hlast (by omega) fun k other hk hcovers => ?_
        refine ⟨Nat.lt_of_not_le fun hkm => ?_, (hbetween k other hk hcovers).2⟩
        obtain ⟨-, hlt'⟩ := hcovers
        rcases Nat.eq_or_lt_of_le hkm with rfl | hlt
        · cases hrun.symm.trans hk
          omega
        · have hends := hordered hlt hk hrun
          omega
      case isFalse hinside =>
        exact .inl ⟨run, mem_of_getElem? hrun, ⟨by omega, by omega⟩, rfl⟩

theorem readRun_ok (h : readRun r ctx total position = .ok ((run, total'), position')) :
    run.firstIndex = total ∧ total' = total + run.count := by
  simp only [readRun, read_bind_ok] at h
  obtain ⟨offset, _, -, count, _, -, type, _, -, h⟩ := h
  split at h
  · cases h
  split at h
  · cases h
  · cases h
    exact ⟨rfl, rfl⟩

theorem items_placed
    (h : Reader.items (readRun r ctx) n total position = .ok ((runs, total'), position')) :
    Placed total runs ∧ total' = total + (Core3LocalDeclarations.expand runs).length := by
  induction n generalizing runs total position with
  | zero =>
    cases h
    exact ⟨trivial, rfl⟩
  | succ n ih =>
    simp only [Reader.items, read_bind_ok] at h
    obtain ⟨⟨run, total₁⟩, position₁, hrun, ⟨rest, total₂⟩, position₂, hrest, h⟩ := h
    cases h
    obtain ⟨hplaced, rfl⟩ := ih hrest
    obtain ⟨rfl, rfl⟩ := readRun_ok hrun
    refine ⟨⟨rfl, hplaced⟩, ?_⟩
    simp only [Core3LocalDeclarations.expand, flatMap_cons, length_append,
      length_replicate, Nat.add_assoc]

/-- Lookup in the runs of an accepted body is lookup in the declarations. -/
theorem find_scanned (leb : LebScanner) (body : List UInt8) (parameterCount : Nat)
    (ctx : RecursiveTypeContext) (rest : List UInt8) (d : Core3LocalDeclarations)
    (h : scanCore3LocalDeclarations leb body parameterCount ctx = .ok (rest, d)) (index : Nat) :
    d.find index = if index < parameterCount then none
      else (Core3LocalDeclarations.expand d.runs)[index - parameterCount]? := by
  simp only [scanCore3LocalDeclarations, bind_ok, pure_ok] at h
  obtain ⟨-, -, ⟨⟨runs, total⟩, position⟩, hlist, h⟩ := h
  cases h
  simp only [Reader.listFrom, read_bind_ok] at hlist
  obtain ⟨count, _, -, _, _, -, hitems⟩ := hlist
  split at hitems
  case isTrue => cases hitems
  obtain ⟨hplaced, rfl⟩ := items_placed hitems
  dsimp only [Core3LocalDeclarations.find]
  by_cases hbelow : index < parameterCount
  · rw [if_pos (.inl hbelow), if_pos hbelow]
  rw [if_neg hbelow]
  by_cases habove : parameterCount + (Core3LocalDeclarations.expand runs).length ≤ index
  · rw [if_pos (.inr habove), getElem?_eq_none (by omega)]
  rw [if_neg (not_or.mpr ⟨hbelow, habove⟩)]
  obtain ⟨run, hrun, hcovers⟩ := hplaced.exists_covers (Nat.le_of_not_lt hbelow)
    (Nat.lt_of_not_le habove)
  rcases search_cases hplaced.pairwise (Nat.zero_le _) (Nat.le_refl _)
    (Nat.lt_succ_self runs.length)
      (fun k _ hk _ => ⟨Nat.zero_le k, (List.getElem?_eq_some_iff.mp hk).1⟩) with
    ⟨found, hfound, hcovers', hsearch⟩ | ⟨hnone, -⟩
  · rw [hsearch, hplaced.getElem?_expand hfound hcovers']
  · exact absurd hcovers (hnone run hrun)

/-- A scanner that decodes single bytes. -/
def singleByteScanner : LebScanner where
  u32 bytes := ⟨.ok, (bytes.headD 0).toNat, 1⟩
  i64 bytes := ⟨.ok, (bytes.headD 0).toNat, 1⟩

/-- Two locals of one type, none of another and one of a third, after three parameters. -/
theorem find_scanned_emptyRun :
    let d : Core3LocalDeclarations := ⟨[⟨2, 3, 1, { kind := .i32 }⟩, ⟨0, 5, 3, { kind := .i64 }⟩,
      ⟨1, 5, 5, { kind := .reference, nullable := true }⟩], 3, 6⟩
    scanCore3LocalDeclarations singleByteScanner [3, 2, 0x7f, 0, 0x7e, 1, 0x70, 0x0b] 3 {} =
        .ok ([0x0b], d) ∧
      d.find 5 = if 5 < 3 then none else (Core3LocalDeclarations.expand d.runs)[5 - 3]? :=
  ⟨rfl, find_scanned singleByteScanner [3, 2, 0x7f, 0, 0x7e, 1, 0x70, 0x0b] 3 {} [0x0b] _ rfl 5⟩

-- Initialization

/-- The locals that have been set, and the log of the changes, the last one first. -/
structure Core3LocalInitialization where
  assigned : Finset Nat := ∅
  undo : List Nat := []

namespace Core3LocalInitialization

variable (s : Core3LocalInitialization)

def checkpoint : Nat := s.undo.length

def isInitialized (index : Nat) (initiallyInitialized : Bool) : Bool :=
  initiallyInitialized || index ∈ s.assigned

def initializeLocal (index : Nat) (initiallyInitialized : Bool) : Core3LocalInitialization :=
  if initiallyInitialized then s
  else if index ∈ s.assigned then s
  else ⟨insert index s.assigned, index :: s.undo⟩

/-- Take back changes until `checkpoint` of them are left. -/
def unwind (checkpoint : Nat) (assigned : Finset Nat) : List Nat → Core3LocalInitialization
  | [] => ⟨assigned, []⟩
  | index :: undo =>
    if undo.length + 1 = checkpoint then ⟨assigned, index :: undo⟩
    else unwind checkpoint (assigned.erase index) undo

def restore (checkpoint : Nat) : Bool × Core3LocalInitialization :=
  if checkpoint > s.undo.length then (false, s) else (true, unwind checkpoint s.assigned s.undo)

def Logged : Prop := s.undo.Nodup ∧ s.assigned = s.undo.toFinset

variable {s}

theorem Logged.initializeLocal (h : s.Logged) (index : Nat) (initially : Bool) :
    (s.initializeLocal index initially).Logged := by
  unfold Core3LocalInitialization.initializeLocal
  split
  · exact h
  split
  · exact h
  · next hnew =>
    obtain ⟨hnodup, heq⟩ := h
    rw [heq, mem_toFinset] at hnew
    exact ⟨hnodup.cons hnew, by rw [heq, toFinset_cons]⟩

theorem suffix_initializeLocal (index : Nat) (initially : Bool) :
    s.undo <:+ (s.initializeLocal index initially).undo := by
  unfold initializeLocal
  split
  · exact suffix_rfl
  split
  · exact suffix_rfl
  · exact suffix_cons _ _

theorem unwind_append (h : (newer ++ older).Nodup) :
    unwind older.length (newer ++ older).toFinset (newer ++ older) = ⟨older.toFinset, older⟩ := by
  induction newer with
  | nil =>
    cases older with
    | nil => rfl
    | cons index older => exact if_pos rfl
  | cons index newer ih =>
    obtain ⟨hnew, h⟩ := nodup_cons.mp h
    rw [cons_append, unwind, if_neg (by rw [length_append]; omega), toFinset_cons,
      Finset.erase_insert (by rwa [mem_toFinset]), ih h]

theorem Logged.restore (h : s.Logged) (h₀ : s₀.Logged) (hsuffix : s₀.undo <:+ s.undo) :
    s.restore s₀.checkpoint = (true, s₀) := by
  obtain ⟨newer, hundo⟩ := hsuffix
  obtain ⟨hnodup, heq⟩ := h
  rw [← hundo] at hnodup heq
  rw [Core3LocalInitialization.restore, if_neg (by rw [checkpoint, ← hundo, length_append]; omega),
    heq, ← hundo, checkpoint, unwind_append hnodup, ← h₀.2]

/-- The states that calls lead to, each with the live checkpoints and the states in which they
were taken. Restoring ends the life of the checkpoints that lie further on. -/
inductive Reached : Core3LocalInitialization → List (Nat × Core3LocalInitialization) → Prop
  | start : Reached {} []
  | initializeLocal (index : Nat) (initially : Bool) :
    Reached t live → Reached (t.initializeLocal index initially) live
  | checkpoint : Reached t live → Reached t ((t.checkpoint, t) :: live)
  | restore : Reached t live → (c, t₀) ∈ live → Reached (t.restore c).2 (live.filter (·.1 ≤ c))

theorem Reached.logged (h : Reached s live) : s.Logged ∧ ∀ c s₀, (c, s₀) ∈ live →
    c = s₀.checkpoint ∧ s₀.Logged ∧ s₀.undo <:+ s.undo := by
  induction h with
  | start => exact ⟨⟨.nil, rfl⟩, nofun⟩
  | initializeLocal index initially _ ih =>
    refine ⟨ih.1.initializeLocal _ _, fun c s₀ hmem => ?_⟩
    obtain ⟨hc, hlogged, hsuffix⟩ := ih.2 c s₀ hmem
    exact ⟨hc, hlogged, hsuffix.trans (suffix_initializeLocal _ _)⟩
  | checkpoint _ ih =>
    refine ⟨ih.1, fun c s₀ hmem => ?_⟩
    rcases mem_cons.mp hmem with heq | hmem
    · cases heq
      exact ⟨rfl, ih.1, suffix_rfl⟩
    · exact ih.2 c s₀ hmem
  | restore _ hlive ih =>
    obtain ⟨rfl, hlogged, hsuffix⟩ := ih.2 _ _ hlive
    rw [ih.1.restore hlogged hsuffix]
    refine ⟨hlogged, fun c s₁ hmem => ?_⟩
    obtain ⟨hmem, hle⟩ := mem_filter.mp hmem
    obtain ⟨rfl, hlogged', hsuffix'⟩ := ih.2 c s₁ hmem
    exact ⟨rfl, hlogged', suffix_of_suffix_length_le hsuffix' hsuffix (of_decide_eq_true hle)⟩

/-- After a checkpoint is restored every local is as it was when the checkpoint was taken. -/
theorem Reached.isInitialized_restore (h : Reached s live) (hlive : (c, s₀) ∈ live) (index : Nat)
    (initially : Bool) : (s.restore c).1 = true ∧
      (s.restore c).2.isInitialized index initially = s₀.isInitialized index initially := by
  obtain ⟨hlogged, hall⟩ := h.logged
  obtain ⟨rfl, hlogged₀, hsuffix⟩ := hall c s₀ hlive
  rw [hlogged.restore hlogged₀ hsuffix]
  exact ⟨rfl, rfl⟩

/-- An inner checkpoint is restored between the outer one and its restoration. -/
theorem isInitialized_restore_nested :
    let outer := ({} : Core3LocalInitialization).initializeLocal 1 false
    let inner := outer.initializeLocal 2 false
    let middle := ((inner.initializeLocal 3 false).restore inner.checkpoint).2
    let s := middle.initializeLocal 4 false
    middle.isInitialized 2 false = true ∧ middle.isInitialized 3 false = false ∧
      s.isInitialized 4 false = true ∧ (s.restore outer.checkpoint).1 = true ∧
      ∀ index initially, (s.restore outer.checkpoint).2.isInitialized index initially =
        outer.isInitialized index initially := by
  intro outer inner middle s
  have hinner : Reached (inner.initializeLocal 3 false)
      [(inner.checkpoint, inner), (outer.checkpoint, outer)] :=
    .initializeLocal 3 false (.checkpoint (.initializeLocal 2 false
      (.checkpoint (.initializeLocal 1 false .start))))
  have hs : Reached s [(inner.checkpoint, inner), (outer.checkpoint, outer)] :=
    .initializeLocal 4 false (.restore hinner mem_cons_self)
  have hrestore := Reached.isInitialized_restore hs (mem_cons_of_mem _ mem_cons_self)
  exact ⟨rfl, rfl, rfl, (hrestore 0 false).1, fun index initially => (hrestore index initially).2⟩

end Core3LocalInitialization

end Uwvm2.Validation.Wasm3
