import Uwvm2.Gc.FrameRoots

/-!
# The frames of a thread are its stack of activations

Entering, publishing and leaving frames keep the linked records equal to a stack, whatever
of these operations are refused; and a visit of the frames shows the references of that
stack, each once, or says that it does not.
-/

namespace Uwvm2.Gc

open Function List

variable {F S σ : Type}

-- Visits

def NativeMemory.previous (m : NativeMemory F S) (f : F) : Option F := (m.frames f).previous

def chainRoots (m : NativeMemory F S) (chain : List F) : List RootReference :=
  chain.flatMap fun f => (m.frames f).roots m.carriers

def liveTotal (m : NativeMemory F S) (chain : List F) : Nat :=
  (chain.map fun f => (m.frames f).liveCount.toNat).sum

/-- The records from `head` on can be visited, after `total` references before them. -/
structure ValidChain (m : NativeMemory F S) (maxFrames total : Nat) (head : Option F)
    (chain : List F) :
    Prop where
  linked : LinkedStack m.previous head chain
  length : chain.length ≤ maxFrames
  valid : ∀ f ∈ chain, (m.frames f).valid = true
  total : total + liveTotal m chain ≤ sizeMax
  kinds : ∀ reference ∈ chainRoots m chain, runtimeKind reference = true

section Visits

variable {m : NativeMemory F S} {head : Option F} {chain : List F} {f : F} {total : Nat}

theorem chainRoots_cons :
    chainRoots m (f :: chain) = (m.frames f).roots m.carriers ++ chainRoots m chain := rfl

theorem liveTotal_cons :
    liveTotal m (f :: chain) = (m.frames f).liveCount.toNat + liveTotal m chain := rfl

theorem validChain_nil (h : total ≤ sizeMax) : ValidChain m left total none [] :=
  ⟨rfl, Nat.zero_le _, nofun, h, nofun⟩

theorem validChain_cons : ValidChain m (left + 1) total head (f :: chain) ↔
    head = some f ∧ (m.frames f).valid = true ∧
      (∀ reference ∈ (m.frames f).roots m.carriers, runtimeKind reference = true) ∧
      ValidChain m left (total + (m.frames f).liveCount.toNat) (m.frames f).previous chain := by
  constructor
  · rintro ⟨hlinked, hlength, hvalid, htotal, hkinds⟩
    rw [liveTotal_cons] at htotal
    refine ⟨hlinked.1, hvalid f mem_cons_self, fun r hr => hkinds r (mem_append_left _ hr),
      hlinked.2, Nat.le_of_succ_le_succ hlength, fun g hg => hvalid g (mem_cons_of_mem _ hg),
      by omega, fun r hr => hkinds r (mem_append_right _ hr)⟩
  · rintro ⟨rfl, hvalid, hkinds, hchain⟩
    refine ⟨⟨rfl, hchain.linked⟩, Nat.succ_le_succ hchain.length,
      forall_mem_cons.mpr ⟨hvalid, hchain.valid⟩, ?_, fun r hr => ?_⟩
    · have htotal := hchain.total
      rw [liveTotal_cons]
      omega
    · rcases mem_append.mp hr with hr | hr
      · exact hkinds r hr
      · exact hchain.kinds r hr

theorem preflight_of_valid (h : ValidChain m left total head chain) :
    preflight m left total result head =
      { result with frames := result.frames + chain.length } := by
  induction chain generalizing left total result head with
  | nil =>
    cases h.linked
    cases left <;> rfl
  | cons f chain ih =>
    cases left with
    | zero => exact absurd h.length (by simp)
    | succ left =>
      obtain ⟨rfl, hvalid, hkinds, hchain⟩ := validChain_cons.mp h
      have hfits : ¬ (m.frames f).liveCount.toNat > sizeMax - total := by
        have htotal := hchain.total
        omega
      have hall : ((m.frames f).roots m.carriers).all runtimeKind = true := all_eq_true.mpr hkinds
      rw [preflight]
      simp only [hvalid, hfits, hall, not_true_eq_false, if_false, ih hchain, length_cons]
      rw [Nat.add_assoc, Nat.add_comm 1]

theorem preflight_ok (htotal : total ≤ sizeMax)
    (h : (preflight m left total result head).status = .ok) :
    ∃ chain, ValidChain m left total head chain := by
  induction left generalizing total result head with
  | zero =>
    cases head with
    | none => exact ⟨[], validChain_nil htotal⟩
    | some f => cases h
  | succ left ih =>
    cases head with
    | none => exact ⟨[], validChain_nil htotal⟩
    | some f =>
      rw [preflight] at h
      split at h
      next => cases h
      next hvalid =>
        split at h
        next => cases h
        next hfits =>
          split at h
          next => cases h
          next hkinds =>
            obtain ⟨chain, hchain⟩ := ih (by omega) h
            exact ⟨f :: chain, validChain_cons.mpr ⟨rfl, Decidable.not_not.mp hvalid,
              all_eq_true.mp (Decidable.not_not.mp hkinds), hchain⟩⟩

theorem deliver_ok (hlinked : LinkedStack m.previous head chain) (hresult : result.status = .ok) :
    ((deliver m visitor chain.length result s head).1.status = .ok ∧
        (deliver m visitor chain.length result s head).2 = s') ↔
      visitor.Accepts s (chainRoots m chain) s' := by
  induction chain generalizing result s head with
  | nil =>
    cases hlinked
    simp [deliver, hresult, chainRoots, eq_comm]
  | cons f chain ih =>
    obtain ⟨rfl, hlinked⟩ := hlinked
    rw [length_cons, deliver, chainRoots_cons, Visitor.accepts_append]
    split
    next visited s₁ heach =>
      have haccepts : visitor.Accepts s ((m.frames f).roots m.carriers) s₁ :=
        (Visitor.accepts_counted.mp heach).1
      refine (ih hlinked ?_).trans ?_
      · exact hresult
      constructor
      · exact fun h => ⟨s₁, haccepts, h⟩
      · rintro ⟨s₂, haccepts', h⟩
        cases haccepts.symm.trans haccepts'
        exact h
    next visited s₁ heach =>
      simp only [reduceCtorEq, false_and, false_iff]
      rintro ⟨s₂, haccepts, -⟩
      have hcounted : visitor.counted.Accepts (result.visited, s) ((m.frames f).roots m.carriers)
          (result.visited + ((m.frames f).roots m.carriers).length, s₂) :=
        Visitor.accepts_counted.mpr ⟨haccepts, rfl⟩
      cases heach.symm.trans hcounted

/-- A visit succeeds exactly if the records can be visited and the visitor accepts all their
references. -/
theorem visitQuiescentFrameRoots_ok :
    ((visitQuiescentFrameRoots m head visitor s maxFrames).1.status = .ok ∧
        (visitQuiescentFrameRoots m head visitor s maxFrames).2 = s') ↔
      ∃ chain, ValidChain m maxFrames 0 head chain ∧ visitor.Accepts s (chainRoots m chain) s' := by
  have hvisit {chain : List F} (h : ValidChain m maxFrames 0 head chain) :
      visitQuiescentFrameRoots m head visitor s maxFrames =
        deliver m visitor chain.length { frames := chain.length } s head := by
    unfold visitQuiescentFrameRoots
    rw [preflight_of_valid h]
    simp
  constructor
  · rintro ⟨hok, hs⟩
    obtain ⟨chain, hchain⟩ : ∃ chain, ValidChain m maxFrames 0 head chain := by
      unfold visitQuiescentFrameRoots at hok
      dsimp only at hok
      split at hok
      next hfailed => exact absurd hok hfailed
      next hpassed => exact preflight_ok (Nat.zero_le _) (Decidable.not_not.mp hpassed)
    rw [hvisit hchain] at hok hs
    exact ⟨chain, hchain, (deliver_ok hchain.linked rfl).mp ⟨hok, hs⟩⟩
  · rintro ⟨chain, hchain, haccepts⟩
    rw [hvisit hchain]
    exact (deliver_ok hchain.linked rfl).mpr haccepts

end Visits

-- The stack of a thread

/-- An activation of a function, as its thread knows it. -/
structure Activation (F S : Type) where
  frame : F
  slots : Option S
  capacity : BitVec 64
  live : BitVec 64

def Activation.roots (carriers : S → Nat → RootReference) (a : Activation F S) :
    List RootReference :=
  readCarriers carriers a.slots a.live.toNat

/-- What a native thread does with its frames. `construct` begins the lifetime of a record in fresh
storage, `store` writes a reference to a slot. -/
inductive FrameOperation (F S : Type)
  | construct (f : F)
  | enter (f : F) (slots : Option S) (capacity : BitVec 64)
  | publish (f : F) (count : BitVec 64)
  | leave (f : F)
  | store (slots : S) (index : Nat) (reference : RootReference)

section Stack

variable [DecidableEq F] [DecidableEq S]

def NativeThread.perform (s : NativeThread F S) : FrameOperation F S → NativeThread F S
  | .construct f => s.setFrame f {}
  | .enter f slots capacity => (enterRootFrame s f slots capacity).getD s
  | .publish f count => (publishRootFrame s f count).getD s
  | .leave f => (leaveRootFrame s f).getD s
  | .store slots index reference => { s with
    carriers := update s.carriers slots (update (s.carriers slots) index reference) }

def performStack (s : NativeThread F S) (stack : List (Activation F S)) :
    FrameOperation F S → List (Activation F S)
  | .enter f slots capacity =>
    if (enterRootFrame s f slots capacity).isSome then ⟨f, slots, capacity, 0#64⟩ :: stack
      else stack
  | .publish f count =>
    match stack with
    | [] => []
    | a :: rest =>
      if a.frame = f ∧ count ≤ a.capacity then { a with live := count } :: rest else a :: rest
  | .leave f =>
    match stack with
    | [] => []
    | a :: rest => if a.frame = f then rest else a :: rest
  | .construct _ | .store .. => stack

end Stack

/-- The record of an activation, without its link. -/
structure Activation.Recorded (a : Activation F S) (frame : RootFrame F S) : Prop where
  slots : frame.slots = a.slots
  word : frame.capacityAndActive = a.capacity ||| activeBit
  live : frame.liveCount = a.live
  bound : a.capacity.toNat ≤ maxCapacity
  liveBound : a.live ≤ a.capacity
  nonnull : a.capacity ≠ 0#64 → a.slots ≠ none

/-- The linked records are those of the stack. -/
structure Represents (s : NativeThread F S) (stack : List (Activation F S)) : Prop where
  linked : LinkedStack s.previous s.head (stack.map Activation.frame)
  recorded : ∀ a ∈ stack, a.Recorded (s.frames a.frame)

section Represents

variable {s : NativeThread F S} {stack : List (Activation F S)} {a : Activation F S}

theorem word_active (c : BitVec 64) : (c ||| activeBit) &&& activeBit ≠ 0#64 := by
  intro h
  have hbit := congrArg (BitVec.getLsbD · 63) h
  simp [activeBit] at hbit

theorem word_capacity (h : c.toNat ≤ maxCapacity) : (c ||| activeBit) &&& capacityMask = c := by
  have hlt : c.toNat < 2 ^ 63 := Nat.lt_of_le_of_lt h (by decide)
  have hactive : activeBit.toNat = 2 ^ 63 * 1 := by decide
  have hmask : capacityMask.toNat = 2 ^ 63 - 1 := by decide
  apply BitVec.eq_of_toNat_eq
  rw [BitVec.toNat_and, BitVec.toNat_or, hactive, hmask, Nat.and_two_pow_sub_one_eq_mod,
    Nat.or_comm, ← Nat.two_pow_add_eq_or_of_lt hlt, Nat.mul_add_mod, Nat.mod_eq_of_lt hlt]

section

variable {frame : RootFrame F S} (h : a.Recorded frame)

include h

theorem Activation.Recorded.active : frame.active = true := by
  rw [RootFrame.active, h.word]
  exact decide_eq_true (word_active a.capacity)

theorem Activation.Recorded.capacity : frame.capacity = a.capacity := by
  rw [RootFrame.capacity, h.word]
  exact word_capacity h.bound

theorem Activation.Recorded.roots (carriers : S → Nat → RootReference) :
    frame.roots carriers = a.roots carriers := by
  rw [RootFrame.roots, Activation.roots, h.slots, h.live]

end

theorem Represents.chainRoots (h : Represents s stack) :
    chainRoots s.toNativeMemory (stack.map Activation.frame) =
      stack.flatMap (Activation.roots s.carriers) := by
  rw [Gc.chainRoots, flatMap_map]
  exact flatMap_congr fun a ha => (h.recorded a ha).roots _

theorem Represents.of_frames (h : Represents s stack) (hhead : s'.head = s.head)
    (hframes : ∀ a ∈ stack, s'.frames a.frame = s.frames a.frame) : Represents s' stack := by
  refine ⟨?_, fun a ha => hframes a ha ▸ h.recorded a ha⟩
  rw [hhead]
  refine h.linked.congr fun f hf => ?_
  obtain ⟨a, ha, rfl⟩ := mem_map.mp hf
  exact congrArg RootFrame.previous (hframes a ha)

theorem Represents.head_eq (h : Represents s (a :: rest)) : s.head = some a.frame := h.linked.1

theorem Represents.not_mem_rest (h : Represents s (a :: rest)) :
    a.frame ∉ rest.map Activation.frame := (nodup_cons.mp h.linked.nodup).1

theorem Represents.rest {rest : List (Activation F S)} (h : Represents s (a :: rest)) :
    Represents { s with head := (s.frames a.frame).previous } rest :=
  ⟨h.linked.2, fun b hb => h.recorded b (mem_cons_of_mem _ hb)⟩

variable [DecidableEq F]

theorem setFrame_other (h : g ≠ f) (frame : RootFrame F S) :
    (s.setFrame f frame).frames g = s.frames g := update_of_ne h _ _

theorem setFrame_self (f : F) (frame : RootFrame F S) : (s.setFrame f frame).frames f = frame :=
  update_self _ _ _

theorem Represents.setFrame_fresh (h : Represents s stack) (hf : f ∉ stack.map Activation.frame)
    (frame : RootFrame F S) : Represents (s.setFrame f frame) stack :=
  h.of_frames rfl fun _ ha => setFrame_other (ne_of_mem_of_not_mem (mem_map_of_mem ha) hf) _

theorem Represents.enter (h : Represents s stack)
    (henter : enterRootFrame s f slots capacity = some s') :
    Represents s' (⟨f, slots, capacity, 0#64⟩ :: stack) := by
  unfold enterRootFrame at henter
  split at henter
  next => cases henter
  next hguard =>
    cases henter
    simp only [not_or, not_and] at hguard
    obtain ⟨hinactive, hbound, hnonnull⟩ := hguard
    -- the records of the stack are active
    have hfresh : f ∉ stack.map Activation.frame := fun hf => by
      obtain ⟨a, ha, rfl⟩ := mem_map.mp hf
      exact hinactive (h.recorded a ha).active
    have hrest := h.setFrame_fresh hfresh
      { previous := s.head, slots, capacityAndActive := capacity ||| activeBit, liveCount := 0#64 }
    refine ⟨⟨rfl, ?_⟩, forall_mem_cons.mpr ⟨?_, hrest.recorded⟩⟩
    · show LinkedStack _ ((s.setFrame f _).frames f).previous _
      rw [setFrame_self]
      exact hrest.linked
    · show Activation.Recorded _ ((s.setFrame f _).frames f)
      rw [setFrame_self]
      exact ⟨rfl, rfl, rfl, Nat.le_of_not_lt hbound, BitVec.le_def.mpr (Nat.zero_le _), hnonnull⟩

theorem Represents.publish {rest : List (Activation F S)} (h : Represents s (a :: rest))
    {count : BitVec 64} (hcount : count ≤ a.capacity) :
    publishRootFrame s a.frame count =
        some (s.setFrame a.frame { s.frames a.frame with liveCount := count }) ∧
      Represents (s.setFrame a.frame { s.frames a.frame with liveCount := count })
        ({ a with live := count } :: rest) := by
  have hrecorded := h.recorded a mem_cons_self
  have hrest := h.rest.setFrame_fresh h.not_mem_rest { s.frames a.frame with liveCount := count }
  refine ⟨if_neg ?_, ⟨h.head_eq, ?_⟩, forall_mem_cons.mpr ⟨?_, hrest.recorded⟩⟩
  · simp [h.head_eq, hrecorded.active, hrecorded.capacity, hcount]
  · show LinkedStack _ ((s.setFrame a.frame _).frames a.frame).previous _
    rw [setFrame_self]
    exact hrest.linked
  · show Activation.Recorded _ ((s.setFrame a.frame _).frames a.frame)
    rw [setFrame_self]
    exact { hrecorded with live := rfl, liveBound := hcount }

theorem Represents.leave {rest : List (Activation F S)} (h : Represents s (a :: rest)) :
    ∃ s', leaveRootFrame s a.frame = some s' ∧ Represents s' rest := by
  have hrecorded := h.recorded a mem_cons_self
  refine ⟨_, if_neg ?_, h.rest.setFrame_fresh h.not_mem_rest {}⟩
  simp [h.head_eq, hrecorded.active]

def FrameOperation.Fresh (stack : List (Activation F S)) : FrameOperation F S → Prop
  | .construct f => f ∉ stack.map Activation.frame
  | _ => True

theorem Represents.perform [DecidableEq S] (h : Represents s stack) {op : FrameOperation F S}
    (hfresh : op.Fresh stack) : Represents (s.perform op) (performStack s stack op) := by
  cases op with
  | construct f => exact h.setFrame_fresh hfresh _
  | enter f slots capacity =>
    simp only [NativeThread.perform, performStack]
    cases henter : enterRootFrame s f slots capacity with
    | none => exact h
    | some s' => exact h.enter henter
  | publish f count =>
    simp only [NativeThread.perform]
    cases stack with
    | nil =>
      have hrefused : publishRootFrame s f count = none := if_pos (.inl (by simp [h.linked.top_eq]))
      rw [hrefused]
      exact h
    | cons a rest =>
      rw [performStack]
      split
      next hguard =>
        obtain ⟨rfl, hcount⟩ := hguard
        obtain ⟨hpublish, hrepresents⟩ := h.publish hcount
        rw [hpublish]
        exact hrepresents
      next hguard =>
        have hrefused : publishRootFrame s f count = none := by
          refine if_pos ?_
          by_cases hf : a.frame = f
          · subst hf
            refine .inr (.inr ?_)
            rw [(h.recorded a mem_cons_self).capacity]
            exact BitVec.not_le.mp fun hcount => hguard ⟨rfl, hcount⟩
          · exact .inl (by simpa [h.head_eq] using hf)
        rw [hrefused]
        exact h
  | leave f =>
    simp only [NativeThread.perform]
    cases stack with
    | nil =>
      have hrefused : leaveRootFrame s f = none := if_pos (.inl (by simp [h.linked.top_eq]))
      rw [hrefused]
      exact h
    | cons a rest =>
      rw [performStack]
      split
      next hf =>
        subst hf
        obtain ⟨s', hleave, hrepresents⟩ := h.leave
        rw [hleave]
        exact hrepresents
      next hf =>
        have hrefused : leaveRootFrame s f = none := if_pos (.inl (by simpa [h.head_eq] using hf))
        rw [hrefused]
        exact h
  | store slots index reference => exact ⟨h.linked, h.recorded⟩

/-- The operations of a thread, one after the other, with its stack. -/
def performAll [DecidableEq S] (s : NativeThread F S) (stack : List (Activation F S)) :
    List (FrameOperation F S) → NativeThread F S × List (Activation F S)
  | [] => (s, stack)
  | op :: ops => performAll (s.perform op) (performStack s stack op) ops

def FreshAll [DecidableEq S] (s : NativeThread F S) (stack : List (Activation F S)) :
    List (FrameOperation F S) → Prop
  | [] => True
  | op :: ops => op.Fresh stack ∧ FreshAll (s.perform op) (performStack s stack op) ops

theorem Represents.performAll [DecidableEq S] (h : Represents s stack)
    (hfresh : FreshAll s stack ops) :
    Represents (Gc.performAll s stack ops).1 (Gc.performAll s stack ops).2 := by
  induction ops generalizing s stack with
  | nil => exact h
  | cons op ops ih => exact ih (h.perform hfresh.1) hfresh.2

theorem performAll_nested : Represents (Gc.performAll ⟨⟨fun _ => {}, fun _ _ => ⟨0, 0⟩⟩, none⟩ []
        [.enter true (some ()) 1, .construct false, .enter false none 0]).1
      [⟨false, none, 0, 0⟩, ⟨true, some (), 1, 0⟩] :=
  Represents.performAll ⟨rfl, nofun⟩ ⟨trivial, (by decide : false ∉ [true]), trivial, trivial⟩

end Represents

end Uwvm2.Gc
