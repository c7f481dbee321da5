import Uwvm2.Checkpoint.ShadowLedger

/-!
# The chain of activations

Every operation changes the ledger in one of six ways (`step_change`), and each of them keeps
its layout: the live frames are a chain of calls, and what lies above them is retired
(`Layout`). What a run does to entries, typed tail calls and failures follows.
-/

namespace Uwvm2.Checkpoint

open List

/-- The frame stands at a site of its plan that awaits the return of a call. -/
def Awaiting (slot : Slot) : Prop :=
  (observerSite slot).1 = .ok ∧ ShadowLedger.currentSite slot ≠ 0 ∧
    (sitesOf slot.frame.plan)[ShadowLedger.currentSite slot - 1]?.map SafepointLayout.phase =
      some .awaitingCallReturn

instance (slot : Slot) : Decidable (Awaiting slot) :=
  inferInstanceAs (Decidable (_ ∧ _ ∧ _))

/-- The lower frame has called the upper one and still waits for it. -/
structure Calls (lower upper : Slot) : Prop where
  parent : upper.frame.identity.parent = lower.frame.identity.incarnation
  epoch : upper.frame.identity.runtimeEpoch = lower.frame.identity.runtimeEpoch
  awaiting : Awaiting lower

/-- Nothing of the last activation can be seen, except the plan. -/
structure Retired (slot : Slot) : Prop where
  identity : slot.frame.identity = {}
  site : slot.frame.site = 0
  values : slot.frame.values.cells = []
  unmaterialized : slot.frame.materialized = false
  notPending : slot.frame.numericPacketPending = false
  storage : slot.storage = []
  noReuse : slot.metadataReuse = false

namespace ShadowLedger

def liveSlots (ledger : ShadowLedger) : List Slot := ledger.slots.take ledger.activeFrameCount

def inactiveSlots (ledger : ShadowLedger) : List Slot := ledger.slots.drop ledger.activeFrameCount

/-- The ledger holds these live slots, the oldest first, and above them these retired ones. -/
structure Layout (ledger : ShadowLedger) (live retired : List Slot) : Prop where
  slots : ledger.slots = live ++ retired
  count : ledger.activeFrameCount = live.length
  bottom : ∀ slot ∈ live.head?, slot.frame.identity.parent = 0
  calls : live.IsChain Calls
  admitted : ∀ slot ∈ live, slot.frame.plan.isSome ∧ slot.frame.identity.continuation ≠ 0
  retained : ledger.retainedMetadataCount = retired.countP (·.frame.plan.isSome)
  hidden : ∀ slot ∈ retired, Retired slot
  limit : ledger.retainedMetadataCount ≤ retainedMetadataLimit
  pending : ledger.pendingTailContinuation ≠ 0 → ∀ slot ∈ live.getLast?, Awaiting slot
  recycled : ∀ values ∈ ledger.recycledValues, values.cells = []

variable {ledger : ShadowLedger} {live retired : List Slot}
  {actual : ActivationIdentity} {plan : Owner SealedFunctionPlan} {reuse : Bool}

theorem Layout.eq (h : ledger.Layout live retired) :
    ledger.liveSlots = live ∧ ledger.inactiveSlots = retired := by
  simp [liveSlots, inactiveSlots, h.slots, h.count]

theorem Layout.live_eq (h : ledger.Layout live retired) (active : ledger.activeFrameCount ≠ 0) :
    ∃ below, live = below ++ [ledger.activeSlot] := by
  have nonempty : live ≠ [] := by
    rintro rfl
    exact active h.count
  refine ⟨live.dropLast, ?_⟩
  have last : ledger.activeSlot = live.getLast nonempty := by
    have inside : live.length - 1 < live.length := by
      have := length_pos_iff.mpr nonempty
      omega
    rw [activeSlot, h.slots, h.count, getD_append _ _ _ _ inside, getD_eq_getElem _ _ inside,
      getLast_eq_getElem]
  rw [last, dropLast_append_getLast nonempty]

theorem Layout.activeSlot_eq (h : ledger.Layout (below ++ [top]) retired) :
    ledger.activeSlot = top := by
  simp [activeSlot, h.slots, h.count]

theorem Layout.epoch_eq (h : ledger.Layout live retired) (s t : Slot) (hs : s ∈ live)
    (ht : t ∈ live) :
    s.frame.identity.runtimeEpoch = t.frame.identity.runtimeEpoch := by
  have same : (live.map (·.frame.identity.runtimeEpoch)).IsChain Eq :=
    (isChain_map _).mpr (h.calls.imp fun _ _ call => call.epoch.symm)
  exact (isChain_iff_pairwise.mp same).forall_of_forall (fun _ _ => rfl)
    (mem_map_of_mem hs) (mem_map_of_mem ht)

-- What an operation can do

structure Admits (ledger : ShadowLedger) (actual : ActivationIdentity) : Prop where
  continuation : actual.continuation ≠ 0
  parent : actual.parent = ledger.callerIncarnation
  epoch : ledger.activeFrameCount ≠ 0 →
    actual.runtimeEpoch = ledger.activeSlot.frame.identity.runtimeEpoch

structure KeepsActivation (ledger : ShadowLedger) (f : Slot → Slot) : Prop where
  identity : ∀ slot, (f slot).frame.identity = slot.frame.identity
  plan : ∀ slot, (f slot).frame.plan = slot.frame.plan
  awaiting : ledger.pendingTailContinuation ≠ 0 → Awaiting ledger.activeSlot →
    Awaiting (f ledger.activeSlot)

/-- The ways in which a ledger changes, with the activation that enters. -/
inductive Change (ledger : ShadowLedger) : Option ActivationIdentity → ShadowLedger → Prop
  | same : Change ledger none ledger
  | failed (status : Status) (ok : ledger.failure = .ok) (bad : status ≠ .ok) :
    Change ledger none { ledger with failure := status }
  | updated (f : Slot → Slot) (active : ledger.activeFrameCount ≠ 0)
    (keeps : ledger.KeepsActivation f) :
    Change ledger none { ledger with slots := ledger.slots.modify (ledger.activeFrameCount - 1) f }
  | called (actual : ActivationIdentity) (plan : Owner SealedFunctionPlan) (reuse : Bool)
    (ok : ledger.failure = .ok) (admits : ledger.Admits actual)
    (noTail : ledger.pendingTailContinuation = 0)
    (awaiting : ledger.activeFrameCount ≠ 0 → Awaiting ledger.activeSlot) :
    Change ledger (some actual) (ledger.push actual plan reuse)
  | tailCalled (actual : ActivationIdentity) (plan : Owner SealedFunctionPlan) (reuse : Bool)
    (ok : ledger.failure = .ok) (admits : ledger.Admits actual)
    (tail : ledger.pendingTailContinuation ≠ 0)
    (continuation : actual.continuation = ledger.pendingTailContinuation)
    (parent : actual.parent = ledger.pendingTailParent) :
    Change ledger (some actual)
      (push { ledger with pendingTailContinuation := 0, pendingTailParent := 0 } actual plan reuse)
  | returned (ok : ledger.failure = .ok) (active : ledger.activeFrameCount ≠ 0)
    (noTail : ledger.pendingTailContinuation = 0) : Change ledger none ledger.retire
  | tailLeft (ok : ledger.failure = .ok) (active : ledger.activeFrameCount ≠ 0)
    (noTail : ledger.pendingTailContinuation = 0) :
    Change ledger none (retire { ledger with
      pendingTailContinuation := ledger.activeSlot.frame.identity.continuation
      pendingTailParent := ledger.activeSlot.frame.identity.parent })
  | discarded (failed : ledger.failure ≠ .ok) : Change ledger none ledger.discardFailedRecording.2

def enteredBy (actual : ActivationIdentity) (result : Status × ShadowLedger) :
    Option ActivationIdentity :=
  if result.1 = .ok then some actual else none

def entered (ledger : ShadowLedger) : Op → Option ActivationIdentity
  | .enter actual plan => enteredBy actual (ledger.enter actual plan)
  | .compilerEnterObserver actual plan =>
    enteredBy actual (ledger.compilerEnterObserver actual plan)
  | _ => none

/-- A call with this result changes the ledger; only a call that succeeds enters an activation. -/
def Acts (ledger : ShadowLedger) (actual? : Option ActivationIdentity)
    (result : Status × ShadowLedger) : Prop :=
  ledger.Change (if result.1 = .ok then actual? else none) result.2

section Acts

variable {actual? : Option ActivationIdentity} {result : Status × ShadowLedger} {status : Status}

theorem Acts.change (h : ledger.Acts none result) : ledger.Change none result.2 := by
  rwa [Acts, ite_self] at h

theorem Acts.failWith (ok : ledger.failure = .ok) (bad : status ≠ .ok) :
    ledger.Acts actual? (ledger.failWith status) := by
  simpa [Acts, ShadowLedger.failWith, fail, ok, bad] using Change.failed status ok bad

theorem Acts.start (h : ledger.failure = .ok → ledger.Acts actual? result) :
    ledger.Acts actual? (if ledger.failure ≠ .ok then (ledger.failure, ledger) else result) := by
  split
  · next failure =>
    rw [Acts, if_neg failure]
    exact .same
  · next failure => exact h (not_not.mp failure)

theorem Acts.check {p : Prop} [Decidable p] (bad : p → status ≠ .ok) (ok : ledger.failure = .ok)
    (h : ¬ p → ledger.Acts actual? result) :
    ledger.Acts actual? (if p then ledger.failWith status else result) := by
  split
  · next hp => exact .failWith ok (bad hp)
  · next hp => exact h hp

end Acts

theorem checkCaller_eq_ok : ledger.checkCaller = .ok ↔ Awaiting ledger.activeSlot := by
  simp only [checkCaller, Awaiting]
  split
  · next checked => simp [checked]
  · next checked =>
    split
    · next site => simp only [reduceCtorEq, false_iff]; tauto
    · next site =>
      push Not at checked site
      simp only [checked, site, ne_eq, not_false_eq_true, and_self]

theorem isActive_iff : ledger.isActive actual = true ↔
    ledger.activeFrameCount ≠ 0 ∧ ledger.activeSlot.frame.identity = actual ∧
      ledger.pendingTailContinuation = 0 := by
  simp [isActive, and_assoc]

section

variable (ledger actual)

theorem enterImpl_acts (plan : Option (Owner SealedFunctionPlan)) (reuse : Bool) :
    ledger.Acts (some actual) (ledger.enterImpl actual plan reuse) := by
  unfold enterImpl
  refine .start fun ok => ?_
  split
  · exact .failWith ok (by simp)
  refine .check nofun ok fun _ => .check id ok fun _ => .check nofun ok fun invalid =>
    .check nofun ok fun _ => ?_
  push Not at invalid
  have admits : ledger.Admits actual := ⟨invalid.2.1, invalid.2.2.2.1, invalid.2.2.2.2⟩
  split
  · next tail =>
    refine .check nofun ok fun other => ?_
    push Not at other
    exact .tailCalled actual _ reuse ok admits tail other.1 other.2
  · next tail =>
    refine .check And.right ok fun caller => ?_
    push Not at caller
    exact .called actual _ reuse ok admits (not_not.mp tail) fun active =>
      checkCaller_eq_ok.mp (caller active)

theorem compilerEnterObserver_acts (plan : Option (Owner SealedFunctionPlan)) :
    ledger.Acts (some actual) (ledger.compilerEnterObserver actual plan) :=
  .start fun ok => .check nofun ok fun _ => enterImpl_acts ledger actual plan true

theorem bindObserverStorage_acts (storage : Bytes) :
    ledger.Acts none (ledger.bindObserverStorage actual storage) := by
  unfold bindObserverStorage
  refine .start fun ok => .check nofun ok fun valid => .check nofun ok fun _ =>
    .check nofun ok fun site => ?_
  push Not at valid
  refine .updated _ valid.1 ⟨fun _ => rfl, fun _ => rfl, fun _ awaiting => ?_⟩
  -- neither the missing storage nor the new one names a site
  have unbound : observerSite ledger.activeSlot = (.ok, 0) := by
    simp [observerSite, valid.2.2.2]
  have bound : observerSite { ledger.activeSlot with storage := storage } = (.ok, 0) := by
    simp [observerSite, not_not.mp site]
  have same : currentSite { ledger.activeSlot with storage := storage } =
      currentSite ledger.activeSlot := by
    simp [currentSite, unbound, bound]
  exact ⟨by rw [bound], same ▸ awaiting.2.1, same ▸ awaiting.2.2⟩

end

theorem observerStore_change (ledger : ShadowLedger) (bytes : Bytes) :
    ledger.Change none (ledger.observerStore bytes) := by
  unfold observerStore
  split
  · exact .same
  next running =>
  push Not at running
  exact .updated _ running.1 ⟨fun _ => rfl, fun _ => rfl, fun tail => absurd running.2.1 tail⟩

theorem modifyActive_acts (active : ¬ (!ledger.isActive actual) = true)
    (identity : ∀ frame, (f frame).identity = frame.identity)
    (plan : ∀ frame, (f frame).plan = frame.plan) :
    ledger.Acts none (.ok, ledger.modifyActive f) := by
  obtain ⟨nonempty, -, noTail⟩ := isActive_iff.mp (by simpa using active)
  exact .updated _ nonempty ⟨fun _ => identity _, fun _ => plan _, fun tail => absurd noTail tail⟩

section

variable (ledger actual)

theorem materialize_acts (siteId : Nat) (slots : Bytes) (defer : Bool) :
    ledger.Acts none (ledger.materialize actual siteId slots defer) := by
  unfold materialize
  refine .start fun ok => .check nofun ok fun active => ?_
  split
  · exact .failWith ok (by simp)
  refine .check nofun ok fun _ => .check nofun ok fun _ => ?_
  split
  · exact modifyActive_acts active (fun _ => rfl) fun _ => rfl
  · exact .check id ok fun _ => modifyActive_acts active (fun _ => rfl) fun _ => rfl

theorem materializeValidatedNativeData_acts (actualPlan : Option (Owner SealedFunctionPlan))
    (siteId : Nat) (values : List NativeValue) :
    ledger.Acts none (ledger.materializeValidatedNativeData actual actualPlan siteId values) := by
  unfold materializeValidatedNativeData
  refine .start fun ok => .check nofun ok fun active => ?_
  split
  · exact .failWith ok (by simp)
  · exact .check nofun ok fun _ => .check nofun ok fun _ => .check id ok fun _ =>
      modifyActive_acts active (fun _ => rfl) fun _ => rfl

theorem materializeCompilerNativeData_acts (actualPlan : Option (Owner SealedFunctionPlan))
    (siteId : Nat) (payload flags : Bytes) (defer : Bool) :
    ledger.Acts none (ledger.materializeCompilerNativeData actual actualPlan siteId payload
      flags defer) := by
  unfold materializeCompilerNativeData
  refine .start fun ok => .check nofun ok fun active => .check nofun ok fun _ => ?_
  dsimp only
  split
  · exact .check nofun ok fun _ => modifyActive_acts active (fun _ => rfl) fun _ => rfl
  · split
    · exact modifyActive_acts active (fun _ => rfl) fun _ => rfl
    · exact .failWith ok (by simp)
    · next found absent =>
      refine .failWith ok fun checked => ?_
      cases hsite : (if siteId = 0 then none else (sitesOf actualPlan)[siteId - 1]?) with
      | none => exact absent checked hsite
      | some site => exact found site checked hsite

theorem leave_acts (typedTail : Bool) : ledger.Acts none (ledger.leave actual typedTail) := by
  unfold leave
  refine .start fun ok => .check nofun ok fun active => ?_
  obtain ⟨nonempty, rfl, noTail⟩ := isActive_iff.mp (by simpa using active)
  split
  · exact .tailLeft ok nonempty noTail
  · exact .returned ok nonempty noTail

end

theorem step_change (ledger : ShadowLedger) (op : Op) :
    ledger.Change (ledger.entered op) (ledger.step op) := by
  cases op with
  | enter actual plan => exact enterImpl_acts ledger actual plan false
  | compilerEnterObserver actual plan => exact compilerEnterObserver_acts ledger actual plan
  | bindObserverStorage actual storage =>
    exact (bindObserverStorage_acts ledger actual storage).change
  | observerStore bytes => exact observerStore_change ledger bytes
  | materialize actual siteId slots defer =>
    exact (materialize_acts ledger actual siteId slots defer).change
  | materializeValidatedNativeData actual actualPlan siteId values =>
    exact (materializeValidatedNativeData_acts ledger actual actualPlan siteId values).change
  | materializeCompilerNativeData actual actualPlan siteId payload flags defer =>
    exact (materializeCompilerNativeData_acts ledger actual actualPlan siteId payload
      flags defer).change
  | leave actual typedTail => exact (leave_acts ledger actual typedTail).change
  | poison reason =>
    by_cases ok : ledger.failure = .ok
    · have bad : (if reason = .ok then .invalidActivation else reason) ≠ Status.ok := by
        split <;> simp_all
      simpa [step, entered, poison, fail, ok] using Change.failed _ ok bad
    · simpa [step, entered, poison, fail, ok] using Change.same
  | hostImportAdmission hasAdapter =>
    have acts : ledger.Acts none (ledger.hostImportAdmission hasAdapter) :=
      .start fun ok => .check nofun ok fun _ => .same
    exact acts.change
  | discardFailedRecording =>
    by_cases ok : ledger.failure = .ok
    · simpa [step, entered, discardFailedRecording, ok] using Change.same
    · exact .discarded ok

-- The layout is kept

theorem Layout.failed (h : ledger.Layout live retired) (status : Status) :
    { ledger with failure := status }.Layout live retired :=
  ⟨h.slots, h.count, h.bottom, h.calls, h.admitted, h.retained, h.hidden, h.limit,
    h.pending, h.recycled⟩

theorem Layout.noTail (h : ledger.Layout live retired) :
    { ledger with pendingTailContinuation := 0, pendingTailParent := 0 }.Layout live retired :=
  ⟨h.slots, h.count, h.bottom, h.calls, h.admitted, h.retained, h.hidden, h.limit,
    fun tail => absurd rfl tail, h.recycled⟩

theorem isChain_replaceLast (chain : (below ++ [s]).IsChain Calls)
    (identity : t.frame.identity = s.frame.identity) : (below ++ [t]).IsChain Calls := by
  rw [isChain_append] at chain ⊢
  refine ⟨chain.1, isChain_singleton _, fun lower hlower upper hupper => ?_⟩
  obtain rfl : t = upper := by simpa using hupper
  have call := chain.2.2 lower hlower s rfl
  exact ⟨identity ▸ call.parent, identity ▸ call.epoch, call.awaiting⟩

theorem Layout.updated (h : ledger.Layout live retired) (active : ledger.activeFrameCount ≠ 0)
    (keeps : ledger.KeepsActivation f) :
    ∃ live, { ledger with slots := ledger.slots.modify (ledger.activeFrameCount - 1) f }.Layout
      live retired := by
  obtain ⟨below, rfl⟩ := h.live_eq active
  refine ⟨below ++ [f ledger.activeSlot], ?_⟩
  have last := h.admitted ledger.activeSlot (by simp)
  exact {
    slots := by simp [h.slots, h.count, modify_eq_take_cons_drop]
    count := by simpa using h.count
    bottom := by
      have := h.bottom
      cases below <;> simp_all [keeps.identity]
    calls := isChain_replaceLast h.calls (keeps.identity _)
    admitted := by
      intro slot hslot
      rcases mem_append.mp hslot with hslot | hslot
      · exact h.admitted slot (mem_append_left _ hslot)
      · obtain rfl := mem_singleton.mp hslot
        rwa [keeps.identity, keeps.plan]
    retained := h.retained
    hidden := h.hidden
    limit := h.limit
    pending := by
      intro tail slot hslot
      obtain rfl : f ledger.activeSlot = slot := by simpa using hslot
      exact keeps.awaiting tail (h.pending tail _ (by simp))
    recycled := h.recycled }

theorem Layout.grown (h : ledger.Layout live retired) :
    ∃ slot rest, ledger.grown = live ++ slot :: rest ∧ (∀ s ∈ slot :: rest, Retired s) ∧
      ledger.retainedMetadataCount = (slot :: rest).countP (·.frame.plan.isSome) := by
  cases retired with
  | nil =>
    refine ⟨{}, [], by simp [ShadowLedger.grown, h.slots, h.count], ?_, h.retained⟩
    intro s hs
    obtain rfl := mem_singleton.mp hs
    exact ⟨rfl, rfl, rfl, rfl, rfl, rfl, rfl⟩
  | cons slot rest =>
    exact ⟨slot, rest, by simp [ShadowLedger.grown, h.slots, h.count], h.hidden, h.retained⟩

theorem admittedSlot_cells (free : Retired slot)
    (recycled : ∀ values ∈ ledger.recycledValues, values.cells = []) :
    (ledger.admittedSlot slot actual plan reuse).frame.values.cells = [] := by
  simp only [admittedSlot]
  split
  · rw [getD_eq_getElem?_getD]
    cases hvalues : ledger.recycledValues[ledger.recycledCount - 1]? with
    | none => rfl
    | some values => exact recycled values (mem_of_getElem? hvalues)
  · exact free.values

theorem admittedSlot_plan (slot : Slot) :
    (ledger.admittedSlot slot actual plan reuse).frame.plan.isSome := by
  simp only [admittedSlot]
  split
  · next same =>
    have same : sameOwner slot.frame.plan (some plan) = true := by simp_all
    cases hplan : slot.frame.plan with
    | none => simp [sameOwner, hplan] at same
    | some owner => rfl
  · rfl

/-- An admitted activation is a new top of the chain, in a frame that holds nothing yet. -/
theorem Layout.push (h : ledger.Layout live retired) (admits : ledger.Admits actual)
    (noTail : ledger.pendingTailContinuation = 0)
    (awaiting : ledger.activeFrameCount ≠ 0 → Awaiting ledger.activeSlot) :
    ∃ slot rest, (ledger.push actual plan reuse).Layout (live ++ [slot]) rest ∧
      slot.frame.identity = actual ∧ slot.frame.values.cells = [] ∧
        slot.frame.materialized = false := by
  obtain ⟨slot, rest, grown, hidden, retained⟩ := h.grown
  have free := hidden slot (by simp)
  have place : ledger.grown.getD ledger.activeFrameCount {} = slot := by simp [grown, h.count]
  refine ⟨ledger.admittedSlot slot actual plan reuse, rest, ?_, rfl,
    admittedSlot_cells free h.recycled, free.unmaterialized⟩
  rw [countP_cons] at retained
  have limit := h.limit
  exact {
    slots := by simp [ShadowLedger.push, grown, h.count]
    count := by simp [ShadowLedger.push, h.count]
    bottom := by
      cases live with
      | nil => simpa [admittedSlot, callerIncarnation, h.count] using admits.parent
      | cons first rest => exact h.bottom
    calls := by
      refine isChain_append.mpr ⟨h.calls, isChain_singleton _, fun lower hlower upper hupper => ?_⟩
      obtain rfl : ledger.admittedSlot slot actual plan reuse = upper := by simpa using hupper
      have active : ledger.activeFrameCount ≠ 0 := by
        rintro empty
        simp [length_eq_zero_iff.mp (h.count.symm.trans empty)] at hlower
      obtain ⟨below, hlive⟩ := h.live_eq active
      obtain rfl : ledger.activeSlot = lower := by simpa [hlive] using hlower
      exact ⟨admits.parent.trans (if_neg active), admits.epoch active, awaiting active⟩
    admitted := by
      intro s hs
      rcases mem_append.mp hs with hs | hs
      · exact h.admitted s hs
      · obtain rfl := mem_singleton.mp hs
        exact ⟨admittedSlot_plan slot, admits.continuation⟩
    retained := by
      simp only [ShadowLedger.push, place]
      split <;> simp_all
    hidden := fun s hs => hidden s (mem_cons_of_mem _ hs)
    limit := by
      simp only [ShadowLedger.push, place]
      split <;> omega
    pending := fun tail => absurd noTail tail
    recycled := by
      intro values hvalues
      simp only [ShadowLedger.push, place] at hvalues
      split at hvalues
      · rcases mem_or_eq_of_mem_set hvalues with hvalues | rfl
        · exact h.recycled values hvalues
        · exact free.values
      · exact h.recycled values hvalues }

theorem recycleValues_cells (recycled : ∀ values ∈ ledger.recycledValues, values.cells = [])
    (values : ValueVector) : ∀ v ∈ (ledger.recycleValues values).2.1, v.cells = [] := by
  intro v hv
  unfold recycleValues at hv
  split at hv
  · rcases mem_or_eq_of_mem_set hv with hv | rfl
    · exact recycled v hv
    · rfl
  · exact recycled v hv

theorem retiredSlot_retired (slot : Slot) (values : ValueVector) (retain : Bool) :
    Retired (retiredSlot slot values retain) := by
  refine ⟨rfl, rfl, ?_, rfl, rfl, rfl, rfl⟩
  simp only [retiredSlot]
  split
  · rfl
  · next capacity =>
    have := values.fits
    exact length_eq_zero_iff.mp (by omega)

/-- The frame on top retires, and the one below it still awaits its return. -/
theorem Layout.retire (h : ledger.Layout live retired) (active : ledger.activeFrameCount ≠ 0)
    (continuation parent : Nat) :
    ∃ live retired, (ShadowLedger.retire { ledger with
      pendingTailContinuation := continuation, pendingTailParent := parent }).Layout
        live retired := by
  obtain ⟨below, rfl⟩ := h.live_eq active
  obtain ⟨chain, -, last⟩ := isChain_append.mp h.calls
  have plan := (h.admitted ledger.activeSlot (by simp)).1
  have slots := h.slots
  have count := h.count
  have limit := h.limit
  set slot := ledger.activeSlot with hslot
  refine ⟨below,
    retiredSlot slot (ledger.recycleValues slot.frame.values).1 ledger.retainsPlan :: retired, {
    slots := ?_
    count := ?_
    bottom := ?_
    calls := chain
    admitted := fun s hs => h.admitted s (mem_append_left _ hs)
    retained := ?_
    hidden := ?_
    limit := ?_
    pending := fun _ s hs => (last s hs slot rfl).awaiting
    recycled := recycleValues_cells h.recycled _ }⟩
  · show ledger.slots.set (ledger.activeFrameCount - 1)
      (retiredSlot slot (ledger.recycleValues slot.frame.values).1 ledger.retainsPlan) = _
    rw [slots, count]
    simp
  · show ledger.activeFrameCount - 1 = _
    simp [count]
  · intro s hs
    exact h.bottom s (by cases below <;> simp_all)
  · show (if ledger.retainsPlan then ledger.retainedMetadataCount + 1
      else ledger.retainedMetadataCount) = _
    rw [countP_cons, ← h.retained]
    cases ledger.retainsPlan <;> simp [retiredSlot, plan]
  · intro s hs
    rcases mem_cons.mp hs with rfl | hs
    · exact retiredSlot_retired ..
    · exact h.hidden s hs
  · show (if ledger.retainsPlan then ledger.retainedMetadataCount + 1
      else ledger.retainedMetadataCount) ≤ _
    split
    · next retains =>
      simp only [retainsPlan, Bool.and_eq_true, decide_eq_true_eq] at retains
      omega
    · exact limit

/-- A frame that an activation enters from awaits its return, also if a typed tail call
lies between. -/
theorem Layout.awaiting (h : ledger.Layout live retired)
    (change : ledger.Change (some actual) ledger')
    (active : ledger.activeFrameCount ≠ 0) : Awaiting ledger.activeSlot := by
  cases change with
  | called _ plan reuse ok admits noTail awaiting => exact awaiting active
  | tailCalled _ plan reuse ok admits tail =>
    obtain ⟨below, rfl⟩ := h.live_eq active
    exact h.pending tail _ (by simp)

theorem Layout.entered (h : ledger.Layout live retired)
    (change : ledger.Change (some actual) ledger') :
    ∃ slot rest, ledger'.Layout (live ++ [slot]) rest ∧ slot.frame.identity = actual ∧
      slot.frame.values.cells = [] ∧ slot.frame.materialized = false := by
  have awaiting := h.awaiting change
  cases change with
  | called _ plan reuse ok admits noTail => exact h.push admits noTail awaiting
  | tailCalled _ plan reuse ok admits tail =>
    exact h.noTail.push ⟨admits.continuation, admits.parent, admits.epoch⟩ rfl awaiting

theorem Change.layout (change : ledger.Change entry ledger')
    (h : ∃ live retired, ledger.Layout live retired) :
    ∃ live retired, ledger'.Layout live retired := by
  obtain ⟨live, retired, h⟩ := h
  cases change with
  | same => exact ⟨live, retired, h⟩
  | failed status => exact ⟨live, retired, h.failed status⟩
  | updated f active keeps =>
    obtain ⟨live, h⟩ := h.updated active keeps
    exact ⟨live, retired, h⟩
  | called actual plan reuse ok admits noTail awaiting =>
    obtain ⟨slot, rest, h, -⟩ := h.entered (.called actual plan reuse ok admits noTail awaiting)
    exact ⟨_, rest, h⟩
  | tailCalled actual plan reuse ok admits tail continuation parent =>
    obtain ⟨slot, rest, h, -⟩ :=
      h.entered (.tailCalled actual plan reuse ok admits tail continuation parent)
    exact ⟨_, rest, h⟩
  | returned ok active noTail =>
    exact h.retire active ledger.pendingTailContinuation ledger.pendingTailParent
  | tailLeft ok active noTail => exact h.retire active _ _
  | discarded failed =>
    refine ⟨[], [], ?_⟩
    rw [discardFailedRecording, if_neg failed]
    exact ⟨rfl, rfl, by simp, .nil, by simp, rfl, by simp, Nat.zero_le _, by simp, h.recycled⟩

-- Runs

def WellFormed (ledger : ShadowLedger) : Prop := ledger.Layout ledger.liveSlots ledger.inactiveSlots

theorem wellFormed_iff : ledger.WellFormed ↔ ∃ live retired, ledger.Layout live retired := by
  constructor
  · exact fun h => ⟨_, _, h⟩
  · rintro ⟨live, retired, h⟩
    rwa [WellFormed, h.eq.1, h.eq.2]

theorem wellFormed_new (profile : Option (Owner CompilationProfile)) :
    (new profile).WellFormed := by
  rw [wellFormed_iff]
  refine ⟨[], [], rfl, rfl, by simp, .nil, by simp, rfl, by simp, Nat.zero_le _, by simp, ?_⟩
  intro values hvalues
  obtain rfl := eq_of_mem_replicate hvalues
  rfl

theorem WellFormed.run (h : ledger.WellFormed) (ops : List Op) : (ledger.run ops).WellFormed := by
  induction ops generalizing ledger with
  | nil => exact h
  | cons op ops ih =>
    exact ih (wellFormed_iff.mpr ((step_change ledger op).layout (wellFormed_iff.mp h)))

def entersNothing (ledger : ShadowLedger) : List Op → Prop
  | [] => True
  | op :: ops => ledger.entered op = none ∧ (ledger.step op).entersNothing ops

instance decidableEntersNothing (ledger : ShadowLedger) (ops : List Op) :
    Decidable (ledger.entersNothing ops) :=
  match ops with
  | [] => inferInstanceAs (Decidable True)
  | op :: ops =>
    have := decidableEntersNothing (ledger.step op) ops
    inferInstanceAs (Decidable (_ ∧ _))

theorem Change.failure_eq (change : ledger.Change entry ledger') (failed : ledger.failure ≠ .ok) :
    ledger'.failure = ledger.failure := by
  cases change with
  | same => rfl
  | updated => rfl
  | discarded => rw [discardFailedRecording, if_neg failed]
  | failed _ ok | called _ _ _ ok | tailCalled _ _ _ ok | returned ok | tailLeft ok =>
    exact absurd ok failed

theorem run_failure_eq (failed : ledger.failure ≠ .ok) (ops : List Op) :
    (ledger.run ops).failure = ledger.failure := by
  induction ops generalizing ledger with
  | nil => rfl
  | cons op ops ih =>
    have step := (step_change ledger op).failure_eq failed
    exact (ih (step ▸ failed)).trans step

/-- Unless the ledger has failed, a typed tail call with this continuation and parent is pending. -/
def TailPending (continuation parent : Nat) (ledger : ShadowLedger) : Prop :=
  ledger.failure = .ok → ledger.pendingTailContinuation = continuation ∧
    ledger.pendingTailParent = parent

section

variable {continuation parent : Nat} (nonzero : continuation ≠ 0)

include nonzero

theorem TailPending.change (change : ledger.Change none ledger')
    (h : ledger.TailPending continuation parent) :
    ledger'.TailPending continuation parent := by
  cases change with
  | same => exact h
  | updated => exact h
  | failed status ok bad => exact fun ok' => absurd ok' bad
  | returned ok active noTail | tailLeft ok active noTail =>
    exact absurd (noTail.symm.trans (h ok).1) nonzero.symm
  | discarded failed =>
    intro ok
    rw [discardFailedRecording, if_neg failed] at ok
    exact absurd ok failed

theorem TailPending.run (ops : List Op) (h : ledger.TailPending continuation parent)
    (nothing : ledger.entersNothing ops) :
    (ledger.run ops).TailPending continuation parent := by
  induction ops generalizing ledger with
  | nil => exact h
  | cons op ops ih =>
    have change := step_change ledger op
    rw [nothing.1] at change
    exact ih (h.change nonzero change) nothing.2

/-- Only the successor of the pending typed tail call is admitted. -/
theorem TailPending.entered (h : ledger.TailPending continuation parent)
    (change : ledger.Change (some actual) ledger') :
    actual.continuation = continuation ∧ actual.parent = parent := by
  cases change with
  | called _ plan reuse ok admits noTail => exact absurd (noTail.symm.trans (h ok).1) nonzero.symm
  | tailCalled _ plan reuse ok admits tail same parent =>
    exact ⟨same.trans (h ok).1, parent.trans (h ok).2⟩

end

theorem WellFormed.tailPending (h : ledger.WellFormed) (left : (ledger.leave actual true).1 = .ok) :
    actual.continuation ≠ 0 ∧
      (ledger.leave actual true).2.TailPending actual.continuation actual.parent := by
  unfold leave at left ⊢
  split at left
  · contradiction
  next failure =>
  have ok := not_not.mp failure
  split at left
  · simp [failWith, fail, ok] at left
  next active =>
  obtain ⟨nonempty, rfl, noTail⟩ := isActive_iff.mp (by simpa using active)
  rw [if_neg failure, if_neg active]
  obtain ⟨below, live⟩ := Layout.live_eq h nonempty
  exact ⟨(Layout.admitted h ledger.activeSlot (by simp [live])).2, fun _ => ⟨rfl, rfl⟩⟩

/-- After any operations on a new ledger: its layout is well formed, with one epoch; a frame that
is entered from awaits the return, and the entered one is clean; after a typed tail call only
its successor can enter; and a failure stays. -/
theorem run_activationChain (profile : Option (Owner CompilationProfile)) (ops : List Op)
    (ledger : ShadowLedger) (reached : ledger = (new profile).run ops) :
    ledger.WellFormed ∧
    (∀ s ∈ ledger.liveSlots, ∀ t ∈ ledger.liveSlots,
      s.frame.identity.runtimeEpoch = t.frame.identity.runtimeEpoch) ∧
    (∀ op actual, ledger.entered op = some actual →
      (ledger.activeFrameCount ≠ 0 → Awaiting ledger.activeSlot) ∧
      (ledger.step op).activeSlot.frame.identity = actual ∧
      (ledger.step op).activeSlot.frame.values.cells = [] ∧
      (ledger.step op).activeSlot.frame.materialized = false) ∧
    (∀ actual, (ledger.leave actual true).1 = .ok →
      ∀ between, (ledger.leave actual true).2.entersNothing between →
      ∀ op next, ((ledger.leave actual true).2.run between).entered op = some next →
        next.continuation = actual.continuation ∧ next.parent = actual.parent) ∧
    (ledger.failure ≠ .ok → ∀ later, (ledger.run later).failure = ledger.failure) := by
  have h : ledger.WellFormed := reached ▸ (wellFormed_new profile).run ops
  refine ⟨h, fun s hs t ht => Layout.epoch_eq h s t hs ht, ?_, ?_, fun failed later =>
    run_failure_eq failed later⟩
  · intro op actual enters
    have change := step_change ledger op
    rw [enters] at change
    obtain ⟨slot, rest, h', identity, cells, fresh⟩ := Layout.entered h change
    rw [h'.activeSlot_eq]
    exact ⟨Layout.awaiting h change, identity, cells, fresh⟩
  · intro actual left between nothing op next enters
    obtain ⟨nonzero, pending⟩ := h.tailPending left
    have change := step_change ((ledger.leave actual true).2.run between) op
    rw [enters] at change
    exact (pending.run nonzero between nothing).entered nonzero change

def observerProfile : Owner CompilationProfile := ⟨1, 1, { purpose := .observeValues }⟩

def callPlan : Owner SealedFunctionPlan :=
  ⟨2, 2, ⟨{ profile := some observerProfile, sites := [⟨0, .awaitingCallReturn, []⟩] }, 64⟩⟩

def callRun : List Op :=
  [.compilerEnterObserver ⟨1, 0, 1, 1⟩ (some callPlan),
    .materialize ⟨1, 0, 1, 1⟩ 1 [] true,
    .compilerEnterObserver ⟨2, 1, 2, 1⟩ (some callPlan)]

/-- The callee leaves by a typed tail call, and its successor is the next to enter. -/
theorem run_activationChain_tailCall : ((new (some observerProfile)).run callRun).WellFormed ∧
    ((new (some observerProfile)).run callRun).liveSlots.length = 2 ∧
    (((new (some observerProfile)).run callRun).leave ⟨2, 1, 2, 1⟩ true).1 = .ok ∧
    ((((new (some observerProfile)).run callRun).leave ⟨2, 1, 2, 1⟩ true).2.run
      [.hostImportAdmission true]).entered (.compilerEnterObserver ⟨3, 1, 2, 1⟩ (some callPlan)) =
        some ⟨3, 1, 2, 1⟩ ∧
    ActivationIdentity.continuation ⟨3, 1, 2, 1⟩ = 2 := by
  have left : (((new (some observerProfile)).run callRun).leave ⟨2, 1, 2, 1⟩ true).1 = .ok := by
    decide
  have enters : ((((new (some observerProfile)).run callRun).leave ⟨2, 1, 2, 1⟩ true).2.run
      [.hostImportAdmission true]).entered (.compilerEnterObserver ⟨3, 1, 2, 1⟩ (some callPlan)) =
        some ⟨3, 1, 2, 1⟩ := by decide
  obtain ⟨wellFormed, -, -, tail, -⟩ := run_activationChain (some observerProfile) callRun _ rfl
  exact ⟨wellFormed, by decide, left, enters, (tail _ left _ (by decide) _ _ enters).1⟩

end ShadowLedger

end Uwvm2.Checkpoint
