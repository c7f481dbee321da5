import Uwvm2.Validation.Wasm1.Blocks
import Uwvm2.Validation.Wasm1.Encoding
import Uwvm2.Validation.Wasm1.Operations

/-!
# One round of the validator's loop

A round reads the bytes of one token and does what the token machine with the
strict checker does on it; and a round that succeeds has read a token.
-/

namespace Uwvm2.Validation.Wasm1

open StackTyping List

variable {C : Context} {c : List UInt8}

/-- A state is the view of a machine inside the function of context `C`. -/
def Views (C : Context) (st : State) (m : Machine ValueType) : Prop :=
  OpenFrames C.return_.reverse m.frames ∧ st = stateOf st.codeCurr m

theorem step_eq (op : Wasm1Code) (m : Machine ValueType) :
    step env (stateOf (op.toByte :: c) m) = runArm env (op.toByte :: c) (stateOf c m) op.arm := by
  have hop : Wasm1Code.ofByte? op.toByte = some op := Wasm1Code.ofByte?_eq_some.mpr rfl
  simp only [step, stateOf_codeCurr, hop, stateOf_withCode]

theorem step_arm {op : Wasm1Code} (hbyte : op.toByte = b) (harm : op.arm = arm)
    (m : Machine ValueType) :
    step env (stateOf (b :: c) m) = runArm env (b :: c) (stateOf c m) arm := by
  subst hbyte harm
  exact step_eq op m

theorem U32s.length_le (h : U32s a js) : js.length ≤ a.length := by
  induction h with
  | nil => simp
  | @cons a _ _ _ ha _ ih =>
    cases a with
    | nil => exact absurd ha Leb128.Unsigned.ne_nil
    | cons b a => simp; omega

theorem U32s.reads (hleb : leb.Correct) (h : U32s a js) : ReadsLabels leb js (a ++ c) c := by
  induction h with
  | nil => rfl
  | cons ha _ ih => exact ⟨_, by simpa using hleb.u32.complete ha, ih⟩

theorem plain_step (hE : EnvFor env C) (hF : OpenFrames C.return_.reverse (f :: fs))
    (h : PlainBytes p a) :
    ∃ r, step env (stateOf (a ++ c) ⟨f :: fs, σ⟩) = continues r ∧
      Yields r c (f :: fs) (effect C true ((f :: fs).map Frame.label) p σ) := by
  have hS : SimpleFrames (f :: fs) := hF.simple (by simpa using hE.result)
  have hu32 : ∀ {a x} c, U32 a x → env.leb.u32 (a ++ c) = .ok (x, c) :=
    fun c h => hE.leb.u32.complete h
  cases h with
  | unreachable =>
    exact ⟨_, step_eq .unreachable _, by rw [setUnreachable_stateOf]; exact .pure⟩
  | nop => exact ⟨_, step_eq .nop _, .pure⟩
  | br ha => exact ⟨_, step_eq .br _, br_yields hS (hu32 c ha)⟩
  | brIf ha => exact ⟨_, step_eq .brIf _, brIf_yields hS (hu32 c ha)⟩
  | @brTable a b js d j ha hb hd =>
    have hlen : js.length < (b ++ (d ++ c)).length := by
      have hle := hb.length_le
      have hne : d ≠ [] := fun h => Leb128.Unsigned.ne_nil (h ▸ hd)
      have hpos := length_pos_iff.mpr hne
      simp only [length_append]
      omega
    have hmax : js.length < sizeMax := Nat.lt_of_lt_of_le ha.lt (by decide)
    rw [cons_append, append_assoc, append_assoc]
    refine ⟨_, step_eq .brTable _, ?_⟩
    exact brTable_yields hS (hu32 _ ha) hlen hmax (hb.reads hE.leb) (hu32 c hd)
  | return_ => exact ⟨_, step_eq .return_ _, return_yields hF⟩
  | call ha => exact ⟨_, step_eq .call _, call_yields hE (hu32 c ha)⟩
  | callIndirect ha =>
    rw [cons_append, append_assoc]
    refine ⟨_, step_eq .callIndirect _, ?_⟩
    exact callIndirect_yields hE (hu32 _ ha)
  | drop => exact ⟨_, step_eq .drop _, drop_yields⟩
  | select => exact ⟨_, step_eq .select _, select_yields⟩
  | localGet ha => exact ⟨_, step_eq .localGet _, localGet_yields hE (hu32 c ha)⟩
  | localSet ha => exact ⟨_, step_eq .localSet _, localSet_yields hE (hu32 c ha)⟩
  | localTee ha => exact ⟨_, step_eq .localTee _, localTee_yields hE (hu32 c ha)⟩
  | globalGet ha => exact ⟨_, step_eq .globalGet _, globalGet_yields hE (hu32 c ha)⟩
  | globalSet ha => exact ⟨_, step_eq .globalSet _, globalSet_yields hE (hu32 c ha)⟩
  | @load a align b offset op ha hb =>
    obtain ⟨code, hbyte, opName, maxAlign, harm, hbytes⟩ := Wasm1Code.exists_load op
    rw [cons_append, append_assoc]
    refine ⟨_, step_arm hbyte harm _, ?_⟩
    exact validateMemLoad_yields hE (hu32 _ ha) (hu32 c hb) hbytes
  | @store a align b offset op ha hb =>
    obtain ⟨code, hbyte, opName, maxAlign, harm, hbytes⟩ := Wasm1Code.exists_store op
    rw [cons_append, append_assoc]
    refine ⟨_, step_arm hbyte harm _, ?_⟩
    exact validateMemStore_yields hE (hu32 _ ha) (hu32 c hb) hbytes
  | memorySize => exact ⟨_, step_eq .memorySize _, memorySize_yields hE⟩
  | memoryGrow => exact ⟨_, step_eq .memoryGrow _, memoryGrow_yields hE⟩
  | i32Const ha => exact ⟨_, step_eq .i32Const _, i32Const_yields (hE.leb.i32.complete ha)⟩
  | i64Const ha => exact ⟨_, step_eq .i64Const _, i64Const_yields (hE.leb.i64.complete ha)⟩
  | f32Const hz => exact ⟨_, step_eq .f32Const _, by rw [f32Const, ← hz]; exact floatConst_yields⟩
  | f64Const hz => exact ⟨_, step_eq .f64Const _, by rw [f64Const, ← hz]; exact floatConst_yields⟩
  | @num n =>
    rw [singleton_append]
    obtain ⟨code, hbyte, hunary | hbinary⟩ := Wasm1Code.exists_numeric n
    · obtain ⟨opName, t, r, harm, htype⟩ := hunary
      refine ⟨_, step_arm hbyte harm _, ?_⟩
      simpa only [effect, signature, htype, Option.bind_some] using validateNumericUnary_yields
    · obtain ⟨opName, t, r, harm, htype⟩ := hbinary
      refine ⟨_, step_arm hbyte harm _, ?_⟩
      simpa only [effect, signature, htype, Option.bind_some] using validateNumericBinary_yields

-- Tokens

theorem OpenFrames.ne_nil (h : OpenFrames outs F) : F ≠ [] := by
  cases h <;> simp

theorem continues_ok : continues r = .ok x ↔ ∃ st, r = .ok st ∧ x = some st := by
  cases r <;> simp [continues, eq_comm]

theorem OpenFrames.views (h : OpenFrames C.return_.reverse m.frames) :
    m.frames ≠ [] ∧ (stateOf c m).codeCurr = c ∧ Views C (stateOf c m) m := ⟨h.ne_nil, rfl, h, rfl⟩

theorem plain_outcome (hE : EnvFor env C) (hF : OpenFrames C.return_.reverse (f :: fs))
    (h : PlainBytes p a) :
    Outcome (step env) State.codeCurr (Views C) (stateOf (a ++ c) ⟨f :: fs, σ⟩) c
      ((checker C true).step ⟨f :: fs, σ⟩ (.plain p)) := by
  obtain ⟨r, hr, hy⟩ : ∃ r, step env (stateOf (a ++ c) ⟨f :: fs, σ⟩) = continues r ∧
      Yields r c (f :: fs) (effect C true ((f :: fs).map Frame.label) p σ) := plain_step hE hF h
  refine .of_tracks (g := stateOf c) ?_ fun m hm => ?_
  · rw [hr]
    refine Tracks.reindex ?_ fun m => Checker.step_plain
    exact Tracks.some hy
  · obtain ⟨τ, -, rfl⟩ := Checker.step_plain.mp hm
    exact hF.views

theorem enter_step {k : Kind} (h : BlockTypeBytes b a) :
    Tracks (fun ρ => some (stateOf c ⟨⟨k.toFrame, [], b.toList, ρ⟩ :: f :: fs, .ofTypes []⟩))
      (step env (stateOf (k.opcode :: (a ++ c)) ⟨f :: fs, σ⟩))
      (σ.popAll (if k = .ifThen then [.i32] else [])) := by
  intro x
  cases k with
  | block =>
    have hstep : step env (stateOf (Kind.block.opcode :: (a ++ c)) ⟨f :: fs, σ⟩) = continues _ :=
      step_eq .block _
    rw [hstep, block_eq h]
    simp [continues, OpStack.popAll, Kind.toFrame, eq_comm (a := x)]
  | loop =>
    have hstep : step env (stateOf (Kind.loop.opcode :: (a ++ c)) ⟨f :: fs, σ⟩) = continues _ :=
      step_eq .loop _
    rw [hstep, loop_eq h]
    simp [continues, OpStack.popAll, Kind.toFrame, eq_comm (a := x)]
  | ifThen =>
    have hstep : step env (stateOf (Kind.ifThen.opcode :: (a ++ c)) ⟨f :: fs, σ⟩) = continues _ :=
      step_eq .if_ _
    have hpop : σ.popAll [.i32] = σ.popExpect .i32 := by simp [OpStack.popAll]
    simp only [hstep, continues_ok, if_ok h, if_true, hpop, Kind.toFrame]
    constructor
    · rintro ⟨_, ⟨ρ, hρ, rfl⟩, rfl⟩
      exact ⟨ρ, hρ, rfl⟩
    · rintro ⟨ρ, hρ, rfl⟩
      exact ⟨_, ⟨ρ, hρ, rfl⟩, rfl⟩

theorem enter_outcome (hF : OpenFrames C.return_.reverse (f :: fs)) {k : Kind}
    (h : BlockTypeBytes b a) :
    Outcome (step env) State.codeCurr (Views C) (stateOf (k.opcode :: (a ++ c)) ⟨f :: fs, σ⟩) c
      ((checker C true).step ⟨f :: fs, σ⟩ (.enter k b)) := by
  have hstep : ∀ m, (checker C true).step ⟨f :: fs, σ⟩ (.enter k b) = some m ↔
      ∃ ρ, σ.popAll (if k = .ifThen then [.i32] else []) = some ρ ∧
        m = ⟨⟨k.toFrame, [], b.toList, ρ⟩ :: f :: fs, .ofTypes []⟩ := by
    intro m
    rw [Checker.step_enter]
    simp [checker]
  refine .of_tracks (g := stateOf c) (Tracks.reindex ?_ hstep) fun m hm => ?_
  · exact enter_step h
  · obtain ⟨ρ, -, rfl⟩ := (hstep m).mp hm
    exact (OpenFrames.nest (by cases k <;> simp [Kind.toFrame]) (by cases b <;> simp) hF).views

theorem els_outcome (hF : OpenFrames C.return_.reverse (f :: fs)) :
    Outcome (step env) State.codeCurr (Views C) (stateOf (0x05 :: c) ⟨f :: fs, σ⟩) c
      ((checker C true).step ⟨f :: fs, σ⟩ .els) := by
  have hstep : step env (stateOf (0x05 :: c) ⟨f :: fs, σ⟩) = continues _ := step_eq .else_ _
  have hins : f.ins = [] := by cases hF <;> rfl
  refine .of_tracks (g := stateOf c) ?_ fun m hm => ?_
  · rw [hstep]
    refine Tracks.some fun st => ?_
    simp [else_ok, Checker.step_els, hins, and_assoc]
  · obtain ⟨hk, -, rfl⟩ := Checker.step_els.mp hm
    cases hF with
    | func => cases hk
    | nest _ hlen hrest => exact (OpenFrames.nest (by simp) hlen hrest).views

theorem fin_outcome (hF : OpenFrames C.return_.reverse (f :: fs)) :
    Outcome (step env) State.codeCurr (Views C) (stateOf (0x0B :: c) ⟨f :: fs, σ⟩) c
      ((checker C true).step ⟨f :: fs, σ⟩ .fin) := by
  have hstep : step env (stateOf (0x0B :: c) ⟨f :: fs, σ⟩) =
      end_ env (0x0B :: c) (stateOf c ⟨f :: fs, σ⟩) := step_eq .end_ _
  cases hF with
  | func =>
    -- the last frame closes, so the input has to end here
    cases hm : (checker C true).step ⟨[⟨.func, [], C.return_.reverse, .ofTypes []⟩], σ⟩ .fin with
    | none =>
      refine error_of_not_ok fun x hx => ?_
      rw [hstep, end_func_ok rfl] at hx
      cases hm.symm.trans (Checker.step_fin.mpr ⟨hx.1, nofun, rfl⟩)
    | some m =>
      obtain ⟨hex, -, rfl⟩ := Checker.step_fin.mp hm
      simp only [Outcome, if_true, hstep]
      refine ⟨fun hc => (end_func_ok rfl).mpr ⟨hex, hc, rfl⟩,
        fun hc => error_of_not_ok fun x hx => ?_⟩
      exact hc ((end_func_ok rfl).mp hx).2.1
  | @nest k us _ ρ hk hlen hrest =>
    refine .of_tracks (g := stateOf c) (fun x => ?_) fun m hm => ?_
    · rw [hstep, end_ok hk]
      simp [Checker.step_fin, eq_comm (a := []), and_assoc, and_left_comm]
    · obtain ⟨-, -, rfl⟩ := Checker.step_fin.mp hm
      exact hrest.views

theorem step_outcome (hE : EnvFor env C) (hV : Views C st m) (ht : TokenBytes grammar t a)
    (hb : st.codeCurr = a ++ c) :
    Outcome (step env) State.codeCurr (Views C) st c ((checker C true).step m t) := by
  obtain ⟨hF, hst⟩ := hV
  rw [hst, hb]
  match m, hF.ne_nil with
  | ⟨f :: fs, σ⟩, _ =>
    cases ht with
    | plain hp => exact plain_outcome hE hF hp
    | enter hbt => exact enter_outcome hF hbt
    | els => exact els_outcome hF
    | fin => exact fin_outcome hF

-- A successful round has read a token

variable {st : State}

theorem readImm_reads {α : Type} {read : List UInt8 → Except ParseCode (α × List UInt8)} {x : α}
    (h : readImm read env opBegin code st = .ok (x, st')) :
    read st.codeCurr = .ok (x, st'.codeCurr) := by
  unfold readImm at h
  split at h
  case h_1 y next hread =>
    cases h
    exact hread
  case h_2 => cases h

theorem u32_bytes (hleb : env.leb.Correct) {code : ErrorCode}
    (h : readImm env.leb.u32 env opBegin code st = .ok (x, st')) :
    ∃ a, st.codeCurr = a ++ st'.codeCurr ∧ U32 a x :=
  hleb.u32.sound (readImm_reads h)

theorem brTableTarget_bytes (hleb : env.leb.Correct)
    (h : brTableTarget env opBegin expected st = .ok (sig, st')) :
    ∃ a l, st.codeCurr = a ++ st'.codeCurr ∧ U32 a l := by
  simp only [brTableTarget, bind_ok] at h
  obtain ⟨⟨l, st₁⟩, hread, frame, -, h⟩ := h
  have hst : st' = st₁ := by
    cases expected with
    | none => simp_all
    | some first =>
      obtain ⟨_, -, h⟩ := bind_ok.mp h
      cases h
      rfl
  subst hst
  obtain ⟨a, hcode, ha⟩ := u32_bytes hleb hread
  exact ⟨a, l, hcode, ha⟩

theorem brTableTargets_bytes (hleb : env.leb.Correct)
    (h : brTableTargets env opBegin n expected st = .ok (expected', st')) :
    ∃ a js, js.length = n ∧ st.codeCurr = a ++ st'.codeCurr ∧ U32s a js := by
  induction n generalizing expected st with
  | zero =>
    cases h
    exact ⟨[], [], rfl, rfl, .nil⟩
  | succ n ih =>
    simp only [brTableTargets, bind_ok] at h
    obtain ⟨⟨first, st₁⟩, hfirst, hrest⟩ := h
    obtain ⟨a, l, hcode, ha⟩ := brTableTarget_bytes hleb hfirst
    obtain ⟨b, js, hlen, hcode', hjs⟩ := ih hrest
    dsimp only at hcode'
    exact ⟨a ++ b, l :: js, by simp [hlen], by simp [hcode, hcode'], .cons ha hjs⟩

theorem brTable_bytes (hleb : env.leb.Correct) (h : brTable env opBegin st = .ok st') :
    ∃ a c js j, st.codeCurr = a ++ c ∧ PlainBytes (.brTable js j) (0x0E :: a) := by
  simp only [brTable, bind_ok] at h
  obtain ⟨⟨n, st₁⟩, hn, _, -, ⟨expected, st₂⟩, htargets, ⟨sig, st₃⟩, hlast, -⟩ := h
  obtain ⟨a, hcode, ha⟩ := u32_bytes hleb hn
  obtain ⟨b, js, rfl, hcode₁, hb⟩ := brTableTargets_bytes hleb htargets
  obtain ⟨d, j, hcode₂, hd⟩ := brTableTarget_bytes hleb hlast
  dsimp only at hcode hcode₁ hcode₂
  exact ⟨a ++ (b ++ d), st₃.codeCurr, js, j, by simp [hcode, hcode₁, hcode₂], .brTable ha hb hd⟩

theorem readBlockType_bytes (h : readBlockType env opBegin st = .ok (result, st')) :
    ∃ a b, st.codeCurr = a ++ st'.codeCurr ∧ BlockTypeBytes b a := by
  unfold readBlockType at h
  split at h
  case h_1 => cases h
  case h_2 b rest hcode =>
    split at h
    case h_2 => cases h
    case h_1 result' hresult =>
      cases h
      unfold blockResult at hresult
      split at hresult
      case h_1 => exact ⟨_, _, hcode, .empty⟩
      case h_2 => exact ⟨_, _, hcode, .i32⟩
      case h_3 => exact ⟨_, _, hcode, .i64⟩
      case h_4 => exact ⟨_, _, hcode, .f32⟩
      case h_5 => exact ⟨_, _, hcode, .f64⟩
      case h_6 => cases hresult

/-- The bytes of the token that an arm has read, opcode `b` included. -/
def ReadsToken (b : UInt8) (code : List UInt8) : Prop :=
  ∃ t a c, code = a ++ c ∧ TokenBytes grammar t (b :: a)

section

variable {b : UInt8} {code : ErrorCode}

theorem ReadsToken.plain (hp : PlainBytes p [b]) : ReadsToken b c :=
  ⟨.plain p, [], c, rfl, .plain hp⟩

theorem ReadsToken.enter {b : Kind}
    (h : ∃ st', readBlockType env opBegin st >>= k = .ok st' ∧ x = some st') :
    ReadsToken b.opcode st.codeCurr := by
  obtain ⟨_, h, -⟩ := h
  obtain ⟨⟨result, st₁⟩, hread, -⟩ := bind_ok.mp h
  obtain ⟨a, t, hcode, ha⟩ := readBlockType_bytes hread
  exact ⟨_, a, _, hcode, .enter ha⟩

theorem ReadsToken.u32 (hleb : env.leb.Correct)
    (h : ∃ st', readImm env.leb.u32 env opBegin code st >>= k = .ok st' ∧ x = some st')
    {p : Nat → PlainInstr} (hp : ∀ {a x}, U32 a x → PlainBytes (p x) (b :: a)) :
    ReadsToken b st.codeCurr := by
  obtain ⟨_, h, -⟩ := h
  obtain ⟨⟨l, st₁⟩, hread, -⟩ := bind_ok.mp h
  obtain ⟨a, hcode, ha⟩ := u32_bytes hleb hread
  exact ⟨.plain (p l), a, _, hcode, .plain (hp ha)⟩

theorem ReadsToken.global (hleb : env.leb.Correct)
    (h : ∃ st', readGlobalIndex env opBegin st >>= k = .ok st' ∧ x = some st')
    {p : Nat → PlainInstr} (hp : ∀ {a x}, U32 a x → PlainBytes (p x) (b :: a)) :
    ReadsToken b st.codeCurr := by
  simp only [readGlobalIndex, bind_assoc] at h
  exact .u32 hleb h hp

theorem ReadsToken.memarg (hleb : env.leb.Correct)
    (h : ∃ st', readMemarg env opBegin opName maxAlign st >>= k = .ok st' ∧ x = some st')
    {p : Nat → Nat → PlainInstr}
    (hp : ∀ {a x d y}, U32 a x → U32 d y → PlainBytes (p x y) (b :: (a ++ d))) :
    ReadsToken b st.codeCurr := by
  obtain ⟨_, h, -⟩ := h
  simp only [readMemarg, bind_assoc, bind_ok] at h
  obtain ⟨⟨align, st₁⟩, halign, ⟨offset, st₂⟩, hoffset, -⟩ := h
  obtain ⟨a, hcode, ha⟩ := u32_bytes hleb halign
  obtain ⟨d, hcode₁, hd⟩ := u32_bytes hleb hoffset
  dsimp only at hcode hcode₁
  exact ⟨.plain _, a ++ d, _, by rw [hcode, hcode₁, append_assoc], .plain (hp ha hd)⟩

theorem ReadsToken.memory
    (h : ∃ st', readMemoryIndex env opBegin st opName >>= k = .ok st' ∧ x = some st')
    (hp : PlainBytes p [b, 0x00]) : ReadsToken b st.codeCurr := by
  obtain ⟨_, h, -⟩ := h
  obtain ⟨st₁, hread, -⟩ := bind_ok.mp h
  unfold readMemoryIndex at hread
  split at hread
  case h_1 => cases hread
  case h_2 memidx rest hcode =>
    simp only [bind_ok, ensure_ok] at hread
    obtain ⟨_, rfl, -⟩ := hread
    exact ⟨.plain p, [0x00], rest, hcode, .plain hp⟩

theorem ReadsToken.callIndirect (hleb : env.leb.Correct)
    (h : callIndirect env opBegin st = .ok st') : ReadsToken 0x11 st.codeCurr := by
  simp only [Wasm1.callIndirect, bind_ok] at h
  obtain ⟨⟨l, st₁⟩, hread, st₂, hzero, -⟩ := h
  obtain ⟨a, hcode, ha⟩ := u32_bytes hleb hread
  unfold readTableIndex at hzero
  split at hzero
  case h_1 rest hrest =>
    dsimp only at hcode hrest
    exact ⟨_, a ++ [0x00], rest, by simp [hcode, hrest], .plain (.callIndirect ha)⟩
  case h_2 => cases hzero

theorem ReadsToken.float
    (h : ∃ st', floatConst env opBegin st opName size t = .ok st' ∧ x = some st')
    {p : List UInt8 → PlainInstr} (hp : ∀ {z}, z.length = size → PlainBytes (p z) (b :: z)) :
    ReadsToken b st.codeCurr := by
  obtain ⟨_, h, -⟩ := h
  simp only [floatConst, bind_ok, ensure_ok] at h
  obtain ⟨_, hlen, -⟩ := h
  exact ⟨.plain _, st.codeCurr.take size, st.codeCurr.drop size,
    (take_append_drop _ _).symm, .plain (hp (by simp [hlen]))⟩

theorem runArm_readsToken (hleb : env.leb.Correct) {arm : Arm} (hb : arm.opcode? = some b)
    (h : runArm env opBegin st arm = .ok x) : ReadsToken b st.codeCurr := by
  cases arm <;> simp only [Arm.opcode?, Option.some.injEq, reduceCtorEq] at hb <;> subst hb <;>
    simp only [runArm, continues_ok] at h
  case unreachable => exact .plain .unreachable
  case nop => exact .plain .nop
  case block => exact .enter (b := .block) h
  case loop => exact .enter (b := .loop) h
  case if_ => exact .enter (b := .ifThen) h
  case else_ => exact ⟨.els, [], _, rfl, .els⟩
  case end_ => exact ⟨.fin, [], _, rfl, .fin⟩
  case br => exact .u32 hleb h .br
  case brIf => exact .u32 hleb h .brIf
  case brTable =>
    obtain ⟨_, h, -⟩ := h
    obtain ⟨a, c, js, j, hcode, hp⟩ := brTable_bytes hleb h
    exact ⟨_, a, c, hcode, .plain hp⟩
  case return_ => exact .plain .return_
  case call => exact .u32 hleb h .call
  case callIndirect =>
    obtain ⟨_, h, -⟩ := h
    exact .callIndirect hleb h
  case drop => exact .plain .drop
  case select => exact .plain .select
  case localGet => exact .u32 hleb h .localGet
  case localSet => exact .u32 hleb h .localSet
  case localTee => exact .u32 hleb h .localTee
  case globalGet => exact .global hleb h .globalGet
  case globalSet => exact .global hleb h .globalSet
  case memorySize => exact .memory h .memorySize
  case memoryGrow => exact .memory h .memoryGrow
  case i32Const =>
    obtain ⟨_, h, -⟩ := h
    obtain ⟨⟨n, st₁⟩, hread, -⟩ := bind_ok.mp h
    obtain ⟨a, hcode, ha⟩ := hleb.i32.sound (readImm_reads hread)
    exact ⟨_, a, _, hcode, .plain (.i32Const ha)⟩
  case i64Const =>
    obtain ⟨_, h, -⟩ := h
    obtain ⟨⟨n, st₁⟩, hread, -⟩ := bind_ok.mp h
    obtain ⟨a, hcode, ha⟩ := hleb.i64.sound (readImm_reads hread)
    exact ⟨_, a, _, hcode, .plain (.i64Const ha)⟩
  case f32Const => exact .float h .f32Const
  case f64Const => exact .float h .f64Const

end

theorem step_decodes (hleb : env.leb.Correct) {x : Option State} (h : step env st = .ok x) :
    ∃ t a c, TokenBytes grammar t a ∧ st.codeCurr = a ++ c := by
  unfold step at h
  split at h
  case h_1 => cases h
  case h_2 b rest hcode =>
    split at h
    case h_1 => cases h
    case h_2 op hop =>
      obtain rfl := Wasm1Code.ofByte?_eq_some.mp hop
      have hread : ReadsToken op.toByte rest := by
        rcases op.arm_cases with hbyte | ⟨i, hbyte, harm⟩ | ⟨i, hbyte, harm⟩ | ⟨n, hbyte, -⟩
        · exact runArm_readsToken hleb hbyte h
        · cases ha : op.arm <;> simp [ha, Arm.loads] at harm
          simp only [ha, runArm, continues_ok] at h
          exact hbyte ▸ .memarg hleb h .load
        · cases ha : op.arm <;> simp [ha, Arm.stores] at harm
          simp only [ha, runArm, continues_ok] at h
          exact hbyte ▸ .memarg hleb h .store
        · exact hbyte ▸ .plain .num
      obtain ⟨t, a, c, rfl, ht⟩ := hread
      exact ⟨t, _, c, ht, hcode⟩

/-- The validator's loop implements the token machine with the strict checker. -/
theorem step_implements (hE : EnvFor env C) :
    Implements (checker C true) grammar (step env) State.codeCurr (Views C) where
  isOpen hV := hV.1.ne_nil
  missingEnd _ hnil := ⟨_, by simp only [step, hnil]; rfl⟩
  decodes _ h := step_decodes hE.leb h
  exact hV ht hb := step_outcome hE hV ht hb

end Uwvm2.Validation.Wasm1
