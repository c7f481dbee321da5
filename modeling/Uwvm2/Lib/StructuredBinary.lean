import Uwvm2.Lib.Check
import Uwvm2.Lib.StructuredCode

/-!
# Structured code in the WebAssembly binary format

The binary grammar of blocks, loops and conditionals over given grammars of
plain instructions and block types, and what it takes for a byte-consuming
validation loop to implement the token machine.
-/

namespace StackTyping

variable {V P B ε S : Type}

/-- The byte sequences of plain instructions and of block types. -/
structure Grammar (P B : Type) where
  plain : P → List UInt8 → Prop
  blockType : B → List UInt8 → Prop
  plain_ne_nil : ∀ {p}, ¬ plain p []

inductive SeqBytes (G : Grammar P B) : List (Instr P B) → List UInt8 → Prop
  | nil : SeqBytes G [] []
  | plain : G.plain p a → SeqBytes G is c → SeqBytes G (.plain p :: is) (a ++ c)
  | block : G.blockType b a → SeqBytes G body d → SeqBytes G is c →
      SeqBytes G (.block b body :: is) (0x02 :: a ++ (d ++ 0x0B :: c))
  | loop : G.blockType b a → SeqBytes G body d → SeqBytes G is c →
      SeqBytes G (.loop b body :: is) (0x03 :: a ++ (d ++ 0x0B :: c))
  | ifThen : G.blockType b a → SeqBytes G thn d → SeqBytes G is c →
      SeqBytes G (.ifElse b thn [] :: is) (0x04 :: a ++ (d ++ 0x0B :: c))
  | ifElse : G.blockType b a → SeqBytes G thn d → SeqBytes G els e → SeqBytes G is c →
      SeqBytes G (.ifElse b thn els :: is) (0x04 :: a ++ (d ++ 0x05 :: (e ++ 0x0B :: c)))

/-- An expression: instructions and a final `end`, which is the last byte. -/
def ExprBytes (G : Grammar P B) (is : List (Instr P B)) (bytes : List UInt8) : Prop :=
  ∃ b, SeqBytes G is b ∧ bytes = b ++ [0x0B]

def Kind.opcode : Kind → UInt8
  | .block => 0x02
  | .loop => 0x03
  | .ifThen => 0x04

inductive TokenBytes (G : Grammar P B) : Token P B → List UInt8 → Prop
  | plain : G.plain p a → TokenBytes G (.plain p) a
  | enter : G.blockType b a → TokenBytes G (.enter k b) (k.opcode :: a)
  | els : TokenBytes G .els [0x05]
  | fin : TokenBytes G .fin [0x0B]

theorem TokenBytes.ne_nil (h : TokenBytes G t a) : a ≠ [] := by
  rintro rfl
  cases h with
  | plain hp => exact G.plain_ne_nil hp

inductive TokensBytes (G : Grammar P B) : List (Token P B) → List UInt8 → Prop
  | nil : TokensBytes G [] []
  | cons : TokenBytes G t a → TokensBytes G ts c → TokensBytes G (t :: ts) (a ++ c)

variable {G : Grammar P B}

theorem TokensBytes.append
    (h₁ : TokensBytes G ts a) (h₂ : TokensBytes G us c) : TokensBytes G (ts ++ us) (a ++ c) := by
  induction h₁ with
  | nil => exact h₂
  | cons ht _ ih => simpa using TokensBytes.cons ht ih

theorem TokensBytes.split (h : TokensBytes G (ts ++ us) bytes) :
    ∃ a c, bytes = a ++ c ∧ TokensBytes G ts a ∧ TokensBytes G us c := by
  induction ts generalizing bytes with
  | nil => exact ⟨[], bytes, rfl, .nil, h⟩
  | cons t ts ih =>
    cases h with
    | @cons _ b _ c ht hrest =>
      obtain ⟨a, c, rfl, h₁, h₂⟩ := ih hrest
      exact ⟨b ++ a, c, by simp, .cons ht h₁, h₂⟩

theorem TokensBytes.cons_inv (h : TokensBytes G (t :: ts) bytes) :
    ∃ a c, bytes = a ++ c ∧ TokenBytes G t a ∧ TokensBytes G ts c := by
  cases h with
  | cons ht hrest => exact ⟨_, _, rfl, ht, hrest⟩

theorem TokensBytes.nil_inv (h : TokensBytes G [] bytes) : bytes = [] := by
  cases h
  rfl

theorem TokensBytes.length_le (h : TokensBytes G ts bytes) : ts.length ≤ bytes.length := by
  induction h with
  | nil => exact Nat.le_refl _
  | cons ht _ ih =>
    have hpos := List.length_pos_iff.mpr ht.ne_nil
    rw [List.length_cons, List.length_append]
    omega

theorem TokensBytes.fin_inv (h : TokensBytes G (.fin :: ts) bytes) :
    ∃ c, bytes = 0x0B :: c ∧ TokensBytes G ts c := by
  obtain ⟨_, c, rfl, ht, hrest⟩ := h.cons_inv
  cases ht
  exact ⟨c, rfl, hrest⟩

theorem TokensBytes.enter_inv (h : TokensBytes G (.enter k b :: (ts ++ us)) bytes) :
    ∃ a d c, bytes = k.opcode :: a ++ (d ++ c) ∧ G.blockType b a ∧ TokensBytes G ts d ∧
      TokensBytes G us c := by
  obtain ⟨_, _, rfl, htok, hrest⟩ := h.cons_inv
  obtain ⟨d, c, rfl, hd, hc⟩ := hrest.split
  cases htok with
  | @enter _ a _ hb => exact ⟨a, d, c, rfl, hb, hd, hc⟩

theorem TokensBytes.eq_nil : TokensBytes G ts [] ↔ ts = [] := by
  constructor
  · intro h
    generalize hb : [] = b at h
    cases h with
    | nil => rfl
    | cons ht _ =>
      exact absurd (List.append_eq_nil_iff.mp hb.symm).1 ht.ne_nil
  · rintro rfl
    exact .nil

theorem seqBytes_iff : SeqBytes G is bytes ↔ ∃ ts, Flat is ts ∧ TokensBytes G ts bytes := by
  constructor
  · intro h
    induction h with
    | nil => exact ⟨[], .nil, .nil⟩
    | plain hp _ ih =>
      obtain ⟨ts, hf, ht⟩ := ih
      exact ⟨_, .plain hf, .cons (.plain hp) ht⟩
    | block hb _ _ ihbody ih =>
      obtain ⟨bs, hfb, htb⟩ := ihbody
      obtain ⟨ts, hf, ht⟩ := ih
      exact ⟨_, .block hfb hf, .cons (.enter (k := .block) hb) (htb.append (.cons .fin ht))⟩
    | loop hb _ _ ihbody ih =>
      obtain ⟨bs, hfb, htb⟩ := ihbody
      obtain ⟨ts, hf, ht⟩ := ih
      exact ⟨_, .loop hfb hf, .cons (.enter (k := .loop) hb) (htb.append (.cons .fin ht))⟩
    | ifThen hb _ _ ihthn ih =>
      obtain ⟨bs, hfb, htb⟩ := ihthn
      obtain ⟨ts, hf, ht⟩ := ih
      exact ⟨_, .ifThen hfb hf, .cons (.enter (k := .ifThen) hb) (htb.append (.cons .fin ht))⟩
    | ifElse hb _ _ _ ihthn ihels ih =>
      obtain ⟨bs, hfb, htb⟩ := ihthn
      obtain ⟨cs, hfc, htc⟩ := ihels
      obtain ⟨ts, hf, ht⟩ := ih
      exact ⟨_, .ifElse hfb hfc hf, .cons (.enter (k := .ifThen) hb)
        (htb.append (.cons .els (htc.append (.cons .fin ht))))⟩
  · rintro ⟨ts, hf, ht⟩
    induction hf generalizing bytes with
    | nil =>
      cases ht
      exact .nil
    | plain _ ih =>
      obtain ⟨_, c, rfl, htok, hrest⟩ := ht.cons_inv
      cases htok with
      | plain hp => exact .plain hp (ih hrest)
    | block _ _ ihbody ih =>
      obtain ⟨a, d, _, rfl, hb, hd, htail⟩ := ht.enter_inv
      obtain ⟨c, rfl, hend⟩ := htail.fin_inv
      exact .block hb (ihbody hd) (ih hend)
    | loop _ _ ihbody ih =>
      obtain ⟨a, d, _, rfl, hb, hd, htail⟩ := ht.enter_inv
      obtain ⟨c, rfl, hend⟩ := htail.fin_inv
      exact .loop hb (ihbody hd) (ih hend)
    | ifThen _ _ ihthn ih =>
      obtain ⟨a, d, _, rfl, hb, hd, htail⟩ := ht.enter_inv
      obtain ⟨c, rfl, hend⟩ := htail.fin_inv
      exact .ifThen hb (ihthn hd) (ih hend)
    | ifElse _ _ _ ihthn ihels ih =>
      obtain ⟨a, d, _, rfl, hb, hd, htail⟩ := ht.enter_inv
      obtain ⟨_, c, rfl, hels, halt⟩ := htail.cons_inv
      obtain ⟨e, _, rfl, he, htail'⟩ := halt.split
      obtain ⟨c, rfl, hend⟩ := htail'.fin_inv
      cases hels
      exact .ifElse hb (ihthn hd) (ihels he) (ih hend)

theorem exprBytes_iff :
    ExprBytes G is bytes ↔ ∃ ts, Flat is ts ∧ TokensBytes G (ts ++ [.fin]) bytes := by
  constructor
  · rintro ⟨b, hb, rfl⟩
    obtain ⟨ts, hf, ht⟩ := seqBytes_iff.mp hb
    exact ⟨ts, hf, ht.append (.cons .fin .nil)⟩
  · rintro ⟨ts, hf, ht⟩
    obtain ⟨a, _, rfl, ha, hrest⟩ := ht.split
    obtain ⟨c, rfl, hnil⟩ := hrest.fin_inv
    cases hnil
    exact ⟨a, seqBytes_iff.mpr ⟨ts, hf, ha⟩, rfl⟩

-- Validation loops

def loop (next : S → Except ε (Option S)) (outOfFuel : ε) : Nat → S → Except ε Unit
  | 0, _ => .error outOfFuel
  | n + 1, s =>
    match next s with
    | .error e => .error e
    | .ok none => .ok ()
    | .ok (some s') => loop next outOfFuel n s'

inductive Returns (next : S → Except ε (Option S)) : S → Prop
  | done : next s = .ok none → Returns next s
  | step : next s = .ok (some s') → Returns next s' → Returns next s

theorem returns_of_loop (h : loop next e n s = .ok ()) : Returns next s := by
  induction n generalizing s with
  | zero => cases h
  | succ n ih =>
    unfold loop at h
    split at h
    case h_1 => cases h
    case h_2 hs => exact .done hs
    case h_3 s' hs => exact .step hs (ih h)

variable [DecidableEq V] {K : Checker V P B}

/-- What `next` has to do at a state with bytes `c` left after the current token,
when the machine's step on that token gives the last argument. Closing the last
frame must also be the end of the input. -/
def Outcome (next : S → Except ε (Option S)) (bytes : S → List UInt8) (R : S → Machine V → Prop)
    (s : S) (c : List UInt8) : Option (Machine V) → Prop
  | none => ∃ e, next s = .error e
  | some m =>
    if m.frames = [] then
      (c = [] → next s = .ok none) ∧ (c ≠ [] → ∃ e, next s = .error e)
    else ∃ s', next s = .ok (some s') ∧ bytes s' = c ∧ R s' m

/-- One round of `next` at the bytes of a token takes the machine's step on it. -/
structure Follows (K : Checker V P B) (G : Grammar P B) (next : S → Except ε (Option S))
    (bytes : S → List UInt8) (R : S → Machine V → Prop) : Prop where
  isOpen : ∀ {s m}, R s m → m.frames ≠ []
  missingEnd : ∀ {s m}, R s m → bytes s = [] → ∃ e, next s = .error e
  exact : ∀ {s m t a c}, R s m → TokenBytes G t a → bytes s = a ++ c →
    Outcome next bytes R s c (K.step m t)

/-- Besides, a round that succeeds has the bytes of a token in front of it. -/
structure Implements (K : Checker V P B) (G : Grammar P B) (next : S → Except ε (Option S))
    (bytes : S → List UInt8) (R : S → Machine V → Prop) : Prop extends
    Follows K G next bytes R where
  decodes : ∀ {s m r}, R s m → next s = .ok r → ∃ t a c, TokenBytes G t a ∧ bytes s = a ++ c

variable {next : S → Except ε (Option S)} {bytes : S → List UInt8} {R : S → Machine V → Prop}
  {s : S} {m : Machine V}

omit [DecidableEq V] in
theorem Outcome.of_tracks {g : Machine V → S} (h : Tracks (fun m => some (g m)) (next s) o)
    (hR : ∀ m, o = some m → m.frames ≠ [] ∧ bytes (g m) = c ∧ R (g m) m) :
    Outcome next bytes R s c o := by
  cases o with
  | none => exact error_of_not_ok fun x hx => by simpa using (h x).mp hx
  | some m =>
    simp only [Outcome, (hR m rfl).1, if_false]
    exact ⟨g m, (h _).mpr ⟨m, rfl, rfl⟩, (hR m rfl).2⟩

theorem not_returns (h : ∃ e, next s = .error e) : ¬ Returns next s := by
  obtain ⟨e, he⟩ := h
  rintro (hs | ⟨hs, -⟩) <;> simp [he] at hs

namespace Follows

variable (hI : Follows K G next bytes R)

include hI

theorem returns_token (hR : R s m) (ht : TokenBytes G t a) (hb : bytes s = a ++ c) :
    Returns next s ↔ ∃ m', K.step m t = some m' ∧
      (m'.frames = [] → c = [] ∧ next s = .ok none) ∧
      (m'.frames ≠ [] → ∃ s', bytes s' = c ∧ R s' m' ∧ next s = .ok (some s') ∧
        Returns next s') := by
  have hout := hI.exact hR ht hb
  cases hstep : K.step m t with
  | none => simpa using not_returns (by simpa [hstep, Outcome] using hout)
  | some m' =>
    simp only [Outcome, hstep] at hout
    by_cases hnil : m'.frames = []
    · simp only [hnil, if_true] at hout
      by_cases hc : c = []
      · simpa [hnil, hc, hout.1 hc] using Returns.done (hout.1 hc)
      · simpa [hnil, hc] using not_returns (hout.2 hc)
    · simp only [hnil, if_false] at hout
      obtain ⟨s', hs', hbytes, hR'⟩ := hout
      constructor
      · rintro (hs | ⟨hs, hrest⟩)
        · simp [hs'] at hs
        · obtain rfl : s' = _ := by simpa [hs'] using hs
          exact ⟨m', rfl, by simp [hnil], fun _ => ⟨s', hbytes, hR', hs', hrest⟩⟩
      · rintro ⟨_, heq, -, h⟩
        cases heq
        obtain ⟨_, -, -, hs, hrest⟩ := h hnil
        exact .step hs hrest

/-- A round consumes the bytes of a token, so a bound above the number of tokens is
never reached. -/
theorem loop_ok_iff (hR : R s m) (hts : TokensBytes G ts (bytes s)) (hn : ts.length < n) :
    loop next e n s = .ok () ↔ Returns next s := by
  refine ⟨returns_of_loop, fun h => ?_⟩
  induction ts generalizing n s m with
  | nil => exact absurd h (not_returns (hI.missingEnd hR hts.nil_inv))
  | cons t ts ih =>
    cases n with
    | zero => cases hn
    | succ n =>
      obtain ⟨a, c, hb, ht, hrest⟩ := hts.cons_inv
      obtain ⟨m', -, hlast, hmore⟩ := (hI.returns_token hR ht hb).mp h
      by_cases hnil : m'.frames = []
      · simp [loop, (hlast hnil).2]
      · obtain ⟨s', rfl, hR', hs', h'⟩ := hmore hnil
        simpa [loop, hs'] using ih hR' hrest (Nat.lt_of_succ_lt_succ hn) h'

theorem returns_iff_run (hR : R s m) (hts : TokensBytes G ts (bytes s)) :
    Returns next s ↔ ∃ m', K.run ts m = some m' ∧ m'.frames = [] := by
  induction ts generalizing s m with
  | nil =>
    have hbytes : bytes s = [] := hts.nil_inv
    constructor
    · exact fun h => absurd h (not_returns (hI.missingEnd hR hbytes))
    · rintro ⟨m', hrun, hnil⟩
      cases hrun
      exact absurd hnil (hI.isOpen hR)
  | cons t ts ih =>
    obtain ⟨a, c, hb, ht, hrest⟩ := hts.cons_inv
    rw [hI.returns_token hR ht hb]
    simp only [Checker.run_cons]
    constructor
    · rintro ⟨m', hstep, hlast, hmore⟩
      by_cases hnil : m'.frames = []
      · obtain rfl : ts = [] := TokensBytes.eq_nil.mp ((hlast hnil).1 ▸ hrest)
        exact ⟨m', ⟨m', hstep, rfl⟩, hnil⟩
      · obtain ⟨s', rfl, hR', -, h⟩ := hmore hnil
        obtain ⟨m'', hrun, hnil'⟩ := (ih hR' hrest).mp h
        exact ⟨m'', ⟨m', hstep, hrun⟩, hnil'⟩
    · rintro ⟨m'', ⟨m', hstep, hrun⟩, hnil'⟩
      have hout := hI.exact hR ht hb
      refine ⟨m', hstep, fun hnil => ?_, fun hopen => ?_⟩
      · -- no frame is left, so no token can follow
        simp only [Outcome, hstep, hnil, if_true] at hout
        cases ts with
        | nil =>
          cases hrest
          exact ⟨rfl, hout.1 rfl⟩
        | cons t ts => cases t <;> simp [Checker.run, Checker.step, hnil] at hrun
      · simp only [Outcome, hstep, hopen, if_false] at hout
        obtain ⟨s', hs', hbytes, hR'⟩ := hout
        subst hbytes
        exact ⟨s', rfl, hR', hs', (ih hR' hrest).mpr ⟨m'', hrun, hnil'⟩⟩

theorem returns_iff_checked (hR : R s (.start outs)) (hb : ExprBytes G is (bytes s)) :
    Returns next s ↔ ∃ τ, K.checkSeq [outs] is (.ofTypes []) = some τ ∧ τ.exits outs = true := by
  obtain ⟨ts, hf, hts⟩ := exprBytes_iff.mp hb
  rw [hI.returns_iff_run hR hts]
  exact Checker.accepts_flat hf

end Follows

namespace Implements

variable (hI : Implements K G next bytes R)

include hI

theorem returns_tokens (hR : R s m) (h : Returns next s) : ∃ ts, TokensBytes G ts (bytes s) := by
  induction h generalizing m with
  | done hs =>
    obtain ⟨t, a, c, ht, hb⟩ := hI.decodes hR hs
    obtain ⟨m', -, hlast, hmore⟩ := (hI.returns_token hR ht hb).mp (.done hs)
    by_cases hnil : m'.frames = []
    · exact ⟨[t], by rw [hb, (hlast hnil).1]; exact .cons ht .nil⟩
    · obtain ⟨s', -, -, hs', -⟩ := hmore hnil
      simp [hs'] at hs
  | step hs hrest ih =>
    obtain ⟨t, a, c, ht, hb⟩ := hI.decodes hR hs
    obtain ⟨m', -, hlast, hmore⟩ := (hI.returns_token hR ht hb).mp (.step hs hrest)
    by_cases hnil : m'.frames = []
    · exact ⟨[t], by rw [hb, (hlast hnil).1]; exact .cons ht .nil⟩
    · obtain ⟨s', hbytes, hR', hs', -⟩ := hmore hnil
      obtain rfl : _ = s' := by simpa [hs] using hs'
      obtain ⟨ts, hts⟩ := ih hR'
      exact ⟨t :: ts, by rw [hb, ← hbytes]; exact .cons ht hts⟩

theorem loop_ok_iff (hR : R s m) (hn : (bytes s).length < n) :
    loop next e n s = .ok () ↔ Returns next s := by
  refine ⟨returns_of_loop, fun h => ?_⟩
  obtain ⟨ts, hts⟩ := hI.returns_tokens hR h
  exact (hI.toFollows.loop_ok_iff hR hts (Nat.lt_of_le_of_lt hts.length_le hn)).mpr h

theorem returns_decodes (hR : R s (.start outs)) (h : Returns next s) :
    ∃ is, ExprBytes G is (bytes s) := by
  obtain ⟨ts, hts⟩ := hI.returns_tokens hR h
  obtain ⟨is, bs, rfl, hf⟩ := Checker.Accepts.flat ((hI.returns_iff_run hR hts).mp h)
  exact ⟨is, exprBytes_iff.mpr ⟨bs, hf, hts⟩⟩

end Implements

end StackTyping
