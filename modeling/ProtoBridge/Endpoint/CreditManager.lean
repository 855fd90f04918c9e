import Mathlib.Algebra.Group.Int.Defs
import Mathlib.Algebra.Group.Nat.Defs
import Mathlib.Tactic.Common
import ProtoBridge.Lib.Machine

/-!
# Credits of the virtual channels

`CreditManager` keeps three clamped counters for each virtual channel. How many credits are
really in flight is not among them: `CreditRun` keeps that number beside the manager. A
channel is `Balanced` in every run; its pending count is the true one only as long as no
resize goes below it.
-/

namespace ProtoBridge.Endpoint

open Lib
open Function (update update_of_ne update_self)

/-- `VcCreditInfo`. -/
structure VcCreditInfo where
  availableCredits : Nat
  totalCredits : Nat
  pendingCredits : Nat
  deriving DecidableEq

/-- The assertions of the manager. -/
inductive CreditAbort
  | consumeSum
  | consumePending
  | returnZero
  | returnSum
  | returnPending
  deriving DecidableEq

/-- Their messages, up to the numbers appended. -/
def CreditAbort.message : CreditAbort → String
  | .consumeSum => "Credit invariant violated for VC "
  | .consumePending => "Pending credits exceed total for VC "
  | .returnZero => "ReturnCredits called with zero credits for VC "
  | .returnSum => "Credit invariant violated after ReturnCredits for VC "
  | .returnPending => "Pending credits exceed total after ReturnCredits for VC "

/-- `CreditManager`, with the calls of its trace and of its callback. -/
structure CreditManager where
  vcCredits : UInt8 → Option VcCreditInfo := fun _ => none
  creditChange : List (UInt8 × Nat × Nat) := []
  creditAvailable : List UInt8 := []

/-- `static_cast<int32_t>` of a `uint32_t`. -/
def asInt32 (n : Nat) : Int := if n < 2 ^ 31 then n else n - 2 ^ 32

/-- `static_cast<uint32_t>` of an `int32_t`. -/
def asUint32 (z : Int) : Nat := (z % 2 ^ 32).toNat

namespace CreditManager

variable {m m' : CreditManager} {vcId vc : UInt8} {info : VcCreditInfo}

/-- Write the entry of a channel. -/
def setVc (m : CreditManager) (vcId : UInt8) (info : VcCreditInfo) : CreditManager :=
  { m with vcCredits := update m.vcCredits vcId (some info) }

/-- `InitializeVc`. -/
def initializeVc (m : CreditManager) (vcId : UInt8) (numCredits : Nat) : CreditManager :=
  m.setVc vcId ⟨numCredits, numCredits, 0⟩

/-- The entry after a credit was consumed. -/
def consumed (info : VcCreditInfo) : VcCreditInfo :=
  { info with
    availableCredits := info.availableCredits - 1
    pendingCredits := (info.pendingCredits + 1) % 2 ^ 32 }

/-- `ConsumeCredit`. -/
def consumeCredit (m : CreditManager) (vcId : UInt8) : Except CreditAbort (Bool × CreditManager) :=
  match m.vcCredits vcId with
  | none => .ok (false, m)
  | some info =>
      if info.availableCredits = 0 then .ok (false, m)
      else
        let info' := consumed info
        if (info'.availableCredits + info'.pendingCredits) % 2 ^ 32 ≠ info'.totalCredits then
          .error .consumeSum
        else if info'.pendingCredits > info'.totalCredits then .error .consumePending
        else
          .ok (true, { m.setVc vcId info' with
            creditChange :=
              m.creditChange ++ [(vcId, info.availableCredits, info'.availableCredits)] })

/-- The entry after credits came back: what is available is capped at the total. -/
def returned (info : VcCreditInfo) (numCredits : Nat) : VcCreditInfo :=
  { info with
    availableCredits :=
      if (info.availableCredits + numCredits) % 2 ^ 32 > info.totalCredits then info.totalCredits
      else (info.availableCredits + numCredits) % 2 ^ 32
    pendingCredits :=
      if info.pendingCredits ≥ numCredits then info.pendingCredits - numCredits else 0 }

/-- `ReturnCredits`. -/
def returnCredits (m : CreditManager) (vcId : UInt8) (numCredits : Nat) :
    Except CreditAbort CreditManager :=
  match m.vcCredits vcId with
  | none => .ok m
  | some info =>
      if numCredits = 0 then .error .returnZero
      else
        let info' := returned info numCredits
        if (info'.availableCredits + info'.pendingCredits) % 2 ^ 32 ≠ info'.totalCredits then
          .error .returnSum
        else if info'.pendingCredits > info'.totalCredits then .error .returnPending
        else
          .ok { m.setVc vcId info' with
            creditChange :=
              m.creditChange ++ [(vcId, info.availableCredits, info'.availableCredits)]
            creditAvailable :=
              if info.availableCredits = 0 ∧ info'.availableCredits > 0 then
                m.creditAvailable ++ [vcId]
              else m.creditAvailable }

/-- What is available after the total moved, before the clamps. -/
def shifted (info : VcCreditInfo) (credits : Nat) : Nat :=
  asUint32 (asInt32 info.availableCredits + (asInt32 credits - asInt32 info.totalCredits))

/-- The entry after a resize. Pending credits above the new total are forgotten. -/
def resized (info : VcCreditInfo) (credits : Nat) : VcCreditInfo :=
  if info.pendingCredits > credits then ⟨0, credits, credits⟩
  else
    ⟨if shifted info credits > credits then credits else shifted info credits, credits,
      info.pendingCredits⟩

/-- `SetTotalCredits`. -/
def setTotalCredits (m : CreditManager) (vcId : UInt8) (credits : Nat) : CreditManager :=
  match m.vcCredits vcId with
  | none => m.initializeVc vcId credits
  | some info => m.setVc vcId (resized info credits)

/-! ## One channel -/

/-- What the assertions say of a channel, whose window fits 31 bits. -/
structure Balanced (info : VcCreditInfo) : Prop where
  sum : info.availableCredits + info.pendingCredits = info.totalCredits
  small : info.totalCredits < 2 ^ 31

variable {credits numCredits : Nat}

theorem shifted_eq (h : Balanced info) (hc : credits < 2 ^ 31) (hle : info.pendingCredits ≤ credits)
    : shifted info credits = credits - info.pendingCredits := by
  have hsum := h.sum
  have hsmall := h.small
  have havail : info.availableCredits < 2 ^ 31 := by omega
  simp only [shifted, asInt32, asUint32, if_pos hc, if_pos hsmall, if_pos havail]
  omega

theorem balanced_consumed (h : Balanced info) (ha : info.availableCredits ≠ 0) :
    Balanced (consumed info) ∧ (consumed info).pendingCredits = info.pendingCredits + 1 := by
  have hsum := h.sum
  have hsmall := h.small
  have hmod : (info.pendingCredits + 1) % 2 ^ 32 = info.pendingCredits + 1 :=
    Nat.mod_eq_of_lt (by omega)
  refine ⟨⟨?_, hsmall⟩, hmod⟩
  show info.availableCredits - 1 + (info.pendingCredits + 1) % 2 ^ 32 = info.totalCredits
  omega

theorem balanced_returned (h : Balanced info) (hn : numCredits < 2 ^ 31) :
    Balanced (returned info numCredits) ∧
      (returned info numCredits).pendingCredits = info.pendingCredits - numCredits := by
  have hsum := h.sum
  have hsmall := h.small
  have hmod : (info.availableCredits + numCredits) % 2 ^ 32 = info.availableCredits + numCredits :=
    Nat.mod_eq_of_lt (by omega)
  have hpending : (returned info numCredits).pendingCredits = info.pendingCredits - numCredits := by
    show (if info.pendingCredits ≥ numCredits then info.pendingCredits - numCredits else 0) = _
    split <;> omega
  refine ⟨⟨?_, hsmall⟩, hpending⟩
  show (returned info numCredits).availableCredits + (returned info numCredits).pendingCredits =
    info.totalCredits
  rw [hpending]
  simp only [returned, hmod]
  split <;> omega

theorem balanced_resized (h : Balanced info) (hc : credits < 2 ^ 31) :
    Balanced (resized info credits) ∧
      (resized info credits).pendingCredits = min info.pendingCredits credits := by
  unfold resized
  split
  · rename_i hlt
    exact ⟨⟨Nat.zero_add _, hc⟩, (Nat.min_eq_right (Nat.le_of_lt hlt)).symm⟩
  · rename_i hle
    have hpending : info.pendingCredits ≤ credits := Nat.le_of_not_lt hle
    rw [shifted_eq h hc hpending, if_neg (by omega)]
    refine ⟨⟨?_, hc⟩, (Nat.min_eq_left hpending).symm⟩
    show credits - info.pendingCredits + info.pendingCredits = credits
    omega

/-! ## Calls -/

@[simp] theorem setVc_self (m : CreditManager) (vcId : UInt8) (info : VcCreditInfo) :
    (m.setVc vcId info).vcCredits vcId = some info := update_self ..

theorem setVc_ne (m : CreditManager) (info : VcCreditInfo) (h : vc ≠ vcId) :
    (m.setVc vcId info).vcCredits vc = m.vcCredits vc := update_of_ne h ..

theorem consumeCredit_grants (hinfo : m.vcCredits vcId = some info) (h : Balanced info)
    (ha : info.availableCredits ≠ 0) : ∃ m', m.consumeCredit vcId = .ok (true, m') ∧
      m'.vcCredits = (m.setVc vcId (consumed info)).vcCredits := by
  have hafter := (balanced_consumed h ha).1
  have hsum := hafter.sum
  have hsmall := hafter.small
  simp only [consumeCredit, hinfo]
  rw [if_neg ha, if_neg, if_neg]
  · exact ⟨_, rfl, rfl⟩
  · omega
  · rw [hsum, Nat.mod_eq_of_lt (by omega)]
    simp

theorem consumeCredit_refuses (h : ∀ info, m.vcCredits vcId = some info → info.availableCredits = 0) :
    m.consumeCredit vcId = .ok (false, m) := by
  cases hinfo : m.vcCredits vcId with
  | none => simp only [consumeCredit, hinfo]
  | some info =>
      simp only [consumeCredit, hinfo]
      rw [if_pos (h info hinfo)]

theorem returnCredits_ok (hinfo : m.vcCredits vcId = some info) (h : Balanced info)
    (hpos : 0 < numCredits) (hn : numCredits < 2 ^ 31) :
    ∃ m', m.returnCredits vcId numCredits = .ok m' ∧
      m'.vcCredits = (m.setVc vcId (returned info numCredits)).vcCredits := by
  have hafter := (balanced_returned h hn).1
  have hsum := hafter.sum
  have hsmall := hafter.small
  simp only [returnCredits, hinfo]
  rw [if_neg (by omega), if_neg, if_neg]
  · exact ⟨_, rfl, rfl⟩
  · omega
  · rw [hsum, Nat.mod_eq_of_lt (by omega)]
    simp

end CreditManager

/-! ## Runs -/

/-- The calls on a manager. -/
inductive CreditAct
  | consumeCredit (vcId : UInt8)
  | returnCredits (vcId : UInt8) (numCredits : Nat)
  | setTotalCredits (vcId : UInt8) (credits : Nat)
  deriving DecidableEq

/-- A manager, and the credits of each channel that were consumed and not returned. -/
structure CreditRun where
  manager : CreditManager
  outstanding : UInt8 → Nat

namespace CreditRun

open CreditManager

variable {s s' : CreditRun} {vc : UInt8}

/-- One call. -/
def exec (s : CreditRun) : CreditAct → Except CreditAbort CreditRun
  | .consumeCredit vcId => do
      let (granted, manager) ← s.manager.consumeCredit vcId
      .ok ⟨manager, if granted then update s.outstanding vcId (s.outstanding vcId + 1)
        else s.outstanding⟩
  | .returnCredits vcId numCredits => do
      let manager ← s.manager.returnCredits vcId numCredits
      .ok ⟨manager, update s.outstanding vcId (s.outstanding vcId - numCredits)⟩
  | .setTotalCredits vcId credits => .ok { s with manager := s.manager.setTotalCredits vcId credits }

/-- Credits come back only if they are outstanding, and values stay below 2^31. -/
def enabled (s : CreditRun) : CreditAct → Prop
  | .consumeCredit _ => True
  | .returnCredits vcId numCredits =>
      0 < numCredits ∧ numCredits ≤ s.outstanding vcId ∧ numCredits < 2 ^ 31
  | .setTotalCredits _ credits => credits < 2 ^ 31

instance (s : CreditRun) : (a : CreditAct) → Decidable (s.enabled a)
  | .consumeCredit _ => .isTrue trivial
  | .returnCredits _ _ => inferInstanceAs (Decidable (_ ∧ _ ∧ _))
  | .setTotalCredits _ _ => inferInstanceAs (Decidable (_ < _))

/-- The resize leaves room for what the channel knows to be pending. -/
def KeepsPending (s : CreditRun) : CreditAct → Prop
  | .setTotalCredits vcId credits =>
      ∀ info ∈ s.manager.vcCredits vcId, info.pendingCredits ≤ credits
  | _ => True

/-- A credit is granted only while fewer are outstanding than the window has. -/
def GrantsWithin (s : CreditRun) : Prop :=
  ∀ vcId m', s.manager.consumeCredit vcId = .ok (true, m') →
    ∃ info, s.manager.vcCredits vcId = some info ∧ s.outstanding vcId < info.totalCredits

/-- A channel whose credits have all come back has its whole window available. -/
def Drains (s : CreditRun) : Prop :=
  ∀ vcId info, s.manager.vcCredits vcId = some info → s.outstanding vcId = 0 →
    info.availableCredits = info.totalCredits

/-- Every channel is balanced, and what it knows to be pending is outstanding. -/
structure Sound (s : CreditRun) : Prop where
  balanced : ∀ vcId info, s.manager.vcCredits vcId = some info → Balanced info
  pending : ∀ vcId info, s.manager.vcCredits vcId = some info →
    info.pendingCredits ≤ s.outstanding vcId
  known : ∀ vcId, s.manager.vcCredits vcId = none → s.outstanding vcId = 0

/-- The pending count is the number outstanding. -/
def Exact (s : CreditRun) : Prop :=
  ∀ vcId info, s.manager.vcCredits vcId = some info → info.pendingCredits = s.outstanding vcId

variable {vcId : UInt8} {info : VcCreditInfo}

theorem Sound.write (h : s.Sound)
    (hvc : s'.manager.vcCredits = (s.manager.setVc vcId info).vcCredits)
    (hout : ∀ vc, vc ≠ vcId → s'.outstanding vc = s.outstanding vc) (hinfo : Balanced info)
    (hpending : info.pendingCredits ≤ s'.outstanding vcId) : s'.Sound := by
  refine ⟨?_, ?_, ?_⟩
  · intro vc i hi
    rw [hvc] at hi
    by_cases hv : vc = vcId
    · subst hv
      rw [setVc_self] at hi
      cases hi
      exact hinfo
    · rw [setVc_ne _ _ hv] at hi
      exact h.balanced vc i hi
  · intro vc i hi
    rw [hvc] at hi
    by_cases hv : vc = vcId
    · subst hv
      rw [setVc_self] at hi
      cases hi
      exact hpending
    · rw [setVc_ne _ _ hv] at hi
      rw [hout vc hv]
      exact h.pending vc i hi
  · intro vc hi
    rw [hvc] at hi
    by_cases hv : vc = vcId
    · subst hv
      rw [setVc_self] at hi
      cases hi
    · rw [setVc_ne _ _ hv] at hi
      rw [hout vc hv]
      exact h.known vc hi

theorem Exact.write (h : s.Exact)
    (hvc : s'.manager.vcCredits = (s.manager.setVc vcId info).vcCredits)
    (hout : ∀ vc, vc ≠ vcId → s'.outstanding vc = s.outstanding vc)
    (hpending : info.pendingCredits = s'.outstanding vcId) : s'.Exact := by
  intro vc i hi
  rw [hvc] at hi
  by_cases hv : vc = vcId
  · subst hv
    rw [setVc_self] at hi
    cases hi
    exact hpending
  · rw [setVc_ne _ _ hv] at hi
    rw [hout vc hv]
    exact h vc i hi

/-- What a call does: nothing, or it writes one channel. -/
theorem exec_cases (h : s.Sound) {a : CreditAct} (hen : s.enabled a) :
    ∃ s', s.exec a = .ok s' ∧ (s' = s ∨ ∃ vcId info,
      s'.manager.vcCredits = (s.manager.setVc vcId info).vcCredits ∧
      (∀ vc, vc ≠ vcId → s'.outstanding vc = s.outstanding vc) ∧ Balanced info ∧
      info.pendingCredits ≤ s'.outstanding vcId ∧
      (s.Exact → s.KeepsPending a → info.pendingCredits = s'.outstanding vcId)) := by
  cases a with
  | consumeCredit vcId =>
      have hrefuse : (∀ info, s.manager.vcCredits vcId = some info → info.availableCredits = 0) →
          s.exec (.consumeCredit vcId) = .ok s := by
        intro hnone
        rw [exec, consumeCredit_refuses hnone]
        rfl
      cases hinfo : s.manager.vcCredits vcId with
      | none =>
          refine ⟨s, hrefuse ?_, .inl rfl⟩
          intro info hi
          rw [hinfo] at hi
          cases hi
      | some info =>
          by_cases ha : info.availableCredits = 0
          · refine ⟨s, hrefuse ?_, .inl rfl⟩
            intro info' hi
            rw [hinfo] at hi
            cases hi
            exact ha
          · have hb := h.balanced vcId info hinfo
            obtain ⟨m', hm', hvc⟩ := consumeCredit_grants hinfo hb ha
            obtain ⟨hafter, hpend⟩ := balanced_consumed hb ha
            refine ⟨⟨m', update s.outstanding vcId (s.outstanding vcId + 1)⟩, ?_,
              .inr ⟨vcId, consumed info, hvc, fun vc hv => update_of_ne hv .., hafter, ?_, ?_⟩⟩
            · rw [exec, hm']
              rfl
            · show (consumed info).pendingCredits ≤
                update s.outstanding vcId (s.outstanding vcId + 1) vcId
              rw [hpend, update_self]
              exact Nat.succ_le_succ (h.pending vcId info hinfo)
            · intro hexact _
              show _ = update s.outstanding vcId (s.outstanding vcId + 1) vcId
              rw [hpend, update_self, hexact vcId info hinfo]
  | returnCredits vcId numCredits =>
      obtain ⟨hpos, hle, hsmall⟩ := hen
      cases hinfo : s.manager.vcCredits vcId with
      | none =>
          have := h.known vcId hinfo
          omega
      | some info =>
          have hb := h.balanced vcId info hinfo
          obtain ⟨m', hm', hvc⟩ := returnCredits_ok hinfo hb hpos hsmall
          obtain ⟨hafter, hpend⟩ := balanced_returned hb hsmall
          refine ⟨⟨m', update s.outstanding vcId (s.outstanding vcId - numCredits)⟩, ?_,
            .inr ⟨vcId, returned info numCredits, hvc, fun vc hv => update_of_ne hv ..,
              hafter, ?_, ?_⟩⟩
          · rw [exec, hm']
            rfl
          · show _ ≤ update s.outstanding vcId (s.outstanding vcId - numCredits) vcId
            rw [hpend, update_self]
            exact Nat.sub_le_sub_right (h.pending vcId info hinfo) numCredits
          · intro hexact _
            show _ = update s.outstanding vcId (s.outstanding vcId - numCredits) vcId
            rw [hpend, update_self, hexact vcId info hinfo]
  | setTotalCredits vcId credits =>
      have hc : credits < 2 ^ 31 := hen
      refine ⟨_, rfl, .inr ?_⟩
      cases hinfo : s.manager.vcCredits vcId with
      | none =>
          refine ⟨vcId, ⟨credits, credits, 0⟩, ?_, fun _ _ => rfl, ⟨Nat.add_zero _, hc⟩, Nat.zero_le _,
            fun _ _ => (h.known vcId hinfo).symm⟩
          simp only [setTotalCredits, hinfo]
          rfl
      | some info =>
          obtain ⟨hafter, hpend⟩ := balanced_resized (h.balanced vcId info hinfo) hc
          have hle := h.pending vcId info hinfo
          refine ⟨vcId, resized info credits, ?_, fun _ _ => rfl, hafter, ?_, ?_⟩
          · simp only [setTotalCredits, hinfo]
          · rw [hpend]
            exact Nat.le_trans (Nat.min_le_left _ _) hle
          · intro hexact hkeeps
            rw [hpend, Nat.min_eq_left (hkeeps info hinfo)]
            exact hexact vcId info hinfo

theorem Sound.step (h : s.Sound) {a : CreditAct} (hen : s.enabled a) (hex : s.exec a = .ok s') :
    s'.Sound := by
  obtain ⟨s₁, h₁, hcase⟩ := exec_cases h hen
  rw [hex] at h₁
  cases h₁
  rcases hcase with rfl | ⟨vcId, info, hvc, hout, hb, hpending, -⟩
  · exact h
  · exact h.write hvc hout hb hpending

theorem Exact.step (h : s.Exact) (hs : s.Sound) {a : CreditAct} (hen : s.enabled a)
    (hkeeps : s.KeepsPending a) (hex : s.exec a = .ok s') : s'.Exact := by
  obtain ⟨s₁, h₁, hcase⟩ := exec_cases hs hen
  rw [hex] at h₁
  cases h₁
  rcases hcase with rfl | ⟨vcId, info, hvc, hout, -, -, hpending⟩
  · exact h
  · exact h.write hvc hout (hpending h hkeeps)

theorem available_of_grant {m' : CreditManager} (h : s.manager.consumeCredit vcId = .ok (true, m'))
    :
    ∃ info, s.manager.vcCredits vcId = some info ∧ 0 < info.availableCredits := by
  unfold CreditManager.consumeCredit at h
  split at h
  · cases h
  · rename_i info hinfo
    split at h
    · cases h
    · rename_i hne
      exact ⟨info, hinfo, Nat.pos_of_ne_zero hne⟩

theorem Exact.grantsWithin (h : s.Exact) (hs : s.Sound) : s.GrantsWithin := by
  intro vcId m' hgrant
  obtain ⟨info, hinfo, hpos⟩ := available_of_grant hgrant
  refine ⟨info, hinfo, ?_⟩
  have hsum := (hs.balanced vcId info hinfo).sum
  have heq := h vcId info hinfo
  omega

theorem Sound.drains (h : s.Sound) : s.Drains := by
  intro vcId info hinfo hzero
  have hsum := (h.balanced vcId info hinfo).sum
  have hle := h.pending vcId info hinfo
  omega

end CreditRun

/-- Every run of a manager whose channels were set up with windows below 2^31. -/
def creditMachine : Machine CreditRun CreditAct CreditAbort where
  init s := (∀ vcId, s.outstanding vcId = 0) ∧ ∀ vcId info, s.manager.vcCredits vcId = some info →
    ∃ numCredits < 2 ^ 31, info = ⟨numCredits, numCredits, 0⟩
  enabled := CreditRun.enabled
  exec := CreditRun.exec

instance (s : CreditRun) (a : CreditAct) : Decidable (creditMachine.enabled s a) :=
  inferInstanceAs (Decidable (s.enabled a))

namespace CreditRun

open CreditManager

variable {s : CreditRun} {vcId : UInt8} {info : VcCreditInfo}

theorem sound_init (h : creditMachine.init s) : s.Sound ∧ s.Exact := by
  obtain ⟨hzero, hinit⟩ := h
  refine ⟨⟨?_, ?_, fun vcId _ => hzero vcId⟩, ?_⟩
  · intro vcId info hinfo
    obtain ⟨n, hn, rfl⟩ := hinit vcId info hinfo
    exact ⟨Nat.add_zero n, hn⟩
  · intro vcId info hinfo
    obtain ⟨n, hn, rfl⟩ := hinit vcId info hinfo
    exact Nat.zero_le _
  · intro vcId info hinfo
    obtain ⟨n, hn, rfl⟩ := hinit vcId info hinfo
    exact (hzero vcId).symm

theorem sound_invariant : creditMachine.Invariant Sound := by
  apply Machine.Inductive.invariant
  constructor
  · intro s h
    exact (sound_init h).1
  · intro s a s' h hen hex
    exact h.step hen hex

theorem exact_invariant : (creditMachine.restrict KeepsPending).Invariant fun s =>
    s.Sound ∧ s.Exact := by
  apply Machine.Inductive.invariant
  constructor
  · intro s h
    exact sound_init h
  · intro s a s' h hen hex
    exact ⟨h.1.step hen.1 hex, h.2.step h.1 hen.1 hen.2 hex⟩

theorem not_grantsWithin (hinfo : s.manager.vcCredits vcId = some info) (hb : Balanced info)
    (ha : info.availableCredits ≠ 0) (hspent : info.totalCredits ≤ s.outstanding vcId) :
    ¬ s.GrantsWithin := by
  intro hall
  obtain ⟨m', hm', -⟩ := consumeCredit_grants hinfo hb ha
  obtain ⟨info', hinfo', hlt⟩ := hall vcId m' hm'
  rw [hinfo] at hinfo'
  cases hinfo'
  omega

/-- A resize below what is pending forgets the difference, and the next credit that comes back,
or the next resize, hands it out again. -/
theorem overspends (hs : s.Sound)
    (hinfo : s.manager.vcCredits vcId = some info) {credits : Nat}
    (hlt : credits < info.pendingCredits) :
    ∃ rest s', creditMachine.runs s (.setTotalCredits vcId credits :: rest) = some s' ∧
      ¬ s'.GrantsWithin := by
  have hb := hs.balanced vcId info hinfo
  have hsum := hb.sum
  have hsmall := hb.small
  have hout := hs.pending vcId info hinfo
  have hc : credits < 2 ^ 31 := by omega
  have hshrunk : resized info credits = ⟨0, credits, credits⟩ := if_pos hlt
  have hentry : (s.manager.setTotalCredits vcId credits).vcCredits vcId =
      some ⟨0, credits, credits⟩ := by
    simp only [setTotalCredits, hinfo]
    rw [setVc_self, hshrunk]
  have hen₁ : creditMachine.enabled s (.setTotalCredits vcId credits) := hc
  have hsound₁ : Sound ⟨s.manager.setTotalCredits vcId credits, s.outstanding⟩ :=
    hs.step (a := .setTotalCredits vcId credits) hen₁ rfl
  have hb₁ := hsound₁.balanced vcId _ hentry
  by_cases hzero : credits = 0
  -- the window is gone: a window of one credit is handed out while others are outstanding
  · subst hzero
    have hone : (1 : Nat) < 2 ^ 31 := by decide
    have hgrown : resized ⟨0, 0, 0⟩ 1 = ⟨1, 1, 0⟩ := by decide
    have hentry₂ : ((s.manager.setTotalCredits vcId 0).setTotalCredits vcId 1).vcCredits vcId =
        some ⟨1, 1, 0⟩ := by
      simp only [setTotalCredits.eq_def (s.manager.setTotalCredits vcId 0), hentry]
      rw [setVc_self, hgrown]
    have hen₂ : creditMachine.enabled ⟨s.manager.setTotalCredits vcId 0, s.outstanding⟩
        (.setTotalCredits vcId 1) := hone
    refine ⟨[.setTotalCredits vcId 1], _,
      (Machine.runs_cons hen₁ rfl).trans (Machine.runs_cons hen₂ rfl), ?_⟩
    refine not_grantsWithin hentry₂ ⟨rfl, hone⟩ (by decide) ?_
    show 1 ≤ s.outstanding vcId
    omega
  · obtain ⟨m', hm', hvc⟩ := returnCredits_ok hentry hb₁ Nat.one_pos (by decide)
    have hen₂ : creditMachine.enabled ⟨s.manager.setTotalCredits vcId credits, s.outstanding⟩
        (.returnCredits vcId 1) := by
      have hone : 1 ≤ s.outstanding vcId := by omega
      exact ⟨Nat.one_pos, hone, by decide⟩
    have hex₂ : creditMachine.exec ⟨s.manager.setTotalCredits vcId credits, s.outstanding⟩
        (.returnCredits vcId 1) =
          .ok ⟨m', update s.outstanding vcId (s.outstanding vcId - 1)⟩ := by
      show (exec _ (.returnCredits vcId 1)) = _
      rw [exec, hm']
      rfl
    have hback : returned ⟨0, credits, credits⟩ 1 = ⟨1, credits, credits - 1⟩ := by
      have one : (0 + 1) % 2 ^ 32 = 1 := by decide
      simp only [returned, one]
      rw [if_neg (by omega), if_pos (by omega)]
    have hentry₂ : m'.vcCredits vcId = some ⟨1, credits, credits - 1⟩ := by
      rw [hvc, setVc_self, hback]
    refine ⟨[.returnCredits vcId 1], _,
      (Machine.runs_cons hen₁ rfl).trans (Machine.runs_cons hen₂ hex₂),
      not_grantsWithin hentry₂ ?_ Nat.one_ne_zero ?_⟩
    · exact (hsound₁.step (a := .returnCredits vcId 1) hen₂ hex₂).balanced vcId _ hentry₂
    · show credits ≤ update s.outstanding vcId (s.outstanding vcId - 1) vcId
      rw [update_self]
      omega

/-- **The credit window.** While no resize goes below what is pending, a credit is granted only
if fewer are outstanding than the window has, and the run goes on from the first resize that
does so to a state that grants one too many; once all credits have come back, all of the window
is available. -/
theorem grants_within_window (s : CreditRun) :
    ((creditMachine.restrict KeepsPending).Reachable s → s.GrantsWithin) ∧
      (creditMachine.Reachable s → s.Drains) ∧
      ∀ a, (creditMachine.restrict KeepsPending).Reachable s → creditMachine.enabled s a →
        ¬ s.KeepsPending a →
          ∃ rest s', creditMachine.runs s (a :: rest) = some s' ∧ ¬ s'.GrantsWithin := by
  refine ⟨?_, ?_, ?_⟩
  · intro hreach
    obtain ⟨hs, hexact⟩ := exact_invariant s hreach
    exact hexact.grantsWithin hs
  · intro hreach
    exact (sound_invariant s hreach).drains
  · intro a hreach _ hnot
    have hs := (exact_invariant s hreach).1
    cases a with
    | setTotalCredits vcId credits =>
        simp only [KeepsPending, not_forall, Nat.not_le] at hnot
        obtain ⟨info, hinfo, hlt⟩ := hnot
        exact overspends hs hinfo hlt
    | _ => exact absurd trivial hnot

/-- A window of eight is spent and shrunk to five; one credit comes back. -/
def shrunkRun : List CreditAct :=
  List.replicate 8 (.consumeCredit 0) ++ [.setTotalCredits 0 5, .returnCredits 0 1]

/-- Then another credit is granted, with seven outstanding. -/
theorem overspent_shrunkRun : ¬ creditMachine.Invariant GrantsWithin := by
  intro hall
  have hrun : (creditMachine.runs ⟨({} : CreditManager).initializeVc 0 8, fun _ => 0⟩ shrunkRun).map
      (fun s => (s.manager.vcCredits 0, s.outstanding 0)) = some (some ⟨1, 5, 4⟩, 7) := by
    decide +kernel
  have hinit : creditMachine.init ⟨({} : CreditManager).initializeVc 0 8, fun _ => 0⟩ := by
    refine ⟨fun _ => rfl, ?_⟩
    intro vcId info hinfo
    by_cases hv : vcId = 0
    · subst hv
      rw [initializeVc, setVc_self] at hinfo
      cases hinfo
      exact ⟨8, by decide, rfl⟩
    · rw [initializeVc, setVc_ne _ _ hv] at hinfo
      cases hinfo
  obtain ⟨s, hreach, hobs⟩ := Machine.Reachable.exists_of_runs hinit hrun
  obtain ⟨hinfo, hout⟩ := Prod.mk.inj hobs
  refine not_grantsWithin hinfo ⟨rfl, by decide⟩ (by decide) ?_ (hall s hreach)
  rw [hout]
  decide

end CreditRun

end ProtoBridge.Endpoint
