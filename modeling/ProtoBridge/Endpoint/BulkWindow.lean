import ProtoBridge.Endpoint.BulkLoops

/-!
# The scale-out window

The runs of an endpoint that sends bulk transfers, packets of the RDMA engine and other
packets, while acknowledgements and losses come in and holds are lifted. `BulkStep` says
what the handlers do to the window, one change at a time.

A slot is entered under the packet's flow and number. A number that comes round again
while its first packet is still in the window takes a slot without a new entry, and
`clashes` counts how often that happened: the slots in use are the entries and the clashes.
A number may also have gone to a packet that took no slot, whose acknowledgement then gives
back the slot of another one; `Alone` says that no number in the window has.
-/

namespace ProtoBridge.Endpoint

open Lib Fabric Relation

variable {γ : Type}

/-! ## Runs -/

/-- What happens to an endpoint. -/
inductive BulkAct (γ : Type)
  | sendBulk (t : BulkTransfer)
  /-- Another send path numbers a packet. -/
  | send (key : FlowKey)
  | queueRdma (p : PendingPacket)
  | disposeRdma
  /-- A packet is acknowledged or lost. -/
  | settle (key : FlowKey) (seqNum : UInt32)
  /-- The last hold on a destination is lifted. -/
  | resume
  /-- Anything else, such as a pause. -/
  | elapse (world : γ)

namespace BulkEndpoint

/-- What `ProcessPfcResumePacket` and `PfcPauseExpiredForDest` do once the hold is gone. -/
def resume (nic : Nic) (w : World γ) (σ : BulkEndpoint γ) : BulkEndpoint γ :=
  pumpBulkTxWindow nic w { σ with world := w.trySendQueuedPackets σ.world }

/-- `QueueRdmaOperationPacket`. -/
def queueRdma (nic : Nic) (w : World γ) (σ : BulkEndpoint γ) (p : PendingPacket) :
    BulkEndpoint γ :=
  pumpRdmaOperationPackets nic w { σ with rdmaTxQueue := σ.rdmaTxQueue ++ [p] }

/-- One handler. -/
def handle (nic : Nic) (w : World γ) (σ : BulkEndpoint γ) :
    BulkAct γ → Except BulkFault (BulkEndpoint γ)
  | .sendBulk t => sendBulkWireTransferSizeImpl nic w t σ
  | .send key => .ok (σ.takeSeqNum key).1
  | .queueRdma p => .ok (σ.queueRdma nic w p)
  | .disposeRdma => .ok { σ with rdmaTxQueue := [] }
  | .settle key seqNum => .ok (σ.retire nic w key seqNum)
  | .resume => .ok (σ.resume nic w)
  | .elapse world => .ok { σ with world }

end BulkEndpoint

/-- An endpoint whose window is set before it sends anything. -/
def bulkMachine (nic : Nic) (w : World γ) : Machine (BulkEndpoint γ) (BulkAct γ) BulkFault where
  init σ := ∃ window world, 1 ≤ window.toNat ∧ σ = { soTxWindow := window, world }
  enabled _ _ := True
  exec := BulkEndpoint.handle nic w

/-! ## Steps -/

/-- A packet has gone out, or onto the send queue. -/
def BulkObs.isEmission : BulkObs → Bool
  | .sent _ _ | .queued _ _ => true
  | _ => false

namespace BulkEndpoint

/-- A chunk's packet is built, and a slot taken for it. -/
def beginDispatch (nic : Nic) (σ : BulkEndpoint γ) (desc : BulkTxChunk) : BulkEndpoint γ :=
  let (σ, seqNum) := σ.takeSeqNum desc.key
  let σ := σ.takeSlot desc.key seqNum
  { σ with log := σ.log ++ [.dispatched desc (dispatchedPacket nic desc seqNum)] }

/-- A packet of the RDMA engine takes a slot. -/
def beginPending (σ : BulkEndpoint γ) (p : PendingPacket) : BulkEndpoint γ :=
  let (σ, seqNum) := σ.takeSeqNum p.key
  let σ := σ.takeSlot p.key seqNum
  { σ with log := σ.log ++ [.operated p.key seqNum] }

/-- A slot is given back. -/
def release (σ : BulkEndpoint γ) (key : FlowKey) (seqNum : UInt32) : BulkEndpoint γ :=
  { σ with
    bulkTxWindowSeqs := σ.bulkTxWindowSeqs.erase (key, seqNum)
    log := σ.log ++ [.released key seqNum]
    bulkTxInflight :=
      if σ.bulkTxInflight > 0 then σ.bulkTxInflight - 1 else σ.bulkTxInflight }

end BulkEndpoint

/-- The changes that the handlers are made of, when there is a window. -/
inductive BulkStep (nic : Nic) : BulkEndpoint γ → BulkEndpoint γ → Prop
  | world (σ : BulkEndpoint γ) (world : γ) : BulkStep nic σ { σ with world }
  | spray (σ : BulkEndpoint γ) (offset : UInt32) :
      BulkStep nic σ { σ with globalSprayOffset := offset }
  | rdma (σ : BulkEndpoint γ) (queue : List PendingPacket) :
      BulkStep nic σ { σ with rdmaTxQueue := queue }
  | number (σ : BulkEndpoint γ) (key : FlowKey) : BulkStep nic σ (σ.takeSeqNum key).1
  | emit (σ : BulkEndpoint γ) (o : BulkObs) (emission : o.isEmission) :
      BulkStep nic σ { σ with log := σ.log ++ [o] }
  | enqueue (σ : BulkEndpoint γ) (desc : BulkTxChunk) :
      BulkStep nic σ
        { σ with bulkTxQueue := σ.bulkTxQueue ++ [desc], log := σ.log ++ [.enqueued desc] }
  | dispatch (σ : BulkEndpoint γ) (desc : BulkTxChunk) (rest : List BulkTxChunk)
      (queue : σ.bulkTxQueue = desc :: rest) (free : σ.bulkTxInflight < σ.soTxWindow) :
      BulkStep nic σ (BulkEndpoint.beginDispatch nic { σ with bulkTxQueue := rest } desc)
  | pending (σ : BulkEndpoint γ) (p : PendingPacket) (free : σ.bulkTxInflight < σ.soTxWindow) :
      BulkStep nic σ (σ.beginPending p)
  | release (σ : BulkEndpoint γ) (key : FlowKey) (seqNum : UInt32)
      (member : (key, seqNum) ∈ σ.bulkTxWindowSeqs) : BulkStep nic σ (σ.release key seqNum)

/-- Any number of steps. -/
abbrev BulkSteps (nic : Nic) : BulkEndpoint γ → BulkEndpoint γ → Prop :=
  ReflTransGen (BulkStep nic)

namespace BulkEndpoint

variable {nic : Nic} {w : World γ} {σ τ : BulkEndpoint γ} {t : BulkTransfer}
  {devices : List UInt32}

theorem step_window (h : BulkStep nic σ τ) : τ.soTxWindow = σ.soTxWindow := by
  cases h <;> rfl

theorem steps_window (h : BulkSteps nic σ τ) : τ.soTxWindow = σ.soTxWindow := by
  induction h with
  | refl => rfl
  | tail _ step ih => exact (step_window step).trans ih

theorem dispatch_fst (nic : Nic) (w : World γ) (σ : BulkEndpoint γ) (desc : BulkTxChunk) :
    ∃ world, (dispatch nic w σ desc).1 = { beginDispatch nic σ desc with world } := by
  rw [dispatch]
  dsimp only
  split
  · exact ⟨_, rfl⟩
  · exact ⟨_, rfl⟩

theorem pumpLoop_steps (fuel : Nat) : BulkSteps nic σ (pumpLoop nic w fuel σ) := by
  induction fuel generalizing σ with
  | zero => exact .refl
  | succ fuel ih =>
      rw [pumpLoop]
      split
      · exact .refl
      · rename_i desc rest queue
        split
        · rename_i free
          obtain ⟨world, hdispatch⟩ :=
            dispatch_fst nic w { σ with bulkTxQueue := rest } desc
          have first : BulkSteps nic σ (dispatch nic w { σ with bulkTxQueue := rest } desc).1 := by
            rw [hdispatch]
            exact .tail (.single (.dispatch σ desc rest queue free)) (.world _ world)
          dsimp only
          split
          · exact first.trans ih
          · exact first
        · exact .refl

theorem pumpBulkTxWindow_steps : BulkSteps nic σ (pumpBulkTxWindow nic w σ) := pumpLoop_steps _

theorem sendPending_eq (nic : Nic) (w : World γ) (window : σ.soTxWindow ≠ 0) (p : PendingPacket) :
    ∃ world offset,
      sendPending nic w σ p = { σ.beginPending p with world, globalSprayOffset := offset } := by
  have window' : (σ.takeSeqNum p.key).1.soTxWindow ≠ 0 := window
  rw [sendPending]
  dsimp only
  rw [if_pos window']
  split
  · exact ⟨_, _, rfl⟩
  · exact ⟨_, _, rfl⟩

theorem pumpRdmaLoop_steps (window : σ.soTxWindow ≠ 0) (fuel : Nat) :
    BulkSteps nic σ (pumpRdmaLoop nic w fuel σ) := by
  induction fuel generalizing σ with
  | zero => exact .refl
  | succ fuel ih =>
      rw [pumpRdmaLoop]
      split
      · exact .refl
      · rename_i p rest queue
        split
        · rename_i go
          have free : σ.bulkTxInflight < σ.soTxWindow := go.resolve_left window
          obtain ⟨world, offset, hsend⟩ :=
            @sendPending_eq _ { σ with rdmaTxQueue := rest } nic w window p
          have first : BulkSteps nic σ (sendPending nic w { σ with rdmaTxQueue := rest } p) := by
            rw [hsend]
            have popped : BulkSteps nic σ { σ with rdmaTxQueue := rest } := .single (.rdma σ rest)
            exact ((popped.tail (.pending _ p free)).tail (.world _ world)).tail (.spray _ offset)
          have kept := steps_window first
          exact first.trans (ih (by rw [kept]; exact window))
        · exact .refl

theorem pumpRdma_steps (window : σ.soTxWindow ≠ 0) :
    BulkSteps nic σ (pumpRdmaOperationPackets nic w σ) := pumpRdmaLoop_steps window _

variable {key : FlowKey} {seqNum : UInt32}

theorem retire_eq (nic : Nic) (w : World γ) (window : σ.soTxWindow ≠ 0)
    (member : (key, seqNum) ∈ σ.bulkTxWindowSeqs) :
    retire nic w σ key seqNum =
      pumpRdmaOperationPackets nic w (pumpBulkTxWindow nic w (σ.release key seqNum)) := by
  have pos : σ.soTxWindow > 0 := UInt32.pos_iff_ne_zero.mpr window
  rw [retire, if_pos ⟨pos, member⟩, releaseBulkTxSlot, release]
  dsimp only
  split <;> rfl

theorem retire_idle (nic : Nic) (w : World γ) (stranger : (key, seqNum) ∉ σ.bulkTxWindowSeqs)
    : retire nic w σ key seqNum = σ :=
  if_neg fun h => stranger h.2

theorem retire_steps (window : σ.soTxWindow ≠ 0) (key : FlowKey) (seqNum : UInt32) :
    BulkSteps nic σ (retire nic w σ key seqNum) := by
  by_cases member : (key, seqNum) ∈ σ.bulkTxWindowSeqs
  · rw [retire_eq nic w window member]
    have released : BulkSteps nic σ (pumpBulkTxWindow nic w (σ.release key seqNum)) :=
      .head (.release σ key seqNum member) pumpBulkTxWindow_steps
    apply released.trans (pumpRdma_steps _)
    rw [steps_window released]
    exact window
  · rw [retire_idle nic w member]

theorem queueRdma_steps (window : σ.soTxWindow ≠ 0) (p : PendingPacket) :
    BulkSteps nic σ (σ.queueRdma nic w p) :=
  .head (.rdma σ _) (pumpRdma_steps window)

theorem resume_steps : BulkSteps nic σ (σ.resume nic w) :=
  .head (.world σ _) pumpBulkTxWindow_steps

theorem enqueue_steps (descs : List BulkTxChunk) :
    BulkSteps nic σ
      { σ with
        bulkTxQueue := σ.bulkTxQueue ++ descs
        log := σ.log ++ descs.map .enqueued } := by
  induction descs generalizing σ with
  | nil =>
      rw [List.append_nil, List.map_nil, List.append_nil]
  | cons desc descs ih =>
      have rest := @ih { σ with
        bulkTxQueue := σ.bulkTxQueue ++ [desc]
        log := σ.log ++ [.enqueued desc] }
      simp only [List.append_assoc, List.singleton_append] at rest
      exact .head (.enqueue σ desc) rest

theorem Emits.steps {packet : Nat → UInt32 → FabricPacket} {is : List Nat}
    (h : Emits key packet devices is σ τ) : BulkSteps nic σ τ := by
  induction h with
  | done σ world => exact .single (.world σ world)
  | turn i is σ τ o world hit _ ih =>
      have emission : o.isEmission := by
        simp only [List.map_cons, List.map_nil, List.mem_cons, List.not_mem_nil, or_false] at hit
        rcases hit with rfl | rfl <;> rfl
      have one : BulkSteps nic σ
          { (σ.takeSeqNum key).1 with log := (σ.takeSeqNum key).1.log ++ [o] } :=
        .tail (.single (.number σ key)) (.emit _ o emission)
      exact (one.tail (.world _ world)).trans ih

theorem sendSingle_steps : BulkSteps nic σ (sendSingle nic w t devices σ) := by
  have numbered : BulkSteps nic σ (σ.takeSeqNum t.key).1 := .single (.number σ t.key)
  rw [sendSingle]
  dsimp only
  split
  · exact (numbered.tail (.emit _ _ rfl)).tail (.world _ _)
  · split
    · exact ((numbered.tail (.emit _ _ rfl)).tail (.world _ _)).tail (.spray _ _)
    · exact (numbered.tail (.emit _ _ rfl)).tail (.world _ _)

theorem sendChecked_steps : BulkSteps nic σ (sendChecked nic w t σ) := by
  rw [sendChecked]
  dsimp only
  split
  · split
    · rw [windowedLoop_eq]
      apply ReflTransGen.trans _ pumpBulkTxWindow_steps
      exact (enqueue_steps _).tail (.spray _ _)
    · exact (directLoop_emits _ 0 σ).steps.tail (.spray _ _)
  · exact sendSingle_steps

theorem handle_steps (window : σ.soTxWindow ≠ 0) {a : BulkAct γ} (h : handle nic w σ a = .ok τ) :
    BulkSteps nic σ τ := by
  cases a with
  | sendBulk t =>
      rcases sendBulk_ok h with rfl | ⟨-, rfl⟩
      · exact .refl
      · exact sendChecked_steps
  | send key =>
      obtain rfl := Except.ok.inj h
      exact .single (.number σ key)
  | queueRdma p =>
      obtain rfl := Except.ok.inj h
      exact queueRdma_steps window p
  | disposeRdma =>
      obtain rfl := Except.ok.inj h
      exact .single (.rdma σ [])
  | settle key seqNum =>
      obtain rfl := Except.ok.inj h
      exact retire_steps window key seqNum
  | resume =>
      obtain rfl := Except.ok.inj h
      exact resume_steps
  | elapse world =>
      obtain rfl := Except.ok.inj h
      exact .single (.world σ world)

end BulkEndpoint

variable {nic : Nic} {seqNum : UInt32}

/-- The rule for the runs: what holds at the start and is kept by every step holds of every state
reached. -/
theorem bulk_invariant {w : World γ} {P : BulkEndpoint γ → Prop}
    (init : ∀ window world, 1 ≤ window.toNat → P { soTxWindow := window, world })
    (step : ∀ σ τ, σ.soTxWindow ≠ 0 → P σ → BulkStep nic σ τ → P τ) :
    (bulkMachine nic w).Invariant P := by
  have both : (bulkMachine nic w).Invariant fun σ => σ.soTxWindow ≠ 0 ∧ P σ := by
    apply Machine.Inductive.invariant
    constructor
    · rintro σ ⟨window, world, some, rfl⟩
      refine ⟨?_, init window world some⟩
      rintro rfl
      exact absurd some (by decide)
    · intro σ a τ ⟨window, hσ⟩ _ h
      have steps : BulkSteps nic σ τ := BulkEndpoint.handle_steps window h
      clear h
      induction steps with
      | refl => exact ⟨window, hσ⟩
      | tail _ one ih =>
          refine ⟨?_, step _ _ ih.1 ih.2 one⟩
          rw [BulkEndpoint.step_window one]
          exact ih.1
  exact fun σ reach => (both σ reach).2

/-! ## The slots -/

/-- How an event changes the entries of the window and the number of clashes. -/
def ledgerStep (ledger : Finset (FlowKey × UInt32) × Nat) :
    BulkObs → Finset (FlowKey × UInt32) × Nat
  | .took key seqNum =>
      (insert (key, seqNum) ledger.1,
        if (key, seqNum) ∈ ledger.1 then ledger.2 + 1 else ledger.2)
  | .released key seqNum => (ledger.1.erase (key, seqNum), ledger.2)
  | _ => ledger

/-- The entries of the window after a history, and the clashes in it. -/
def ledger (log : List BulkObs) : Finset (FlowKey × UInt32) × Nat := log.foldl ledgerStep (∅, 0)

/-- How many slots were taken under a number that was still in the window. -/
def clashes (log : List BulkObs) : Nat := (ledger log).2

@[simp]
theorem ledger_snoc (log : List BulkObs) (o : BulkObs) :
    ledger (log ++ [o]) = ledgerStep (ledger log) o := by
  rw [ledger, List.foldl_append]
  rfl

/-- The chunks queued so far. -/
def enqueued (log : List BulkObs) : List BulkTxChunk :=
  log.filterMap fun
    | .enqueued c => some c
    | _ => none

/-- The chunks dispatched so far, with their packets. -/
def dispatched (log : List BulkObs) : List (BulkTxChunk × FabricPacket) :=
  log.filterMap fun
    | .dispatched c packet => some (c, packet)
    | _ => none

/-- The slots taken and given back under a number differ by one for an entry of the window. -/
def SlotBalance (σ : BulkEndpoint γ) (key : FlowKey) (seqNum : UInt32) : Prop :=
  σ.log.count (.took key seqNum) =
    σ.log.count (.released key seqNum) + if (key, seqNum) ∈ σ.bulkTxWindowSeqs then 1 else 0

/-- The slots in use are the entries of the window and the clashes. -/
structure Slots (σ : BulkEndpoint γ) : Prop where
  entries : (ledger σ.log).1 = σ.bulkTxWindowSeqs
  inflight : σ.bulkTxInflight.toNat = σ.bulkTxWindowSeqs.card + clashes σ.log
  le : σ.bulkTxInflight.toNat ≤ σ.soTxWindow.toNat
  balance : clashes σ.log = 0 → ∀ key seqNum, SlotBalance σ key seqNum

namespace Slots

variable {σ : BulkEndpoint γ} {key : FlowKey} {seqNum : UInt32}

theorem note {o : BulkObs} (h : Slots σ) (took : ∀ k n, o ≠ .took k n)
    (released : ∀ k n, o ≠ .released k n) : Slots { σ with log := σ.log ++ [o] } := by
  have same : ledger (σ.log ++ [o]) = ledger σ.log := by
    rw [ledger_snoc]
    cases o with
    | took k n => exact absurd rfl (took k n)
    | released k n => exact absurd rfl (released k n)
    | _ => rfl
  have still : clashes (σ.log ++ [o]) = clashes σ.log := congrArg Prod.snd same
  constructor
  · show (ledger (σ.log ++ [o])).1 = _
    rw [same]
    exact h.entries
  · show _ = _ + clashes (σ.log ++ [o])
    rw [still]
    exact h.inflight
  · exact h.le
  · intro none k n
    have before := h.balance (still ▸ none) k n
    simpa [SlotBalance, List.count_singleton, took k n, released k n] using before

theorem number (h : Slots σ) (key : FlowKey) : Slots (σ.takeSeqNum key).1 := by
  have noted := h.note (o := .numbered key (σ.nextSeqNum key)) (by simp) (by simp)
  exact ⟨noted.entries, noted.inflight, noted.le, noted.balance⟩

theorem take (h : Slots σ) (free : σ.bulkTxInflight < σ.soTxWindow) :
    Slots (σ.takeSlot key seqNum) := by
  have room : σ.bulkTxInflight.toNat < σ.soTxWindow.toNat := free
  have small := σ.soTxWindow.toNat_lt
  have inflight := h.inflight
  have one : (σ.bulkTxInflight + 1).toNat = σ.bulkTxInflight.toNat + 1 := by
    rw [UInt32.toNat_add]
    have := UInt32.toNat_one
    omega
  have entered : ledger (σ.log ++ [.took key seqNum]) =
      (insert (key, seqNum) σ.bulkTxWindowSeqs,
        if (key, seqNum) ∈ σ.bulkTxWindowSeqs then clashes σ.log + 1 else clashes σ.log) := by
    rw [ledger_snoc, ledgerStep, h.entries, clashes]
  have total : clashes (σ.log ++ [.took key seqNum]) =
      if (key, seqNum) ∈ σ.bulkTxWindowSeqs then clashes σ.log + 1 else clashes σ.log :=
    congrArg Prod.snd entered
  constructor
  · exact congrArg Prod.fst entered
  · show (σ.bulkTxInflight + 1).toNat =
      (insert (key, seqNum) σ.bulkTxWindowSeqs).card + clashes (σ.log ++ [.took key seqNum])
    rw [one, total]
    split
    · rename_i again
      rw [Finset.insert_eq_of_mem again]
      omega
    · rename_i fresh
      rw [Finset.card_insert_of_notMem fresh]
      omega
  · show (σ.bulkTxInflight + 1).toNat ≤ σ.soTxWindow.toNat
    omega
  · intro none k n
    rw [show clashes (σ.takeSlot key seqNum).log = _ from total] at none
    split at none
    · omega
    · rename_i fresh
      have before := h.balance none k n
      rw [SlotBalance] at before ⊢
      show (σ.log ++ [BulkObs.took key seqNum]).count (BulkObs.took k n) =
        (σ.log ++ [BulkObs.took key seqNum]).count (BulkObs.released k n) +
          if (k, n) ∈ insert (key, seqNum) σ.bulkTxWindowSeqs then 1 else 0
      rw [List.count_append, List.count_append, before]
      by_cases same : (k, n) = (key, seqNum)
      · obtain ⟨rfl, rfl⟩ := Prod.mk.inj same
        simp [fresh]
      · have other : ¬(key = k ∧ seqNum = n) := fun h => same (by rw [h.1, h.2])
        simp [same, other]

theorem release (h : Slots σ) (member : (key, seqNum) ∈ σ.bulkTxWindowSeqs) :
    Slots (σ.release key seqNum) := by
  have some := Finset.card_pos.mpr ⟨_, member⟩
  have inflight := h.inflight
  have pos : σ.bulkTxInflight > 0 := by
    show (0 : UInt32).toNat < σ.bulkTxInflight.toNat
    have := UInt32.toNat_zero
    omega
  have one : (σ.bulkTxInflight - 1).toNat = σ.bulkTxInflight.toNat - 1 :=
    UInt32.toNat_sub_of_le _ _ (show 1 ≤ σ.bulkTxInflight.toNat by omega)
  have left : ledger (σ.log ++ [.released key seqNum]) =
      (σ.bulkTxWindowSeqs.erase (key, seqNum), clashes σ.log) := by
    rw [ledger_snoc, ledgerStep, h.entries, clashes]
  have total : clashes (σ.log ++ [.released key seqNum]) = clashes σ.log := by
    rw [clashes, left]
  have fewer : (σ.release key seqNum).bulkTxInflight = σ.bulkTxInflight - 1 := if_pos pos
  constructor
  · exact congrArg Prod.fst left
  · rw [fewer, one, show clashes (σ.release key seqNum).log = _ from total]
    show _ = (σ.bulkTxWindowSeqs.erase (key, seqNum)).card + _
    rw [Finset.card_erase_of_mem member]
    omega
  · rw [fewer, one]
    exact Nat.le_trans (Nat.sub_le _ _) h.le
  · intro none k n
    have before := h.balance (total ▸ none) k n
    rw [SlotBalance] at before ⊢
    show (σ.log ++ [BulkObs.released key seqNum]).count (BulkObs.took k n) =
      (σ.log ++ [BulkObs.released key seqNum]).count (BulkObs.released k n) +
        if (k, n) ∈ σ.bulkTxWindowSeqs.erase (key, seqNum) then 1 else 0
    rw [List.count_append, List.count_append, before]
    by_cases same : (k, n) = (key, seqNum)
    · obtain ⟨rfl, rfl⟩ := Prod.mk.inj same
      simp [member]
    · have other : ¬(key = k ∧ seqNum = n) := fun h => same (by rw [h.1, h.2])
      simp [same, other]

theorem step {nic : Nic} {τ : BulkEndpoint γ} (h : Slots σ) (one : BulkStep nic σ τ) : Slots τ := by
  cases one with
  | world | spray | rdma => exact ⟨h.entries, h.inflight, h.le, h.balance⟩
  | number key => exact h.number key
  | emit o emission =>
      apply h.note
      · rintro k n rfl
        cases emission
      · rintro k n rfl
        cases emission
  | enqueue desc =>
      have noted := h.note (o := .enqueued desc) (by simp) (by simp)
      exact ⟨noted.entries, noted.inflight, noted.le, noted.balance⟩
  | dispatch desc rest queue free =>
      have popped : Slots { σ with bulkTxQueue := rest } :=
        ⟨h.entries, h.inflight, h.le, h.balance⟩
      exact ((popped.number desc.key).take free).note (by simp) (by simp)
  | pending p free => exact ((h.number p.key).take free).note (by simp) (by simp)
  | release key seqNum member => exact h.release member

end Slots

/-! ## The queue -/

/-- The chunks that were queued are those dispatched, in this order, and those that wait. -/
def InDispatchOrder (σ : BulkEndpoint γ) : Prop :=
  enqueued σ.log = (dispatched σ.log).map Prod.fst ++ σ.bulkTxQueue

theorem InDispatchOrder.step {nic : Nic} {σ τ : BulkEndpoint γ} (h : InDispatchOrder σ) (one : BulkStep nic σ τ) :
    InDispatchOrder τ := by
  rw [InDispatchOrder] at h
  cases one with
  | world world => exact h
  | spray offset => exact h
  | rdma queue => exact h
  | number key => simpa [InDispatchOrder, enqueued, dispatched, BulkEndpoint.takeSeqNum] using h
  | emit o emission =>
      cases o with
      | sent packet deviceIndex => simpa [InDispatchOrder, enqueued, dispatched] using h
      | queued packet deviceIndex => simpa [InDispatchOrder, enqueued, dispatched] using h
      | _ => cases emission
  | enqueue desc =>
      have more : enqueued (σ.log ++ [.enqueued desc]) = enqueued σ.log ++ [desc] := by
        simp [enqueued]
      have same : dispatched (σ.log ++ [.enqueued desc]) = dispatched σ.log := by
        simp [dispatched]
      show enqueued (σ.log ++ [.enqueued desc]) =
        (dispatched (σ.log ++ [.enqueued desc])).map Prod.fst ++ (σ.bulkTxQueue ++ [desc])
      rw [more, same, h, List.append_assoc]
  | dispatch desc rest queue free =>
      rw [queue] at h
      simpa [InDispatchOrder, enqueued, dispatched, BulkEndpoint.beginDispatch, BulkEndpoint.takeSeqNum,
        BulkEndpoint.takeSlot] using h
  | pending p free =>
      simpa [InDispatchOrder, enqueued, dispatched, BulkEndpoint.beginPending, BulkEndpoint.takeSeqNum,
        BulkEndpoint.takeSlot] using h
  | release key seqNum member =>
      simpa [InDispatchOrder, enqueued, dispatched, BulkEndpoint.release] using h

/-- Chunks wait only while a slot is in use. -/
def Pumped (σ : BulkEndpoint γ) : Prop := σ.bulkTxQueue = [] ∨ 0 < σ.bulkTxInflight.toNat

namespace BulkEndpoint

variable {nic : Nic} {w : World γ} {σ τ : BulkEndpoint γ} {t : BulkTransfer}
  {devices : List UInt32}

theorem pumpLoop_pumped (fuel : Nat) (enough : σ.bulkTxQueue.length ≤ fuel)
    (window : 0 < σ.soTxWindow.toNat) : Pumped (pumpLoop nic w fuel σ) := by
  induction fuel generalizing σ with
  | zero => exact .inl (List.length_eq_zero_iff.mp (Nat.le_zero.mp enough))
  | succ fuel ih =>
      rw [pumpLoop]
      split
      · rename_i none
        exact .inl none
      · rename_i desc rest queue
        rw [queue, List.length_cons] at enough
        split
        · rename_i free
          have room : σ.bulkTxInflight.toNat < σ.soTxWindow.toNat := free
          have small := σ.soTxWindow.toNat_lt
          obtain ⟨world, hdispatch⟩ := dispatch_fst nic w { σ with bulkTxQueue := rest } desc
          dsimp only
          rw [hdispatch]
          split
          · exact ih (Nat.le_of_succ_le_succ enough) window
          · -- the head is held: it keeps its slot
            right
            show 0 < (σ.bulkTxInflight + 1).toNat
            rw [UInt32.toNat_add]
            have := UInt32.toNat_one
            omega
        · rename_i full
          have full : ¬σ.bulkTxInflight.toNat < σ.soTxWindow.toNat := full
          right
          omega

theorem pumpBulkTxWindow_pumped (window : 0 < σ.soTxWindow.toNat) :
    Pumped (pumpBulkTxWindow nic w σ) :=
  pumpLoop_pumped _ (Nat.le_refl _) window

theorem pumpRdmaLoop_pumped (window : σ.soTxWindow ≠ 0) (fuel : Nat) (h : Pumped σ) :
    Pumped (pumpRdmaLoop nic w fuel σ) := by
  induction fuel generalizing σ with
  | zero => exact h
  | succ fuel ih =>
      rw [pumpRdmaLoop]
      split
      · exact h
      · rename_i p rest queue
        split
        · rename_i go
          have free : σ.bulkTxInflight.toNat < σ.soTxWindow.toNat := go.resolve_left window
          have small := σ.soTxWindow.toNat_lt
          obtain ⟨world, offset, hsend⟩ :=
            @sendPending_eq _ { σ with rdmaTxQueue := rest } nic w window p
          rw [hsend]
          apply ih
          · exact window
          · right
            show 0 < (σ.bulkTxInflight + 1).toNat
            rw [UInt32.toNat_add]
            have := UInt32.toNat_one
            omega
        · exact h

theorem pumpRdma_pumped (window : σ.soTxWindow ≠ 0) (h : Pumped σ) :
    Pumped (pumpRdmaOperationPackets nic w σ) := pumpRdmaLoop_pumped window _ h

theorem Emits.pumped {key : FlowKey} {packet : Nat → UInt32 → FabricPacket} {is : List Nat}
    (h : Emits key packet devices is σ τ) (before : Pumped σ) : Pumped τ := by
  induction h with
  | done σ world => exact before
  | turn i is σ τ o world hit _ ih => exact ih before

theorem handle_pumped (window : σ.soTxWindow ≠ 0) {a : BulkAct γ} (h : Pumped σ)
    (hex : handle nic w σ a = .ok τ) : Pumped τ := by
  have pos : 0 < σ.soTxWindow.toNat := UInt32.pos_iff_ne_zero.mpr window
  cases a with
  | sendBulk t =>
      rcases sendBulk_ok hex with rfl | ⟨-, rfl⟩
      · exact h
      · rw [sendChecked]
        dsimp only
        split
        · split
          · rw [windowedLoop_eq]
            exact pumpBulkTxWindow_pumped pos
          · exact (directLoop_emits _ 0 σ).pumped h
        · rw [sendSingle]
          dsimp only
          split
          · exact h
          · split <;> exact h
  | send | disposeRdma | elapse =>
      obtain rfl := Except.ok.inj hex
      exact h
  | queueRdma p =>
      obtain rfl := Except.ok.inj hex
      exact pumpRdma_pumped window h
  | settle key seqNum =>
      obtain rfl := Except.ok.inj hex
      by_cases member : (key, seqNum) ∈ σ.bulkTxWindowSeqs
      · show Pumped (retire nic w σ key seqNum)
        rw [retire_eq nic w window member]
        apply pumpRdma_pumped
        · rw [steps_window pumpBulkTxWindow_steps]
          exact window
        · exact pumpBulkTxWindow_pumped pos
      · show Pumped (retire nic w σ key seqNum)
        rw [retire_idle nic w member]
        exact h
  | resume =>
      obtain rfl := Except.ok.inj hex
      exact pumpBulkTxWindow_pumped pos

end BulkEndpoint

/-! ## The entries -/

/-- A number was given to a chunk that was dispatched, or to a packet of the RDMA engine. -/
def HasSender (log : List BulkObs) (key : FlowKey) (seqNum : UInt32) : Prop :=
  (∃ c packet, (c, packet) ∈ dispatched log ∧ c.key = key ∧
    packet.header.sequenceNumber = seqNum) ∨ .operated key seqNum ∈ log

/-- Every entry of the window has such a packet. -/
def Held (σ : BulkEndpoint γ) : Prop :=
  ∀ key seqNum, (key, seqNum) ∈ σ.bulkTxWindowSeqs → HasSender σ.log key seqNum

theorem dispatched_append (log log' : List BulkObs) :
    dispatched (log ++ log') = dispatched log ++ dispatched log' := List.filterMap_append

theorem HasSender.append {log : List BulkObs} {key : FlowKey} (h : HasSender log key seqNum)
    (more : List BulkObs) : HasSender (log ++ more) key seqNum := by
  rcases h with ⟨c, packet, hc, hkey, hseq⟩ | operated
  · refine .inl ⟨c, packet, ?_, hkey, hseq⟩
    rw [dispatched_append]
    exact List.mem_append_left _ hc
  · exact .inr (List.mem_append_left _ operated)

theorem BulkEndpoint.dispatchedPacket_seq {desc : BulkTxChunk} :
    (dispatchedPacket nic desc seqNum).header.sequenceNumber = seqNum := by
  rw [dispatchedPacket]
  dsimp only [Header.setProtocolFramed]
  split <;> rfl

theorem Held.step {nic : Nic} {σ τ : BulkEndpoint γ} (h : Held σ) (one : BulkStep nic σ τ) :
    Held τ := by
  cases one with
  | world world => exact h
  | spray offset => exact h
  | rdma queue => exact h
  | number | emit | enqueue => exact fun k n member => (h k n member).append _
  | dispatch desc rest queue free =>
      intro key seqNum member
      rcases Finset.mem_insert.mp member with new | old
      · obtain ⟨rfl, rfl⟩ := Prod.mk.inj new
        refine .inl ⟨desc, BulkEndpoint.dispatchedPacket nic desc (σ.nextSeqNum desc.key), ?_, rfl,
          BulkEndpoint.dispatchedPacket_seq⟩
        show _ ∈ dispatched (_ ++ [_])
        rw [dispatched_append]
        exact List.mem_append_right _ (List.mem_singleton_self _)
      · exact (((h key seqNum old).append _).append _).append _
  | pending p free =>
      intro key seqNum member
      rcases Finset.mem_insert.mp member with new | old
      · obtain ⟨rfl, rfl⟩ := Prod.mk.inj new
        exact .inr (List.mem_append_right _ (List.mem_singleton_self _))
      · exact (((h key seqNum old).append _).append _).append _
  | release key seqNum member =>
      exact fun k n kept => (h k n (Finset.mem_of_mem_erase kept)).append _

/-! ## The packets -/

/-- A packet is a place of the log where a number is given. After this one came `post`: the packet
took a slot, and no slot was given back under its number since. -/
def HoldsSlot (key : FlowKey) (seqNum : UInt32) (post : List BulkObs) : Prop :=
  ∃ rest, post = .took key seqNum :: rest ∧ .released key seqNum ∉ rest

/-- Every entry of the window is the slot of a packet. -/
def Entered (σ : BulkEndpoint γ) : Prop :=
  ∀ key seqNum, (key, seqNum) ∈ σ.bulkTxWindowSeqs →
    ∃ pre post, σ.log = pre ++ .numbered key seqNum :: post ∧ HoldsSlot key seqNum post

/-- The number of a packet in the window was given to no other packet. -/
def Alone (σ : BulkEndpoint γ) : Prop :=
  ∀ slot ∈ σ.bulkTxWindowSeqs, σ.log.count (.numbered slot.1 slot.2) = 1

theorem Entered.append {σ τ : BulkEndpoint γ} {more : List BulkObs} {key : FlowKey} (h : Entered σ)
    (log : τ.log = σ.log ++ more) (kept : .released key seqNum ∉ more)
    (member : (key, seqNum) ∈ σ.bulkTxWindowSeqs) :
    ∃ pre post, τ.log = pre ++ .numbered key seqNum :: post ∧ HoldsSlot key seqNum post := by
  obtain ⟨pre, post, split, rest, rfl, none⟩ := h key seqNum member
  refine ⟨pre, .took key seqNum :: (rest ++ more), ?_, rest ++ more, rfl, ?_⟩
  · rw [log, split, List.append_assoc]
    rfl
  · rw [List.mem_append]
    exact not_or.mpr ⟨none, kept⟩

theorem Entered.enter {σ τ : BulkEndpoint γ} {key : FlowKey} {o : BulkObs} (h : Entered σ)
    (log : τ.log = σ.log ++ [.numbered key seqNum, .took key seqNum, o])
    (entries : τ.bulkTxWindowSeqs = insert (key, seqNum) σ.bulkTxWindowSeqs)
    (other : ∀ k n, o ≠ .released k n) : Entered τ := by
  intro k n member
  rw [entries] at member
  rcases Finset.mem_insert.mp member with new | old
  · obtain ⟨rfl, rfl⟩ := Prod.mk.inj new
    exact ⟨σ.log, _, log, [o], rfl, by simpa using (other k n).symm⟩
  · exact h.append log (by simpa using (other k n).symm) old

theorem Entered.step {nic : Nic} {σ τ : BulkEndpoint γ} (h : Entered σ) (one : BulkStep nic σ τ) :
    Entered τ := by
  cases one with
  | world world => exact h
  | spray offset => exact h
  | rdma queue => exact h
  | number | enqueue => exact fun k n member => h.append rfl (by simp) member
  | emit o emission =>
      refine fun k n member => h.append rfl ?_ member
      rw [List.mem_singleton]
      rintro rfl
      cases emission
  | dispatch desc rest queue free =>
      refine h.enter (o := .dispatched desc (BulkEndpoint.dispatchedPacket nic desc (σ.nextSeqNum desc.key)))
        ?_ rfl (by simp)
      simp [BulkEndpoint.beginDispatch, BulkEndpoint.takeSeqNum, BulkEndpoint.takeSlot]
  | pending p free =>
      refine h.enter (o := .operated p.key (σ.nextSeqNum p.key)) ?_ rfl (by simp)
      simp [BulkEndpoint.beginPending, BulkEndpoint.takeSeqNum, BulkEndpoint.takeSlot]
  | release key seqNum member =>
      -- the only entry that loses its slot is no entry any more
      intro k n kept
      refine h.append rfl ?_ (Finset.mem_of_mem_erase kept)
      simpa using Finset.ne_of_mem_erase kept

theorem mem_ledger_append {key : FlowKey} {log more : List BulkObs}
    (member : (key, seqNum) ∈ (ledger log).1) (kept : .released key seqNum ∉ more) :
    (key, seqNum) ∈ (ledger (log ++ more)).1 := by
  induction more using List.reverseRecOn with
  | nil => rwa [List.append_nil]
  | append_singleton more o ih =>
      rw [List.mem_append, List.mem_singleton, not_or] at kept
      have before := ih kept.1
      rw [← List.append_assoc, ledger_snoc]
      cases o with
      | took k n => exact Finset.mem_insert_of_mem before
      | released k n =>
          refine Finset.mem_erase.mpr ⟨?_, before⟩
          rintro heq
          obtain ⟨rfl, rfl⟩ := Prod.mk.inj heq
          exact kept.2 rfl
      | _ => exact before

theorem clashes_le_append (log more : List BulkObs) : clashes log ≤ clashes (log ++ more) := by
  induction more using List.reverseRecOn with
  | nil => rw [List.append_nil]
  | append_singleton more o ih =>
      refine Nat.le_trans ih ?_
      rw [← List.append_assoc, clashes, clashes, ledger_snoc]
      cases o with
      | took k n =>
          dsimp only [ledgerStep]
          split <;> omega
      | _ => exact Nat.le_refl _

theorem clashes_pos {key : FlowKey} {log pre mid post : List BulkObs}
    (split : log = pre ++ [.took key seqNum] ++ mid ++ [.took key seqNum] ++ post)
    (kept : .released key seqNum ∉ mid) : 0 < clashes log := by
  have first : (key, seqNum) ∈ (ledger (pre ++ [.took key seqNum])).1 := by
    rw [ledger_snoc]
    exact Finset.mem_insert_self _ _
  have second : 0 < clashes (pre ++ [.took key seqNum] ++ mid ++ [.took key seqNum]) := by
    rw [clashes, ledger_snoc]
    dsimp only [ledgerStep]
    rw [if_pos (mem_ledger_append first kept)]
    exact Nat.succ_pos _
  rw [split]
  exact Nat.lt_of_lt_of_le second (clashes_le_append _ post)

/-- With two packets of one number, of which one holds a slot, the other holds none, or there was a
clash. -/
theorem exists_stranger {key : FlowKey} {pre post : List BulkObs} (holds : HoldsSlot key seqNum post)
    (none : clashes (pre ++ .numbered key seqNum :: post) = 0)
    (again : 1 < (pre ++ .numbered key seqNum :: post).count (.numbered key seqNum)) :
    ∃ pre' post', pre ++ .numbered key seqNum :: post = pre' ++ .numbered key seqNum :: post' ∧
      ¬HoldsSlot key seqNum post' := by
  obtain ⟨rest, rfl, kept⟩ := holds
  have other : .numbered key seqNum ∈ pre ∨ .numbered key seqNum ∈ rest := by
    rw [List.count_append, List.count_cons_self, List.count_cons_of_ne (by simp)] at again
    by_contra neither
    rw [not_or, ← List.count_eq_zero, ← List.count_eq_zero] at neither
    omega
  rcases other with before | after
  · obtain ⟨a, b, rfl⟩ := List.append_of_mem before
    refine ⟨a, b ++ .numbered key seqNum :: .took key seqNum :: rest, by simp, ?_⟩
    -- were it a holder, the entry would still be there when the slot is taken again
    rintro ⟨later, split, still⟩
    cases b with
    | nil => cases split
    | cons o b =>
        obtain ⟨rfl, tail⟩ := List.cons.inj split
        rw [← tail] at still
        exact (@clashes_pos seqNum key _ (a ++ [.numbered key seqNum]) (b ++ [.numbered key seqNum]) rest
          (by simp) fun h => still (by simp_all)).ne' none
  · obtain ⟨a, b, rfl⟩ := List.append_of_mem after
    refine ⟨pre ++ .numbered key seqNum :: .took key seqNum :: a, b, by simp, ?_⟩
    rintro ⟨later, rfl, -⟩
    exact (@clashes_pos seqNum key _ (pre ++ [.numbered key seqNum]) (a ++ [.numbered key seqNum]) later
      (by simp) fun h => kept (by simp_all)).ne' none

theorem BulkStep.log {nic : Nic} {σ τ : BulkEndpoint γ} (one : BulkStep nic σ τ) : σ.log <+: τ.log := by
  cases one with
  | world | spray | rdma => exact List.prefix_refl _
  | number | emit | enqueue | release => exact List.prefix_append _ _
  | dispatch | pending =>
      exact ((List.prefix_append _ _).trans (List.prefix_append _ _)).trans (List.prefix_append _ _)

theorem BulkSteps.log {nic : Nic} {σ τ : BulkEndpoint γ} (steps : BulkSteps nic σ τ) :
    σ.log <+: τ.log := by
  induction steps with
  | refl => exact List.prefix_refl _
  | tail _ one ih => exact ih.trans one.log

theorem BulkEndpoint.retire_ne {nic : Nic} {σ : BulkEndpoint γ} (w : World γ) {key : FlowKey}
    (window : σ.soTxWindow ≠ 0) (member : (key, seqNum) ∈ σ.bulkTxWindowSeqs) :
    σ.retire nic w key seqNum ≠ σ := by
  have released : BulkSteps nic (σ.release key seqNum)
      (pumpRdmaOperationPackets nic w (pumpBulkTxWindow nic w (σ.release key seqNum))) := by
    apply pumpBulkTxWindow_steps.trans (pumpRdma_steps _)
    rw [steps_window pumpBulkTxWindow_steps]
    exact window
  intro same
  have longer := released.log.length_le
  rw [← retire_eq nic w window member, same] at longer
  simp [BulkEndpoint.release] at longer

/-! ## The window is exact -/

/-- What the window promises between two handlers. A `stranger` is a packet that holds no slot. -/
structure WindowExact (nic : Nic) (w : World γ) (σ : BulkEndpoint γ) : Prop where
  inflight : σ.bulkTxInflight.toNat = σ.bulkTxWindowSeqs.card
  bounded : σ.bulkTxInflight.toNat ≤ σ.soTxWindow.toNat
  once : ∀ key seqNum, SlotBalance σ key seqNum
  absent : ∀ key seqNum, (key, seqNum) ∉ σ.bulkTxWindowSeqs → σ.retire nic w key seqNum = σ
  stranger : ∀ pre key seqNum post, σ.log = pre ++ .numbered key seqNum :: post →
    ¬HoldsSlot key seqNum post → σ.retire nic w key seqNum = σ
  inOrder : InDispatchOrder σ
  live : σ.bulkTxQueue ≠ [] → σ.bulkTxWindowSeqs.Nonempty
  held : Held σ

section
variable {nic : Nic} {w : World γ}

theorem slots_invariant : (bulkMachine nic w).Invariant Slots := by
  apply bulk_invariant
  · intro window world _
    refine ⟨rfl, rfl, Nat.zero_le _, fun _ key seqNum => ?_⟩
    simp [SlotBalance]
  · intro σ τ _ h one
    exact h.step one

theorem inOrder_invariant : (bulkMachine nic w).Invariant InDispatchOrder :=
  bulk_invariant (fun _ _ _ => rfl) fun _ _ _ h one => h.step one

theorem held_invariant : (bulkMachine nic w).Invariant Held :=
  bulk_invariant (fun _ _ _ _ _ member => absurd member (Finset.notMem_empty _))
    fun _ _ _ h one => h.step one

theorem entered_invariant : (bulkMachine nic w).Invariant Entered :=
  bulk_invariant (fun _ _ _ _ _ member => absurd member (Finset.notMem_empty _))
    fun _ _ _ h one => h.step one

theorem window_invariant :
    (bulkMachine nic w).Invariant fun σ : BulkEndpoint γ => σ.soTxWindow ≠ 0 := by
  apply bulk_invariant
  · rintro window world some rfl
    exact absurd some (by decide)
  · intro σ τ window _ one
    rw [BulkEndpoint.step_window one]
    exact window

theorem pumped_invariant : (bulkMachine nic w).Invariant Pumped := by
  refine Machine.Invariant.strengthen (P := Pumped) window_invariant ?_ ?_
  · rintro σ ⟨window, world, -, rfl⟩
    exact .inl rfl
  · intro σ a τ window h _ hex
    exact BulkEndpoint.handle_pumped window h hex

end

/-- Between any two handlers the window is exact if and only if no slot was taken under a number
that was still in the window, and the numbers in the window were given to no other packets. -/
theorem windowExact_iff (nic : Nic) (w : World γ) {σ : BulkEndpoint γ}
    (reach : (bulkMachine nic w).Reachable σ) :
    WindowExact nic w σ ↔ clashes σ.log = 0 ∧ Alone σ := by
  have slots := slots_invariant σ reach
  have total := slots.inflight
  have entered := entered_invariant σ reach
  constructor
  · intro h
    have none : clashes σ.log = 0 := by
      have := h.inflight
      omega
    refine ⟨none, ?_⟩
    rintro ⟨key, seqNum⟩ member
    obtain ⟨pre, post, split, holds⟩ := entered key seqNum member
    have some : 0 < σ.log.count (.numbered key seqNum) := by
      rw [split]
      exact List.count_pos_iff.mpr (List.mem_append_right _ List.mem_cons_self)
    by_contra several
    -- the other packet holds no slot, and its acknowledgement gives this one back
    rw [split] at none
    have again : 1 < σ.log.count (.numbered key seqNum) :=
      Nat.lt_of_le_of_ne some fun one => several one.symm
    obtain ⟨pre', post', split', stranger⟩ := exists_stranger holds none (split ▸ again)
    exact BulkEndpoint.retire_ne w (window_invariant σ reach) member
      (h.stranger pre' key seqNum post' (split.trans split') stranger)
  · rintro ⟨none, alone⟩
    refine ⟨by omega, slots.le, slots.balance none, ?_, ?_, inOrder_invariant σ reach, ?_,
      held_invariant σ reach⟩
    · intro key seqNum absent
      exact BulkEndpoint.retire_idle nic w absent
    · intro pre key seqNum post split stranger
      apply BulkEndpoint.retire_idle nic w
      intro member
      -- the packet of the entry is the only one of its number
      obtain ⟨pre', post', split', holds⟩ := entered key seqNum member
      have one : σ.log.count (.numbered key seqNum) = 1 := alone _ member
      rw [split', List.count_append, List.count_cons_self] at one
      have before : .numbered key seqNum ∉ pre' := List.count_eq_zero.mp (by omega)
      have after : .numbered key seqNum ∉ post' := List.count_eq_zero.mp (by omega)
      obtain ⟨-, -, rfl⟩ := (List.append_cons_inj_of_notMem before after).mp (split'.symm.trans split)
      exact stranger holds
    · intro waiting
      rcases pumped_invariant σ reach with empty | busy
      · exact absurd empty waiting
      · rw [← Finset.card_pos]
        omega

/-! ## A number that comes round again -/

/-- Three bytes in three fragments. -/
def threeBytes : BulkTransfer :=
  { destRank := 1
    flowId := 5
    vcId := 2
    protocolId := 1
    dataSize := 3
    wireSize := 3
    chunkLimit := ⟨1, by decide, by decide⟩
    stampSoHeader := false }

instance (σ : BulkEndpoint Unit) (a : BulkAct Unit) :
    Decidable ((bulkMachine loneNic openWorld).enabled σ a) := .isTrue trivial

instance (σ : BulkEndpoint Unit) : Decidable (Alone σ) :=
  inferInstanceAs (Decidable (∀ slot ∈ σ.bulkTxWindowSeqs, _ = 1))

theorem windowExact_threeBytes :
    ∃ σ, (bulkMachine loneNic openWorld).Reachable σ ∧ σ.bulkTxQueue ≠ [] ∧
      WindowExact loneNic openWorld σ := by
  have run : ((bulkMachine loneNic openWorld).runs { soTxWindow := 1, world := () }
      [.sendBulk threeBytes, .settle threeBytes.key 0]).map
        (fun σ => (σ.bulkTxQueue.length, clashes σ.log, decide (Alone σ))) = some (1, 0, true) := by
    decide +kernel
  have start : (bulkMachine loneNic openWorld).init { soTxWindow := 1, world := () } :=
    ⟨1, (), by decide, rfl⟩
  obtain ⟨σ, reach, same⟩ := Machine.Reachable.exists_of_runs start run
  obtain ⟨length, same⟩ := Prod.mk.inj same
  obtain ⟨none, alone⟩ := Prod.mk.inj same
  refine ⟨σ, reach, ?_, (windowExact_iff loneNic openWorld reach).mpr ⟨none, of_decide_eq_true alone⟩⟩
  rintro empty
  rw [empty] at length
  cases length

theorem exists_sends {w : World γ} {σ : BulkEndpoint γ} (key : FlowKey)
    (reach : (bulkMachine nic w).Reachable σ) (n : Nat) :
    ∃ log, (bulkMachine nic w).Reachable
      { σ with
        nextSeqNum := Function.update σ.nextSeqNum key (σ.nextSeqNum key + UInt32.ofNat n)
        log } := by
  induction n with
  | zero =>
      refine ⟨σ.log, ?_⟩
      have same : σ.nextSeqNum key + UInt32.ofNat 0 = σ.nextSeqNum key := UInt32.add_zero _
      rw [same, Function.update_eq_self]
      exact reach
  | succ n ih =>
      obtain ⟨log, before⟩ := ih
      refine ⟨log ++ [.numbered key (σ.nextSeqNum key + UInt32.ofNat n)], ?_⟩
      have after := before.step (a := .send key) trivial rfl
      have next : σ.nextSeqNum key + UInt32.ofNat n + 1 = σ.nextSeqNum key + UInt32.ofNat (n + 1) := by
        rw [UInt32.ofNat_add, UInt32.add_assoc]
        rfl
      simpa [BulkEndpoint.takeSeqNum, next] using after

/-- The flow of the only chunk that waits is at a number that is still in the window. An
acknowledgement of another packet lets the chunk take that number again. -/
theorem retire_clash {σ : BulkEndpoint Unit} {c : BulkTxChunk} (queue : σ.bulkTxQueue = [c])
    (rdma : σ.rdmaTxQueue = []) (window : σ.soTxWindow = 2) (inflight : σ.bulkTxInflight = 2)
    (entries : σ.bulkTxWindowSeqs = {(c.key, 0), (c.key, 1)}) (next : σ.nextSeqNum c.key = 0) :
    ¬WindowExact loneNic openWorld (σ.retire loneNic openWorld c.key 1) := by
  have member : (c.key, (1 : UInt32)) ∈ σ.bulkTxWindowSeqs := by simp [entries]
  have some : σ.soTxWindow ≠ 0 := by
    rw [window]
    decide
  have left : σ.bulkTxWindowSeqs.erase (c.key, 1) = {(c.key, 0)} := by
    rw [entries]
    ext ⟨key, n⟩
    simp only [Finset.mem_erase, Finset.mem_insert, Finset.mem_singleton]
    grind
  intro exact
  have count := exact.inflight
  rw [BulkEndpoint.retire_eq loneNic openWorld some member] at count
  simp [BulkEndpoint.pumpRdmaOperationPackets, BulkEndpoint.pumpBulkTxWindow, BulkEndpoint.release,
    BulkEndpoint.pumpLoop, BulkEndpoint.dispatch, BulkEndpoint.takeSeqNum, BulkEndpoint.takeSlot,
    BulkEndpoint.pumpRdmaLoop, openWorld, queue, rdma, window, inflight, next, left] at count

/-- The first two of three fragments are in the window. -/
def firstTwo : BulkEndpoint Unit :=
  BulkEndpoint.sendChecked loneNic openWorld threeBytes { soTxWindow := 2, world := () }

/-- Then 2^32 - 2 other packets of the flow go out. The second fragment is acknowledged, and the third
takes the number of the first again. -/
theorem not_windowExact :
    ∃ σ, (bulkMachine loneNic openWorld).Reachable σ ∧ ¬WindowExact loneNic openWorld σ := by
  have first : (bulkMachine loneNic openWorld).Reachable firstTwo :=
    .step (.init ⟨2, (), by decide, rfl⟩) (a := .sendBulk threeBytes) trivial rfl
  obtain ⟨log, round⟩ := exists_sends threeBytes.key first (2 ^ 32 - 2)
  refine ⟨_, round.step (a := .settle threeBytes.key 1) trivial rfl, ?_⟩
  refine retire_clash (c := threeBytes.turnChunk [Nic.anyDevice] 0 2) ?_ rfl rfl ?_ ?_ ?_
  · show firstTwo.bulkTxQueue = _
    decide +kernel
  · show firstTwo.bulkTxInflight = _
    decide +kernel
  · show firstTwo.bulkTxWindowSeqs = _
    decide +kernel
  · show Function.update firstTwo.nextSeqNum threeBytes.key
      (firstTwo.nextSeqNum threeBytes.key + UInt32.ofNat (2 ^ 32 - 2)) threeBytes.key = 0
    rw [Function.update_self]
    decide +kernel

end ProtoBridge.Endpoint
