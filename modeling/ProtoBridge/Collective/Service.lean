import ProtoBridge.Fabric.Types
import ProtoBridge.Lib.History
import ProtoBridge.Lib.Machine
import ProtoBridge.Lib.Word

/-!
# In-network collectives

The switch computes the result and sends it to every GPU. Such a collective is over
when each GPU has all bytes of the result. `Books` is what a collective has to keep
about the packets that have arrived so that it completes exactly then.
-/

namespace ProtoBridge.Collective

open Lib Fabric

/-- What `OnPacketReceived` reads of a `FabricHeader`. -/
structure Header where
  packetType : PacketType
  sourceRank : UInt16 := 65535
  destRank : UInt16
  flowId : UInt16 := 0
  effectiveDataSize : UInt32
  deriving DecidableEq

/-- What happened: a GPU sent bytes to the switch, a packet with bytes of the result arrived at
the endpoint of a GPU, the completion callback was called. -/
inductive Obs
  | uploaded (gpu bytes : Nat)
  | arrived (gpu bytes : Nat)
  | completed
  deriving DecidableEq

/-- The bytes an event brings a GPU. -/
def Obs.bytesAt (gpu : Nat) : Obs → Nat
  | .arrived g bytes => if g = gpu then bytes else 0
  | _ => 0

/-- The bytes of the result that have arrived at a GPU. -/
def received (log : List Obs) (gpu : Nat) : Nat := (log.map (Obs.bytesAt gpu)).sum

variable {n d : Nat} {log : List Obs} {gpu bytes : Nat}

@[simp] theorem received_nil : received [] gpu = 0 := rfl

theorem received_append (log log' : List Obs) (gpu : Nat) :
    received (log ++ log') gpu = received log gpu + received log' gpu := by
  rw [received, List.map_append, List.sum_append]
  rfl

@[simp] theorem received_arrived (g bytes gpu : Nat) :
    received [.arrived g bytes] gpu = if g = gpu then bytes else 0 := by
  simp [received, Obs.bytesAt]

@[simp] theorem received_completed : received [.completed] gpu = 0 := rfl

@[simp] theorem received_uploaded (g bytes gpu : Nat) : received [.uploaded g bytes] gpu = 0 := rfl

theorem received_snoc (log : List Obs) (gpu bytes g : Nat) :
    received (log ++ [.arrived gpu bytes]) g = received log g + if gpu = g then bytes else 0 := by
  rw [received_append, received_arrived]

/-- All GPUs have the result. -/
def Served (n d : Nat) (log : List Obs) : Prop := ∀ gpu < n, d ≤ received log gpu

theorem Served.append (h : Served n d log) (log' : List Obs) : Served n d (log ++ log') := by
  intro gpu hgpu
  have := h gpu hgpu
  rw [received_append]
  omega

/-- The callback is called once at most, not before every GPU has the result, and no later. -/
structure CompletesWhenServed (n d : Nat) (log : List Obs) : Prop where
  once : log.count .completed ≤ 1
  served : Justified (fun pre e => e = .completed → Served n d pre) log
  prompt : Served n d log → .completed ∈ log

/-! ## Books -/

/-- The GPUs that have the result. -/
def doneGpus (n d : Nat) (log : List Obs) : Finset Nat :=
  (Finset.range n).filter fun gpu => d ≤ received log gpu

theorem mem_doneGpus : gpu ∈ doneGpus n d log ↔ gpu < n ∧ d ≤ received log gpu := by
  rw [doneGpus, Finset.mem_filter, Finset.mem_range]

theorem served_of_card (h : n ≤ (doneGpus n d log).card) : Served n d log := by
  have hall : doneGpus n d log = Finset.range n :=
    Finset.eq_of_subset_of_card_le (Finset.filter_subset _ _) ((Finset.card_range n).le.trans h)
  intro gpu hgpu
  have hmem := Finset.mem_range.mpr hgpu
  rw [← hall, mem_doneGpus] at hmem
  exact hmem.2

theorem card_of_served (h : Served n d log) : (doneGpus n d log).card = n := by
  have hall : doneGpus n d log = Finset.range n :=
    Finset.filter_true_of_mem fun gpu hgpu => h gpu (Finset.mem_range.mp hgpu)
  rw [hall, Finset.card_range]

theorem doneGpus_arrived (hgpu : gpu < n) :
    doneGpus n d (log ++ [.arrived gpu bytes]) =
      if d ≤ received log gpu + bytes then insert gpu (doneGpus n d log) else doneGpus n d log := by
  ext g
  rw [mem_doneGpus, received_append, received_arrived]
  by_cases hg : gpu = g
  · subst hg
    rw [if_pos rfl]
    split
    · rename_i hfull
      simp [hgpu, hfull]
    · rename_i hfull
      rw [mem_doneGpus]
      refine and_congr_right fun _ => iff_of_false hfull ?_
      omega
  · rw [if_neg hg, add_zero]
    split
    · rw [Finset.mem_insert, mem_doneGpus]
      simp [Ne.symm hg]
    · rw [mem_doneGpus]

theorem doneGpus_card_arrived (hgpu : gpu < n) (hnew : gpu ∉ doneGpus n d log)
    (hfull : d ≤ received log gpu + bytes) :
    (doneGpus n d (log ++ [.arrived gpu bytes])).card = (doneGpus n d log).card + 1 := by
  rw [doneGpus_arrived hgpu, if_pos hfull, Finset.card_insert_of_notMem hnew]

theorem doneGpus_card_same (hgpu : gpu < n)
    (hsame : gpu ∈ doneGpus n d log ∨ ¬ d ≤ received log gpu + bytes) :
    (doneGpus n d (log ++ [.arrived gpu bytes])).card = (doneGpus n d log).card := by
  rw [doneGpus_arrived hgpu]
  split
  · rename_i hfull
    rw [Finset.insert_eq_of_mem (hsame.resolve_right fun hno => hno hfull)]
  · rfl

/-- While a collective is open it knows the bytes of each GPU and the number of GPUs that have
the result; when it is closed all have it. -/
structure Books (n d : Nat) (sent closed : Bool) (tally : Nat → Nat) (done : Nat)
    (log : List Obs) : Prop where
  unsent : sent = false → ∀ gpu < n, received log gpu = 0
  bound : ∀ gpu < n, received log gpu ≤ d
  counted : closed = false → ∀ gpu < n, tally gpu = received log gpu
  count : closed = false → done = (doneGpus n d log).card
  opened : closed = false → done < n ∧ .completed ∉ log
  finished : closed = true → log.count .completed = 1 ∧ Served n d log
  justified : Justified (fun pre e => e = .completed → Served n d pre) log

variable {sent closed : Bool} {tally tally' : Nat → Nat} {done : Nat}

theorem Books.initial (hn : 0 < n) (hd : 0 < d) : Books n d false false (fun _ => 0) 0 [] := by
  refine ⟨fun _ _ _ => rfl, fun _ _ => Nat.zero_le d, fun _ _ _ => rfl, ?_, ?_, ?_, .nil⟩
  · intro _
    symm
    rw [Finset.card_eq_zero, doneGpus]
    exact Finset.filter_false_of_mem fun _ _ => not_le.mpr hd
  · exact fun _ => ⟨hn, List.not_mem_nil⟩
  · intro hclosed
    cases hclosed

theorem Books.completes (h : Books n d sent closed tally done log) :
    CompletesWhenServed n d log := by
  cases closed with
  | true =>
      have hfinished := h.finished rfl
      refine ⟨hfinished.1.le, h.justified, fun _ => ?_⟩
      exact List.count_pos_iff.mp (by omega)
  | false =>
      obtain ⟨hcount, hno⟩ := h.opened rfl
      refine ⟨?_, h.justified, fun hserved => ?_⟩
      · rw [List.count_eq_zero.mpr hno]
        exact Nat.zero_le 1
      · -- the last GPU would have closed the books
        have := h.count rfl
        have := card_of_served hserved
        omega

theorem Books.note (h : Books n d sent closed tally done log) {e : Obs} {sent' : Bool}
    (he : e ≠ .completed) (hzero : ∀ gpu, received [e] gpu = 0)
    (hsent : sent' = false → sent = false) :
    Books n d sent' closed tally done (log ++ [e]) := by
  have hreceived : ∀ gpu, received (log ++ [e]) gpu = received log gpu := by
    intro gpu
    rw [received_append, hzero, add_zero]
  have hdone : doneGpus n d (log ++ [e]) = doneGpus n d log := by
    simp only [doneGpus, hreceived]
  refine ⟨?_, ?_, ?_, ?_, ?_, ?_, h.justified.snoc fun hc => absurd hc he⟩
  · simpa only [hreceived] using fun hs => h.unsent (hsent hs)
  · simpa only [hreceived] using h.bound
  · simpa only [hreceived] using h.counted
  · simpa only [hdone] using h.count
  · intro hopen
    obtain ⟨hlt, hno⟩ := h.opened hopen
    exact ⟨hlt, by simpa [hno] using he.symm⟩
  · intro hclosed
    obtain ⟨hone, hserved⟩ := h.finished hclosed
    refine ⟨?_, hserved.append _⟩
    rw [List.count_append, hone, List.count_singleton, if_neg (by simpa using he)]

theorem Books.within (h : Books n d sent closed tally done log) (hgpu : gpu < n)
    (hlimit : 0 < bytes → sent = true ∧ received log gpu + bytes ≤ d) :
    (sent = false → bytes = 0) ∧ received log gpu + bytes ≤ d := by
  rcases Nat.eq_zero_or_pos bytes with hzero | hpos
  · exact ⟨fun _ => hzero, hzero ▸ h.bound gpu hgpu⟩
  · obtain ⟨hsent, hbound⟩ := hlimit hpos
    refine ⟨fun hs => ?_, hbound⟩
    rw [hsent] at hs
    cases hs

theorem Books.still (h : Books n d sent closed tally done log) (hunsent : sent = false → bytes = 0)
    (hbound : received log gpu + bytes ≤ d) :
    (sent = false → ∀ g < n, received (log ++ [.arrived gpu bytes]) g = 0) ∧
      ∀ g < n, received (log ++ [.arrived gpu bytes]) g ≤ d := by
  constructor
  · intro hs g hg
    rw [received_snoc, h.unsent hs g hg, hunsent hs, ite_self]
  · intro g hg
    rw [received_snoc]
    split
    · rename_i heq
      exact heq ▸ hbound
    · exact h.bound g hg

theorem Books.tally_add (h : Books n d sent false tally done log) (hgpu : gpu < n) (hd : d < 2 ^ 64)
    (hbound : received log gpu + bytes ≤ d) :
    wadd 64 (tally gpu) bytes = received log gpu + bytes ∧
      ∀ g < n, Function.update tally gpu (received log gpu + bytes) g =
        if gpu = g then tally g + bytes else tally g := by
  have htally := h.counted rfl gpu hgpu
  refine ⟨by rw [wadd_eq (by omega), htally], fun g _ => ?_⟩
  rw [Function.update_apply]
  by_cases hg : g = gpu
  · rw [if_pos hg, if_pos hg.symm, hg, htally]
  · rw [if_neg hg, if_neg (Ne.symm hg)]

/-- A packet that brings nothing to the count: its GPU is done already, or it is not done yet, or
the books are closed. -/
theorem Books.arrive (h : Books n d sent closed tally done log) (bytes : Nat) (hgpu : gpu < n)
    (hunsent : sent = false → bytes = 0) (hbound : received log gpu + bytes ≤ d)
    (hsame : closed = false →
      (gpu ∈ doneGpus n d log ∨ ¬ d ≤ received log gpu + bytes) ∧
        ∀ g < n, tally' g = if gpu = g then tally g + bytes else tally g) :
    Books n d sent closed tally' done (log ++ [.arrived gpu bytes]) := by
  obtain ⟨hsilent, hwithin⟩ := h.still hunsent hbound
  refine ⟨hsilent, hwithin, ?_, ?_, ?_, ?_, h.justified.snoc fun hc => by cases hc⟩
  · intro hopen g hg
    rw [(hsame hopen).2 g hg, received_snoc, h.counted hopen g hg]
    split <;> rfl
  · intro hopen
    rw [h.count hopen, doneGpus_card_same hgpu (hsame hopen).1]
  · intro hopen
    obtain ⟨hlt, hno⟩ := h.opened hopen
    exact ⟨hlt, by simp [hno]⟩
  · intro hclosed
    obtain ⟨hone, hserved⟩ := h.finished hclosed
    refine ⟨?_, hserved.append _⟩
    rw [List.count_append, hone]
    rfl

/-- A packet that gives its GPU the last byte: the GPU is counted, and the books are closed with
the last GPU. -/
theorem Books.finish (h : Books n d sent false tally done log) (hgpu : gpu < n)
    (hunsent : sent = false → bytes = 0) (hbound : received log gpu + bytes ≤ d)
    (hnew : gpu ∉ doneGpus n d log) (hfull : d ≤ received log gpu + bytes)
    (hcounted : ∀ g < n, tally' g = if gpu = g then tally g + bytes else tally g) :
    if done + 1 ≥ n then
      Books n d sent true tally' (done + 1) (log ++ [.arrived gpu bytes] ++ [.completed])
    else Books n d sent false tally' (done + 1) (log ++ [.arrived gpu bytes]) := by
  have hcard := doneGpus_card_arrived hgpu hnew hfull
  obtain ⟨hsilent, hwithin⟩ := h.still hunsent hbound
  have hjustified := h.justified.snoc (e := .arrived gpu bytes) fun hc => by cases hc
  have hno := (h.opened rfl).2
  have hcount := h.count rfl
  split
  · rename_i hlast
    have hserved : Served n d (log ++ [.arrived gpu bytes]) := served_of_card (by omega)
    refine ⟨?_, ?_, ?_, ?_, ?_, ?_, hjustified.snoc fun _ => hserved⟩
    · intro hs g hg
      rw [received_append, hsilent hs g hg]
      rfl
    · intro g hg
      rw [received_append, received_completed]
      exact hwithin g hg
    · intro hopen
      cases hopen
    · intro hopen
      cases hopen
    · intro hopen
      cases hopen
    · intro _
      refine ⟨?_, hserved.append _⟩
      rw [List.count_append, List.count_append, List.count_eq_zero.mpr hno]
      rfl
  · rename_i hmore
    refine ⟨hsilent, hwithin, ?_, ?_, ?_, ?_, hjustified⟩
    · intro _ g hg
      rw [hcounted g hg, received_snoc, h.counted rfl g hg]
      split <;> rfl
    · intro _
      rw [hcount, hcard]
    · intro _
      exact ⟨by omega, by simp [hno]⟩
    · intro hclosed
      cases hclosed

end ProtoBridge.Collective
