import Mathlib.Data.List.GetD
import ProtoBridge.Rdma.LocalMemory

/-!
# The sparse memory is a dense one

A byte that is not in the map is zero, a write clears its range before it puts in what is not zero, and ends of
ranges in a region do not wrap. So the map holds what an array of all bytes would hold after the same writes.
-/

namespace ProtoBridge.Rdma

open Lib

/-- The byte at an address. -/
def byteOf (memory : SortedMap Nat UInt8) (x : Nat) : UInt8 := (memory.find? x).getD 0

namespace Dense

variable {bytes : Nat → UInt8} {address size : Nat} {data : List UInt8}

theorem ofLog_append (log tail : List MemoryObs) :
    ofLog (log ++ tail) = tail.foldl (fun bytes e => match e with
      | .wrote address data => write bytes address.toNat data
      | _ => bytes) (ofLog log) :=
  List.foldl_append

theorem ofLog_wrote (log : List MemoryObs) (address : UInt64) (data : List UInt8) :
    ofLog (log ++ [.wrote address data]) = write (ofLog log) address.toNat data :=
  ofLog_append log _

theorem length_read : (read bytes address size).length = size := by
  rw [read, List.length_map, List.length_range]

theorem getD_read {i : Nat} (hi : i < size) : (read bytes address size).getD i 0 = bytes (address + i) := by
  unfold read
  rw [List.getD_eq_getElem?_getD, List.getElem?_map, List.getElem?_range hi]
  rfl

theorem eq_read {l : List UInt8} (hlen : l.length = size) (h : ∀ i < size, l.getD i 0 = bytes (address + i)) :
    l = read bytes address size := by
  refine List.ext_getElem (hlen.trans length_read.symm) fun i hi hi' => ?_
  have hsize : i < size := hlen ▸ hi
  rw [List.getElem_eq_getD 0, List.getElem_eq_getD 0, h i hsize, getD_read hsize]

theorem read_eq_replicate (h : ∀ i < size, bytes (address + i) = 0) :
    read bytes address size = List.replicate size 0 := by
  refine List.eq_replicate_iff.mpr ⟨length_read, ?_⟩
  intro b hb
  obtain ⟨i, hi, rfl⟩ := List.mem_map.mp hb
  exact h i (List.mem_range.mp hi)

end Dense

/-! ## The map -/

variable {memory : SortedMap Nat UInt8} {σ σ' : LocalMemory} {address target : UInt64} {bytes : UInt32}

namespace LocalMemory

theorem found_spec (memory : SortedMap Nat UInt8) (a n : Nat) (e : Nat × UInt8) :
    e ∈ (memory.entries.drop (memory.lowerBound a)).takeWhile (fun entry => entry.1 - a < n) ↔
      e ∈ memory.entries ∧ a ≤ e.1 ∧ e.1 - a < n := by
  have hsorted : ((memory.entries.drop (memory.lowerBound a)).map Prod.fst).Pairwise (· < ·) :=
    memory.sorted.sublist ((List.drop_sublist _ _).map Prod.fst)
  rcases Nat.eq_zero_or_pos n with rfl | hn
  · have hnone : ∀ l : List (Nat × UInt8), l.takeWhile (fun entry => decide (entry.1 - a < 0)) = [] := by
      intro l
      cases l with
      | nil => rfl
      | cons x rest => exact List.takeWhile_cons_of_neg (by simp)
    rw [hnone]
    simp
  · have hsame : (fun entry : Nat × UInt8 => decide (entry.1 - a < n)) =
        fun entry => decide (entry.1 < a + n) := by
      funext entry
      exact decide_eq_decide.mpr (by omega)
    rw [hsame, SortedMap.takeWhile_lt hsorted, List.mem_filter, SortedMap.drop_lowerBound, List.mem_filter]
    simp only [decide_eq_true_eq]
    rw [and_assoc]
    refine and_congr_right fun _ => ?_
    omega

theorem length_foldl_set (l : List (Nat × UInt8)) (a : Nat) (result : List UInt8) :
    (l.foldl (fun result entry => result.set (entry.1 - a) entry.2) result).length = result.length := by
  induction l generalizing result with
  | nil => rfl
  | cons e rest ih => rw [List.foldl_cons, ih, List.length_set]

theorem getD_foldl_set {l : List (Nat × UInt8)} (hsorted : (l.map Prod.fst).Pairwise (· < ·)) {a n : Nat}
    (hin : ∀ e ∈ l, a ≤ e.1 ∧ e.1 - a < n) {result : List UInt8} (hlen : result.length = n) {i : Nat} (hi : i < n) :
    (l.foldl (fun result entry => result.set (entry.1 - a) entry.2) result).getD i 0 =
      (l.lookup (a + i)).getD (result.getD i 0) := by
  induction l generalizing result with
  | nil => rfl
  | cons e rest ih =>
      obtain ⟨head, tail⟩ := List.pairwise_cons.mp hsorted
      obtain ⟨hle, hlt⟩ := hin e List.mem_cons_self
      rw [List.foldl_cons, ih tail (fun e' he' => hin e' (List.mem_cons_of_mem _ he'))
        (by rw [List.length_set, hlen])]
      obtain ⟨key, byte⟩ := e
      dsimp only at hle hlt
      by_cases hkey : a + i = key
      · have hnone : rest.lookup (a + i) = none := by
          rw [List.lookup_eq_none_iff]
          intro e' he'
          have habove := head e'.1 (List.mem_map_of_mem he')
          dsimp only at habove
          exact bne_iff_ne.mpr (by omega)
        have hindex : key - a = i := by omega
        rw [hnone, hkey, List.lookup_cons_self, Option.getD_none, Option.getD_some]
        dsimp only
        rw [hindex, List.getD_eq_getElem?_getD, List.getElem?_set_self (by rw [hlen]; exact hi)]
        rfl
      · have hother : key - a ≠ i := by omega
        rw [List.lookup_cons, beq_false_of_ne hkey]
        dsimp only
        rw [List.getD_eq_getElem?_getD (l := result.set _ _), List.getElem?_set_ne hother,
          ← List.getD_eq_getElem?_getD]

theorem readMemory_eq (h : σ.inAnyRegion address bytes.toUInt64 = true) :
    σ.readMemory address bytes = .ok (Dense.read (byteOf σ.memory) address.toNat bytes.toNat) := by
  unfold readMemory
  rw [if_pos h]
  dsimp only
  set found := (σ.memory.entries.drop (σ.memory.lowerBound address.toNat)).takeWhile
    fun entry => entry.1 - address.toNat < bytes.toNat with hfound
  have hsorted : (found.map Prod.fst).Pairwise (· < ·) :=
    σ.memory.sorted.sublist (((List.takeWhile_sublist _).trans (List.drop_sublist _ _)).map Prod.fst)
  have hmem : ∀ e, e ∈ found ↔ e ∈ σ.memory.entries ∧ address.toNat ≤ e.1 ∧ e.1 - address.toNat < bytes.toNat :=
    found_spec σ.memory address.toNat bytes.toNat
  refine congrArg Except.ok (Dense.eq_read ?_ fun i hi => ?_)
  · rw [length_foldl_set, List.length_replicate]
  · rw [getD_foldl_set hsorted (fun e he => ((hmem e).mp he).2) List.length_replicate hi, List.getD_replicate _ hi]
    have hlookup : found.lookup (address.toNat + i) = σ.memory.find? (address.toNat + i) := by
      apply Option.ext
      intro b
      show (⟨found, hsorted⟩ : SortedMap Nat UInt8).find? _ = some b ↔ _
      rw [SortedMap.find?_eq_some, SortedMap.find?_eq_some, hmem]
      refine ⟨fun h => h.1, fun h => ⟨h, ?_⟩⟩
      dsimp only
      omega
    rw [hlookup]
    rfl

theorem readWord_eq (haligned : address % 8 = 0) (h : σ.inAnyRegion address 8 = true) :
    σ.readWord address = .ok (Dense.word (byteOf σ.memory) address.toNat) := by
  unfold readWord
  rw [if_neg (not_not.mpr haligned), readMemory_eq h]
  refine congrArg Except.ok (joinWord_congr fun i hi => ?_)
  exact Dense.getD_read hi

theorem eraseKeys_spec (memory : SortedMap Nat UInt8) (h : address ≤ target) :
    ∃ cleared, eraseKeys memory address target = .ok cleared ∧
      (∀ x, cleared.find? x = if address.toNat ≤ x ∧ x < target.toNat then none else memory.find? x) ∧
      ∀ e ∈ cleared.entries, e ∈ memory.entries := by
  have hle := memory.lowerBound_mono (UInt64.le_iff_toNat_le.mp h)
  refine ⟨memory.eraseRange _ _ hle, ?_, SortedMap.find?_eraseRange hle, ?_⟩
  · unfold eraseKeys
    rw [dif_pos hle]
  · exact fun e he => ((SortedMap.mem_eraseRange hle).mp he).1

variable {data : List UInt8} {size : UInt64} {act : MemoryAct}

theorem find?_writeBytes (hfit : address.toNat + data.length < 2 ^ 64) (x : Nat) :
    (writeBytes memory address data).find? x =
      if address.toNat ≤ x ∧ x < address.toNat + data.length ∧ data.getD (x - address.toNat) 0 ≠ 0 then
        some (data.getD (x - address.toNat) 0)
      else memory.find? x := by
  have hloop : ∀ n ≤ data.length, ((List.range n).foldl (fun memory i =>
      let byte := data.getD i 0
      if byte ≠ 0 then memory.set (address + UInt64.ofNat i).toNat byte else memory) memory).find? x =
      if address.toNat ≤ x ∧ x < address.toNat + n ∧ data.getD (x - address.toNat) 0 ≠ 0 then
        some (data.getD (x - address.toNat) 0)
      else memory.find? x := by
    intro n
    induction n with
    | zero =>
        intro _
        rw [if_neg (by omega)]
        rfl
    | succ n ih =>
        intro hn
        have hkey : (address + UInt64.ofNat n).toNat = address.toNat + n := by
          rw [UInt64.toNat_add, UInt64.toNat_ofNat']
          omega
        rw [List.range_succ, List.foldl_append, List.foldl_cons, List.foldl_nil]
        dsimp only
        by_cases hx : x = address.toNat + n
        · have hindex : x - address.toNat = n := by omega
          rw [hindex] at ih ⊢
          by_cases hbyte : data.getD n 0 ≠ 0
          · rw [if_pos hbyte, SortedMap.find?_set, if_pos (hx.trans hkey.symm), if_pos ⟨by omega, by omega, hbyte⟩]
          · rw [if_neg hbyte, ih (by omega), if_neg fun h => hbyte h.2.2, if_neg fun h => hbyte h.2.2]
        · have hsame : (address.toNat ≤ x ∧ x < address.toNat + n ∧ data.getD (x - address.toNat) 0 ≠ 0) =
              (address.toNat ≤ x ∧ x < address.toNat + (n + 1) ∧ data.getD (x - address.toNat) 0 ≠ 0) := by
            refine propext (and_congr_right fun _ => and_congr_left fun _ => ?_)
            omega
          split
          · rw [SortedMap.find?_set, if_neg (by rw [hkey]; exact hx), ih (by omega),
              if_congr (iff_of_eq hsame) rfl rfl]
          · rw [ih (by omega), if_congr (iff_of_eq hsame) rfl rfl]
  exact hloop data.length le_rfl

theorem writeBytes_nonzero (hmemory : ∀ e ∈ memory.entries, e.2 ≠ 0) (address : UInt64) (data : List UInt8) :
    ∀ e ∈ (writeBytes memory address data).entries, e.2 ≠ 0 := by
  unfold writeBytes
  induction data.length with
  | zero => exact hmemory
  | succ n ih =>
      rw [List.range_succ, List.foldl_append, List.foldl_cons, List.foldl_nil]
      dsimp only
      split
      · rename_i hbyte
        intro e he
        rcases (SortedMap.mem_put (SortedMap.sorted _)).mp he with rfl | ⟨-, hold⟩
        · exact hbyte
        · exact ih e hold
      · exact ih

/-! ## Waits -/

/-- The value a wait would see now. -/
def wordOf (σ : LocalMemory) (w : SignalWait) : UInt64 := Dense.word (byteOf σ.memory) w.address.toNat

/-- The state after `CheckWaits`. -/
def checked (σ : LocalMemory) : LocalMemory :=
  let ready := (σ.waits.filter fun w => w.test (σ.wordOf w)).map fun w => (w, σ.wordOf w)
  { σ with
    waits := σ.waits.filter fun w => !w.test (σ.wordOf w)
    events := σ.events ++
      if σ.signalPoll < horizon - σ.now then ready.map fun p => ⟨σ.now + σ.signalPoll, p.1, p.2⟩ else []
    log := σ.log ++ ready.map fun p => .ready σ.now p.1 p.2 }

/-- Every wait can be read. -/
def Readable (σ : LocalMemory) : Prop :=
  ∀ w ∈ σ.waits, w.address % 8 = 0 ∧ σ.inAnyRegion w.address 8 = true

theorem splitWaits_eq {ws : List SignalWait}
    (h : ∀ w ∈ ws, w.address % 8 = 0 ∧ σ.inAnyRegion w.address 8 = true) :
    σ.splitWaits ws = .ok ((ws.filter fun w => w.test (σ.wordOf w)).map (fun w => (w, σ.wordOf w)),
      ws.filter fun w => !w.test (σ.wordOf w)) := by
  induction ws with
  | nil => rfl
  | cons w rest ih =>
      obtain ⟨haligned, hregion⟩ := h w List.mem_cons_self
      unfold splitWaits
      rw [readWord_eq haligned hregion, ih fun w hw => h w (List.mem_cons_of_mem _ hw)]
      show (if w.test (σ.wordOf w) = true then _ else _) = _
      rw [List.filter_cons, List.filter_cons]
      cases htest : w.test (σ.wordOf w) with
      | true => rfl
      | false => rfl

theorem foldl_schedule (ready : List (SignalWait × UInt64)) (σ : LocalMemory) :
    ready.foldl (fun σ p => σ.schedule p.1 p.2) σ =
      { σ with
        events := σ.events ++
          if σ.signalPoll < horizon - σ.now then ready.map fun p => ⟨σ.now + σ.signalPoll, p.1, p.2⟩ else []
        log := σ.log ++ ready.map fun p => .ready σ.now p.1 p.2 } := by
  induction ready generalizing σ with
  | nil =>
      rw [List.foldl_nil, List.map_nil, List.map_nil, ite_self, List.append_nil, List.append_nil]
  | cons p rest ih =>
      rw [List.foldl_cons, ih]
      unfold schedule record
      dsimp only
      by_cases hfits : σ.signalPoll < horizon - σ.now
      · simp only [if_pos hfits, List.map_cons, List.append_assoc, List.singleton_append]
      · simp only [if_neg hfits, List.map_cons, List.append_assoc, List.singleton_append]

theorem checkWaits_eq (h : σ.Readable) : σ.checkWaits = .ok σ.checked := by
  unfold checkWaits
  rw [splitWaits_eq h]
  exact congrArg Except.ok (foldl_schedule _ _)

/-! ## Steps -/

/-- What every run keeps. -/
structure Kept (σ : LocalMemory) : Prop where
  bytes : byteOf σ.memory = Dense.ofLog σ.log
  nonzero : ∀ e ∈ σ.memory.entries, e.2 ≠ 0
  regions : ∀ e ∈ σ.regions, e.2.base.toNat + e.2.bytes.toNat < 2 ^ 64
  readable : σ.Readable

theorem Kept.fits (h : σ.Kept) (hin : σ.inAnyRegion address size = true) :
    address.toNat + size.toNat < 2 ^ 64 := by
  obtain ⟨⟨key, region⟩, -, hregion⟩ := List.any_eq_true.mp hin
  unfold inRegion at hregion
  dsimp only at hregion
  split at hregion
  · cases hregion
  · rename_i r hlookup
    obtain ⟨l₁, l₂, heq, -⟩ := List.lookup_eq_some_iff.mp hlookup
    have hbound := h.regions (key, r) (by rw [heq]; simp)
    simp only [Bool.and_eq_true, decide_eq_true_eq] at hregion
    obtain ⟨⟨hbase, hoffset⟩, hsize⟩ := hregion
    have hle := UInt64.le_iff_toNat_le.mp hbase
    rw [UInt64.le_iff_toNat_le, UInt64.toNat_sub_of_le _ _ hbase] at hoffset
    have hrest : address - r.base ≤ r.bytes := by
      rw [UInt64.le_iff_toNat_le, UInt64.toNat_sub_of_le _ _ hbase]
      exact hoffset
    rw [UInt64.le_iff_toNat_le, UInt64.toNat_sub_of_le _ _ hrest, UInt64.toNat_sub_of_le _ _ hbase] at hsize
    dsimp only at hbound
    omega

/-- What a call may do to the memory and its waits. -/
inductive Stepped (σ : LocalMemory) (act : MemoryAct) : LocalMemory → Prop
  | registers (key : UInt32) (region : MemoryRegion)
      (hfits : region.base.toNat + region.bytes.toNat < 2 ^ 64) :
      Stepped σ act { σ with regions := σ.regions ++ [(key, region)] }
  | unregisters (key : UInt32) (hwaits : σ.waits = []) :
      Stepped σ act { σ with regions := σ.regions.filter fun entry => entry.1 ≠ key }
  | writes (memory : SortedMap Nat UInt8) (address : UInt64) (data : List UInt8)
      (hbytes : byteOf memory = Dense.write (byteOf σ.memory) address.toNat data)
      (hnonzero : ∀ e ∈ memory.entries, e.2 ≠ 0)
      (hcovers : ∀ x, address.toNat ≤ x → x < address.toNat + data.length → act.Covers x) :
      Stepped σ act ({ σ with memory }.record (.wrote address data)).checked
  | waits (w : SignalWait) (hid : w.id = σ.nextWait) (haligned : w.address % 8 = 0)
      (hregion : σ.inAnyRegion w.address 8 = true) :
      Stepped σ act
        ({ σ with nextWait := σ.nextWait + 1, waits := σ.waits ++ [w] }.record (.registered w)).checked
  | cancels (id : Nat) (hact : act = .cancelSignalWait id) : Stepped σ act (σ.cancelSignalWait id)
  | fires (i : Nat) (e : PollEvent) (hget : σ.events[i]? = some e) :
      Stepped σ act ({ σ with now := e.time, events := σ.events.eraseIdx i }.record (.fired e))
  | advances (time : Nat) : Stepped σ act { σ with now := time }

theorem byteOf_write {cleared : SortedMap Nat UInt8} (hfit : address.toNat + data.length < 2 ^ 64)
    (hcleared : ∀ x, cleared.find? x =
      if address.toNat ≤ x ∧ x < address.toNat + data.length then none else memory.find? x) :
    byteOf (writeBytes cleared address data) = Dense.write (byteOf memory) address.toNat data := by
  funext x
  unfold byteOf Dense.write
  rw [find?_writeBytes hfit, hcleared]
  by_cases hin : address.toNat ≤ x ∧ x < address.toNat + data.length
  · rw [if_pos hin, if_pos hin]
    by_cases hbyte : data.getD (x - address.toNat) 0 = 0
    · rw [if_neg fun h => h.2.2 hbyte, hbyte]
      rfl
    · rw [if_pos ⟨hin.1, hin.2, hbyte⟩]
      rfl
  · rw [if_neg fun h => hin ⟨h.1, h.2.1⟩, if_neg hin, if_neg hin]

theorem Kept.writeMemory (h : σ.Kept) (address : UInt64) (data : List UInt8) (hlen : data.length < 2 ^ 64)
    (hin : σ.inAnyRegion address (UInt64.ofNat data.length) = true) :
    ∃ memory, byteOf memory = Dense.write (byteOf σ.memory) address.toNat data ∧
      (∀ e ∈ memory.entries, e.2 ≠ 0) ∧
      σ.writeMemory address data = .ok ({ σ with memory }.record (.wrote address data)).checked := by
  have hsize : (UInt64.ofNat data.length).toNat = data.length := UInt64.toNat_ofNat_of_lt' hlen
  have hfit := h.fits hin
  rw [hsize] at hfit
  have hend : (address + UInt64.ofNat data.length).toNat = address.toNat + data.length := by
    rw [UInt64.toNat_add, hsize, Nat.mod_eq_of_lt hfit]
  have hle : address ≤ address + UInt64.ofNat data.length := by
    rw [UInt64.le_iff_toNat_le, hend]
    omega
  obtain ⟨cleared, herase, hfind, hold⟩ := eraseKeys_spec σ.memory hle
  rw [hend] at hfind
  refine ⟨writeBytes cleared address data, byteOf_write hfit hfind,
    writeBytes_nonzero (fun e he => h.nonzero e (hold e he)) address data, ?_⟩
  unfold LocalMemory.writeMemory
  dsimp only
  rw [if_pos hin, herase]
  exact checkWaits_eq fun w hw => h.readable w hw

theorem Kept.storeZeros (h : σ.Kept) (packet : List UInt8)
    (hfit : address.toNat + bytes.toNat < 2 ^ 64) :
    ∃ memory,
      byteOf memory = Dense.write (byteOf σ.memory) address.toNat (List.replicate bytes.toNat 0) ∧
      (∀ e ∈ memory.entries, e.2 ≠ 0) ∧
      σ.store address packet bytes true =
        .ok ({ σ with memory }.record (.wrote address (List.replicate bytes.toNat 0))).checked := by
  have hend : (address + bytes.toUInt64).toNat = address.toNat + bytes.toNat := by
    rw [UInt64.toNat_add, UInt32.toNat_toUInt64, Nat.mod_eq_of_lt hfit]
  have hle : address ≤ address + bytes.toUInt64 := by
    rw [UInt64.le_iff_toNat_le, hend]
    omega
  obtain ⟨cleared, herase, hfind, hold⟩ := eraseKeys_spec σ.memory hle
  rw [hend] at hfind
  refine ⟨cleared, ?_, fun e he => h.nonzero e (hold e he), ?_⟩
  · funext x
    unfold byteOf Dense.write
    rw [hfind, List.length_replicate]
    split
    · rename_i hin
      rw [List.getD_replicate _ (by omega)]
      rfl
    · rfl
  · unfold LocalMemory.store
    rw [if_pos rfl, herase]
    exact checkWaits_eq fun w hw => h.readable w hw

theorem length_copyData (packet : List UInt8) (size : Nat) : (copyData packet size).length = size := by
  unfold copyData
  rw [List.length_append, List.length_take, List.length_replicate]
  omega

theorem length_wordBytes (value : UInt64) : (wordBytes value).length = 8 := by
  rw [wordBytes, List.length_map, List.length_range]

theorem Kept.readable_snoc (h : σ.Kept) {w : SignalWait} (haligned : w.address % 8 = 0)
    (hregion : σ.inAnyRegion w.address 8 = true) :
    ({ σ with nextWait := σ.nextWait + 1, waits := σ.waits ++ [w] }.record (.registered w)).Readable := by
  intro w' hw
  rcases List.mem_append.mp hw with hold | hnew
  · exact h.readable w' hold
  · rw [List.mem_singleton.mp hnew]
    exact ⟨haligned, hregion⟩

/-- A call that returns has done one of these things. -/
theorem Kept.stepped (h : σ.Kept) (hen : σ.enabled act) (hex : σ.exec act = .ok σ') :
    Stepped σ act σ' := by
  have hwrite : ∀ {address : UInt64} {data : List UInt8}, data.length < 2 ^ 64 →
      (∀ x, address.toNat ≤ x → x < address.toNat + data.length → act.Covers x) →
      σ.writeMemory address data = .ok σ' → Stepped σ act σ' := by
    intro address data hlen hcovers hex
    have hin : σ.inAnyRegion address (UInt64.ofNat data.length) = true := by
      by_contra hout
      unfold LocalMemory.writeMemory at hex
      rw [if_neg hout] at hex
      cases hex
    obtain ⟨memory, hbytes, hnonzero, hdone⟩ := h.writeMemory address data hlen hin
    cases hex.symm.trans hdone
    exact .writes memory address data hbytes hnonzero hcovers
  cases act with
  | registerMemory address bytes key =>
      unfold exec registerMemory at hex
      dsimp only at hex
      split at hex
      · cases hex
      · rename_i hok
        cases hex
        rw [not_or, not_or, not_or] at hok
        have hfits := UInt64.le_iff_toNat_le.mp (UInt64.not_lt.mp hok.2.2.1)
        have hmax : address ≤ 0xffffffffffffffff :=
          UInt64.le_iff_toNat_le.mpr (Nat.le_of_lt_succ address.toNat_lt)
        rw [UInt64.toNat_sub_of_le _ _ hmax] at hfits
        refine .registers key ⟨address, bytes⟩ ?_
        have hbound := address.toNat_lt
        have htop : (0xffffffffffffffff : UInt64).toNat = 2 ^ 64 - 1 := rfl
        dsimp only
        omega
  | unregisterMemory key busy =>
      unfold exec unregisterMemory at hex
      dsimp only at hex
      split at hex
      · cases hex
      · rename_i hok
        cases hex
        exact .unregisters key (by_contra fun hne => hok (.inr hne))
  | writeMemory address bytes => exact hwrite hen (fun x hlo hhi => ⟨hlo, hhi⟩) hex
  | writeWord address value =>
      unfold exec LocalMemory.writeWord at hex
      dsimp only at hex
      split at hex
      · cases hex
      · have hlen := length_wordBytes value
        exact hwrite (hlen ▸ by decide) (fun x hlo hhi => ⟨hlo, hlen ▸ hhi⟩) hex
  | store address packet bytes zero =>
      cases zero with
      | false =>
          have hlen := length_copyData packet bytes.toNat
          refine hwrite ?_ (fun x hlo hhi => ⟨hlo, hlen ▸ hhi⟩) hex
          rw [hlen]
          exact bytes.toNat_lt.trans (by decide)
      | true =>
          obtain ⟨memory, hbytes, hnonzero, hdone⟩ := h.storeZeros packet hen
          cases hex.symm.trans hdone
          refine .writes memory address _ hbytes hnonzero fun x hlo hhi => ⟨hlo, ?_⟩
          rwa [List.length_replicate] at hhi
  | waitSignal address comparison value =>
      unfold exec waitSignal at hex
      dsimp only at hex
      cases hread : σ.readWord address with
      | error e =>
          rw [hread] at hex
          cases hex
      | ok actual =>
          rw [hread] at hex
          have haligned : address % 8 = 0 := by
            by_contra hne
            unfold readWord at hread
            rw [if_pos hne] at hread
            cases hread
          have hregion : σ.inAnyRegion address 8 = true := by
            by_contra hout
            unfold readWord readMemory at hread
            rw [if_neg (not_not.mpr haligned),
              if_neg (show ¬ σ.inAnyRegion address (8 : UInt32).toUInt64 = true from hout)]
              at hread
            cases hread
          have hreadable := h.readable_snoc (w := ⟨σ.nextWait, address, value, comparison⟩) haligned hregion
          cases hex.symm.trans (checkWaits_eq hreadable)
          exact .waits _ rfl haligned hregion
  | cancelSignalWait id =>
      cases hex
      exact .cancels id rfl
  | fire i =>
      obtain ⟨e, hget, -⟩ := hen
      unfold exec at hex
      dsimp only at hex
      rw [hget] at hex
      cases hex
      exact .fires i e hget
  | advance time =>
      cases hex
      exact .advances time

theorem ofLog_checked (σ : LocalMemory) : Dense.ofLog σ.checked.log = Dense.ofLog σ.log := by
  unfold checked
  dsimp only
  rw [Dense.ofLog_append]
  generalize (σ.waits.filter fun w => w.test (σ.wordOf w)).map (fun w => (w, σ.wordOf w)) = ready
  induction ready with
  | nil => rfl
  | cons p rest ih => exact ih

theorem inAnyRegion_snoc (entry : UInt32 × MemoryRegion) (h : σ.inAnyRegion address size = true) :
    ({ σ with regions := σ.regions ++ [entry] } : LocalMemory).inAnyRegion address size = true := by
  obtain ⟨old, hmem, hin⟩ := List.any_eq_true.mp h
  refine List.any_eq_true.mpr ⟨old, List.mem_append_left _ hmem, ?_⟩
  unfold inRegion at hin ⊢
  dsimp only
  split at hin
  · cases hin
  · rename_i r hlookup
    rw [List.lookup_append, hlookup]
    exact hin

theorem Stepped.kept (hstep : Stepped σ act σ') (h : σ.Kept) : σ'.Kept := by
  have hsame : ∀ e : MemoryObs, (∀ address data, e ≠ .wrote address data) →
      Dense.ofLog (σ.log ++ [e]) = Dense.ofLog σ.log := by
    intro e he
    rw [Dense.ofLog_append]
    cases e with
    | wrote address data => exact absurd rfl (he address data)
    | registered | cancelled | ready | fired => rfl
  have hfilter : ∀ {σ : LocalMemory}, σ.Readable → σ.checked.Readable :=
    fun hreadable w hw => hreadable w (List.mem_filter.mp hw).1
  cases hstep with
  | registers key region hfits =>
      refine ⟨h.bytes, h.nonzero, ?_, ?_⟩
      · intro e he
        rcases List.mem_append.mp he with hold | hnew
        · exact h.regions e hold
        · rw [List.mem_singleton.mp hnew]
          exact hfits
      · exact fun w hw => ⟨(h.readable w hw).1, inAnyRegion_snoc _ (h.readable w hw).2⟩
  | unregisters key hwaits =>
      refine ⟨h.bytes, h.nonzero, fun e he => h.regions e (List.mem_filter.mp he).1, ?_⟩
      intro w hw
      rw [show ({ σ with regions := _ } : LocalMemory).waits = [] from hwaits] at hw
      cases hw
  | writes memory address data hbytes hnonzero hcovers =>
      refine ⟨?_, hnonzero, h.regions, hfilter fun w hw => h.readable w hw⟩
      rw [ofLog_checked]
      show byteOf memory = Dense.ofLog (σ.log ++ [_])
      rw [Dense.ofLog_wrote, hbytes, h.bytes]
  | waits w hid haligned hregion =>
      refine ⟨?_, h.nonzero, h.regions, hfilter (h.readable_snoc haligned hregion)⟩
      rw [ofLog_checked]
      exact h.bytes.trans (hsame (.registered w) fun _ _ => nofun).symm
  | cancels id =>
      refine ⟨h.bytes.trans (hsame (.cancelled id) fun _ _ => nofun).symm, h.nonzero, h.regions, ?_⟩
      exact fun w hw => h.readable w (List.mem_filter.mp hw).1
  | fires i e =>
      exact ⟨h.bytes.trans (hsame (.fired e) fun _ _ => nofun).symm, h.nonzero, h.regions, h.readable⟩
  | advances time => exact ⟨h.bytes, h.nonzero, h.regions, h.readable⟩

theorem kept_invariant (signalPoll : Nat) : (memoryMachine signalPoll).Invariant Kept := by
  refine Machine.Inductive.invariant ⟨?_, ?_⟩
  · rintro σ rfl
    exact ⟨rfl, (fun e he => nomatch he), (fun e he => nomatch he), fun w hw => nomatch hw⟩
  · exact fun σ act σ' h hen hex => (h.stepped hen hex).kept h

/-- A range is all zeros if the first key behind its start is behind its end. -/
theorem Kept.payloadZero (h : σ.Kept) (address : UInt64) (bytes : UInt32) :
    σ.payloadZero address bytes =
      decide (∀ i < bytes.toNat, byteOf σ.memory (address.toNat + i) = 0) := by
  unfold LocalMemory.payloadZero
  rw [SortedMap.drop_lowerBound]
  cases hl : σ.memory.entries.filter fun e => address.toNat ≤ e.1 with
  | nil =>
      refine (decide_eq_true fun i _ => ?_).symm
      unfold byteOf
      rw [SortedMap.find?_eq_none.mpr]
      · rfl
      · intro hkey
        obtain ⟨e, he, heq⟩ := List.mem_map.mp hkey
        have hmem : e ∈ σ.memory.entries.filter fun e => address.toNat ≤ e.1 :=
          List.mem_filter.mpr ⟨he, decide_eq_true (by omega)⟩
        rw [hl] at hmem
        cases hmem
  | cons first rest =>
      have hfirst : first ∈ σ.memory.entries.filter fun e => address.toNat ≤ e.1 := by
        rw [hl]
        exact List.mem_cons_self
      obtain ⟨hmem, hbase⟩ := List.mem_filter.mp hfirst
      replace hbase : address.toNat ≤ first.1 := of_decide_eq_true hbase
      have hsorted : ((first :: rest).map Prod.fst).Pairwise (· < ·) := by
        rw [← hl]
        exact σ.memory.sorted.sublist (List.Sublist.map Prod.fst List.filter_sublist)
      refine decide_eq_decide.mpr ⟨?_, ?_⟩
      · intro hfar i hi
        unfold byteOf
        rw [SortedMap.find?_eq_none.mpr]
        · rfl
        · intro hkey
          obtain ⟨e, he, heq⟩ := List.mem_map.mp hkey
          have hlater : e ∈ first :: rest := by
            rw [← hl]
            exact List.mem_filter.mpr ⟨he, decide_eq_true (by omega)⟩
          rcases List.mem_cons.mp hlater with rfl | hrest
          · omega
          · have habove := (List.pairwise_cons.mp hsorted).1 e.1 (List.mem_map_of_mem hrest)
            omega
      · intro hall
        by_contra hnear
        have hbyte := hall (first.1 - address.toNat) (by omega)
        unfold byteOf at hbyte
        rw [Nat.add_sub_cancel' hbase,
          show σ.memory.find? first.1 = some first.2 from SortedMap.find?_eq_some.mpr hmem] at hbyte
        exact h.nonzero first hmem hbyte

/-- `Payload` gives the bytes of its range, and tells whether they are zeros. -/
theorem Kept.payload (h : σ.Kept) (hin : σ.inAnyRegion address bytes.toUInt64 = true) :
    σ.payload address bytes = .ok (Dense.read (byteOf σ.memory) address.toNat bytes.toNat,
      decide (∀ i < bytes.toNat, byteOf σ.memory (address.toNat + i) = 0)) := by
  unfold LocalMemory.payload
  rw [h.payloadZero]
  split
  · rename_i hall
    rw [Dense.read_eq_replicate (of_decide_eq_true hall), hall]
  · rename_i hsome
    rw [readMemory_eq hin]
    rw [Bool.not_eq_true] at hsome
    rw [hsome]
    rfl

/-! ## The array -/

/-- The memory gives back what the array has, and writes what the array would write. -/
structure ActsAs (σ : LocalMemory) (array : Nat → UInt8) : Prop where
  readMemory : ∀ (address : UInt64) (bytes : UInt32), σ.inAnyRegion address bytes.toUInt64 = true →
    σ.readMemory address bytes = .ok (Dense.read array address.toNat bytes.toNat)
  readWord : ∀ address : UInt64, address % 8 = 0 → σ.inAnyRegion address 8 = true →
    σ.readWord address = .ok (Dense.word array address.toNat)
  payload : ∀ (address : UInt64) (bytes : UInt32), σ.inAnyRegion address bytes.toUInt64 = true →
    σ.payload address bytes = .ok (Dense.read array address.toNat bytes.toNat,
      decide (∀ i < bytes.toNat, array (address.toNat + i) = 0))
  writeMemory : ∀ (address : UInt64) (data : List UInt8), data.length < 2 ^ 64 →
    σ.inAnyRegion address (UInt64.ofNat data.length) = true →
    ∃ σ', σ.writeMemory address data = .ok σ' ∧
      Dense.ofLog σ'.log = Dense.write array address.toNat data
  writeWord : ∀ address value : UInt64, address % 8 = 0 → σ.inAnyRegion address 8 = true →
    ∃ σ', σ.writeWord address value = .ok σ' ∧ σ'.readWord address = .ok value ∧
      Dense.ofLog σ'.log = Dense.write array address.toNat (wordBytes value)
  store : ∀ (address : UInt64) (packet : List UInt8) (bytes : UInt32) (zero : Bool),
    σ.inAnyRegion address bytes.toUInt64 = true →
    ∃ σ', σ.store address packet bytes zero = .ok σ' ∧
      Dense.ofLog σ'.log = Dense.write array address.toNat
        (if zero then List.replicate bytes.toNat 0 else copyData packet bytes.toNat)
  copy : ∀ (source target : UInt64) (bytes : UInt32), σ.inAnyRegion source bytes.toUInt64 = true →
    σ.inAnyRegion target bytes.toUInt64 = true →
    ∃ packet zero σ', σ.payload source bytes = .ok (packet, zero) ∧
      σ.store target packet bytes zero = .ok σ' ∧
      Dense.ofLog σ'.log =
        Dense.write array target.toNat (Dense.read array source.toNat bytes.toNat)
  outside : ∀ (act : MemoryAct) (σ' : LocalMemory), σ.enabled act → σ.exec act = .ok σ' →
    ∀ x, ¬ act.Covers x → Dense.ofLog σ'.log x = array x
  nonzero : ∀ e ∈ σ.memory.entries, e.2 ≠ 0

theorem Stepped.ofLog (hstep : Stepped σ act σ') :
    Dense.ofLog σ'.log = Dense.ofLog σ.log ∨
      ∃ (address : UInt64) (data : List UInt8),
        (∀ x, address.toNat ≤ x → x < address.toNat + data.length → act.Covers x) ∧
        Dense.ofLog σ'.log = Dense.write (Dense.ofLog σ.log) address.toNat data := by
  cases hstep with
  | registers | unregisters | advances => exact .inl rfl
  | writes memory address data _ _ hcovers =>
      exact .inr ⟨address, data, hcovers, (ofLog_checked _).trans (Dense.ofLog_wrote _ _ _)⟩
  | waits w => exact .inl ((ofLog_checked _).trans (Dense.ofLog_append _ _))
  | cancels id => exact .inl (Dense.ofLog_append _ _)
  | fires i e => exact .inl (Dense.ofLog_append _ _)

theorem copyData_read (array : Nat → UInt8) (address size : Nat) :
    copyData (Dense.read array address size) size = Dense.read array address size := by
  unfold copyData
  rw [Dense.length_read, Nat.sub_self, List.replicate_zero, List.append_nil,
    List.take_of_length_le (Nat.le_of_eq Dense.length_read)]

theorem Kept.store (h : σ.Kept) (packet : List UInt8) (zero : Bool)
    (hin : σ.inAnyRegion address bytes.toUInt64 = true) :
    ∃ σ', σ.store address packet bytes zero = .ok σ' ∧
      Dense.ofLog σ'.log = Dense.write (Dense.ofLog σ.log) address.toNat
        (if zero then List.replicate bytes.toNat 0 else copyData packet bytes.toNat) := by
  cases zero with
  | true =>
      have hfit := h.fits hin
      rw [UInt32.toNat_toUInt64] at hfit
      obtain ⟨memory, -, -, hdone⟩ := h.storeZeros packet hfit
      exact ⟨_, hdone, (ofLog_checked _).trans (Dense.ofLog_wrote _ _ _)⟩
  | false =>
      have hlen := length_copyData packet bytes.toNat
      have hsize : UInt64.ofNat bytes.toNat = bytes.toUInt64 := by
        apply UInt64.toNat_inj.mp
        rw [UInt64.toNat_ofNat_of_lt' (bytes.toNat_lt.trans (by decide)), UInt32.toNat_toUInt64]
      obtain ⟨memory, -, -, hdone⟩ := h.writeMemory address (copyData packet bytes.toNat)
        (by rw [hlen]; exact bytes.toNat_lt.trans (by decide)) (by rw [hlen, hsize]; exact hin)
      exact ⟨_, hdone, (ofLog_checked _).trans (Dense.ofLog_wrote _ _ _)⟩

theorem Kept.writeWord (h : σ.Kept) (value : UInt64) (haligned : address % 8 = 0)
    (hin : σ.inAnyRegion address 8 = true) :
    ∃ σ', σ.writeWord address value = .ok σ' ∧ σ'.readWord address = .ok value ∧
      Dense.ofLog σ'.log = Dense.write (Dense.ofLog σ.log) address.toNat (wordBytes value) := by
  have hlen := length_wordBytes value
  obtain ⟨memory, hbytes, -, hdone⟩ := h.writeMemory address (wordBytes value) (by rw [hlen]; decide)
    (by rw [hlen]; exact hin)
  refine ⟨({ σ with memory }.record (.wrote address (wordBytes value))).checked, ?_, ?_,
    (ofLog_checked _).trans (Dense.ofLog_wrote _ _ _)⟩
  · unfold LocalMemory.writeWord
    rw [if_neg (not_not.mpr haligned)]
    exact hdone
  · have hread : ({ σ with memory }.record (.wrote address (wordBytes value))).checked.readWord address =
        .ok (Dense.word (byteOf memory) address.toNat) := readWord_eq haligned hin
    rw [hread, hbytes]
    apply congrArg Except.ok
    refine Eq.trans (joinWord_congr fun i hi => ?_) (joinWord_wordByte value)
    unfold Dense.write
    rw [if_pos ⟨Nat.le_add_right _ _, by rw [hlen]; omega⟩, Nat.add_sub_cancel_left, wordBytes,
      List.getD_eq_getElem?_getD, List.getElem?_map, List.getElem?_range hi]
    rfl

end LocalMemory

/-- After any calls the sparse memory reads as an array that was written by the same calls. -/
theorem sparseMemory_dense (signalPoll : Nat) :
    (memoryMachine signalPoll).Invariant fun σ => σ.ActsAs (Dense.ofLog σ.log) := by
  intro σ hreach
  have h := LocalMemory.kept_invariant signalPoll σ hreach
  refine ⟨?_, ?_, ?_, ?_, ?_, ?_, ?_, ?_, h.nonzero⟩
  · intro address bytes hin
    rw [← h.bytes]
    exact LocalMemory.readMemory_eq hin
  · intro address haligned hin
    rw [← h.bytes]
    exact LocalMemory.readWord_eq haligned hin
  · intro address bytes hin
    rw [← h.bytes]
    exact h.payload hin
  · intro address data hlen hin
    obtain ⟨memory, -, -, hdone⟩ := h.writeMemory address data hlen hin
    exact ⟨_, hdone, (LocalMemory.ofLog_checked _).trans (Dense.ofLog_wrote _ _ _)⟩
  · exact fun address value haligned hin => h.writeWord value haligned hin
  · exact fun address packet bytes zero hin => h.store packet zero hin
  -- copy
  · intro source target bytes hsource htarget
    have hpayload := h.payload hsource
    obtain ⟨σ', hstore, hlog⟩ := h.store (Dense.read (byteOf σ.memory) source.toNat bytes.toNat)
      (decide (∀ i < bytes.toNat, byteOf σ.memory (source.toNat + i) = 0)) htarget
    refine ⟨_, _, σ', hpayload, hstore, hlog.trans (congrArg _ ?_)⟩
    rw [← h.bytes]
    split
    · rename_i hzero
      exact (Dense.read_eq_replicate (of_decide_eq_true hzero)).symm
    · exact LocalMemory.copyData_read _ _ _
  · intro act σ' hen hex x hout
    rcases (h.stepped hen hex).ofLog with hsame | ⟨address, data, hcovers, hwrite⟩
    · rw [hsame]
    · rw [hwrite]
      unfold Dense.write
      rw [if_neg fun hin => hout (hcovers x hin.1 hin.2)]

end ProtoBridge.Rdma
