import Mathlib.Data.List.Induction
import ProtoBridge.Rdma.DenseMemory

/-!
# Waits for signals

A wait is looked at when it is registered and after every write, and it leaves the list when its word first
satisfies it. Its callback is handed to the simulator at that moment, with the value of that moment, and runs
`signalPoll` later. So a wait that leaves the list cannot be cancelled any more.
-/

namespace ProtoBridge.Rdma

open Lib
open List (append_assoc append_nil map_cons)

/-! ## What a wait has seen -/

/-- The array, and the values of the word of a wait since it was registered and until it was cancelled. -/
structure WordHistory where
  bytes : Nat → UInt8 := fun _ => 0
  registered : Bool := false
  cancelled : Bool := false
  values : List UInt64 := []

namespace WordHistory

/-- The value of the word now is added. -/
def look (s : WordHistory) (w : SignalWait) : WordHistory :=
  { s with values := s.values ++ [Dense.word s.bytes w.address.toNat] }

def step (w : SignalWait) (s : WordHistory) : MemoryObs → WordHistory
  | .wrote address data =>
      let s := { s with bytes := Dense.write s.bytes address.toNat data }
      if s.registered ∧ ¬ s.cancelled then s.look w else s
  | .registered w' => if w' = w then { s with registered := true }.look w else s
  | .cancelled id => if id = w.id ∧ s.registered then { s with cancelled := true } else s
  | .ready .. | .fired _ => s

/-- What a wait has seen in a history. -/
def ofLog (w : SignalWait) (log : List MemoryObs) : WordHistory := log.foldl (step w) {}

theorem ofLog_snoc (w : SignalWait) (log : List MemoryObs) (e : MemoryObs) :
    ofLog w (log ++ [e]) = (ofLog w log).step w e :=
  List.foldl_append

end WordHistory

/-- The values of its word at the registration of a wait and after every later write, until it is cancelled. -/
def instants (w : SignalWait) (log : List MemoryObs) : List UInt64 := (WordHistory.ofLog w log).values

/-- When a wait was found to be satisfied, and by what value. -/
def readies (w : SignalWait) (log : List MemoryObs) : List (Nat × UInt64) :=
  log.filterMap fun
    | .ready time w' value => if w' = w then some (time, value) else none
    | _ => none

/-- The callbacks that have run. -/
def firedEvents (log : List MemoryObs) : List PollEvent :=
  log.filterMap fun
    | .fired e => some e
    | _ => none

/-- The callback of a wait, if its time is before the end of all times. -/
def pollEvent (signalPoll : Nat) (w : SignalWait) (p : Nat × UInt64) : Option PollEvent :=
  if signalPoll < horizon - p.1 then some ⟨p.1 + signalPoll, w, p.2⟩ else none

namespace LocalMemory

/-- The callbacks of a wait that were ever scheduled: those to come and those that have run. -/
def scheduled (σ : LocalMemory) (w : SignalWait) : List PollEvent :=
  (σ.events ++ firedEvents σ.log).filter fun e => e.wait = w

end LocalMemory

/-! ## Histories -/

variable {signalPoll : Nat} {σ σ' : LocalMemory} {w w' : SignalWait} {log : List MemoryObs}

theorem readies_append (log tail : List MemoryObs) : readies w (log ++ tail) = readies w log ++ readies w tail :=
  List.filterMap_append

theorem readies_ready (time : Nat) (value : UInt64) (rest : List MemoryObs) :
    readies w (.ready time w' value :: rest) =
      if w' = w then (time, value) :: readies w rest else readies w rest := by
  unfold readies
  rw [List.filterMap_cons]
  by_cases hw : w' = w
  · simp only [if_pos hw]
  · simp only [if_neg hw]

theorem firedEvents_append (log tail : List MemoryObs) :
    firedEvents (log ++ tail) = firedEvents log ++ firedEvents tail :=
  List.filterMap_append

namespace LocalMemory

/-- What a look at the waits adds to the history. -/
def readyObs (σ : LocalMemory) : List MemoryObs :=
  ((σ.waits.filter fun w => w.test (σ.wordOf w)).map fun w => (w, σ.wordOf w)).map
    fun p => .ready σ.now p.1 p.2

theorem log_checked (σ : LocalMemory) : σ.checked.log = σ.log ++ σ.readyObs := rfl

theorem wordHistory_checked (σ : LocalMemory) (w : SignalWait) :
    WordHistory.ofLog w σ.checked.log = WordHistory.ofLog w σ.log := by
  rw [log_checked]
  unfold WordHistory.ofLog readyObs
  rw [List.foldl_append]
  generalize (σ.waits.filter fun w => w.test (σ.wordOf w)).map (fun w => (w, σ.wordOf w)) = ready
  induction ready with
  | nil => rfl
  | cons p rest ih => exact ih

theorem readies_readyObs (hnodup : σ.waits.Nodup) (w : SignalWait) :
    readies w σ.readyObs = if w ∈ σ.waits ∧ w.test (σ.wordOf w) then [(σ.now, σ.wordOf w)] else [] := by
  unfold readyObs
  generalize σ.waits = ws at hnodup
  induction ws with
  | nil => rfl
  | cons w' rest ih =>
      obtain ⟨hfresh, hrest⟩ := List.nodup_cons.mp hnodup
      specialize ih hrest
      by_cases hw : w' = w
      · rw [hw] at hfresh ⊢
        rw [if_neg fun h => hfresh h.1] at ih
        rw [List.filter_cons]
        by_cases htest : w.test (σ.wordOf w) = true
        · rw [if_pos htest, if_pos ⟨List.mem_cons_self, htest⟩, map_cons, map_cons, readies_ready,
            if_pos rfl, ih]
        · rw [if_neg htest, if_neg fun h => htest h.2, ih]
      · have hmem : (w ∈ w' :: rest ∧ w.test (σ.wordOf w) = true) = (w ∈ rest ∧ w.test (σ.wordOf w) = true) := by
          rw [List.mem_cons, or_iff_right (Ne.symm hw)]
        rw [List.filter_cons, if_congr (iff_of_eq hmem) rfl rfl, ← ih]
        split
        · rw [map_cons, map_cons, readies_ready, if_neg hw]
        · rfl

/-- The callbacks that a look at the waits schedules. -/
def pollEvents (σ : LocalMemory) : List PollEvent :=
  if σ.signalPoll < horizon - σ.now then
    ((σ.waits.filter fun w => w.test (σ.wordOf w)).map fun w => (w, σ.wordOf w)).map
      fun p => ⟨σ.now + σ.signalPoll, p.1, p.2⟩
  else []

theorem events_checked (σ : LocalMemory) : σ.checked.events = σ.events ++ σ.pollEvents := rfl

theorem filter_pollEvents (σ : LocalMemory) (w : SignalWait) :
    σ.pollEvents.filter (fun e => e.wait = w) =
      (readies w σ.readyObs).filterMap (pollEvent σ.signalPoll w) := by
  unfold pollEvents readyObs
  generalize (σ.waits.filter fun w => w.test (σ.wordOf w)).map (fun w => (w, σ.wordOf w)) = ready
  induction ready with
  | nil =>
      rw [List.map_nil, ite_self]
      rfl
  | cons p rest ih =>
      rw [map_cons, map_cons, readies_ready]
      by_cases hfits : σ.signalPoll < horizon - σ.now
      · rw [if_pos hfits] at ih ⊢
        rw [List.filter_cons]
        by_cases hw : p.1 = w
        · rw [if_pos (decide_eq_true hw), if_pos hw, ih,
            List.filterMap_cons_some (show pollEvent σ.signalPoll w (σ.now, p.2) = some _ from if_pos hfits), hw]
        · rw [if_neg (by simpa using hw), if_neg hw, ih]
      · rw [if_neg hfits] at ih ⊢
        split
        · rw [List.filterMap_cons_none (show pollEvent σ.signalPoll w (σ.now, p.2) = none from if_neg hfits)]
          exact ih
        · exact ih

theorem firedEvents_readyObs (σ : LocalMemory) : firedEvents σ.readyObs = [] := by
  unfold readyObs
  generalize (σ.waits.filter fun w => w.test (σ.wordOf w)).map (fun w => (w, σ.wordOf w)) = ready
  induction ready with
  | nil => rfl
  | cons p rest ih => exact ih

end LocalMemory

namespace WordHistory

theorem bytes_ofLog (w : SignalWait) (log : List MemoryObs) : (ofLog w log).bytes = Dense.ofLog log := by
  induction log using List.reverseRecOn with
  | nil => rfl
  | append_singleton log e ih =>
      rw [ofLog_snoc, Dense.ofLog_append]
      cases e with
      | wrote address data =>
          unfold step
          dsimp only
          rw [ih]
          split <;> rfl
      | registered w' =>
          unfold step
          dsimp only
          split <;> exact ih
      | cancelled id =>
          unfold step
          dsimp only
          split <;> exact ih
      | ready | fired => exact ih

theorem fresh_ofLog (hw : (ofLog w log).registered = false) :
    (ofLog w log).cancelled = false ∧ (ofLog w log).values = [] := by
  induction log using List.reverseRecOn with
  | nil => exact ⟨rfl, rfl⟩
  | append_singleton log e ih =>
      rw [ofLog_snoc] at hw ⊢
      generalize ofLog w log = s at hw ih ⊢
      cases e with
      | wrote address data =>
          unfold step at hw ⊢
          dsimp only at hw ⊢
          split at hw
          · rename_i hlook
            rw [show s.registered = false from hw] at hlook
            exact absurd hlook.1 (by decide)
          · rename_i hlook
            rw [if_neg hlook]
            exact ih hw
      | registered w' =>
          unfold step at hw ⊢
          dsimp only at hw ⊢
          split at hw
          · cases hw
          · rename_i hother
            rw [if_neg hother]
            exact ih hw
      | cancelled id =>
          unfold step at hw ⊢
          dsimp only at hw ⊢
          split at hw
          · rename_i hboth
            rw [show s.registered = false from hw] at hboth
            exact absurd hboth.2 (by decide)
          · rename_i hother
            rw [if_neg hother]
            exact ih hw
      | ready | fired => exact ih hw

end WordHistory

/-! ## What every run keeps -/

/-- A wait in the list has not been found ready; if its word satisfies it now, it does so for the first time.
A wait that has left the list was found ready by the first value that satisfies it, or was cancelled. -/
structure Looking (signalPoll : Nat) (σ : LocalMemory) : Prop where
  poll : σ.signalPoll = signalPoll
  nodup : σ.waits.Nodup
  ids : ∀ w, (WordHistory.ofLog w σ.log).registered = true → w.id < σ.nextWait
  listed : ∀ w ∈ σ.waits, (WordHistory.ofLog w σ.log).registered = true ∧
    (WordHistory.ofLog w σ.log).cancelled = false ∧ readies w σ.log = [] ∧
    (instants w σ.log).find? w.test = if w.test (σ.wordOf w) then some (σ.wordOf w) else none
  left : ∀ w ∉ σ.waits, (readies w σ.log).map Prod.snd = ((instants w σ.log).find? w.test).toList ∧
    ((WordHistory.ofLog w σ.log).registered = true → (WordHistory.ofLog w σ.log).cancelled = false →
      ((instants w σ.log).find? w.test).isSome)
  scheduled : ∀ w, (σ.scheduled w).Perm ((readies w σ.log).filterMap (pollEvent signalPoll w))

/-- Between calls no word satisfies a wait in the list. -/
structure Waiting (signalPoll : Nat) (σ : LocalMemory) : Prop extends Looking signalPoll σ where
  unready : ∀ w ∈ σ.waits, w.test (σ.wordOf w) = false

theorem Looking.checked (h : Looking signalPoll σ) : Waiting signalPoll σ.checked := by
  have hmem : ∀ w, w ∈ σ.checked.waits ↔ w ∈ σ.waits ∧ w.test (σ.wordOf w) = false := by
    intro w
    refine List.mem_filter.trans (and_congr_right fun _ => ?_)
    rw [Bool.not_eq_true']
  have hword : ∀ w, σ.checked.wordOf w = σ.wordOf w := fun w => rfl
  have hfound : ∀ w, readies w σ.checked.log =
      readies w σ.log ++ if w ∈ σ.waits ∧ w.test (σ.wordOf w) then [(σ.now, σ.wordOf w)] else [] := by
    intro w
    rw [LocalMemory.log_checked, readies_append, LocalMemory.readies_readyObs h.nodup]
  have hinstants : ∀ w, instants w σ.checked.log = instants w σ.log :=
    fun w => congrArg WordHistory.values (LocalMemory.wordHistory_checked σ w)
  refine ⟨⟨h.poll, h.nodup.filter _, ?_, ?_, ?_, ?_⟩, ?_⟩
  · intro w hw
    rw [LocalMemory.wordHistory_checked] at hw
    exact h.ids w hw
  · intro w hw
    obtain ⟨hin, hfail⟩ := (hmem w).mp hw
    obtain ⟨hregistered, hcancelled, hnone, hfind⟩ := h.listed w hin
    rw [LocalMemory.wordHistory_checked, hinstants, hfound, hword, hnone, hfail]
    rw [hfail] at hfind
    refine ⟨hregistered, hcancelled, ?_, hfind⟩
    rw [if_neg fun hboth => by cases hboth.2]
    rfl
  · intro w hw
    rw [LocalMemory.wordHistory_checked, hinstants, hfound]
    by_cases hin : w ∈ σ.waits
    · have htest : w.test (σ.wordOf w) = true := by
        by_contra hfail
        exact hw ((hmem w).mpr ⟨hin, Bool.not_eq_true _ ▸ hfail⟩)
      obtain ⟨-, -, hnone, hfind⟩ := h.listed w hin
      rw [hnone, hfind, if_pos htest, if_pos ⟨hin, htest⟩]
      exact ⟨rfl, fun _ _ => rfl⟩
    · rw [if_neg fun hboth => hin hboth.1, append_nil]
      exact h.left w hin
  · intro w
    have hold := h.scheduled w
    unfold LocalMemory.scheduled at hold ⊢
    rw [LocalMemory.events_checked, LocalMemory.log_checked, firedEvents_append,
      LocalMemory.firedEvents_readyObs, append_nil, readies_append, List.filterMap_append,
      ← h.poll, ← LocalMemory.filter_pollEvents, List.filter_append, List.filter_append]
    rw [List.filter_append, ← h.poll] at hold
    refine List.Perm.trans ?_ (hold.append_right _)
    rw [append_assoc, append_assoc]
    exact List.perm_append_comm.append_left _
  · intro w hw
    exact ((hmem w).mp hw).2

/-! ## Steps -/

theorem Waiting.snoc (h : Waiting signalPoll σ) {e : MemoryObs}
    (hsame : ∀ w, (WordHistory.ofLog w σ.log).step w e = WordHistory.ofLog w σ.log)
    (hready : ∀ w, readies w [e] = []) {events : List PollEvent} {now : Nat}
    (hevents : (events ++ firedEvents [e]).Perm σ.events) :
    Waiting signalPoll ({ σ with now, events }.record e) := by
  have hlog : ({ σ with now, events }.record e).log = σ.log ++ [e] := rfl
  have hhistory : ∀ w, WordHistory.ofLog w (σ.log ++ [e]) = WordHistory.ofLog w σ.log :=
    fun w => (WordHistory.ofLog_snoc w σ.log e).trans (hsame w)
  have hinstants : ∀ w, instants w (σ.log ++ [e]) = instants w σ.log :=
    fun w => congrArg WordHistory.values (hhistory w)
  have hfound : ∀ w, readies w (σ.log ++ [e]) = readies w σ.log := by
    intro w
    rw [readies_append, hready, append_nil]
  refine ⟨⟨h.poll, h.nodup, ?_, ?_, ?_, ?_⟩, h.unready⟩
  · intro w hw
    exact h.ids w (hhistory w ▸ hw)
  · intro w hw
    rw [hlog, hhistory, hinstants, hfound]
    exact h.listed w hw
  · intro w hw
    rw [hlog, hhistory, hinstants, hfound]
    exact h.left w hw
  · intro w
    show ((events ++ firedEvents (σ.log ++ [e])).filter _).Perm
      ((readies w (σ.log ++ [e])).filterMap (pollEvent signalPoll w))
    rw [hfound, firedEvents_append]
    refine List.Perm.trans (List.Perm.filter _ ?_) (h.scheduled w)
    refine (List.perm_append_comm.append_left events).trans ?_
    rw [← append_assoc]
    exact hevents.append_right _

theorem Waiting.cancels (h : Waiting signalPoll σ) (id : Nat) :
    Waiting signalPoll (σ.cancelSignalWait id) := by
  have hlog : (σ.cancelSignalWait id).log = σ.log ++ [.cancelled id] := rfl
  have hstep : ∀ w, WordHistory.ofLog w (σ.log ++ [.cancelled id]) =
      if id = w.id ∧ (WordHistory.ofLog w σ.log).registered then
        { WordHistory.ofLog w σ.log with cancelled := true }
      else WordHistory.ofLog w σ.log :=
    fun w => WordHistory.ofLog_snoc w σ.log _
  have hregistered : ∀ w, (WordHistory.ofLog w (σ.log ++ [.cancelled id])).registered =
      (WordHistory.ofLog w σ.log).registered := by
    intro w
    rw [hstep]
    split <;> rfl
  have hinstants : ∀ w, instants w (σ.log ++ [.cancelled id]) = instants w σ.log := by
    intro w
    unfold instants
    rw [hstep]
    split <;> rfl
  have hfound : ∀ w, readies w (σ.log ++ [.cancelled id]) = readies w σ.log := by
    intro w
    rw [readies_append]
    exact append_nil _
  have hmem : ∀ w, w ∈ (σ.cancelSignalWait id).waits ↔ w ∈ σ.waits ∧ w.id ≠ id :=
    fun w => List.mem_filter.trans (and_congr_right fun _ => decide_eq_true_iff)
  refine ⟨⟨h.poll, h.nodup.filter _, ?_, ?_, ?_, ?_⟩, fun w hw => h.unready w ((hmem w).mp hw).1⟩
  · intro w hw
    exact h.ids w (hregistered w ▸ hw)
  · intro w hw
    obtain ⟨hin, hother⟩ := (hmem w).mp hw
    rw [hlog, hinstants, hfound, hstep, if_neg fun hboth => hother hboth.1.symm]
    exact h.listed w hin
  · intro w hw
    rw [hlog, hinstants, hfound, hregistered]
    by_cases hin : w ∈ σ.waits
    · -- the wait is cancelled before it was ready
      have hid : id = w.id := by_contra fun hne => hw ((hmem w).mpr ⟨hin, Ne.symm hne⟩)
      obtain ⟨hregistered, -, hnone, hfind⟩ := h.listed w hin
      rw [h.unready w hin, if_neg Bool.false_ne_true] at hfind
      rw [hnone, hfind, hstep, if_pos ⟨hid, hregistered⟩]
      exact ⟨rfl, fun _ hcancelled => nomatch hcancelled⟩
    · refine ⟨(h.left w hin).1, fun hregistered hcancelled => (h.left w hin).2 hregistered ?_⟩
      rw [hstep] at hcancelled
      split at hcancelled
      · cases hcancelled
      · exact hcancelled
  · intro w
    rw [hlog, hfound]
    show ((σ.events ++ firedEvents (σ.log ++ [.cancelled id])).filter _).Perm _
    rw [firedEvents_append]
    show ((σ.events ++ (firedEvents σ.log ++ [])).filter _).Perm _
    rw [append_nil]
    exact h.scheduled w

/-- Every wait in the list, and no other, sees the value that a write leaves. -/
theorem Waiting.wrote (h : Waiting signalPoll σ) (hkept : σ.Kept) {memory : SortedMap Nat UInt8}
    {address : UInt64} {data : List UInt8}
    (hbytes : byteOf memory = Dense.write (byteOf σ.memory) address.toNat data) :
    Looking signalPoll ({ σ with memory }.record (.wrote address data)) := by
  have hlog : ({ σ with memory }.record (.wrote address data)).log = σ.log ++ [.wrote address data] := rfl
  have hfound : ∀ w, readies w (σ.log ++ [.wrote address data]) = readies w σ.log := by
    intro w
    rw [readies_append]
    exact append_nil _
  have hword : ∀ w, Dense.word (Dense.write (WordHistory.ofLog w σ.log).bytes address.toNat data)
      w.address.toNat = ({ σ with memory }.record (.wrote address data)).wordOf w := by
    intro w
    show _ = Dense.word (byteOf memory) w.address.toNat
    rw [hbytes, hkept.bytes, WordHistory.bytes_ofLog]
  have hregistered : ∀ w, (WordHistory.ofLog w (σ.log ++ [.wrote address data])).registered =
      (WordHistory.ofLog w σ.log).registered := by
    intro w
    rw [WordHistory.ofLog_snoc]
    unfold WordHistory.step
    dsimp only
    split <;> rfl
  have hcancelled : ∀ w, (WordHistory.ofLog w (σ.log ++ [.wrote address data])).cancelled =
      (WordHistory.ofLog w σ.log).cancelled := by
    intro w
    rw [WordHistory.ofLog_snoc]
    unfold WordHistory.step
    dsimp only
    split <;> rfl
  have hinstants : ∀ w, instants w (σ.log ++ [.wrote address data]) =
      if (WordHistory.ofLog w σ.log).registered ∧ ¬ (WordHistory.ofLog w σ.log).cancelled then
        instants w σ.log ++ [({ σ with memory }.record (.wrote address data)).wordOf w]
      else instants w σ.log := by
    intro w
    unfold instants
    rw [WordHistory.ofLog_snoc, ← hword]
    unfold WordHistory.step
    dsimp only
    split <;> rfl
  refine ⟨h.poll, h.nodup, ?_, ?_, ?_, ?_⟩
  · intro w hw
    exact h.ids w (hregistered w ▸ hw)
  -- listed: a wait in the list has not seen its value yet
  · intro w hw
    obtain ⟨hreg, hcan, hnone, hfind⟩ := h.listed w hw
    rw [h.unready w hw, if_neg Bool.false_ne_true] at hfind
    rw [hlog, hregistered, hcancelled, hfound, hinstants,
      if_pos ⟨hreg, by rw [hcan]; exact Bool.false_ne_true⟩]
    refine ⟨hreg, hcan, hnone, ?_⟩
    rw [List.find?_append, hfind, Option.none_or, List.find?_singleton]
  -- left: what has left does not look again
  · intro w hw
    obtain ⟨hmap, hsome⟩ := h.left w hw
    rw [hlog, hregistered, hcancelled, hfound, hinstants]
    split
    · rename_i hlook
      have hold := hsome hlook.1 (Bool.not_eq_true _ ▸ hlook.2)
      obtain ⟨value, hvalue⟩ := Option.isSome_iff_exists.mp hold
      rw [List.find?_append, hvalue, Option.some_or, hmap, hvalue]
      exact ⟨rfl, fun _ _ => rfl⟩
    · exact ⟨hmap, hsome⟩
  -- scheduled: a write schedules nothing by itself
  · intro w
    rw [hlog, hfound]
    show ((σ.events ++ firedEvents (σ.log ++ [.wrote address data])).filter _).Perm _
    rw [firedEvents_append]
    show ((σ.events ++ (firedEvents σ.log ++ [])).filter _).Perm _
    rw [append_nil]
    exact h.scheduled w

/-- The new wait sees the value that its word has; the others have seen it before. -/
theorem Waiting.registered (h : Waiting signalPoll σ) (hkept : σ.Kept) (hid : w.id = σ.nextWait) :
    Looking signalPoll
      ({ σ with nextWait := σ.nextWait + 1, waits := σ.waits ++ [w] }.record (.registered w)) := by
  have hlog : ({ σ with nextWait := σ.nextWait + 1, waits := σ.waits ++ [w] }.record (.registered w)).log =
      σ.log ++ [.registered w] := rfl
  have hfresh : (WordHistory.ofLog w σ.log).registered = false := by
    by_contra hold
    have hlt := h.ids w (Bool.not_eq_false _ ▸ hold)
    omega
  obtain ⟨hcancelled, hvalues⟩ := WordHistory.fresh_ofLog hfresh
  have hnew : w ∉ σ.waits := by
    intro hin
    have hold := (h.listed w hin).1
    rw [hfresh] at hold
    cases hold
  have hself : WordHistory.ofLog w (σ.log ++ [.registered w]) =
      { WordHistory.ofLog w σ.log with registered := true, values := [σ.wordOf w] } := by
    rw [WordHistory.ofLog_snoc]
    unfold WordHistory.step WordHistory.look
    dsimp only
    rw [if_pos rfl, hvalues, WordHistory.bytes_ofLog, ← hkept.bytes]
    rfl
  have hothers : ∀ w' ≠ w, WordHistory.ofLog w' (σ.log ++ [.registered w]) = WordHistory.ofLog w' σ.log := by
    intro w' hne
    rw [WordHistory.ofLog_snoc]
    exact if_neg (Ne.symm hne)
  have hfound : ∀ w', readies w' (σ.log ++ [.registered w]) = readies w' σ.log := by
    intro w'
    rw [readies_append]
    exact append_nil _
  refine ⟨h.poll, ?_, ?_, ?_, ?_, ?_⟩
  · exact List.nodup_append.mpr ⟨h.nodup, List.nodup_singleton w, fun a ha b hb heq =>
      hnew (List.mem_singleton.mp hb ▸ heq ▸ ha)⟩
  · intro w' hw
    rw [hlog] at hw
    show w'.id < σ.nextWait + 1
    by_cases hsame : w' = w
    · rw [hsame]
      omega
    · rw [hothers w' hsame] at hw
      exact Nat.lt_succ_of_lt (h.ids w' hw)
  -- listed: the new wait sees the value of its word now
  · intro w' hw
    rw [hlog, hfound]
    by_cases hsame : w' = w
    · rw [hsame]
      have hnone : readies w σ.log = [] := by
        have hmap := (h.left w hnew).1
        unfold instants at hmap
        rw [hvalues] at hmap
        exact List.map_eq_nil_iff.mp hmap
      unfold instants
      rw [hself]
      exact ⟨rfl, hcancelled, hnone, List.find?_singleton⟩
    · have hin : w' ∈ σ.waits := by
        rcases List.mem_append.mp hw with hold | hlast
        · exact hold
        · exact absurd (List.mem_singleton.mp hlast) hsame
      unfold instants
      rw [hothers w' hsame]
      exact h.listed w' hin
  -- left: the new wait has not left
  · intro w' hw
    have hsame : w' ≠ w := by
      rintro rfl
      exact hw (List.mem_append_right _ (List.mem_singleton.mpr rfl))
    rw [hlog, hfound]
    unfold instants
    rw [hothers w' hsame]
    exact h.left w' fun hin => hw (List.mem_append_left _ hin)
  · intro w'
    rw [hlog, hfound]
    show ((σ.events ++ firedEvents (σ.log ++ [.registered w])).filter _).Perm _
    rw [firedEvents_append]
    show ((σ.events ++ (firedEvents σ.log ++ [])).filter _).Perm _
    rw [append_nil]
    exact h.scheduled w'

theorem LocalMemory.Stepped.waiting {act : MemoryAct} (hstep : LocalMemory.Stepped σ act σ')
    (hkept : σ.Kept) (h : Waiting signalPoll σ) : Waiting signalPoll σ' := by
  cases hstep with
  | registers | unregisters | advances =>
      exact ⟨⟨h.poll, h.nodup, h.ids, h.listed, h.left, h.scheduled⟩, h.unready⟩
  | writes memory address data hbytes => exact (h.wrote hkept hbytes).checked
  | waits w hid => exact (h.registered hkept hid).checked
  | cancels id => exact h.cancels id
  | fires i e hget =>
      refine h.snoc (fun w => rfl) (fun w => rfl) ?_
      show (σ.events.eraseIdx i ++ [e]).Perm σ.events
      obtain ⟨hi, heq⟩ := List.getElem?_eq_some_iff.mp hget
      rw [← heq]
      exact List.perm_append_comm.trans (List.getElem_cons_eraseIdx_perm hi)

theorem waiting_invariant (signalPoll : Nat) :
    (memoryMachine signalPoll).Invariant (Waiting signalPoll) := by
  refine (LocalMemory.kept_invariant signalPoll).strengthen ?_ ?_
  · rintro σ rfl
    exact ⟨⟨rfl, List.nodup_nil, (fun w hw => nomatch hw), (fun w hw => nomatch hw),
      (fun w _ => ⟨rfl, fun hw => nomatch hw⟩), fun w => List.Perm.refl _⟩, fun w hw => nomatch hw⟩
  · exact fun σ act σ' hkept h hen hex => (hkept.stepped hen hex).waiting hkept h

theorem Waiting.found (h : Waiting signalPoll σ) (w : SignalWait) :
    (readies w σ.log).map Prod.snd = ((instants w σ.log).find? w.test).toList := by
  by_cases hw : w ∈ σ.waits
  · obtain ⟨-, -, hnone, hfind⟩ := h.listed w hw
    rw [h.unready w hw, if_neg Bool.false_ne_true] at hfind
    rw [hnone, hfind]
    rfl
  · exact (h.left w hw).1

theorem Waiting.scheduled_eq (h : Waiting signalPoll σ) (w : SignalWait) :
    σ.scheduled w = (readies w σ.log).filterMap (pollEvent signalPoll w) := by
  have hlen : ((readies w σ.log).filterMap (pollEvent signalPoll w)).length ≤ 1 := by
    refine (List.length_filterMap_le _ _).trans ?_
    rw [← List.length_map (f := Prod.snd), h.found w]
    cases (instants w σ.log).find? w.test with
    | none => exact Nat.zero_le 1
    | some value => exact Nat.le_refl 1
  have hperm := h.scheduled w
  generalize (readies w σ.log).filterMap (pollEvent signalPoll w) = events at hlen hperm
  match events with
  | [] => exact List.perm_nil.mp hperm
  | [e] => exact List.perm_singleton.mp hperm
  | _ :: _ :: _ => exact absurd hlen (by simp)

/-! ## Waits are satisfied once -/

/-- The first value of its word that satisfies a wait, and no other, has its callback scheduled, if that is to
run before the end of all times. -/
def LocalMemory.InTime (signalPoll : Nat) (σ : LocalMemory) (w : SignalWait) : Prop :=
  (readies w σ.log).map Prod.snd = ((instants w σ.log).find? w.test).toList ∧
  σ.scheduled w = (readies w σ.log).filterMap (pollEvent signalPoll w)

theorem signalWaits_once (signalPoll : Nat) :
    (memoryMachine signalPoll).Invariant fun σ => ∀ w, σ.InTime signalPoll w :=
  fun σ hreach w =>
    have h := waiting_invariant signalPoll σ hreach
    ⟨h.found w, h.scheduled_eq w⟩

instance (signalPoll : Nat) (σ : LocalMemory) (act : MemoryAct) :
    Decidable ((memoryMachine signalPoll).enabled σ act) :=
  match act with
  | .writeMemory _ bytes => inferInstanceAs (Decidable (bytes.length < 2 ^ 64))
  | .store address _ bytes _ => inferInstanceAs (Decidable (address.toNat + bytes.toNat < 2 ^ 64))
  | .fire i =>
      match hget : σ.events[i]? with
      | none => .isFalse fun h => by
          obtain ⟨e, hsome, -⟩ := h
          rw [hget] at hsome
          cases hsome
      | some e =>
          decidable_of_iff (∀ e' ∈ σ.events, e.time ≤ e'.time) (by
            refine ⟨fun h => ⟨e, hget, h⟩, fun h => ?_⟩
            obtain ⟨e', hsome, hfirst⟩ := h
            rw [hget] at hsome
            cases hsome
            exact hfirst)
  | .advance time =>
      inferInstanceAs (Decidable (σ.now ≤ time ∧ time ≤ horizon ∧ ∀ e ∈ σ.events, time ≤ e.time))
  | .registerMemory .. | .unregisterMemory .. | .writeWord .. | .waitSignal .. | .cancelSignalWait _ =>
      .isTrue trivial

/-- With a poll delay that reaches the end of all times, a wait that is satisfied has no callback. -/
theorem not_scheduled_beyond_horizon :
    ¬ ∀ signalPoll, (memoryMachine signalPoll).Invariant fun σ => ∀ w,
      (σ.scheduled w).map PollEvent.value = ((instants w σ.log).find? w.test).toList := by
  intro h
  let w : SignalWait := ⟨1, 0, 0, .eq⟩
  have hrun : ((memoryMachine horizon).runs { signalPoll := horizon }
      [.registerMemory 0 8 1, .waitSignal 0 .eq 0]).map
      (fun σ => ((σ.scheduled w).map PollEvent.value, ((instants w σ.log).find? w.test).toList)) =
      some ([], [0]) := by
    decide +kernel
  obtain ⟨σ, hreach, hvalues⟩ := Machine.Reachable.exists_of_runs rfl hrun
  have hsame := h horizon σ hreach w
  rw [(Prod.mk.inj hvalues).1, (Prod.mk.inj hvalues).2] at hsame
  cases hsame

/-! ## Cancelled waits -/

/-- The wait with this number was registered and then cancelled. -/
def Retired (id : Nat) (log : List MemoryObs) : Prop :=
  ∃ before after w, log = before ++ .cancelled id :: after ∧ .registered w ∈ before ∧ w.id = id

/-- No callback runs after its wait was cancelled. -/
def CancelHonoured (log : List MemoryObs) : Prop :=
  ∀ before e after, log = before ++ .fired e :: after → ¬ Retired e.wait.id before

/-- A wait is cancelled before it was ready, or when its callback has run. -/
def LocalMemory.CancelledInTime (σ : LocalMemory) : MemoryAct → Prop
  | .cancelSignalWait id => ∀ e ∈ σ.events, e.wait.id ≠ id
  | _ => True

instance (σ : LocalMemory) : (act : MemoryAct) → Decidable (σ.CancelledInTime act)
  | .cancelSignalWait _ => inferInstanceAs (Decidable (∀ e ∈ σ.events, _ ≠ _))
  | .registerMemory .. | .unregisterMemory .. | .writeMemory .. | .writeWord .. | .store ..
  | .waitSignal .. | .fire _ | .advance _ => .isTrue trivial

theorem retired_snoc {id : Nat} {e : MemoryObs} :
    Retired id (log ++ [e]) ↔
      Retired id log ∨ e = .cancelled id ∧ ∃ w, .registered w ∈ log ∧ w.id = id := by
  constructor
  · rintro ⟨before, after, w, heq, hw, hid⟩
    rcases List.eq_nil_or_concat after with rfl | ⟨tail, last, rfl⟩
    · obtain ⟨rfl, hlast⟩ := List.append_inj' heq rfl
      exact .inr ⟨List.singleton_inj.mp hlast, w, hw, hid⟩
    · rw [List.concat_eq_append, ← List.cons_append, ← append_assoc] at heq
      exact .inl ⟨before, tail, w, (List.append_inj' heq rfl).1, hw, hid⟩
  · rintro (⟨before, after, w, rfl, hw, hid⟩ | ⟨rfl, w, hw, hid⟩)
    · exact ⟨before, after ++ [e], w, by rw [append_assoc, List.cons_append], hw, hid⟩
    · exact ⟨log, [], w, rfl, hw, hid⟩

theorem retired_readyObs {id : Nat} (h : Retired id (log ++ σ.readyObs)) : Retired id log := by
  unfold LocalMemory.readyObs at h
  generalize (σ.waits.filter fun w => w.test (σ.wordOf w)).map (fun w => (w, σ.wordOf w)) = ready at h
  induction ready using List.reverseRecOn with
  | nil =>
      rw [List.map_nil, append_nil] at h
      exact h
  | append_singleton ready p ih =>
      rw [List.map_append, ← append_assoc] at h
      rcases retired_snoc.mp h with hold | ⟨heq, -⟩
      · exact ih hold
      · cases heq

theorem CancelHonoured.snoc (h : CancelHonoured log) {e : MemoryObs}
    (hfired : ∀ event, e = .fired event → ¬ Retired event.wait.id log) : CancelHonoured (log ++ [e]) := by
  intro before event after heq
  rcases List.eq_nil_or_concat after with rfl | ⟨tail, last, rfl⟩
  · obtain ⟨rfl, hlast⟩ := List.append_inj' heq rfl
    exact hfired event (List.singleton_inj.mp hlast)
  · rw [List.concat_eq_append, ← List.cons_append, ← append_assoc] at heq
    exact h before event tail (List.append_inj' heq rfl).1

theorem CancelHonoured.readyObs (h : CancelHonoured log) (σ : LocalMemory) :
    CancelHonoured (log ++ σ.readyObs) := by
  unfold LocalMemory.readyObs
  generalize (σ.waits.filter fun w => w.test (σ.wordOf w)).map (fun w => (w, σ.wordOf w)) = ready
  induction ready using List.reverseRecOn with
  | nil =>
      rw [List.map_nil, append_nil]
      exact h
  | append_singleton ready p ih =>
      rw [List.map_append, ← append_assoc]
      exact ih.snoc fun event heq => nomatch heq

theorem registered_ofLog (h : .registered w ∈ log) : (WordHistory.ofLog w log).registered = true := by
  induction log using List.reverseRecOn with
  | nil => cases h
  | append_singleton log e ih =>
      rw [WordHistory.ofLog_snoc]
      rcases List.mem_append.mp h with hold | hnew
      · have hbefore := ih hold
        generalize WordHistory.ofLog w log = s at hbefore
        cases e with
        | ready | fired => exact hbefore
        | _ =>
            unfold WordHistory.step
            dsimp only
            split
            · first | exact hbefore | rfl
            · exact hbefore
      · rw [← List.mem_singleton.mp hnew]
        unfold WordHistory.step
        dsimp only
        rw [if_pos rfl]
        rfl

/-- Nothing is left of a wait that was cancelled. -/
structure Honouring (σ : LocalMemory) : Prop where
  honoured : CancelHonoured σ.log
  events : ∀ id, Retired id σ.log → ∀ e ∈ σ.events, e.wait.id ≠ id
  waits : ∀ id, Retired id σ.log → ∀ w ∈ σ.waits, w.id ≠ id

theorem Honouring.checked (h : Honouring σ) : Honouring σ.checked := by
  have hretired : ∀ id, Retired id σ.checked.log → Retired id σ.log := by
    intro id hid
    rw [LocalMemory.log_checked] at hid
    exact retired_readyObs hid
  refine ⟨h.honoured.readyObs σ, ?_, ?_⟩
  · intro id hid e he
    rw [LocalMemory.events_checked] at he
    rcases List.mem_append.mp he with hold | hnew
    · exact h.events id (hretired id hid) e hold
    · unfold LocalMemory.pollEvents at hnew
      split at hnew
      · obtain ⟨p, hp, rfl⟩ := List.mem_map.mp hnew
        obtain ⟨w, hw, rfl⟩ := List.mem_map.mp hp
        exact h.waits id (hretired id hid) w (List.mem_filter.mp hw).1
      · cases hnew
  · exact fun id hid w hw => h.waits id (hretired id hid) w (List.mem_filter.mp hw).1

theorem LocalMemory.Stepped.honouring {act : MemoryAct} (hstep : LocalMemory.Stepped σ act σ')
    (hwaiting : Waiting signalPoll σ) (hcancelled : σ.CancelledInTime act) (h : Honouring σ) :
    Honouring σ' := by
  -- only a cancellation adds to the retired waits
  have hother : ∀ e : MemoryObs, (∀ id, e ≠ .cancelled id) →
      ∀ id, Retired id (σ.log ++ [e]) → Retired id σ.log := by
    intro e he id hid
    rcases retired_snoc.mp hid with hold | ⟨heq, -⟩
    · exact hold
    · exact absurd heq (he id)
  have hknown : ∀ {id : Nat}, (∃ w, .registered w ∈ σ.log ∧ w.id = id) → id < σ.nextWait := by
    rintro id ⟨w, hw, rfl⟩
    exact hwaiting.ids w (registered_ofLog hw)
  cases hstep with
  | registers | unregisters | advances => exact ⟨h.honoured, h.events, h.waits⟩
  | writes memory address data =>
      have hsame := hother (.wrote address data) fun _ => nofun
      exact Honouring.checked ⟨h.honoured.snoc (fun event heq => nomatch heq),
        fun id hid => h.events id (hsame id hid), fun id hid => h.waits id (hsame id hid)⟩
  | waits w hid =>
      have hsame := hother (.registered w) fun _ => nofun
      refine Honouring.checked ⟨h.honoured.snoc (fun event heq => nomatch heq),
        fun id hretired => h.events id (hsame id hretired), ?_⟩
      · intro id hretired w' hw
        have hold := hsame id hretired
        rcases List.mem_append.mp hw with hbefore | hnew
        · exact h.waits id hold w' hbefore
        · obtain ⟨before, after, w'', heq, hw'', hid'⟩ := hold
          have hlt := hknown ⟨w'', by rw [heq]; exact List.mem_append_left _ hw'', hid'⟩
          rw [List.mem_singleton.mp hnew, hid]
          omega
  | cancels id hact =>
      rw [hact] at hcancelled
      refine ⟨h.honoured.snoc (fun event heq => nomatch heq), ?_, ?_⟩
      · intro id' hretired e he
        rcases retired_snoc.mp hretired with hold | ⟨heq, -⟩
        · exact h.events id' hold e he
        · cases heq
          exact hcancelled e he
      · intro id' hretired w hw
        obtain ⟨hin, hne⟩ := List.mem_filter.mp hw
        rcases retired_snoc.mp hretired with hold | ⟨heq, -⟩
        · exact h.waits id' hold w hin
        · cases heq
          exact of_decide_eq_true hne
  | fires i e hget =>
      have hmem := List.mem_of_getElem? hget
      have hsame := hother (.fired e) fun _ => nofun
      refine ⟨h.honoured.snoc ?_, ?_, fun id hid => h.waits id (hsame id hid)⟩
      · intro event heq hretired
        cases heq
        exact h.events _ hretired e hmem rfl
      · exact fun id hid e' he => h.events id (hsame id hid) e' (List.mem_of_mem_eraseIdx he)

/-- If waits are only cancelled before they are ready or when their callbacks have run, no callback runs after its
wait was cancelled. The other waits are never affected. -/
theorem cancelSignalWait_honoured (signalPoll : Nat) :
    ((memoryMachine signalPoll).restrict LocalMemory.CancelledInTime).Invariant fun σ =>
      CancelHonoured σ.log ∧ ∀ w, σ.InTime signalPoll w := by
  have hhonouring : ((memoryMachine signalPoll).restrict LocalMemory.CancelledInTime).Invariant
      Honouring := by
    refine Machine.Invariant.strengthen (Q := fun σ => σ.Kept ∧ Waiting signalPoll σ) ?_ ?_ ?_
    · intro σ hreach
      have hreach := hreach.of_restrict
      exact ⟨LocalMemory.kept_invariant signalPoll σ hreach, waiting_invariant signalPoll σ hreach⟩
    · rintro σ rfl
      refine ⟨?_, (fun id hid e he => nomatch he), fun id hid w hw => nomatch hw⟩
      intro before e after heq
      exact absurd heq.symm (by simp)
    · exact fun σ act σ' hbefore h hen hex =>
        (hbefore.1.stepped hen.1 hex).honouring hbefore.2 hen.2 h
  intro σ hreach
  have h := waiting_invariant signalPoll σ hreach.of_restrict
  exact ⟨(hhonouring σ hreach).honoured, fun w => ⟨h.found w, h.scheduled_eq w⟩⟩

/-- Of two waits for one value the first is cancelled; the write makes the other one ready, and
that one is cancelled when its callback has run. -/
theorem cancelSignalWait_honoured_twoWaits :
    ∃ σ, ((memoryMachine 0).restrict LocalMemory.CancelledInTime).Reachable σ ∧
      σ.log = [.registered ⟨1, 0, 5, .eq⟩, .registered ⟨2, 0, 5, .eq⟩, .cancelled 1,
        .wrote 0 [5, 0, 0, 0, 0, 0, 0, 0], .ready 0 ⟨2, 0, 5, .eq⟩ 5,
        .fired ⟨0, ⟨2, 0, 5, .eq⟩, 5⟩, .cancelled 2] ∧
      CancelHonoured σ.log ∧ ∀ w, σ.InTime 0 w := by
  have hrun : (((memoryMachine 0).restrict LocalMemory.CancelledInTime).runs { signalPoll := 0 }
      [.registerMemory 0 8 1, .waitSignal 0 .eq 5, .waitSignal 0 .eq 5, .cancelSignalWait 1,
        .writeWord 0 5, .fire 0, .cancelSignalWait 2]).map LocalMemory.log =
      some [.registered ⟨1, 0, 5, .eq⟩, .registered ⟨2, 0, 5, .eq⟩, .cancelled 1,
        .wrote 0 [5, 0, 0, 0, 0, 0, 0, 0], .ready 0 ⟨2, 0, 5, .eq⟩ 5,
        .fired ⟨0, ⟨2, 0, 5, .eq⟩, 5⟩, .cancelled 2] := by
    decide +kernel
  obtain ⟨σ, hreach, hlog⟩ := Machine.Reachable.exists_of_runs rfl hrun
  exact ⟨σ, hreach, hlog, cancelSignalWait_honoured 0 σ hreach⟩

/-- A wait that is satisfied when it is registered, and cancelled before its callback runs. -/
theorem not_cancelHonoured : ¬ (memoryMachine 0).Invariant fun σ => CancelHonoured σ.log := by
  intro h
  have hrun : ((memoryMachine 0).runs { signalPoll := 0 }
      [.registerMemory 0 8 1, .waitSignal 0 .eq 0, .cancelSignalWait 1, .fire 0]).map LocalMemory.log =
      some [.registered ⟨1, 0, 0, .eq⟩, .ready 0 ⟨1, 0, 0, .eq⟩ 0, .cancelled 1,
        .fired ⟨0, ⟨1, 0, 0, .eq⟩, 0⟩] := by
    decide +kernel
  obtain ⟨σ, hreach, hlog⟩ := Machine.Reachable.exists_of_runs rfl hrun
  have hhonoured : CancelHonoured σ.log := h σ hreach
  rw [hlog] at hhonoured
  exact hhonoured [_, _, _] _ [] rfl ⟨[_, _], [], _, rfl, List.mem_cons_self, rfl⟩

end ProtoBridge.Rdma
