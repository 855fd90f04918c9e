import ProtoBridge.Lib.Table
import ProtoBridge.Rdma.Inbox

/-!
# Posted receives

What holds of the receiving side in every run whose fragments arrive as new
parts of their transfers. `Ledgered` balances, for each request being received,
what has landed, what is on its way to memory and what waits for space against
what was accepted; from it follows that a request completes once. `Stocked` says
where every posted receive is.
-/

namespace ProtoBridge.Rdma

open Lib Relation
open Function (update update_apply update_eq_self update_of_ne update_self)
open List (append_nil map_append map_nil sum_append sum_nil)
open Multiset (card_add card_singleton coe_add coe_nil coe_singleton filterMap_add map_add
  map_singleton singleton_add sum_add sum_eq_zero sum_singleton)

/-- The bytes a closure will land for request `i`. -/
def Cont.writes (i : Nat) : Cont → Nat
  | .destinationWritten _ j p => if j = i then p.header.effectiveDataSize else 0
  | _ => 0

/-- One for the copy that completes request `i`. -/
def Cont.copies (i : Nat) : Cont → Nat
  | .destinationCopied _ j _ => if j = i then 1 else 0
  | _ => 0

/-- The request a closure belongs to. -/
def Cont.serves? : Cont → Option (Key × Nat)
  | .allocated key i | .destinationWritten key i _ | .destinationCopied key i _ => some (key, i)
  | _ => none

/-- The closure lands at least a byte. -/
def Cont.nonempty : Cont → Prop
  | .destinationWritten _ _ p => 0 < p.header.effectiveDataSize
  | _ => True

variable {k : Cont}

theorem Cont.writes_of_serves (h : k.serves? = none) (i : Nat) : k.writes i = 0 := by
  cases k <;> first | rfl | cases h

theorem Cont.copies_of_serves (h : k.serves? = none) (i : Nat) : k.copies i = 0 := by
  cases k <;> first | rfl | cases h

/-- The bytes that wait for staging space. -/
def Incoming.held (n : Incoming) : Nat := (n.waiting.map fun p => p.header.effectiveDataSize).sum

/-- An accepted fragment of the work request with this key. -/
def Obs.accepts (key : Key) (bytes : Nat) : Obs → Prop
  | .accepted k p => k = key → p.tag.bytes = bytes
  | _ => True

/-- The receive a closure is about to queue. -/
def Cont.posting? : Cont → Option PostedReceive
  | .enqueueReceive r => some r
  | _ => none

/-- The receive whose completion was reported. -/
def Obs.received? : Obs → Option PostedReceive
  | .received r _ => some r
  | _ => none

/-- The receive that a work request took. -/
def Obs.takenFor? (key : Key) : Obs → Option PostedReceive
  | .taken k r => if k = key then some r else none
  | _ => none

namespace Inbox

variable {v v' : Inbox}

/-- The bytes on their way to memory for request `i`. -/
def writing (v : Inbox) (i : Nat) : Nat := (v.work.map (Cont.writes i)).sum

/-- The copies that will complete request `i`. -/
def copying (v : Inbox) (i : Nat) : Nat := (v.work.map (Cont.copies i)).sum

/-- The work request that entry `i` receives. -/
def keyOf (v : Inbox) (i : Nat) : Key := (v.obj i).tag.key

/-- Entry `i` is in the map. -/
def Live (v : Inbox) (i : Nat) : Prop := v.incoming.lookup (v.keyOf i) = some i

/-- Every request has its bytes accounted for, and completes when the last one has landed. -/
structure Ledgered (v : Inbox) : Prop where
  regions : ∀ kr ∈ v.regions, kr.2.bytes ≤ u64Max
  entry : ∀ key i, v.incoming.lookup key = some i → i < v.next ∧ v.keyOf i = key
  closure : ∀ k ∈ v.work, ∀ key i, k.serves? = some (key, i) → i < v.next ∧ v.keyOf i = key
  nonempty : ∀ k ∈ v.work, k.nonempty
  waiting : ∀ i < v.next, ∀ p ∈ (v.obj i).waiting, 0 < p.header.effectiveDataSize
  single : ∀ i < v.next, ∀ j < v.next, v.keyOf i = v.keyOf j → i = j
  /-- Accepted bytes have landed, are on their way or wait. -/
  balance : ∀ i < v.next,
    (v.obj i).received + v.writing i + (v.obj i).held = acceptedBytes v.log (v.keyOf i)
  bound : ∀ i < v.next, acceptedBytes v.log (v.keyOf i) ≤ (v.obj i).tag.bytes
  opened : ∀ i < v.next, 0 < acceptedBytes v.log (v.keyOf i)
  agree : ∀ i < v.next, ∀ e ∈ v.log, e.accepts (v.keyOf i) (v.obj i).tag.bytes
  bytes : ∀ i < v.next, (v.obj i).tag.bytes ≤ u64Max
  /-- A live request that has all its bytes is about to be copied. -/
  copy : ∀ i < v.next, v.Live i →
    v.copying i = if (v.obj i).received = (v.obj i).tag.bytes then 1 else 0
  /-- A request that has left the map is complete. -/
  done : ∀ i < v.next, ¬ v.Live i → (v.obj i).received = (v.obj i).tag.bytes ∧ v.copying i = 0
  fresh : ∀ key, (∀ i < v.next, v.keyOf i ≠ key) → acceptedBytes v.log key = 0

variable {i : Nat} {key : Key} {p : Piece} {receive : Option PostedReceive} {n : Incoming}

theorem live_congr (htag : ∀ j, (v'.obj j).tag = (v.obj j).tag) (hin : v'.incoming = v.incoming)
    : v'.Live i ↔ v.Live i := by
  rw [Live, Live, keyOf, keyOf, htag, hin]

theorem exists_accepted {log : List Obs} (h : 0 < acceptedBytes log key) :
    ∃ p, Obs.accepted key p ∈ log := by
  by_contra hno
  refine absurd h (Nat.not_lt.mpr (Nat.le_of_eq ?_))
  refine List.sum_eq_zero fun n hn => ?_
  obtain ⟨e, he, rfl⟩ := List.mem_map.mp hn
  cases e with
  | accepted k p =>
      by_cases hk : k = key
      · subst hk
        exact absurd ⟨p, he⟩ hno
      · exact if_neg hk
  | _ => rfl

namespace Ledgered

theorem same_bytes (h : v.Ledgered) (hi : i < v.next) (hkey : v.keyOf i = p.tag.key)
    (hnew : IsNew v.log p) : p.tag.bytes = (v.obj i).tag.bytes := by
  obtain ⟨q, hq⟩ := exists_accepted (h.opened i hi)
  have hagree : q.tag.bytes = (v.obj i).tag.bytes := h.agree i hi _ hq rfl
  have hsame := hnew.sameWork _ hq
  simp only [Obs.agrees, hkey, ne_eq, not_true_eq_false, decide_false, Bool.false_or, beq_iff_eq] at hsame
  rw [← hsame, hagree]

theorem live_of_short (h : v.Ledgered) (hi : i < v.next)
    (hshort : acceptedBytes v.log (v.keyOf i) < (v.obj i).tag.bytes) : v.Live i := by
  by_contra hlive
  have hdone := (h.done i hi hlive).1
  have hbalance := h.balance i hi
  omega

theorem unopened (h : v.Ledgered) (hlook : v.incoming.lookup p.tag.key = none)
    (hnew : IsNew v.log p) : ∀ i < v.next, v.keyOf i ≠ p.tag.key := by
  intro i hi hkey
  have hbytes := h.same_bytes hi hkey hnew
  have hfits := hnew.fits
  have hpos := hnew.nonempty
  rw [← hkey] at hfits
  have hlive := h.live_of_short hi (by omega)
  rw [Live, hkey, hlook] at hlive
  cases hlive

/-- Closures of other requests and events that accept nothing leave the ledger alone. -/
theorem frame (h : v.Ledgered) {w o t : Multiset Cont} (es : List Obs)
    (hwork : v.work = w + o) (hwork' : v'.work = w + t)
    (hks : ∀ k ∈ o, k.serves? = none) (hks' : ∀ k ∈ t, k.serves? = none ∧ k.nonempty)
    (hlog : v'.log = v.log ++ es) (hes : ∀ e ∈ es, ∀ key p, e ≠ .accepted key p)
    (hregions : ∀ kr ∈ v'.regions, kr.2.bytes ≤ u64Max)
    (hfields : (v'.incoming, v'.obj, v'.next) = (v.incoming, v.obj, v.next)) : v'.Ledgered := by
  simp only [Prod.mk.injEq] at hfields
  obtain ⟨hin, hobj, hnext⟩ := hfields
  have hkeyOf : v'.keyOf = v.keyOf := by funext i; rw [keyOf, keyOf, hobj]
  have hlive : ∀ i, v'.Live i ↔ v.Live i := fun i => live_congr (fun j => by rw [hobj]) hin
  have hsum : ∀ f : Cont → Nat, (∀ k, k.serves? = none → f k = 0) →
      (v'.work.map f).sum = (v.work.map f).sum := by
    intro f hf
    have hzero : ∀ s : Multiset Cont, (∀ k ∈ s, k.serves? = none) → (s.map f).sum = 0 := by
      intro s hs
      refine sum_eq_zero fun n hn => ?_
      obtain ⟨k, hk, rfl⟩ := Multiset.mem_map.mp hn
      exact hf k (hs k hk)
    rw [hwork, hwork', map_add, map_add, sum_add, sum_add,
      hzero o hks, hzero t fun k hk => (hks' k hk).1]
  have hwriting : ∀ i, v'.writing i = v.writing i := fun i =>
    hsum _ fun k hk => Cont.writes_of_serves hk i
  have hcopying : ∀ i, v'.copying i = v.copying i := fun i =>
    hsum _ fun k hk => Cont.copies_of_serves hk i
  have hbytes : ∀ key, acceptedBytes v'.log key = acceptedBytes v.log key := by
    intro key
    have hzero : (es.map (Obs.bytesFor key)).sum = 0 := by
      refine List.sum_eq_zero fun n hn => ?_
      obtain ⟨e, he, rfl⟩ := List.mem_map.mp hn
      cases e with
      | accepted k p => exact absurd rfl (hes _ he k p)
      | _ => rfl
    rw [acceptedBytes, acceptedBytes, hlog, map_append, sum_append, hzero, add_zero]
  refine ⟨hregions, ?_, ?_, ?_, ?_, ?_, ?_, ?_, ?_, ?_, ?_, ?_, ?_, ?_⟩
  · rw [hin, hnext, hkeyOf]
    exact h.entry
  · intro k hk key i hserves
    rw [hwork'] at hk
    rw [hnext, hkeyOf]
    rcases Multiset.mem_add.mp hk with hk | hk
    · exact h.closure k (hwork ▸ Multiset.mem_add.mpr (.inl hk)) key i hserves
    · rw [(hks' k hk).1] at hserves
      cases hserves
  · intro k hk
    rw [hwork'] at hk
    rcases Multiset.mem_add.mp hk with hk | hk
    · exact h.nonempty k (hwork ▸ Multiset.mem_add.mpr (.inl hk))
    · exact (hks' k hk).2
  · rw [hnext, hobj]
    exact h.waiting
  · rw [hnext, hkeyOf]
    exact h.single
  · simp only [hnext, hobj, hkeyOf, hwriting, hbytes]
    exact h.balance
  · simp only [hnext, hobj, hkeyOf, hbytes]
    exact h.bound
  · simp only [hnext, hkeyOf, hbytes]
    exact h.opened
  -- agree
  · intro i hi e he
    rw [hnext] at hi
    rw [hkeyOf, hobj]
    rw [hlog] at he
    rcases List.mem_append.mp he with he | he
    · exact h.agree i hi e he
    · cases e with
      | accepted k p => exact absurd rfl (hes _ he k p)
      | _ => trivial
  · rw [hnext, hobj]
    exact h.bytes
  · simp only [hnext, hobj, hlive, hcopying]
    exact h.copy
  · simp only [hnext, hobj, hlive, hcopying]
    exact h.done
  · simp only [hnext, hkeyOf, hbytes]
    exact h.fresh

/-- A step that opens no request: what it accepts is landed, on its way or waiting. -/
theorem move (h : v.Ledgered) (es : List Obs) (hregions : v'.regions = v.regions)
    (hnext : v'.next = v.next) (htag : ∀ j, (v'.obj j).tag = (v.obj j).tag)
    (hentry : ∀ key j, v'.incoming.lookup key = some j → v.incoming.lookup key = some j)
    (hclosure : ∀ k ∈ v'.work, (∀ key j, k.serves? = some (key, j) → j < v.next ∧ v.keyOf j = key) ∧
      k.nonempty)
    (hwaiting : ∀ j < v.next, ∀ p ∈ (v'.obj j).waiting, 0 < p.header.effectiveDataSize)
    (hlog : v'.log = v.log ++ es)
    (hbalance : ∀ j < v.next, (v'.obj j).received + v'.writing j + (v'.obj j).held =
      (v.obj j).received + v.writing j + (v.obj j).held + acceptedBytes es (v.keyOf j))
    (hbound : ∀ j < v.next, acceptedBytes v'.log (v.keyOf j) ≤ (v.obj j).tag.bytes)
    (hagree : ∀ j < v.next, ∀ e ∈ es, e.accepts (v.keyOf j) (v.obj j).tag.bytes)
    (hfresh : ∀ key, (∀ j < v.next, v.keyOf j ≠ key) → acceptedBytes es key = 0)
    (hcopy : ∀ j < v.next, v'.Live j →
      v'.copying j = if (v'.obj j).received = (v.obj j).tag.bytes then 1 else 0)
    (hdone : ∀ j < v.next, ¬ v'.Live j →
      (v'.obj j).received = (v.obj j).tag.bytes ∧ v'.copying j = 0) : v'.Ledgered := by
  have hkeyOf : ∀ j, v'.keyOf j = v.keyOf j := fun j => by rw [keyOf, keyOf, htag]
  have hsum : ∀ key, acceptedBytes v'.log key = acceptedBytes v.log key + acceptedBytes es key := by
    intro key
    simp only [acceptedBytes, hlog, map_append, sum_append]
  refine ⟨?_, ?_, ?_, fun k hk => (hclosure k hk).2, ?_, ?_, ?_, ?_, ?_, ?_, ?_, ?_, ?_, ?_⟩
  · rw [hregions]
    exact h.regions
  · intro key j hj
    rw [hnext, hkeyOf]
    exact h.entry key j (hentry key j hj)
  · intro k hk key j hserves
    rw [hnext, hkeyOf]
    exact (hclosure k hk).1 key j hserves
  · rw [hnext]
    exact hwaiting
  · intro i hi j hj hij
    rw [hnext] at hi hj
    rw [hkeyOf, hkeyOf] at hij
    exact h.single i hi j hj hij
  · intro j hj
    rw [hnext] at hj
    rw [hbalance j hj, h.balance j hj, hkeyOf, hsum]
  · intro j hj
    rw [hnext] at hj
    rw [hkeyOf, htag]
    exact hbound j hj
  · intro j hj
    rw [hnext] at hj
    have hopened := h.opened j hj
    rw [hkeyOf, hsum]
    omega
  · intro j hj e he
    rw [hnext] at hj
    rw [hkeyOf, htag]
    rw [hlog] at he
    rcases List.mem_append.mp he with he | he
    · exact h.agree j hj e he
    · exact hagree j hj e he
  · intro j hj
    rw [hnext] at hj
    rw [htag]
    exact h.bytes j hj
  · intro j hj hlive
    rw [hnext] at hj
    rw [htag]
    exact hcopy j hj hlive
  · intro j hj hlive
    rw [hnext] at hj
    rw [htag]
    exact hdone j hj hlive
  · intro key hkey
    have hno : ∀ j < v.next, v.keyOf j ≠ key := fun j hj => hkeyOf j ▸ hkey j (hnext ▸ hj)
    rw [hsum, h.fresh key hno, hfresh key hno]

end Ledgered

theorem acceptedBytes_singleton (key : Key) (p : Piece) :
    acceptedBytes [.accepted p.tag.key p] key =
      if p.tag.key = key then p.header.effectiveDataSize else 0 := by
  simp [acceptedBytes, Obs.bytesFor]

/-- A fragment of a request in the map is accepted. -/
theorem Ledgered.accepted (h : v.Ledgered) (hlook : v.incoming.lookup p.tag.key = some i)
    (hnew : IsNew v.log p) (hregions : v'.regions = v.regions) (hnext : v'.next = v.next)
    (htag : ∀ j, (v'.obj j).tag = (v.obj j).tag) (hin : v'.incoming = v.incoming)
    (hclosure : ∀ k ∈ v'.work, (∀ key j, k.serves? = some (key, j) → j < v.next ∧ v.keyOf j = key) ∧
      k.nonempty)
    (hwaiting : ∀ j < v.next, ∀ q ∈ (v'.obj j).waiting, 0 < q.header.effectiveDataSize)
    (hlog : v'.log = v.log ++ [.accepted p.tag.key p])
    (hreceived : ∀ j, (v'.obj j).received = (v.obj j).received)
    (hbalance : ∀ j < v.next, v'.writing j + (v'.obj j).held =
      v.writing j + (v.obj j).held + if i = j then p.header.effectiveDataSize else 0)
    (hcopying : ∀ j, v'.copying j = v.copying j) : v'.Ledgered := by
  obtain ⟨hi, hkey⟩ := h.entry _ i hlook
  have hbytes := h.same_bytes hi hkey hnew
  have hlive : ∀ j, v'.Live j ↔ v.Live j := fun j => live_congr htag hin
  -- the fragment counts for entry `i` and no other
  have hmine : ∀ j < v.next, (p.tag.key = v.keyOf j ↔ i = j) := by
    intro j hj
    refine ⟨fun hpj => h.single i hi j hj (hkey.trans hpj), ?_⟩
    rintro rfl
    exact hkey.symm
  have hsum : ∀ j < v.next, acceptedBytes [.accepted p.tag.key p] (v.keyOf j) =
      if i = j then p.header.effectiveDataSize else 0 := by
    intro j hj
    rw [acceptedBytes_singleton]
    simp only [hmine j hj]
  refine h.move [.accepted p.tag.key p] hregions hnext htag (fun key j => by rw [hin]; exact id)
    hclosure hwaiting hlog ?_ ?_ ?_ ?_ ?_ ?_
  · intro j hj
    have hj' := hbalance j hj
    rw [hreceived, hsum j hj]
    omega
  · intro j hj
    have hold := h.bound j hj
    rw [hlog, acceptedBytes, map_append, sum_append]
    change acceptedBytes v.log (v.keyOf j) + acceptedBytes [.accepted p.tag.key p] (v.keyOf j) ≤ _
    rw [hsum j hj]
    split
    · rename_i hij
      subst hij
      have hfits := hnew.fits
      rw [← hkey, hbytes] at hfits
      exact hfits
    · omega
  · intro j hj e he
    rw [List.mem_singleton.mp he]
    intro hpj
    have hij := (hmine j hj).mp hpj
    rw [← hij]
    exact hbytes
  · intro key hno
    rw [acceptedBytes_singleton, if_neg fun hpk => hno i hi (hkey.trans hpk)]
  · intro j hj hl
    rw [hcopying, hreceived]
    exact h.copy j hj ((hlive j).mp hl)
  · intro j hj hl
    rw [hcopying, hreceived]
    exact h.done j hj fun hl' => hl ((hlive j).mpr hl')

theorem sum_writes_pieces (key : Key) (i j : Nat) (ps : List Piece) :
    (((ps.map (.destinationWritten key i) : List Cont) : Multiset Cont).map (Cont.writes j)).sum =
      if i = j then (ps.map fun p => p.header.effectiveDataSize).sum else 0 := by
  induction ps with
  | nil => simp
  | cons p ps ih =>
      rw [Multiset.map_coe, Multiset.sum_coe] at ih ⊢
      simp only [List.map_cons, List.sum_cons, ih, Cont.writes]
      split <;> rfl

theorem sum_copies_pieces (key : Key) (i j : Nat) (ps : List Piece) :
    (((ps.map (.destinationWritten key i) : List Cont) : Multiset Cont).map (Cont.copies j)).sum = 0 := by
  induction ps with
  | nil => rfl
  | cons p ps ih =>
      rw [Multiset.map_coe, Multiset.sum_coe] at ih ⊢
      rw [List.map_cons, List.map_cons, List.sum_cons, ih]
      rfl

namespace Ledgered

variable {k : Cont} {ks : Multiset Cont}

theorem closures_add (h : v.Ledgered)
    (hk : ∀ key j, k.serves? = some (key, j) → j < v.next ∧ v.keyOf j = key) (hpos : k.nonempty) :
    ∀ k' ∈ v.work + {k}, (∀ key j, k'.serves? = some (key, j) → j < v.next ∧ v.keyOf j = key) ∧
      k'.nonempty := by
  intro k' hk'
  rcases Multiset.mem_add.mp hk' with hk' | hk'
  · exact ⟨h.closure k' hk', h.nonempty k' hk'⟩
  · rw [Multiset.mem_singleton.mp hk']
    exact ⟨hk, hpos⟩

variable {rest : Multiset Cont}

theorem closures_rest (h : v.Ledgered) (hwork : v.work = rest + ks) :
    ∀ k ∈ rest, (∀ key j, k.serves? = some (key, j) → j < v.next ∧ v.keyOf j = key) ∧
      k.nonempty := by
  intro k hk
  have hmem : k ∈ v.work := hwork ▸ Multiset.mem_add.mpr (.inl hk)
  exact ⟨h.closure k hmem, h.nonempty k hmem⟩

theorem acceptNow (h : v.Ledgered) {p : Piece} {i : Nat}
    (hlook : v.incoming.lookup p.tag.key = some i) (hnew : IsNew v.log p) :
    Ledgered { v with
      work := v.work + {.destinationWritten p.tag.key i p}
      log := v.log ++ [.accepted p.tag.key p] } := by
  obtain ⟨hi, hkey⟩ := h.entry _ i hlook
  refine h.accepted hlook hnew rfl rfl (fun _ => rfl) rfl ?_ h.waiting rfl (fun _ => rfl) ?_ ?_
  · refine h.closures_add ?_ hnew.nonempty
    rintro key j hserves
    cases hserves
    exact ⟨hi, hkey⟩
  · intro j _
    simp only [writing, map_add, map_singleton, sum_add,
      sum_singleton, Cont.writes]
    omega
  · intro j
    simp [copying, Cont.copies]

theorem acceptLater (h : v.Ledgered) {p : Piece} {i : Nat}
    (hlook : v.incoming.lookup p.tag.key = some i) (hnew : IsNew v.log p) :
    Ledgered { (v.setObj i { v.obj i with waiting := (v.obj i).waiting ++ [p] }) with
      log := v.log ++ [.accepted p.tag.key p] } := by
  -- only the list of waiting fragments of entry `i` changes
  have hobj : ∀ j, update v.obj i { v.obj i with waiting := (v.obj i).waiting ++ [p] } j =
      { v.obj j with waiting := (v.obj j).waiting ++ if i = j then [p] else [] } := by
    intro j
    by_cases hij : i = j
    · subst hij
      simp
    · rw [update_of_ne (Ne.symm hij), if_neg hij, append_nil]
  refine h.accepted hlook hnew rfl rfl ?_ rfl ?_ ?_ rfl ?_ ?_ (fun _ => rfl)
  · intro j
    simp only [setObj_obj, hobj]
  · exact fun k hk => ⟨h.closure k hk, h.nonempty k hk⟩
  · intro j hj q hq
    simp only [setObj_obj, hobj] at hq
    rcases List.mem_append.mp hq with hq | hq
    · exact h.waiting j hj q hq
    · split at hq
      · rw [List.mem_singleton.mp hq]
        exact hnew.nonempty
      · cases hq
  · intro j
    simp only [setObj_obj, hobj]
  · intro j _
    change v.writing j + Incoming.held (update v.obj i _ j) = _
    rw [hobj]
    simp only [Incoming.held, map_append, sum_append]
    split
    · simp only [List.map_cons, map_nil, List.sum_cons, sum_nil]
      omega
    · simp only [map_nil, sum_nil]
      omega

theorem allocate (h : v.Ledgered) {key : Key} {i : Nat} {rest : Multiset Cont}
    (hwork : v.work = rest + {.allocated key i}) :
    Ledgered { (v.setObj i { v.obj i with allocated := true, waiting := [] }) with
      work := rest + ((v.obj i).waiting.map (.destinationWritten key i) : List Cont) } := by
  obtain ⟨hi, hkey⟩ := h.closure (.allocated key i) (by rw [hwork]; simp) key i rfl
  have hobj : ∀ j, (v.setObj i { v.obj i with allocated := true, waiting := [] }).obj j =
      if j = i then { v.obj i with allocated := true, waiting := [] } else v.obj j := by
    intro j
    rw [setObj_obj, update_apply]
  have hwrites : ∀ j, v.writing j = (rest.map (Cont.writes j)).sum := by
    intro j
    simp [writing, hwork, Cont.writes]
  have hcopies : ∀ j, v.copying j = (rest.map (Cont.copies j)).sum := by
    intro j
    simp [copying, hwork, Cont.copies]
  have htag : ∀ j, ((v.setObj i { v.obj i with allocated := true, waiting := [] }).obj j).tag =
      (v.obj j).tag := by
    intro j
    rw [hobj]
    split
    · rename_i hj
      rw [hj]
    · rfl
  refine h.move [] rfl rfl htag (fun _ _ => id) ?_ ?_ (append_nil _).symm ?_ h.bound (by simp)
    (by simp [acceptedBytes]) ?_ ?_
  · intro k hk
    rcases Multiset.mem_add.mp hk with hk | hk
    · exact h.closures_rest hwork k hk
    · obtain ⟨p, hp, rfl⟩ := List.mem_map.mp (Multiset.mem_coe.mp hk)
      refine ⟨?_, h.waiting i hi p hp⟩
      rintro key' j hserves
      cases hserves
      exact ⟨hi, hkey⟩
  · intro j hj p hp
    simp only [hobj] at hp
    split at hp
    · cases hp
    · exact h.waiting j hj p hp
  · intro j _
    have hwriting : writing { (v.setObj i { v.obj i with allocated := true, waiting := [] }) with
        work := rest + ((v.obj i).waiting.map (.destinationWritten key i) : List Cont) } j =
        v.writing j + if i = j then (v.obj i).held else 0 := by
      rw [hwrites, writing, map_add, sum_add, sum_writes_pieces]
      rfl
    rw [hwriting]
    simp only [hobj, acceptedBytes, map_nil, sum_nil, add_zero]
    by_cases hj : j = i
    · subst hj
      simp only [↓reduceIte, Incoming.held, map_nil, sum_nil]
      omega
    · rw [if_neg hj, if_neg (Ne.symm hj), add_zero]
  all_goals
    have hcopying : ∀ j, copying { (v.setObj i { v.obj i with allocated := true, waiting := [] }) with
        work := rest + ((v.obj i).waiting.map (.destinationWritten key i) : List Cont) } j =
        v.copying j := by
      intro j
      rw [hcopies, copying, map_add, sum_add, sum_copies_pieces, add_zero]
    have hreceived : ∀ j, ((v.setObj i { v.obj i with allocated := true, waiting := [] }).obj j).received =
        (v.obj j).received := by
      intro j
      rw [hobj]
      split
      · rename_i hj
        rw [hj]
      · rfl
    intro j hj hlive
    rw [hcopying, hreceived]
  · exact h.copy j hj ((live_congr htag rfl).mp hlive)
  · exact h.done j hj fun hl => hlive ((live_congr htag rfl).mpr hl)

theorem landing (h : v.Ledgered) (hwork : v.work = rest + {.destinationWritten key i p}) :
    v.Live i ∧ v.copying i = 0 ∧
      (v.obj i).received + p.header.effectiveDataSize ≤ (v.obj i).tag.bytes ∧
      (v.obj i).tag.bytes ≤ u64Max := by
  have hmem : Cont.destinationWritten key i p ∈ v.work := by rw [hwork]; simp
  obtain ⟨hi, hkey⟩ := h.closure _ hmem key i rfl
  have hpos : 0 < p.header.effectiveDataSize := h.nonempty _ hmem
  have hwriting : v.writing i = (rest.map (Cont.writes i)).sum + p.header.effectiveDataSize := by
    simp [writing, hwork, Cont.writes]
  have hbalance := h.balance i hi
  have hbound := h.bound i hi
  have hlive : v.Live i := by
    by_contra hlive
    have hdone := (h.done i hi hlive).1
    omega
  refine ⟨hlive, ?_, by omega, h.bytes i hi⟩
  rw [h.copy i hi hlive, if_neg (by omega)]

/-- A closure of request `i` has run: its bytes have landed, and either the request goes on or
it leaves the map with all its bytes. -/
theorem settle (h : v.Ledgered) (hwork : v.work = rest + {k}) (hserves : k.serves? = some (key, i))
    (hlive : v.Live i) (hwork' : v'.work = rest + ks)
    (hks : ∀ k' ∈ ks, (∀ key' j, k'.serves? = some (key', j) → key' = key ∧ j = i) ∧ k'.nonempty ∧
      ∀ j, k'.writes j = 0) (hobj : v'.obj = update v.obj i n)
    (htag : n.tag = (v.obj i).tag) (hwaiting : n.waiting = (v.obj i).waiting)
    (hreceived : n.received = (v.obj i).received + k.writes i) (hregions : v'.regions = v.regions)
    (hnext : v'.next = v.next) (hlog : v'.log = v.log) (hend : v'.incoming = v.incoming ∧
        v'.copying i = (if n.received = (v.obj i).tag.bytes then 1 else 0) ∨
      v'.incoming = v.incoming.erase key ∧ n.received = (v.obj i).tag.bytes ∧ v'.copying i = 0) :
    v'.Ledgered := by
  obtain ⟨hi, hkey⟩ := h.closure k (by rw [hwork]; simp) key i hserves
  -- the closure counts for entry `i` only
  have hother : ∀ j, j ≠ i → k.writes j = 0 ∧ k.copies j = 0 := by
    intro j hj
    cases k with
    | destinationWritten key' i' p =>
        cases hserves
        exact ⟨if_neg (Ne.symm hj), rfl⟩
    | destinationCopied key' i' p =>
        cases hserves
        exact ⟨rfl, if_neg (Ne.symm hj)⟩
    | _ => exact ⟨rfl, rfl⟩
  have hobj_ne : ∀ j, j ≠ i → v'.obj j = v.obj j := by
    intro j hj
    rw [hobj, update_of_ne hj]
  have hobj_self : v'.obj i = n := by rw [hobj, update_self]
  have htags : ∀ j, (v'.obj j).tag = (v.obj j).tag := by
    intro j
    by_cases hj : j = i
    · rw [hj, hobj_self, htag]
    · rw [hobj_ne j hj]
  have hks_writes : ∀ j, (ks.map (Cont.writes j)).sum = 0 := by
    intro j
    refine sum_eq_zero fun x hx => ?_
    obtain ⟨k', hk', rfl⟩ := Multiset.mem_map.mp hx
    exact (hks k' hk').2.2 j
  have hks_copies : ∀ j, j ≠ i → (ks.map (Cont.copies j)).sum = 0 := by
    intro j hj
    refine sum_eq_zero fun x hx => ?_
    obtain ⟨k', hk', rfl⟩ := Multiset.mem_map.mp hx
    cases k' with
    | destinationCopied key' i' p =>
        have := ((hks _ hk').1 key' i' rfl).2
        exact if_neg (by omega)
    | _ => rfl
  have hwriting : ∀ j, v.writing j = v'.writing j + k.writes j := by
    intro j
    simp only [writing, hwork, hwork', map_add, sum_add, hks_writes j,
      map_singleton, sum_singleton, add_zero]
  have hcopying : ∀ j, j ≠ i → v'.copying j = v.copying j := by
    intro j hj
    simp only [copying, hwork, hwork', map_add, sum_add, hks_copies j hj,
      map_singleton, sum_singleton, (hother j hj).2, add_zero]
  have hlive_ne : ∀ j < v.next, j ≠ i → (v'.Live j ↔ v.Live j) := by
    intro j hj hne
    rcases hend with ⟨hin, -⟩ | ⟨hin, -⟩
    · exact live_congr htags hin
    · have hkeys : v.keyOf j ≠ key := fun hk => hne (h.single j hj i hi (hk.trans hkey.symm))
      have hkeyOf : v'.keyOf j = v.keyOf j := by rw [keyOf, keyOf, htags]
      rw [Live, Live, hin, hkeyOf, AList.lookup_erase_ne hkeys]
  refine h.move [] hregions hnext htags ?_ ?_ ?_ (by rw [hlog, append_nil]) ?_ ?_ (by simp)
    (by simp [acceptedBytes]) ?_ ?_
  · intro key' j hlook
    rcases hend with ⟨hin, -⟩ | ⟨hin, -⟩
    · rwa [hin] at hlook
    · rw [hin] at hlook
      by_cases hk : key' = key
      · rw [hk, AList.lookup_erase] at hlook
        cases hlook
      · rwa [AList.lookup_erase_ne hk] at hlook
  · intro k' hk'
    rw [hwork'] at hk'
    rcases Multiset.mem_add.mp hk' with hk' | hk'
    · exact h.closures_rest hwork k' hk'
    · refine ⟨?_, (hks k' hk').2.1⟩
      intro key' j hserves'
      obtain ⟨rfl, rfl⟩ := (hks k' hk').1 key' j hserves'
      exact ⟨hi, hkey⟩
  · intro j hj q hq
    by_cases hji : j = i
    · rw [hji, hobj_self, hwaiting] at hq
      exact h.waiting i hi q hq
    · rw [hobj_ne j hji] at hq
      exact h.waiting j hj q hq
  · intro j _
    have hj' := hwriting j
    simp only [acceptedBytes, map_nil, sum_nil, add_zero]
    by_cases hji : j = i
    · subst hji
      rw [hobj_self, hreceived, Incoming.held, hwaiting]
      change _ = _ + _ + ((v.obj j).waiting.map fun p => p.header.effectiveDataSize).sum
      omega
    · rw [hobj_ne j hji]
      have := (hother j hji).1
      omega
  · rw [hlog]
    exact h.bound
  · intro j hj hl
    by_cases hji : j = i
    · subst hji
      rw [hobj_self]
      rcases hend with ⟨-, hc⟩ | ⟨hin, -⟩
      · exact hc
      · rw [Live, keyOf, htags, hin, ← hkey, keyOf, AList.lookup_erase] at hl
        cases hl
    · rw [hcopying j hji, hobj_ne j hji]
      exact h.copy j hj ((hlive_ne j hj hji).mp hl)
  · intro j hj hl
    by_cases hji : j = i
    · subst hji
      rw [hobj_self]
      rcases hend with ⟨hin, -⟩ | ⟨-, hfull, hc⟩
      · exact absurd ((live_congr htags hin).mpr hlive) hl
      · exact ⟨hfull, hc⟩
    · rw [hcopying j hji, hobj_ne j hji]
      exact h.done j hj fun hl' => hl ((hlive_ne j hj hji).mpr hl')

theorem idle_next (h : v.Ledgered) : v.writing v.next = 0 ∧ v.copying v.next = 0 := by
  constructor <;>
  · refine sum_eq_zero fun x hx => ?_
    obtain ⟨k, hk, rfl⟩ := Multiset.mem_map.mp hx
    cases k with
    | destinationWritten key j | destinationCopied key j =>
        have := (h.closure _ hk key j rfl).1
        first | exact if_neg (by omega) | rfl
    | _ => rfl

/-- The first fragment of a work request. -/
theorem opens (h : v.Ledgered) {first : Cont} {o : List Obs}
    (hlook : v.incoming.lookup p.tag.key = none) (hnew : IsNew v.log p)
    (hregion : ∃ kr ∈ v.regions, p.tag.bytes ≤ kr.2.bytes) (htag : n.tag = p.tag)
    (hzero : n.received = 0)
    (hfirst : first = .destinationWritten p.tag.key v.next p ∧ n.waiting = [] ∨
      first = .allocated p.tag.key v.next ∧ n.waiting = [p]) (hregions : v'.regions = v.regions)
    (hin : v'.incoming = v.incoming.insert p.tag.key v.next)
    (hobj : v'.obj = update v.obj v.next n) (hnext : v'.next = v.next + 1)
    (hwork : v'.work = v.work + {first}) (hlog : v'.log = v.log ++ o ++ [.accepted p.tag.key p])
    (hes : ∀ e ∈ o, ∀ key q, e ≠ .accepted key q) : v'.Ledgered := by
  have hunopened := h.unopened hlook hnew
  have hobj_old : ∀ j < v.next, v'.obj j = v.obj j := by
    intro j hj
    rw [hobj, update_of_ne (Nat.ne_of_lt hj)]
  have hobj_new : v'.obj v.next = n := by rw [hobj, update_self]
  have hkey_old : ∀ j < v.next, v'.keyOf j = v.keyOf j := fun j hj => by
    rw [keyOf, keyOf, hobj_old j hj]
  have hkey_new : v'.keyOf v.next = p.tag.key := by rw [keyOf, hobj_new, htag]
  have hlive_old : ∀ j < v.next, (v'.Live j ↔ v.Live j) := by
    intro j hj
    rw [Live, Live, hkey_old j hj, hin, AList.lookup_insert_ne (hunopened j hj)]
  have hlive_new : v'.Live v.next := by rw [Live, hkey_new, hin, AList.lookup_insert]
  have hwriting : ∀ j, v'.writing j = v.writing j + first.writes j := fun j => by
    simp only [writing, hwork, map_add, sum_add, map_singleton,
      sum_singleton]
  have hcopying : ∀ j, v'.copying j = v.copying j := by
    intro j
    have hzero : first.copies j = 0 := by
      rcases hfirst with ⟨rfl, -⟩ | ⟨rfl, -⟩ <;> rfl
    simp only [copying, hwork, map_add, sum_add, map_singleton,
      sum_singleton, hzero, add_zero]
  have hfirst_old : ∀ j < v.next, first.writes j = 0 := by
    intro j hj
    rcases hfirst with ⟨rfl, -⟩ | ⟨rfl, -⟩
    · exact if_neg (Nat.ne_of_gt hj)
    · rfl
  have hfirst_new : first.writes v.next + n.held = p.header.effectiveDataSize := by
    rcases hfirst with ⟨rfl, hw⟩ | ⟨rfl, hw⟩ <;> simp [Cont.writes, Incoming.held, hw]
  have hsum : ∀ key, acceptedBytes v'.log key =
      acceptedBytes v.log key + if p.tag.key = key then p.header.effectiveDataSize else 0 := by
    intro key
    have hquiet : acceptedBytes o key = 0 := by
      refine List.sum_eq_zero fun x hx => ?_
      obtain ⟨e, he, rfl⟩ := List.mem_map.mp hx
      cases e with
      | accepted k q => exact absurd rfl (hes _ he k q)
      | _ => rfl
    rw [← acceptedBytes_singleton, hlog, acceptedBytes, map_append, map_append,
      sum_append, sum_append]
    change acceptedBytes v.log key + acceptedBytes o key + _ = _
    rw [hquiet, add_zero]
    rfl
  have hsum_old : ∀ j < v.next, acceptedBytes v'.log (v.keyOf j) = acceptedBytes v.log (v.keyOf j) := by
    intro j hj
    rw [hsum, if_neg (Ne.symm (hunopened j hj)), add_zero]
  have hsum_new : acceptedBytes v'.log p.tag.key = p.header.effectiveDataSize := by
    rw [hsum, if_pos rfl, h.fresh _ hunopened, zero_add]
  have hpos := hnew.nonempty
  have hfits := hnew.fits
  -- every entry is an old one or the new one
  have hsplit : ∀ {Q : Nat → Prop}, (∀ j < v.next, Q j) → Q v.next → ∀ j < v'.next, Q j := by
    intro Q hold hnew j hj
    rw [hnext] at hj
    rcases Nat.lt_succ_iff_lt_or_eq.mp hj with hj | rfl
    · exact hold j hj
    · exact hnew
  refine ⟨?_, ?_, ?_, ?_, ?_, ?_, ?_, ?_, ?_, ?_, ?_, ?_, ?_, ?_⟩
  · rw [hregions]
    exact h.regions
  -- entry: the new entry, or an old one
  · intro key j hj
    rw [hnext]
    rw [hin] at hj
    by_cases hk : key = p.tag.key
    · subst hk
      rw [AList.lookup_insert] at hj
      cases hj
      exact ⟨Nat.lt_succ_self _, hkey_new⟩
    · rw [AList.lookup_insert_ne hk] at hj
      obtain ⟨hjn, hjk⟩ := h.entry key j hj
      exact ⟨Nat.lt_succ_of_lt hjn, (hkey_old j hjn).trans hjk⟩
  -- closure: the first closure serves the new entry
  · intro k hk key j hserves
    rw [hwork] at hk
    rw [hnext]
    rcases Multiset.mem_add.mp hk with hk | hk
    · obtain ⟨hjn, hjk⟩ := h.closure k hk key j hserves
      exact ⟨Nat.lt_succ_of_lt hjn, (hkey_old j hjn).trans hjk⟩
    · rw [Multiset.mem_singleton.mp hk] at hserves
      rcases hfirst with ⟨rfl, -⟩ | ⟨rfl, -⟩
      all_goals
        cases hserves
        exact ⟨Nat.lt_succ_self _, hkey_new⟩
  · intro k hk
    rw [hwork] at hk
    rcases Multiset.mem_add.mp hk with hk | hk
    · exact h.nonempty k hk
    · rw [Multiset.mem_singleton.mp hk]
      rcases hfirst with ⟨rfl, -⟩ | ⟨rfl, -⟩
      · exact hpos
      · trivial
  -- waiting
  · refine hsplit (fun j hj => ?_) ?_
    · rw [hobj_old j hj]
      exact h.waiting j hj
    · rw [hobj_new]
      intro q hq
      rcases hfirst with ⟨-, hw⟩ | ⟨-, hw⟩ <;> rw [hw] at hq
      · cases hq
      · rw [List.mem_singleton.mp hq]
        exact hpos
  -- single: no entry had this key
  · refine hsplit (fun i hi => ?_) ?_
    · refine hsplit (fun j hj hij => ?_) fun hij => ?_
      · rw [hkey_old i hi, hkey_old j hj] at hij
        exact h.single i hi j hj hij
      · rw [hkey_old i hi, hkey_new] at hij
        exact absurd hij (hunopened i hi)
    · refine hsplit (fun j hj hij => ?_) fun _ => rfl
      rw [hkey_old j hj, hkey_new] at hij
      exact absurd hij.symm (hunopened j hj)
  · refine hsplit (fun j hj => ?_) ?_
    · rw [hobj_old j hj, hkey_old j hj, hsum_old j hj, hwriting, hfirst_old j hj, add_zero]
      exact h.balance j hj
    · rw [hobj_new, hkey_new, hsum_new, hwriting, h.idle_next.1, hzero]
      omega
  · refine hsplit (fun j hj => ?_) ?_
    · rw [hobj_old j hj, hkey_old j hj, hsum_old j hj]
      exact h.bound j hj
    · rw [hobj_new, hkey_new, hsum_new, htag]
      omega
  · refine hsplit (fun j hj => ?_) ?_
    · rw [hkey_old j hj, hsum_old j hj]
      exact h.opened j hj
    · rw [hkey_new, hsum_new]
      exact hpos
  -- agree: the first fragment tells the length
  · refine hsplit (fun j hj e he => ?_) fun e he => ?_
    · rw [hkey_old j hj, hobj_old j hj]
      rw [hlog, List.append_assoc] at he
      rcases List.mem_append.mp he with he | he
      · exact h.agree j hj e he
      · rcases List.mem_append.mp he with he | he
        · cases e with
          | accepted k q => exact absurd rfl (hes _ he k q)
          | _ => trivial
        · rw [List.mem_singleton.mp he]
          exact fun hk => absurd hk.symm (hunopened j hj)
    · rw [hkey_new, hobj_new, htag]
      rw [hlog, List.append_assoc] at he
      rcases List.mem_append.mp he with he | he
      · have hsame := hnew.sameWork e he
        cases e with
        | accepted k q =>
            intro hk
            simpa [Obs.agrees, hk] using hsame
        | _ => trivial
      · rcases List.mem_append.mp he with he | he
        · cases e with
          | accepted k q => exact absurd rfl (hes _ he k q)
          | _ => trivial
        · rw [List.mem_singleton.mp he]
          exact fun _ => rfl
  -- bytes: the transfer fits its region
  · refine hsplit (fun j hj => ?_) ?_
    · rw [hobj_old j hj]
      exact h.bytes j hj
    · rw [hobj_new, htag]
      obtain ⟨kr, hkr, hle⟩ := hregion
      exact hle.trans (h.regions kr hkr)
  -- copy: nothing has landed yet
  · refine hsplit (fun j hj hl => ?_) fun _ => ?_
    · rw [hcopying, hobj_old j hj]
      exact h.copy j hj ((hlive_old j hj).mp hl)
    · rw [hcopying, h.idle_next.2, hobj_new, if_neg]
      rw [hzero, htag]
      omega
  · refine hsplit (fun j hj hl => ?_) fun hl => absurd hlive_new hl
    rw [hcopying, hobj_old j hj]
    exact h.done j hj fun hl' => hl ((hlive_old j hj).mpr hl')
  · intro key hno
    have hne : p.tag.key ≠ key := fun hk => hno v.next (by rw [hnext]; omega) (hkey_new.trans hk)
    rw [hsum, if_neg hne, add_zero]
    refine h.fresh key fun j hj hk => hno j (by rw [hnext]; omega) ?_
    rw [hkey_old j hj, hk]

end Ledgered

theorem Taken.work_eq (h : v.Taken key receive v') : v'.work = v.work := by
  cases h <;> rfl

theorem Taken.fields (h : v.Taken key receive v') :
    (v'.incoming, v'.obj, v'.next, v'.regions, v'.failed) =
      (v.incoming, v.obj, v.next, v.regions, v.failed) := by
  cases h <;> rfl

/-- The events of taking a receive. -/
def takenBy (key : Key) (receive : Option PostedReceive) : List Obs :=
  (receive.map (.taken key)).toList

theorem Taken.log_eq (h : v.Taken key receive v') : v'.log = v.log ++ takenBy key receive := by
  cases h with
  | none => exact (append_nil _).symm
  | some _ => rfl

theorem takenBy_quiet : ∀ e ∈ takenBy key receive, ∀ k q, e ≠ .accepted k q := by
  intro e he k q
  cases receive with
  | none => cases he
  | some r =>
      rw [List.mem_singleton.mp he]
      exact Obs.noConfusion

theorem finishing_serves : ∀ k ∈ n.finishing, k.serves? = none ∧ k.nonempty := by
  intro k hk
  unfold Incoming.finishing at hk
  split at hk
  · cases hk
  · split at hk
    · cases hk
    · rw [Multiset.mem_singleton.mp hk]
      exact ⟨rfl, trivial⟩

theorem finishing_copies (n : Incoming) (i : Nat) : (n.finishing.map (Cont.copies i)).sum = 0 := by
  refine sum_eq_zero fun x hx => ?_
  obtain ⟨k, hk, rfl⟩ := Multiset.mem_map.mp hx
  exact Cont.copies_of_serves (finishing_serves k hk).1 i

theorem Ledgered.land (h : v.Ledgered) {key : Key} {i : Nat} {p : Piece} {n : Incoming}
    {rest o : Multiset Cont} (hwork : v.work = rest + {.destinationWritten key i p})
    (hn : ∃ staged, n = { v.obj i with
      received := ((v.obj i).received + p.header.effectiveDataSize) % 2 ^ 64, staged := staged })
    (hwork' : v'.work = rest + o)
    (hks : ∀ k' ∈ o, (∀ key' j, k'.serves? = some (key', j) → key' = key ∧ j = i) ∧ k'.nonempty ∧
      ∀ j, k'.writes j = 0)
    (hobj : v'.obj = update v.obj i n) (hregions : v'.regions = v.regions)
    (hnext : v'.next = v.next) (hlog : v'.log = v.log)
    (hend : v'.incoming = v.incoming ∧
        (o.map (Cont.copies i)).sum = (if n.received = n.tag.bytes then 1 else 0) ∨
      v'.incoming = v.incoming.erase key ∧ n.received = n.tag.bytes ∧
        (o.map (Cont.copies i)).sum = 0) : v'.Ledgered := by
  obtain ⟨hlive, hcopying, hfits, hmax⟩ := h.landing hwork
  obtain ⟨staged, rfl⟩ := hn
  have hmod : ((v.obj i).received + p.header.effectiveDataSize) % 2 ^ 64 =
      (v.obj i).received + p.header.effectiveDataSize := Nat.mod_eq_of_lt (by
    have : u64Max = 2 ^ 64 - 1 := rfl
    omega)
  have hcopies : v'.copying i = (o.map (Cont.copies i)).sum := by
    have hrest : (rest.map (Cont.copies i)).sum = 0 := by
      rw [copying, hwork, map_add, sum_add] at hcopying
      omega
    rw [copying, hwork', map_add, sum_add, hrest, zero_add]
  have hwrites : (Cont.destinationWritten key i p).writes i = p.header.effectiveDataSize := if_pos rfl
  refine h.settle hwork rfl hlive hwork' hks hobj rfl rfl ?_ hregions hnext hlog ?_
  · rw [hmod, hwrites]
  · rw [hcopies]
    exact hend

variable {rest : Multiset Cont} {es : List Obs}

theorem Ledgered.copied_live (h : v.Ledgered) (hwork : v.work = rest + {.destinationCopied key i p})
    :
    v.Live i ∧ (v.obj i).received = (v.obj i).tag.bytes ∧ (rest.map (Cont.copies i)).sum = 0 := by
  have hmem : Cont.destinationCopied key i p ∈ v.work := by rw [hwork]; simp
  obtain ⟨hi, -⟩ := h.closure _ hmem key i rfl
  have hcopies : v.copying i = (rest.map (Cont.copies i)).sum + 1 := by
    simp [copying, hwork, Cont.copies]
  have hlive : v.Live i := by
    by_contra hlive
    have := (h.done i hi hlive).2
    omega
  have hcopy := h.copy i hi hlive
  by_cases hfull : (v.obj i).received = (v.obj i).tag.bytes
  · rw [if_pos hfull] at hcopy
    exact ⟨hlive, hfull, by omega⟩
  · rw [if_neg hfull] at hcopy
    omega

theorem ledgered_step (h : v.Ledgered) (hstep : v.Micro v') : v'.Ledgered := by
  cases hstep with
  | register hbytes =>
      refine h.frame (w := v.work) (o := 0) (t := 0) [] (add_zero _).symm (add_zero _).symm
        (by simp) (by simp) (append_nil _).symm (by simp) ?_ rfl
      intro kr hkr
      rcases List.mem_append.mp hkr with hkr | hkr
      · exact h.regions kr hkr
      · rw [List.mem_singleton.mp hkr]
        exact hbytes
  | unregister key =>
      refine h.frame (w := v.work) (o := 0) (t := 0) [] (add_zero _).symm (add_zero _).symm
        (by simp) (by simp) (append_nil _).symm (by simp) ?_ rfl
      intro kr hkr
      exact h.regions kr (List.mem_of_mem_filter hkr)
  | post _ =>
      exact h.frame (w := v.work) (o := 0) [] (add_zero _).symm rfl (by simp)
        (by simp [Cont.serves?, Cont.nonempty]) (append_nil _).symm (by simp) h.regions rfl
  | postLate | reject =>
      exact h.frame (w := v.work) (o := 0) (t := 0) _ (add_zero _).symm (add_zero _).symm
        (by simp) (by simp) rfl (by simp) h.regions rfl
  | enqueue hwork =>
      exact h.frame (t := 0) [] hwork (add_zero _).symm (by simp [Cont.serves?]) (by simp)
        (append_nil _).symm (by simp) h.regions rfl
  | report hwork =>
      exact h.frame (t := 0) _ hwork (add_zero _).symm (by simp [Cont.serves?]) (by simp) rfl
        (by simp) h.regions rfl
  | @fail p receive v₁ c htaken _ _ _ =>
      have hfields := htaken.fields
      simp only [Prod.mk.injEq] at hfields
      obtain ⟨hin, hobj, hnext, hregions, -⟩ := hfields
      refine h.frame (w := v.work) (o := 0)
        (t := ((receive.map fun r => Cont.completeReceive r c).toList : List Cont)) _
        (add_zero _).symm (by rw [← htaken.work_eq]) (by simp) ?_ htaken.log_eq takenBy_quiet ?_
        (by simp only [hin, hobj, hnext])
      · intro k hk
        cases receive with
        | none => cases hk
        | some r =>
            rw [List.mem_singleton.mp (Multiset.mem_coe.mp hk)]
            exact ⟨rfl, trivial⟩
      · simp only [hregions]
        exact h.regions
  | @«open» p receive v₁ n first htaken hlook _ hnew hregion htag _ _ hzero hfirst =>
      have hfields := htaken.fields
      simp only [Prod.mk.injEq] at hfields
      obtain ⟨hin, hobj, -, hregions, -⟩ := hfields
      refine h.opens (o := takenBy p.tag.key receive) hlook hnew hregion htag hzero hfirst hregions
        ?_ ?_ rfl ?_ ?_ takenBy_quiet
      · simp only [hin]
      · simp only [hobj]
      · simp only [htaken.work_eq]
      · simp only [htaken.log_eq]
  | acceptNow hlook hnew => exact h.acceptNow hlook hnew
  | acceptLater hlook hnew => exact h.acceptLater hlook hnew
  | allocate hwork => exact h.allocate hwork
  | landMore staged hwork hmore =>
      refine h.land (o := 0) hwork ⟨staged, rfl⟩ (add_zero _).symm (by simp) rfl rfl rfl rfl
        (.inl ⟨rfl, ?_⟩)
      rw [if_neg (Nat.ne_of_lt hmore)]
      rfl
  | @landCopy key i p rest staged hwork hfull =>
      refine h.land hwork ⟨staged, rfl⟩ rfl ?_ rfl rfl rfl rfl (.inl ⟨rfl, ?_⟩)
      · intro k hk
        rw [Multiset.mem_singleton.mp hk]
        refine ⟨?_, trivial, fun _ => rfl⟩
        rintro key' j hserves
        cases hserves
        exact ⟨rfl, rfl⟩
      · rw [if_pos hfull]
        simp [Cont.copies]
  | @landDone key i p rest staged hwork hfull =>
      refine h.land hwork ⟨staged, rfl⟩ rfl ?_ rfl rfl rfl rfl
        (.inr ⟨rfl, hfull, finishing_copies _ _⟩)
      intro k hk
      obtain ⟨hserves, hnonempty⟩ := finishing_serves k hk
      exact ⟨fun _ _ hs => (nomatch hserves.symm.trans hs), hnonempty,
        fun j => Cont.writes_of_serves hserves j⟩
  | @copied key i p rest hwork =>
      obtain ⟨hlive, hfull, hcopies⟩ := h.copied_live hwork
      refine h.settle (n := v.obj i) hwork rfl hlive rfl ?_ (update_eq_self _ _).symm rfl rfl
        rfl rfl rfl rfl (.inr ⟨rfl, hfull, ?_⟩)
      · intro k hk
        obtain ⟨hserves, hnonempty⟩ := finishing_serves k hk
        exact ⟨fun _ _ hs => (nomatch hserves.symm.trans hs), hnonempty,
          fun j => Cont.writes_of_serves hserves j⟩
      · rw [copying, complete_work, map_add, sum_add, finishing_copies, add_zero]
        exact hcopies

/-! ## Where the posted receives are -/

/-- The receives attached to requests in the map. -/
def attached (v : Inbox) : List PostedReceive :=
  v.incoming.entries.filterMap fun e => (v.obj e.2).receive

/-- Every receive that was posted, by where it is: on its way to the queue, in it, attached to
a request, or completed. -/
def stock (v : Inbox) : Multiset PostedReceive :=
  v.work.filterMap Cont.posting? + v.queued + v.attached +
    (v.work.filterMap Cont.completing? + (v.log.filterMap Obs.received? : List PostedReceive))

/-- The receives a work request took. -/
def takenFor (v : Inbox) (key : Key) : List PostedReceive := v.log.filterMap (Obs.takenFor? key)

/-- Posted receives are conserved. -/
structure Stocked (v : Inbox) : Prop where
  places : v.stock.map PostedReceive.serial = Multiset.range v.posted
  reserved : v.reserved = (v.work.filterMap Cont.posting?).card + v.queued.length
  response : ∀ i < v.next, (v.obj i).response = true → (v.obj i).receive = none
  once : ∀ key, (v.takenFor key).length ≤ 1
  /-- A work request that took a receive has failed or has an entry. -/
  spent : ∀ key, v.takenFor key ≠ [] → v.failed key = true ∨ ∃ i < v.next, v.keyOf i = key

theorem attached_congr (hin : v'.incoming = v.incoming)
    (hobj : ∀ e ∈ v.incoming.entries, (v'.obj e.2).receive = (v.obj e.2).receive) :
    v'.attached = v.attached := by
  rw [attached, attached, hin]
  exact List.filterMap_congr hobj

theorem attached_insert (hlook : v.incoming.lookup key = none)
    (hin : v'.incoming = v.incoming.insert key i)
    (hobj : ∀ e ∈ v.incoming.entries, (v'.obj e.2).receive = (v.obj e.2).receive) :
    (v'.attached : Multiset PostedReceive) = v.attached + (v'.obj i).receive.toList := by
  have hnot : key ∉ v.incoming := AList.lookup_eq_none.mp hlook
  have hrest : v.incoming.entries.filterMap (fun e => (v'.obj e.2).receive) = v.attached :=
    List.filterMap_congr hobj
  rw [attached, hin, AList.entries_insert_of_notMem hnot, List.filterMap_cons]
  split
  · rename_i hnone
    rw [hrest, hnone]
    simp
  · rename_i r hsome
    rw [hrest, hsome, Option.toList_some, coe_singleton, ← Multiset.cons_coe,
      ← singleton_add, add_comm]

theorem attached_erase (hlook : v.incoming.lookup key = some i)
    (hin : v'.incoming = v.incoming.erase key)
    (hobj : ∀ e ∈ v.incoming.entries, (v'.obj e.2).receive = (v.obj e.2).receive) :
    (v'.attached : Multiset PostedReceive) + (v.obj i).receive.toList = v.attached := by
  have hperm := entries_erase hlook
  have hattached : v.attached.Perm ((⟨key, i⟩ :: (v.incoming.erase key).entries).filterMap
      fun e => (v.obj e.2).receive) := hperm.filterMap _
  have hrest : v'.attached = (v.incoming.erase key).entries.filterMap fun e => (v.obj e.2).receive := by
    rw [attached, hin]
    refine List.filterMap_congr fun e he => hobj e ?_
    exact hperm.mem_iff.mpr (List.mem_cons_of_mem _ he)
  rw [Multiset.coe_eq_coe.mpr hattached, hrest, List.filterMap_cons]
  split
  · rename_i hnone
    rw [hnone]
    simp
  · rename_i r hsome
    rw [hsome, Option.toList_some, coe_singleton, ← Multiset.cons_coe,
      ← singleton_add, add_comm]

theorem Stocked.move (h : v.Stocked)
    (hstock : v'.posted = v.posted ∧ v'.stock = v.stock ∨
      ∃ r : PostedReceive, r.serial = v.posted ∧ v'.posted = v.posted + 1 ∧ v'.stock = v.stock + {r})
    (hreserved : v'.reserved + (v.work.filterMap Cont.posting?).card + v.queued.length =
      v.reserved + (v'.work.filterMap Cont.posting?).card + v'.queued.length)
    (hnext : v'.next = v.next) (htag : ∀ j, (v'.obj j).tag = (v.obj j).tag)
    (hresponse : ∀ j < v.next, (v'.obj j).response = (v.obj j).response ∧
      (v'.obj j).receive = (v.obj j).receive)
    (htaken : ∀ key, v'.takenFor key = v.takenFor key)
    (hfailed : ∀ key, v.failed key = true → v'.failed key = true) : v'.Stocked := by
  refine ⟨?_, ?_, ?_, ?_, ?_⟩
  · rcases hstock with ⟨hposted, hstock⟩ | ⟨r, hserial, hposted, hstock⟩
    · rw [hposted, hstock, h.places]
    · rw [hposted, hstock, map_add, h.places, map_singleton, hserial,
        Multiset.range_succ, add_comm, singleton_add]
  · have := h.reserved
    omega
  · intro j hj
    rw [hnext] at hj
    rw [(hresponse j hj).1, (hresponse j hj).2]
    exact h.response j hj
  · intro key
    rw [htaken]
    exact h.once key
  · intro key hkey
    rw [htaken] at hkey
    rcases h.spent key hkey with hf | ⟨i, hi, hk⟩
    · exact .inl (hfailed key hf)
    · exact .inr ⟨i, hnext ▸ hi, by rw [keyOf, htag]; exact hk⟩

theorem takenFor_append (hlog : v'.log = v.log ++ es) :
    v'.takenFor key = v.takenFor key ++ es.filterMap (Obs.takenFor? key) := by
  rw [takenFor, hlog, List.filterMap_append]
  rfl

theorem takenFor_takenBy (key key' : Key) (receive : Option PostedReceive) :
    (takenBy key' receive).filterMap (Obs.takenFor? key) =
      if key' = key then receive.toList else [] := by
  cases receive with
  | none => simp [takenBy]
  | some r =>
      simp only [takenBy, Option.map_some, Option.toList_some, List.filterMap_cons, Obs.takenFor?,
        List.filterMap_nil]
      split <;> simp_all

theorem Taken.stock_eq (h : v.Taken key receive v') :
    (v'.queued : Multiset PostedReceive) + receive.toList = v.queued ∧ v'.posted = v.posted ∧
      v'.log.filterMap Obs.received? = v.log.filterMap Obs.received? ∧
      v'.reserved + receive.toList.length ≤ v.reserved + receive.toList.length := by
  cases h with
  | none => simp
  | some hq => exact ⟨by simpa using hq, rfl, by simp [Obs.received?], by simp⟩

/-- A work request takes its receive when its first fragment comes, and never again. -/
theorem Stocked.take (h : v.Stocked) (hl : v.Ledgered) {v₁ : Inbox}
    (htaken : v.Taken p.tag.key receive v₁) (hlook : v.incoming.lookup p.tag.key = none)
    (hfailed : v.failed p.tag.key = false) (hnew : IsNew v.log p) {o : List Obs}
    (hes : ∀ key, o.filterMap (Obs.takenFor? key) = []) (hposted : v'.posted = v.posted)
    (hstock : v'.stock = v.stock) (hreserved : v'.reserved = v₁.reserved)
    (hqueued : v'.queued = v₁.queued)
    (hwork : v'.work.filterMap Cont.posting? = v.work.filterMap Cont.posting?)
    (hlog : v'.log = v₁.log ++ o)
    (hresponse : ∀ i < v'.next, (v'.obj i).response = true → (v'.obj i).receive = none)
    (hspent : v'.failed p.tag.key = true ∨ ∃ i < v'.next, v'.keyOf i = p.tag.key)
    (hstay : ∀ key, v.failed key = true ∨ (∃ i < v.next, v.keyOf i = key) →
      v'.failed key = true ∨ ∃ i < v'.next, v'.keyOf i = key) : v'.Stocked := by
  have hunopened := hl.unopened hlook hnew
  have hnever : v.takenFor p.tag.key = [] := by
    by_contra hne
    rcases h.spent _ hne with hf | ⟨i, hi, hk⟩
    · rw [hf] at hfailed
      cases hfailed
    · exact hunopened i hi hk
  have htakenFor : ∀ key, v'.takenFor key =
      v.takenFor key ++ if p.tag.key = key then receive.toList else [] := by
    intro key
    have hsplit : v'.log = v.log ++ (takenBy p.tag.key receive ++ o) := by
      rw [hlog, htaken.log_eq, List.append_assoc]
    rw [takenFor_append hsplit, List.filterMap_append, hes, append_nil, takenFor_takenBy]
  refine ⟨by rw [hposted, hstock, h.places], ?_, hresponse, ?_, ?_⟩
  · have hold := h.reserved
    rw [hreserved, hqueued, hwork]
    cases htaken with
    | none => exact hold
    | some hq =>
        have hcard := congrArg Multiset.card hq
        simp only [card_add, Multiset.coe_card, card_singleton] at hcard
        dsimp only
        omega
  · intro key
    rw [htakenFor]
    split
    · rename_i hk
      rw [← hk, hnever]
      cases receive <;> simp
    · rw [append_nil]
      exact h.once key
  · intro key hkey
    rw [htakenFor] at hkey
    by_cases hk : p.tag.key = key
    · rw [← hk]
      exact hspent
    · rw [if_neg hk, append_nil] at hkey
      exact hstay key (h.spent key hkey)

theorem finishing_places (n : Incoming) (hresponse : n.response = true → n.receive = none) :
    n.finishing.filterMap Cont.completing? = (n.receive.toList : Multiset PostedReceive) ∧
      n.finishing.filterMap Cont.posting? = 0 := by
  unfold Incoming.finishing
  split
  · rename_i hr
    rw [hresponse hr]
    exact ⟨rfl, rfl⟩
  · split
    · rename_i hnone
      rw [hnone]
      exact ⟨rfl, rfl⟩
    · rename_i r hsome
      rw [hsome]
      simp [Cont.completing?, Cont.posting?]

/-- Fields of the inbox that count posted receives, apart from the entries. -/
def counters (v : Inbox) := (v.posted, v.reserved, v.queued, v.log, v.next, v.failed)

theorem Stocked.completes (h : v.Stocked) {k : Cont} (hwork : v.work = rest + {k})
    (hk : k.posting? = none ∧ k.completing? = none) (hi : i < v.next) (hkey : v.keyOf i = key)
    (hlive : v.Live i)
    (hn : (n.tag, n.response, n.receive) = ((v.obj i).tag, (v.obj i).response, (v.obj i).receive))
    (hobj : v'.obj = update v.obj i n) (hin : v'.incoming = v.incoming.erase key)
    (hwork' : v'.work = rest + n.finishing) (hcounters : v'.counters = v.counters)
    : v'.Stocked := by
  simp only [counters, Prod.mk.injEq] at hcounters
  obtain ⟨hposted, hreserved, hqueued, hlog, hnext, hfailed⟩ := hcounters
  have hfields : ∀ j, ((v'.obj j).tag, (v'.obj j).response, (v'.obj j).receive) =
      ((v.obj j).tag, (v.obj j).response, (v.obj j).receive) := by
    intro j
    rw [hobj]
    exact update_same (fun m : Incoming => (m.tag, m.response, m.receive)) hn j
  simp only [Prod.mk.injEq] at hn hfields
  have hfinish := finishing_places n fun hr => by
    rw [hn.2.2]
    exact h.response i hi (hn.2.1 ▸ hr)
  have hlook : v.incoming.lookup key = some i := by
    rw [← hkey]
    exact hlive
  have hattached := attached_erase hlook hin fun e _ => (hfields e.2).2.2
  have hposting : v'.work.filterMap Cont.posting? = v.work.filterMap Cont.posting? := by
    simp only [hwork, hwork', filterMap_add, hfinish.2, filterMap_singleton, hk.1,
      Option.toList_none, coe_nil]
  have hcompleting : v'.work.filterMap Cont.completing? =
      v.work.filterMap Cont.completing? + (v.obj i).receive.toList := by
    simp only [hwork, hwork', filterMap_add, hfinish.1, filterMap_singleton, hk.2, hn.2.2,
      Option.toList_none, coe_nil, add_zero]
  refine h.move (.inl ⟨hposted, ?_⟩) ?_ hnext (fun j => (hfields j).1) (fun j _ => (hfields j).2)
    (fun key => by rw [takenFor, takenFor, hlog]) (fun key => by rw [hfailed]; exact id)
  · rw [stock, stock, hposting, hcompleting, ← hattached, hqueued, hlog]
    ac_rfl
  · rw [hposting, hqueued, hreserved]

theorem Stocked.touch (h : v.Stocked)
    (hn : (n.tag, n.response, n.receive) = ((v.obj i).tag, (v.obj i).response, (v.obj i).receive))
    (hobj : v'.obj = update v.obj i n) (hin : v'.incoming = v.incoming)
    (hposting : v'.work.filterMap Cont.posting? = v.work.filterMap Cont.posting?)
    (hcompleting : v'.work.filterMap Cont.completing? = v.work.filterMap Cont.completing?)
    (hlog : v'.log = v.log ++ es) (hes : es.filterMap Obs.received? = [])
    (htaken : ∀ key, es.filterMap (Obs.takenFor? key) = [])
    (hcounters : (v'.posted, v'.reserved, v'.queued, v'.next, v'.failed) =
      (v.posted, v.reserved, v.queued, v.next, v.failed)) : v'.Stocked := by
  simp only [Prod.mk.injEq] at hcounters
  obtain ⟨hposted, hreserved, hqueued, hnext, hfailed⟩ := hcounters
  have hfields : ∀ j, ((v'.obj j).tag, (v'.obj j).response, (v'.obj j).receive) =
      ((v.obj j).tag, (v.obj j).response, (v.obj j).receive) := by
    intro j
    rw [hobj]
    exact update_same (fun m : Incoming => (m.tag, m.response, m.receive)) hn j
  simp only [Prod.mk.injEq] at hn hfields
  refine h.move (.inl ⟨hposted, ?_⟩) ?_ hnext (fun j => (hfields j).1) (fun j _ => (hfields j).2)
    (fun key => by rw [takenFor_append hlog, htaken, append_nil])
    (fun key => by rw [hfailed]; exact id)
  · rw [stock, stock, hposting, hcompleting, hqueued, hlog, List.filterMap_append, hes,
      append_nil, attached_congr hin fun e _ => (hfields e.2).2.2]
  · rw [hposting, hqueued, hreserved]

theorem stocked_step (h : v.Stocked) (hl : v.Ledgered) (hstep : v.Micro v') : v'.Stocked := by
  cases hstep with
  | register _ | unregister _ =>
      exact h.move (.inl ⟨rfl, rfl⟩) rfl rfl (fun _ => rfl) (fun _ _ => ⟨rfl, rfl⟩) (fun _ => rfl)
        fun _ => id
  | @post r hserial =>
      refine h.move (.inr ⟨r, hserial, rfl, ?_⟩) ?_ rfl (fun _ => rfl) (fun _ _ => ⟨rfl, rfl⟩)
        (fun _ => rfl) fun _ => id
      · simp only [stock, attached, filterMap_add, filterMap_singleton, Cont.posting?,
          Cont.completing?, Option.toList_some, Option.toList_none, coe_singleton,
          coe_nil, add_zero]
        ac_rfl
      · simp only [filterMap_add, filterMap_singleton, Cont.posting?, Option.toList_some,
          coe_singleton, card_add, card_singleton]
        omega
  | @postLate r c hserial =>
      refine h.move (.inr ⟨r, hserial, rfl, ?_⟩) rfl rfl (fun _ => rfl) (fun _ _ => ⟨rfl, rfl⟩) ?_
        fun _ => id
      · simp only [stock, attached, filterMap_snoc, Obs.received?, Option.toList_some,
          ← coe_add, coe_singleton]
        ac_rfl
      · intro key
        rw [takenFor_append rfl]
        exact append_nil _
  | @enqueue r rest hwork =>
      refine h.move (.inl ⟨rfl, ?_⟩) ?_ rfl (fun _ => rfl) (fun _ _ => ⟨rfl, rfl⟩) (fun _ => rfl)
        fun _ => id
      · simp only [stock, attached, hwork, filterMap_add, filterMap_singleton, Cont.posting?,
          Cont.completing?, Option.toList_some, Option.toList_none, coe_singleton,
          coe_nil, add_zero, ← coe_add]
        ac_rfl
      · simp only [hwork, filterMap_add, filterMap_singleton, Cont.posting?,
          Option.toList_some, coe_singleton, card_add, card_singleton,
          List.length_append, List.length_singleton]
        omega
  | @report r c rest hwork =>
      refine h.move (.inl ⟨rfl, ?_⟩) ?_ rfl (fun _ => rfl) (fun _ _ => ⟨rfl, rfl⟩) ?_ fun _ => id
      · simp only [stock, attached, hwork, filterMap_add, filterMap_singleton, Cont.posting?,
          Cont.completing?, Option.toList_some, Option.toList_none, coe_singleton,
          coe_nil, add_zero, filterMap_snoc, Obs.received?, ← coe_add]
        ac_rfl
      · simp only [hwork, filterMap_add, filterMap_singleton, Cont.posting?,
          Option.toList_none, coe_nil, add_zero]
      · intro key
        rw [takenFor_append rfl]
        exact append_nil _
  | reject p _ =>
      refine h.move (.inl ⟨rfl, ?_⟩) rfl rfl (fun _ => rfl) (fun _ _ => ⟨rfl, rfl⟩) ?_ fun _ => id
      · simp only [stock, attached, filterMap_snoc, Obs.received?, Option.toList_none, append_nil]
      · intro key
        rw [takenFor_append rfl]
        exact append_nil _
  | @fail p receive v₁ c htaken hlook hfailed hnew =>
      obtain ⟨hqueued, hposted, hreported, -⟩ := htaken.stock_eq
      have hfields := htaken.fields
      simp only [Prod.mk.injEq] at hfields
      obtain ⟨hin, hobj, hnext, -, hfail⟩ := hfields
      have hwork := htaken.work_eq
      refine h.take hl htaken hlook hfailed hnew (o := []) (fun _ => rfl) hposted ?_ rfl rfl ?_
        (append_nil _).symm ?_ (.inl (update_self _ _ _)) ?_
      -- the receive goes from the queue to its failed completion
      · simp only [stock, attached, hin, hobj, hwork, hreported, ← hqueued, filterMap_add]
        cases receive with
        | none => simp
        | some r =>
            simp only [Option.map_some, Option.toList_some, coe_singleton, filterMap_singleton,
              Cont.posting?, Cont.completing?, Option.toList_none, coe_nil, add_zero]
            ac_rfl
      · simp only [hwork, filterMap_add]
        cases receive <;> simp [Cont.posting?]
      · simp only [hobj, hnext]
        exact h.response
      · rintro key (hf | ⟨i, hi, hk⟩)
        · refine .inl ?_
          by_cases hkey : key = p.tag.key
          · rw [hkey]
            exact update_self _ _ _
          · exact (update_of_ne hkey _ _).trans (by rw [hfail, hf])
        · exact .inr ⟨i, by simpa only [hnext] using hi, by simpa only [keyOf, hobj] using hk⟩
  | @«open» p receive v₁ n first htaken hlook hfailed hnew _ htag hreceive hresponse _ hfirst =>
      obtain ⟨hqueued, hposted, hreported, -⟩ := htaken.stock_eq
      have hfields := htaken.fields
      simp only [Prod.mk.injEq] at hfields
      obtain ⟨hin, hobj, hnext, -, hfail⟩ := hfields
      have hwork := htaken.work_eq
      have hold : ∀ j < v.next, update v₁.obj v.next n j = v.obj j := by
        intro j hj
        rw [update_of_ne (Nat.ne_of_lt hj), hobj]
      have hplain : first.posting? = none ∧ first.completing? = none := by
        rcases hfirst with ⟨rfl, -⟩ | ⟨rfl, -⟩ <;> exact ⟨rfl, rfl⟩
      refine h.take hl htaken hlook hfailed hnew (o := [.accepted p.tag.key p]) (fun _ => rfl) hposted
        ?_ rfl rfl ?_ rfl ?_ (.inr ⟨v.next, Nat.lt_succ_self _, ?_⟩) ?_
      -- the receive goes from the queue to the entry
      · have hkeep : ∀ e ∈ v.incoming.entries,
            (update v₁.obj v.next n e.2).receive = (v.obj e.2).receive := fun e he => by
          rw [hold _ (hl.entry e.1 e.2 (AList.mem_lookup_iff.mpr he)).1]
        rw [stock, attached_insert (v := v) (i := v.next) hlook (by simp only [hin]) hkeep, stock]
        simp only [update_self, hreceive, hwork, filterMap_add, filterMap_singleton,
          hplain.1, hplain.2, Option.toList_none, coe_nil, add_zero, filterMap_snoc,
          Obs.received?, append_nil, hreported, ← hqueued]
        ac_rfl
      · simp only [hwork, filterMap_add, filterMap_singleton, hplain.1]
        simp
      · intro j hj hr
        rcases Nat.lt_succ_iff_lt_or_eq.mp hj with hj | rfl
        · simp only [hold j hj] at hr ⊢
          exact h.response j hj hr
        · simp only [update_self] at hr ⊢
          rw [hreceive, hresponse hr]
      · simp only [keyOf, update_self, htag]
      · rintro key (hf | ⟨i, hi, hk⟩)
        · exact .inl (by simpa only [hfail] using hf)
        · refine .inr ⟨i, Nat.lt_succ_of_lt hi, ?_⟩
          simp only [keyOf, hold i hi]
          exact hk
  | @acceptNow p i hlook hnew =>
      refine h.touch (i := i) rfl (update_eq_self _ _).symm rfl ?_ ?_ rfl rfl (fun _ => rfl) rfl
      all_goals simp [Cont.posting?, Cont.completing?]
  | @acceptLater p i hlook hnew => exact h.touch (by rfl) rfl rfl rfl rfl rfl rfl (fun _ => rfl) rfl
  | @allocate key i rest hwork =>
      refine h.touch (by rfl) rfl rfl ?_ ?_ (append_nil _).symm rfl (fun _ => rfl) rfl
      all_goals
        rw [hwork, filterMap_add, filterMap_add, filterMap_singleton]
        simp only [Cont.posting?, Cont.completing?, Multiset.filterMap_coe, List.filterMap_map]
        congr 2
        exact List.filterMap_eq_nil_iff.mpr fun _ _ => rfl
  | landMore staged hwork hmore =>
      refine h.touch (by rfl) rfl rfl ?_ ?_ (append_nil _).symm rfl (fun _ => rfl) rfl
      all_goals simp [hwork, Cont.posting?, Cont.completing?]
  | landCopy staged hwork hfull =>
      refine h.touch (by rfl) rfl rfl ?_ ?_ (append_nil _).symm rfl (fun _ => rfl) rfl
      all_goals simp [hwork, Cont.posting?, Cont.completing?]
  | @landDone key i p rest staged hwork hfull =>
      obtain ⟨hi, hkey⟩ := hl.closure (.destinationWritten key i p) (by rw [hwork]; simp) key i rfl
      refine h.completes hwork ⟨rfl, rfl⟩ hi hkey (hl.landing hwork).1 (by rfl) rfl rfl ?_ rfl
      rw [complete_work, setObj_obj, update_self]
  | @copied key i p rest hwork =>
      obtain ⟨hi, hkey⟩ := hl.closure (.destinationCopied key i p) (by rw [hwork]; simp) key i rfl
      exact h.completes hwork ⟨rfl, rfl⟩ hi hkey (hl.copied_live hwork).1 rfl
        (update_eq_self _ _).symm rfl rfl rfl

end Inbox

/-! ## Runs -/

namespace Engine

variable {σ : Engine} {memory : Nat → Option UInt8}

/-- The receives on their way to the queue. -/
def posting (σ : Engine) : Multiset PostedReceive := σ.owed.filterMap Cont.posting?

/-- The receives attached to requests being received. -/
def attached (σ : Engine) : List PostedReceive :=
  σ.incoming.entries.filterMap fun e => (σ.incomingObj e.2).receive

/-- The receives whose completion is on its way or was reported. -/
def finished (σ : Engine) : Multiset PostedReceive :=
  σ.owed.filterMap Cont.completing? + (σ.log.filterMap Obs.received? : List PostedReceive)

/-- Each receive that was posted is in one place, once: on its way to the queue, in the queue,
attached to a request, or completed. The count of reserved slots is right, and a work request
takes at most one receive. -/
structure ReceivesConserved (σ : Engine) : Prop where
  places : (σ.posting + σ.receives + σ.attached + σ.finished).map PostedReceive.serial =
    Multiset.range σ.postedReceives
  reserved : σ.receiveReserved = σ.posting.card + σ.receives.length
  once : ∀ key, (σ.log.filterMap (Obs.takenFor? key)).length ≤ 1

variable {β : Type}

theorem filterMap_inbox_work (σ : Engine) (f : Cont → Option β)
    (hf : ∀ k : Cont, k.receives = false → f k = none) :
    σ.inbox.work.filterMap f = σ.owed.filterMap f := by
  rw [inbox, Multiset.filterMap_filter]
  congr 1
  funext k
  by_cases hk : k.receives = true
  · rw [if_pos hk]
  · rw [if_neg hk, hf k (by simpa using hk)]

theorem filterMap_inbox_log (σ : Engine) (f : Obs → Option β)
    (hf : ∀ e : Obs, e.receives = false → f e = none) :
    σ.inbox.log.filterMap f = σ.log.filterMap f := by
  rw [inbox, List.filterMap_filter]
  refine List.filterMap_congr fun e _ => ?_
  by_cases he : e.receives = true
  · rw [if_pos he]
  · rw [if_neg he, hf e (by simpa using he)]

theorem posting_eq (σ : Engine) : σ.inbox.work.filterMap Cont.posting? = σ.posting :=
  filterMap_inbox_work σ _ fun k hk => by cases k <;> first | rfl | cases hk

theorem finished_eq (σ : Engine) : σ.inbox.work.filterMap Cont.completing? +
    (σ.inbox.log.filterMap Obs.received? : List PostedReceive) = σ.finished := by
  have hwork := filterMap_inbox_work σ Cont.completing? fun k hk => by cases k <;> first | rfl | cases hk
  have hlog := filterMap_inbox_log σ Obs.received? fun e he => by cases e <;> first | rfl | cases he
  rw [hwork, hlog, finished]

theorem takenFor_eq (σ : Engine) (key : Key) :
    σ.inbox.takenFor key = σ.log.filterMap (Obs.takenFor? key) :=
  filterMap_inbox_log σ _ fun e he => by cases e <;> first | rfl | cases he

theorem ReceivesConserved.of_stocked (h : σ.inbox.Stocked) : σ.ReceivesConserved := by
  refine ⟨?_, ?_, ?_⟩
  · have hplaces := h.places
    rw [Inbox.stock, posting_eq, finished_eq] at hplaces
    exact hplaces
  · rw [← posting_eq]
    exact h.reserved
  · intro key
    rw [← takenFor_eq]
    exact h.once key

theorem inbox_invariant :
    ((engineMachine memory).restrict Engine.KeepsReceives).Invariant fun σ =>
      σ.inbox.Ledgered ∧ σ.inbox.Stocked := by
  apply Machine.Inductive.invariant
  constructor
  · rintro σ ⟨c, rank, limit, -, rfl⟩
    refine ⟨⟨?_, ?_, ?_, ?_, ?_, ?_, ?_, ?_, ?_, ?_, ?_, ?_, ?_, fun _ _ => rfl⟩,
      ⟨rfl, rfl, ?_, fun _ => Nat.zero_le _, fun _ h => absurd rfl h⟩⟩
    · intro kr hkr
      cases hkr
    · intro key i hlook
      cases hlook
    · intro k hk
      cases hk
    · intro k hk
      cases hk
    all_goals
      intro i hi
      exact absurd hi (Nat.not_lt_zero i)
  · intro σ a σ' h hen hex
    exact star_preserves (P := fun v : Inbox => v.Ledgered ∧ v.Stocked)
      (fun v v' hv hstep => ⟨Inbox.ledgered_step hv.1 hstep, Inbox.stocked_step hv.2 hv.1 hstep⟩)
      (exec_micro hen.2 hex) h

/-- Posted receives are conserved in every run in which each fragment that is not turned away
brings something new, and no WRITE_IMM with a wrapping target address takes a receive. -/
theorem receives_conserved
    (hreach : ((engineMachine memory).restrict Engine.KeepsReceives).Reachable σ) :
    σ.ReceivesConserved :=
  .of_stocked (inbox_invariant σ hreach).2

/-- A WRITE_IMM of eight bytes to an address of rank 0. -/
def immediateWrite (address offset : Nat) : Piece where
  packet := []
  header := { sourceRank := 1, effectiveDataSize := 8 }
  tag := { opcode := .writeImm, owner := 1, workId := 1, bytes := 8, offset, remoteAddress := address }

/-- A receive is posted, and a WRITE_IMM to registered memory uses it up. -/
def immediateRun : List Act :=
  [.registerMemory 0 16 1, .postReceive 5 0 16 (2 ^ 16 - 1) (2 ^ 32 - 1) 1 true, .fire 0,
    .receive (immediateWrite 0 8) 0, .fire 0]

/-- The same with a target address that wraps. -/
def wrappedRun : List Act :=
  [.registerMemory 0 16 1, .postReceive 5 0 16 (2 ^ 16 - 1) (2 ^ 32 - 1) 1 true, .fire 0,
    .receive (immediateWrite u64Max 1) 0]

theorem receives_conserved_immediateRun : ∃ σ : Engine, σ.ReceivesConserved ∧ σ.receives = [] ∧
    σ.pending = [.completeReceive ⟨0, 5, 0, 16, 1, 2 ^ 32 - 1, 2 ^ 16 - 1⟩
      { receiveId := 5, offset := 8, peer := 1, opcode := .writeImm, bytes := 8, hasImmediate := true }] := by
  have hrun : (((engineMachine fun _ => none).restrict Engine.KeepsReceives).runs (Engine.idle {} 0)
      immediateRun).map (fun σ => (σ.receives, σ.pending)) = some ([],
        [.completeReceive ⟨0, 5, 0, 16, 1, 2 ^ 32 - 1, 2 ^ 16 - 1⟩
          { receiveId := 5, offset := 8, peer := 1, opcode := .writeImm, bytes := 8,
            hasImmediate := true }]) := rfl
  have hinit : ((engineMachine fun _ => none).restrict Engine.KeepsReceives).init (Engine.idle {} 0) :=
    ⟨{}, 0, none, by decide, rfl⟩
  obtain ⟨σ, hreach, hobs⟩ := Machine.Reachable.exists_of_runs hinit hrun
  rw [Prod.mk.injEq] at hobs
  exact ⟨σ, receives_conserved hreach, hobs.1, hobs.2⟩

/-- The receive that the wrapping WRITE_IMM took is in no place any more. -/
theorem receiveLost_wrappedRun :
    ¬ ∀ (memory : Nat → Option UInt8) (σ : Engine), (engineMachine memory).Reachable σ →
      σ.ReceivesConserved := by
  intro hall
  have hrun : ((engineMachine fun _ => none).runs (Engine.idle {} 0) wrappedRun).map (fun σ =>
      (σ.pending ++ σ.sourceStaging.owed ++ σ.receiveStaging.owed, σ.receives, σ.attached,
        σ.log.filterMap Obs.received?, σ.postedReceives)) = some ([], [], [], [], 1) := rfl
  have hinit : (engineMachine fun _ => none).init (Engine.idle {} 0) := ⟨{}, 0, none, by decide, rfl⟩
  obtain ⟨σ, hreach, hobs⟩ := Machine.Reachable.exists_of_runs hinit hrun
  simp only [Prod.mk.injEq, List.append_eq_nil_iff] at hobs
  obtain ⟨⟨⟨hpending, hsource⟩, hreceive⟩, hqueued, hattached, hreported, hposted⟩ := hobs
  have howed : σ.owed = 0 := by
    rw [owed, hpending, hsource, hreceive]
    rfl
  have hplaces := congrArg Multiset.card (hall _ σ hreach).places
  rw [posting, finished, howed, hqueued, hattached, hreported, hposted] at hplaces
  exact absurd hplaces (by decide)

end Engine

end ProtoBridge.Rdma
