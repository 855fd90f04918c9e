import ProtoBridge.Lib.Span
import ProtoBridge.Pcie.Transaction

/-!
# Exact delivery

Every byte of a transfer is accounted for at every moment: not requested yet,
carried by a TLP somewhere in the fabric, or delivered. `Accounts` states this as
equations between counters, per transfer for writes and per read tag for reads,
and each step of the transaction layer moves bytes from one counter to the next.
A transfer that finishes has nothing pending, so what was delivered is all of it.
-/

namespace ProtoBridge.Pcie

open Lib Fabric
open Function (update update_of_ne update_self)
open Multiset (map_add map_singleton sum_add sum_singleton)

/-- The transfer as it was submitted. -/
def Transfer.origin (op : Transfer) : Transfer := { op with next := 0, pending := 0 }

@[simp] theorem Transfer.origin_issued (op : Transfer) (b : Nat) : (op.issued b).origin = op.origin := rfl

@[simp] theorem Transfer.origin_settled (op : Transfer) : op.settled.origin = op.origin := rfl

/-- The cargo `c` belongs to the transfer `op`. -/
structure Cargo.Of (c : Cargo) (op : Transfer) : Prop where
  transaction : c.transaction = op.id
  address : c.header.address = op.address + c.offset
  bytes_pos : 0 < c.header.bytes
  requester : c.header.requester = op.requester
  direction : op.read = (c.header.type != .write)
  destination : c.destination = if c.header.type = .completion then op.requester else op.target
  answered : if c.header.type = .read then c.answered < c.header.bytes else c.answered = 0

/-! ## The registry of transfers -/

/-- Everything in the fabric belongs to a transfer that was submitted once. -/
structure Txn.Filing (d : Txn) : Prop where
  filed : ∀ id op, d.transfers id = some op →
    op.id = id ∧ op.next ≤ op.bytes ∧ .submitted op.origin ∈ d.trace
  submitted : ∀ op, .submitted op ∈ d.trace → op.id < d.nextId ∧ op.next = 0
  unique : ∀ op op', .submitted op ∈ d.trace → .submitted op' ∈ d.trace → op.id = op'.id → op = op'
  cargo : ∀ c ∈ d.cargo, ∃ op, .submitted op ∈ d.trace ∧ c.Of op
  delivered : ∀ f, .delivered f ∈ d.trace →
    f.header.type ≠ .read ∧ ∃ op, .submitted op ∈ d.trace ∧ f.cargo.Of op
  reads : ∀ n, ∀ r ∈ d.reads n, ∃ op, .submitted op ∈ d.trace ∧ op.read = true ∧
    op.requester = n ∧ op.id = r.transaction
  scheduled : ∀ id, .scheduled id ∈ d.trace → id < d.nextId ∧ d.transfers id = none

namespace Txn.Filing

variable {d : Txn}

variable {op : Transfer}

theorem origin_eq (h : d.Filing) {op' : Transfer} (hop : d.transfers op'.id = some op)
    (hsub : .submitted op' ∈ d.trace) : op.origin = op' := by
  obtain ⟨hid, -, hmem⟩ := h.filed _ _ hop
  exact h.unique _ _ hmem hsub hid

theorem not_scheduled (h : d.Filing) {id : Nat} (hop : d.transfers id = some op) :
    .scheduled id ∉ d.trace := by
  intro hs
  rw [(h.scheduled id hs).2] at hop
  cases hop

theorem of (h : d.Filing) {d' : Txn} (hid : d'.nextId = d.nextId)
    (hsub : ∀ x, .submitted x ∈ d'.trace ↔ .submitted x ∈ d.trace)
    (hfiled : ∀ id op, d'.transfers id = some op →
      op.id = id ∧ op.next ≤ op.bytes ∧ .submitted op.origin ∈ d.trace)
    (hcargo : ∀ c ∈ d'.cargo, ∃ op, .submitted op ∈ d.trace ∧ c.Of op)
    (hdel : ∀ f, .delivered f ∈ d'.trace → .delivered f ∈ d.trace ∨
      f.header.type ≠ .read ∧ ∃ op, .submitted op ∈ d.trace ∧ f.cargo.Of op)
    (hreads : ∀ n, ∀ r ∈ d'.reads n, ∃ op, .submitted op ∈ d.trace ∧ op.read = true ∧
      op.requester = n ∧ op.id = r.transaction)
    (hsched : ∀ id, .scheduled id ∈ d'.trace → id < d.nextId ∧ d'.transfers id = none) :
    d'.Filing := by
  have hex : ∀ P : Transfer → Prop, (∃ x, .submitted x ∈ d.trace ∧ P x) →
      ∃ x, .submitted x ∈ d'.trace ∧ P x := fun P ⟨x, hx, hP⟩ => ⟨x, (hsub x).mpr hx, hP⟩
  refine ⟨fun id op hop => ?_, fun x hx => ?_, fun x y hx hy =>
    h.unique x y ((hsub x).mp hx) ((hsub y).mp hy), fun c hc => hex _ (hcargo c hc), fun f hf => ?_,
    fun n r hr => hex _ (hreads n r hr), fun id hs => ?_⟩
  · obtain ⟨h1, h2, h3⟩ := hfiled id op hop
    exact ⟨h1, h2, (hsub _).mpr h3⟩
  · rw [hid]
    exact h.submitted x ((hsub x).mp hx)
  · rcases hdel f hf with hf | ⟨hty, hof⟩
    · obtain ⟨hty, hof⟩ := h.delivered f hf
      exact ⟨hty, hex _ hof⟩
    · exact ⟨hty, hex _ hof⟩
  · rw [hid]
    exact hsched id hs

theorem filed_update (h : d.Filing) {op' : Transfer} (hop : d.transfers op.id = some op)
    (horigin : op'.origin = op.origin) (hle : op'.next ≤ op'.bytes) (id : Nat) (x : Transfer)
    (hx : update d.transfers op.id (some op') id = some x) :
    x.id = id ∧ x.next ≤ x.bytes ∧ .submitted x.origin ∈ d.trace := by
  rcases update_eq hx with ⟨rfl, ⟨⟩⟩ | ⟨-, hx⟩
  · obtain ⟨-, -, hmem⟩ := h.filed _ _ hop
    exact ⟨show op'.origin.id = op.origin.id by rw [horigin], hle, horigin ▸ hmem⟩
  · exact h.filed id x hx

theorem scheduled_update (h : d.Filing) {id : Nat} {x : Option Transfer}
    (hop : d.transfers id = some op) (id' : Nat) (hs : .scheduled id' ∈ d.trace) :
    id' < d.nextId ∧ update d.transfers id x id' = none := by
  obtain ⟨hlt, hnone⟩ := h.scheduled id' hs
  have hne : id' ≠ id := fun heq => by
    rw [heq, hop] at hnone
    cases hnone
  rw [update_of_ne hne]
  exact ⟨hlt, hnone⟩

theorem requestCargo_of (h : d.Filing) {op : Transfer} (hop : d.transfers op.id = some op)
    {bytes tag : Nat} (hb : 0 < bytes) :
    ∃ x, .submitted x ∈ d.trace ∧ (requestCargo op bytes tag).Of x := by
  refine ⟨op.origin, (h.filed _ _ hop).2.2, rfl, rfl, hb, rfl, ?_, ?_, ?_⟩
  · cases hr : op.read <;> simp [requestCargo, Transfer.origin, hr]
  · cases hr : op.read <;> simp [requestCargo, Transfer.origin, hr]
  · cases hr : op.read <;> simp [requestCargo, hr, hb]

theorem cargo_request (h : d.Filing) {op : Transfer} (hop : d.transfers op.id = some op) {bytes tag : Nat}
    (hb : 0 < bytes) {c : Cargo} (hc : c ∈ d.cargo + {requestCargo op bytes tag}) :
    ∃ x, .submitted x ∈ d.trace ∧ c.Of x := by
  rcases Multiset.mem_add.mp hc with hc | hc
  · exact h.cargo c hc
  · rw [Multiset.mem_singleton.mp hc]
    exact h.requestCargo_of hop hb

end Txn.Filing

theorem issued_le {op : Transfer} (c : Config) (hmore : op.next < op.bytes) :
    op.next + requestBytes c op ≤ op.bytes := by
  have := requestBytes_le c op
  omega

theorem Cargo.Of.completion {c : Cargo} {op : Transfer} {bytes : Nat} (h : c.Of op)
    (hty : c.header.type = .read) (hb : 0 < bytes) : (completionCargo c bytes).Of op := by
  refine ⟨h.transaction, ?_, hb, h.requester, ?_, ?_, ?_⟩
  · simp only [completionCargo]
    rw [h.address, Nat.add_assoc]
  · have hdir := h.direction
    rw [hty] at hdir
    exact hdir.trans rfl
  · simp [completionCargo, h.requester]
  · simp [completionCargo]

theorem Cargo.Of.remainder {c x : Cargo} {op : Transfer} {bytes : Nat} (h : c.Of op)
    (hty : c.header.type = .read) (hle : c.answered + bytes ≤ c.header.bytes)
    (hx : x ∈ remainder c bytes) : x.Of op := by
  unfold Pcie.remainder at hx
  split at hx
  · exact absurd hx (Multiset.notMem_zero x)
  · rename_i hne
    rw [Multiset.mem_singleton.mp hx]
    refine ⟨h.transaction, h.address, h.bytes_pos, h.requester, h.direction, h.destination, ?_⟩
    rw [if_pos hty]
    exact lt_of_le_of_ne hle hne

variable {d d' : Txn}

/-- Every step keeps the registry. -/
theorem Txn.Step.filing (h : Txn.Step d d') (hv : d.config.Valid) (hf : d.Filing) : d'.Filing := by
  cases h with
  | note ho =>
      obtain ⟨f, rfl⟩ := ho
      refine hf.of rfl (fun x => by simp) hf.filed hf.cargo (fun g hg => .inl (by simpa using hg))
        hf.reads fun id hs => hf.scheduled id (by simpa using hs)
  | @submit op hid hnext hpend hpos =>
      have hsub : ∀ x, .submitted x ∈ d.trace ++ [.submitted op] ↔
          .submitted x ∈ d.trace ∨ x = op := fun x => by simp
      have hex : ∀ P : Transfer → Prop, (∃ x, .submitted x ∈ d.trace ∧ P x) →
          ∃ x, .submitted x ∈ d.trace ++ [.submitted op] ∧ P x :=
        fun P ⟨x, hx, hP⟩ => ⟨x, (hsub x).mpr (.inl hx), hP⟩
      have horigin : op.origin = op := by
        cases op
        simp_all [Transfer.origin]
      refine ⟨fun id x hx => ?_, fun x hx => ?_, fun x y hx hy hxy => ?_, fun c hc =>
        hex _ (hf.cargo c hc), fun f hd => ?_, fun n r hr => hex _ (hf.reads n r hr), fun id hs => ?_⟩
      · dsimp only at hx
        rcases update_eq hx with ⟨rfl, ⟨⟩⟩ | ⟨-, hx⟩
        · exact ⟨rfl, by omega, (hsub _).mpr (.inr horigin)⟩
        · obtain ⟨h1, h2, h3⟩ := hf.filed id x hx
          exact ⟨h1, h2, (hsub _).mpr (.inl h3)⟩
      · rcases (hsub x).mp hx with hx | rfl
        · exact ⟨Nat.lt_succ_of_lt (hf.submitted x hx).1, (hf.submitted x hx).2⟩
        · exact ⟨by rw [hid]; exact Nat.lt_succ_self _, hnext⟩
      · rcases (hsub x).mp hx with hx' | hx' <;> rcases (hsub y).mp hy with hy' | hy'
        · exact hf.unique x y hx' hy' hxy
        · have := (hf.submitted x hx').1
          rw [hxy, hy'] at this
          omega
        · have := (hf.submitted y hy').1
          rw [← hxy, hx'] at this
          omega
        · rw [hx', hy']
      · have hd' : .delivered f ∈ d.trace := by simpa using hd
        exact ⟨(hf.delivered f hd').1, hex _ (hf.delivered f hd').2⟩
      · have hs' : .scheduled id ∈ d.trace := by simpa using hs
        obtain ⟨hlt, hnone⟩ := hf.scheduled id hs'
        refine ⟨Nat.lt_succ_of_lt hlt, ?_⟩
        dsimp only
        rw [update_of_ne (by omega)]
        exact hnone
  | @issueWrite op f hop hrd hmore =>
      exact hf.of rfl (fun x => by simp)
        (hf.filed_update hop (op.origin_issued _) (issued_le d.config hmore))
        (fun c => hf.cargo_request hop (requestBytes_pos hv hmore))
        (fun g hg => .inl (by simpa using hg)) hf.reads
        fun id hs => hf.scheduled_update hop id (by simpa using hs)
  | @issueRead op f hop hrd hmore =>
      refine hf.of rfl (fun x => by simp)
        (hf.filed_update hop (op.origin_issued _) (issued_le d.config hmore))
        (fun c => hf.cargo_request hop (requestBytes_pos hv hmore))
        (fun g hg => .inl (by simpa using hg)) (fun n r hr => ?_)
        fun id hs => hf.scheduled_update hop id (by simpa using hs)
      dsimp only at hr
      by_cases hn : n = op.requester
      · subst hn
        rw [update_self] at hr
        rcases List.mem_append.mp hr with hr | hr
        · exact hf.reads _ r hr
        · rw [List.mem_singleton.mp hr]
          exact ⟨op.origin, (hf.filed _ _ hop).2.2, hrd, rfl, rfl⟩
      · rw [update_of_ne hn] at hr
        exact hf.reads n r hr
  | @respond c bytes m f hty hb hle hm =>
      refine hf.of rfl (fun x => by simp) hf.filed (fun x hx => ?_)
        (fun g hg => .inl (by simpa using hg)) hf.reads fun id hs => hf.scheduled id (by simpa using hs)
      obtain ⟨op, hsub, hof⟩ := hf.cargo c (by rw [hm]; simp)
      rcases Multiset.mem_add.mp hx with hx | hx
      · rcases Multiset.mem_add.mp hx with hx | hx
        · exact hf.cargo x (by rw [hm]; exact Multiset.mem_add.mpr (.inl hx))
        · rw [Multiset.mem_singleton.mp hx]
          exact ⟨op, hsub, hof.completion hty hb⟩
      · exact ⟨op, hsub, hof.remainder hty hle hx⟩
  | @land f op m hty hm hop =>
      have hid := (hf.filed _ _ hop).1
      have hnext := (hf.filed _ _ hop).2.1
      rw [← hid] at hop ⊢
      refine hf.of rfl (fun x => by simp) (hf.filed_update hop op.origin_settled hnext)
        (fun x hx => hf.cargo x (by rw [hm]; exact Multiset.mem_add.mpr (.inl hx)))
        (fun g hg => ?_) hf.reads fun id hs => hf.scheduled_update hop id (by simpa using hs)
      rcases List.mem_append.mp hg with hg | hg
      · exact .inl hg
      · cases List.mem_singleton.mp hg
        exact .inr ⟨by simp [hty], hf.cargo _ (by rw [hm]; simp)⟩
  | @accept f r m hty hm hr htxn =>
      refine hf.of rfl (fun x => by simp) hf.filed
        (fun x hx => hf.cargo x (by rw [hm]; exact Multiset.mem_add.mpr (.inl hx)))
        (fun g hg => ?_) (fun n r' hr' => ?_) fun id hs => hf.scheduled id (by simpa using hs)
      · rcases List.mem_append.mp hg with hg | hg
        · exact .inl hg
        · cases List.mem_singleton.mp hg
          exact .inr ⟨by simp [hty], hf.cargo _ (by rw [hm]; simp)⟩
      · dsimp only at hr'
        by_cases hn : n = f.destination
        · subst hn
          rw [update_self] at hr'
          obtain ⟨r0, hr0, rfl⟩ := List.mem_map.mp hr'
          split
          · exact hf.reads _ r (List.mem_of_find?_eq_some hr)
          · exact hf.reads _ r0 hr0
        · rw [update_of_ne hn] at hr'
          exact hf.reads n r' hr'
  | @retire n r op hr hfull hop =>
      have hid := (hf.filed _ _ hop).1
      have hnext := (hf.filed _ _ hop).2.1
      rw [← hid] at hop ⊢
      refine hf.of rfl (fun _ => Iff.rfl) (hf.filed_update hop op.origin_settled hnext) hf.cargo
        (fun g hg => .inl hg) (fun n' r' hr' => ?_) fun id hs => hf.scheduled_update hop id hs
      dsimp only at hr'
      by_cases hn : n' = n
      · subst hn
        rw [update_self] at hr'
        exact hf.reads _ r' (List.mem_of_mem_filter hr')
      · rw [update_of_ne hn] at hr'
        exact hf.reads n' r' hr'
  | @finish id op hop hnext hpend =>
      have htrace : ∀ x, x ∈ (if op.complete then d.trace ++ [.scheduled id] else d.trace) ↔
          x ∈ d.trace ∨ op.complete = true ∧ x = .scheduled id := by
        intro x
        cases op.complete <;> simp
      refine hf.of rfl (fun x => ?_) (fun id' x hx => ?_) hf.cargo (fun g hg => .inl ?_) hf.reads
        fun id' hs => ?_
      · simp [htrace]
      · dsimp only at hx
        rcases update_eq hx with ⟨-, ⟨⟩⟩ | ⟨-, hx⟩
        exact hf.filed id' x hx
      · simpa [htrace] using hg
      · rcases (htrace _).mp hs with hs | ⟨-, hs⟩
        · exact hf.scheduled_update hop id' hs
        · cases hs
          dsimp only
          obtain ⟨hid', -, hsub⟩ := hf.filed id op hop
          exact ⟨hid' ▸ (hf.submitted _ hsub).1, update_self ..⟩

/-! ## The read window of a node -/

theorem insertPiece_perm (q : Nat × Nat) (l : List (Nat × Nat)) :
    (insertPiece q l).Perm (q :: l) := by
  induction l with
  | nil => exact .refl _
  | cons r rest ih =>
      unfold insertPiece
      split
      · exact .refl _
      · exact (ih.cons r).trans (.swap q r rest)

theorem cover_insertPiece (q : Nat × Nat) (l : List (Nat × Nat)) (x : Nat) :
    cover (insertPiece q l) x = span q.1 q.2 x + cover l x :=
  ((insertPiece_perm q l).map _).sum_eq

/-- The lowest free tag is free as long as fewer tags than the limit are in use
from `number` on. -/
theorem freeTag_notMem (reads : List ReadState) : ∀ fuel number,
    (reads.countP fun r => number ≤ r.tag) < fuel →
    ∀ r ∈ reads, r.tag ≠ freeTag reads fuel number := by
  intro fuel
  induction fuel with
  | zero => intro number h; omega
  | succ fuel ih =>
      intro number h
      unfold freeTag
      split
      · rename_i hany
        obtain ⟨r0, hr0, htag⟩ := List.any_eq_true.mp hany
        refine ih (number + 1) ?_
        have hlt : (reads.countP fun r => number + 1 ≤ r.tag) < reads.countP fun r => number ≤ r.tag := by
          simp only [beq_iff_eq] at htag
          refine countP_lt_countP (fun r _ hr => ?_) hr0 (by simp [htag]) (by simp [htag])
          simp only [decide_eq_true_eq] at hr ⊢
          omega
        omega
      · rename_i hany
        intro r hr heq
        exact hany (List.any_eq_true.mpr ⟨r, hr, by simpa using heq⟩)

/-- The open reads of one node respect its tags and its byte window. -/
structure ReadWindow (c : Config) (l : List ReadState) (bytes : Nat) : Prop where
  nodup : (l.map ReadState.tag).Nodup
  length_le : l.length ≤ c.tags
  bytes_eq : bytes = (l.map ReadState.bytes).sum
  max_le : bytes ≤ c.maxReadBytes
  buffer_le : bytes ≤ c.completionBufferBytes
  received : ∀ r ∈ l, r.received = (r.pieces.map Prod.snd).sum
  pieces_pos : ∀ r ∈ l, ∀ q ∈ r.pieces, 0 < q.2

namespace ReadWindow

variable {c : Config} {l : List ReadState} {bytes : Nat}

theorem openRead (h : ReadWindow c l bytes) (hv : c.Valid) {b id offset : Nat}
    (hlen : l.length ≠ c.tags) (hmax : b ≤ wsub 64 c.maxReadBytes bytes)
    (hbuf : b ≤ wsub 64 c.completionBufferBytes bytes) :
    ReadWindow c
      (l ++ [{ tag := freeTag l c.tags 0, transaction := id, offset, bytes := b }]) (bytes + b) := by
  have h32 : (2 : Nat) ^ 32 < 2 ^ 64 := by decide
  rw [wsub_eq h.max_le (lt_trans hv.inRange.maxReadBytes_lt h32)] at hmax
  rw [wsub_eq h.buffer_le (lt_trans hv.inRange.completionBuffer_lt h32)] at hbuf
  have hm := h.max_le
  have hb := h.buffer_le
  have hl := h.length_le
  refine ⟨?_, ?_, ?_, by omega, by omega, fun r hr => ?_, fun r hr => ?_⟩
  · rw [List.map_append]
    refine List.nodup_append.mpr ⟨h.nodup, List.nodup_singleton _, ?_⟩
    intro t ht t' ht'
    obtain ⟨r, hr, rfl⟩ := List.mem_map.mp ht
    rw [List.mem_singleton.mp ht']
    refine freeTag_notMem l c.tags 0 ?_ r hr
    have hall : (l.countP fun r => 0 ≤ r.tag) ≤ l.length := List.countP_le_length
    omega
  · rw [List.length_append, List.length_singleton]
    omega
  · rw [List.map_append, List.sum_append, ← h.bytes_eq]
    simp
  · rcases List.mem_append.mp hr with hr | hr
    · exact h.received r hr
    · rw [List.mem_singleton.mp hr]
      rfl
  · rcases List.mem_append.mp hr with hr | hr
    · exact h.pieces_pos r hr
    · rw [List.mem_singleton.mp hr]
      simp

theorem accept (h : ReadWindow c l bytes) {r : ReadState} {f : Frame} (hr : r ∈ l)
    (hf : 0 < f.header.bytes) :
    ReadWindow c (l.map fun r' => if r'.tag == r.tag then accepted r f else r') bytes := by
  have hmem : ∀ x ∈ l.map (fun r' => if r'.tag == r.tag then accepted r f else r'),
      x = accepted r f ∨ x ∈ l := by
    intro x hx
    obtain ⟨y, hy, rfl⟩ := List.mem_map.mp hx
    split
    · exact .inl rfl
    · exact .inr hy
  refine ⟨?_, by simpa using h.length_le, ?_, h.max_le, h.buffer_le, fun x hx => ?_, fun x hx => ?_⟩
  · have htags : (l.map fun r' => if r'.tag == r.tag then accepted r f else r').map ReadState.tag =
        l.map ReadState.tag := by
      rw [List.map_map]
      refine List.map_congr_left fun y _ => ?_
      by_cases hy : y.tag = r.tag
      · simp [hy, accepted]
      · simp [hy]
    rw [htags]
    exact h.nodup
  · have hsum := sum_replace ReadState.bytes ReadState.tag (b := accepted r f) h.nodup hr
    have hsame : (accepted r f).bytes = r.bytes := rfl
    rw [h.bytes_eq]
    simp only [beq_iff_eq]
    omega
  · rcases hmem x hx with rfl | hx
    · have hperm := ((insertPiece_perm (f.offset, f.header.bytes) r.pieces).map Prod.snd).sum_eq
      show r.received + f.header.bytes = ((insertPiece (f.offset, f.header.bytes) r.pieces).map _).sum
      rw [hperm, h.received r hr, List.map_cons, List.sum_cons, Nat.add_comm]
    · exact h.received x hx
  · rcases hmem x hx with rfl | hx
    · intro q hq
      rcases List.mem_cons.mp ((insertPiece_perm _ _).mem_iff.mp hq) with rfl | hq
      · exact hf
      · exact h.pieces_pos r hr q hq
    · exact h.pieces_pos x hx

theorem retire (h : ReadWindow c l bytes) (hv : c.Valid) {r : ReadState} (hr : r ∈ l) :
    ReadWindow c (l.filter fun r' => r'.tag != r.tag) (wsub 64 bytes r.bytes) := by
  have hfilter : (l.filter fun r' => r'.tag != r.tag) = l.filter fun r' => r'.tag ≠ r.tag := by
    refine List.filter_congr fun x _ => ?_
    by_cases hx : x.tag = r.tag <;> simp [hx]
  have hsum := sum_remove ReadState.bytes ReadState.tag h.nodup hr
  rw [hfilter]
  have hle : r.bytes ≤ bytes := by
    rw [h.bytes_eq]
    omega
  have h32 : (2 : Nat) ^ 32 < 2 ^ 64 := by decide
  have hlt : bytes < 2 ^ 64 := lt_trans (lt_of_le_of_lt h.max_le hv.inRange.maxReadBytes_lt) h32
  have hm := h.max_le
  have hb := h.buffer_le
  have heq := h.bytes_eq
  rw [wsub_eq hle hlt]
  refine ⟨?_, ?_, by omega, by omega, by omega, fun x hx => h.received x (List.mem_of_mem_filter hx),
    fun x hx => h.pieces_pos x (List.mem_of_mem_filter hx)⟩
  · exact h.nodup.sublist (List.filter_sublist.map _)
  · exact le_trans (List.length_filter_le _ _) h.length_le

end ReadWindow

theorem Txn.Step.window (h : Txn.Step d d') (hv : d.config.Valid) (hf : d.Filing)
    (hw : ∀ n, ReadWindow d.config (d.reads n) (d.readBytes n)) (n : Nat) :
    ReadWindow d'.config (d'.reads n) (d'.readBytes n) := by
  cases h with
  | note | submit | issueWrite | respond | land | finish => exact hw n
  | @issueRead op f hop hrd hmore hlen hmax hbuf =>
      dsimp only
      by_cases hn : n = op.requester
      · subst hn
        rw [update_self, update_self]
        exact (hw _).openRead hv hlen hmax hbuf
      · rw [update_of_ne hn, update_of_ne hn]
        exact hw n
  | @accept f r m hty hm hr htxn =>
      obtain ⟨op, -, hof⟩ := hf.cargo f.cargo (by rw [hm]; simp)
      dsimp only
      by_cases hn : n = f.destination
      · subst hn
        rw [update_self]
        exact (hw _).accept (List.mem_of_find?_eq_some hr) hof.bytes_pos
      · rw [update_of_ne hn]
        exact hw n
  | @retire m r op hr hfull hop =>
      dsimp only
      by_cases hn : n = m
      · subst hn
        rw [update_self, update_self]
        exact (hw _).retire hv (List.mem_of_find?_eq_some hr)
      · rw [update_of_ne hn, update_of_ne hn]
        exact hw n

/-! ## The accounts of every byte -/

/-- Byte `x` of write `id` is in this TLP. -/
def writeSpan (id x : Nat) (c : Cargo) : Nat :=
  if c.header.type = .write ∧ c.transaction = id then span c.offset c.header.bytes x else 0

/-- This TLP is a write of transfer `id`. -/
def writeCount (id : Nat) (c : Cargo) : Nat :=
  if c.header.type = .write ∧ c.transaction = id then 1 else 0

/-- Byte `x` of read `id` is requested or answered by this TLP under tag `t` of node `n`. -/
def readSpan (n t id x : Nat) (c : Cargo) : Nat :=
  if c.header.type ≠ .write ∧ c.header.requester = n ∧ c.header.tag = t ∧ c.transaction = id then
    span (c.offset + c.answered) (c.header.bytes - c.answered) x
  else 0

/-- Byte `x` of transfer `id` was delivered by this event. -/
def arrivedSpan (id x : Nat) : Obs → Nat
  | .delivered f => if f.transaction = id then span f.offset f.header.bytes x else 0
  | _ => 0

/-- Byte `x` of transfer `id` is in the range of this read. -/
def ReadState.spanOf (id x : Nat) (r : ReadState) : Nat :=
  if r.transaction = id then span r.offset r.bytes x else 0

/-- Byte `x` of transfer `id` has been received by this read. -/
def ReadState.coverOf (id x : Nat) (r : ReadState) : Nat :=
  if r.transaction = id then cover r.pieces x else 0

/-- This read belongs to transfer `id`. -/
def ReadState.countOf (id : Nat) (r : ReadState) : Nat := if r.transaction = id then 1 else 0

/-- A weight restricted to the reads under tag `t`. -/
def atTag (t : Nat) (w : ReadState → Nat) (r : ReadState) : Nat := if r.tag = t then w r else 0

/-- Bytes of the transfer that have been issued. -/
def nextOf (transfers : Nat → Option Transfer) (op : Transfer) : Nat :=
  match transfers op.id with
  | some x => x.next
  | none => op.bytes

/-- TLPs the transfer waits for. -/
def pendingOf (transfers : Nat → Option Transfer) (id : Nat) : Nat :=
  match transfers id with
  | some x => x.pending
  | none => 0

section Progress

variable {tr : Nat → Option Transfer} {id : Nat}

variable {op x : Transfer}

theorem nextOf_eq (h : tr op.id = some x) : nextOf tr op = x.next := by
  simp only [nextOf, h]

theorem pendingOf_eq (h : tr id = some x) : pendingOf tr id = x.pending := by
  simp only [pendingOf, h]

theorem nextOf_update (h : op.id = id) : nextOf (update tr id (some x)) op = x.next := by
  simp [nextOf, h]

theorem pendingOf_update : pendingOf (update tr id (some x)) id = x.pending := by
  simp [pendingOf]

theorem nextOf_update_ne {x : Option Transfer} (h : op.id ≠ id) :
    nextOf (update tr id x) op = nextOf tr op := by
  simp [nextOf, h]

theorem pendingOf_update_ne {id' : Nat} {x : Option Transfer} (h : id' ≠ id) :
    pendingOf (update tr id x) id' = pendingOf tr id' := by
  simp [pendingOf, h]

end Progress

/-- The counters of all transfers agree. -/
structure Txn.Accounts (d : Txn) : Prop where
  written : ∀ op, .submitted op ∈ d.trace → op.read = false → ∀ x,
    (d.cargo.map (writeSpan op.id x)).sum + (d.trace.map (arrivedSpan op.id x)).sum =
      span 0 (nextOf d.transfers op) x
  writing : ∀ op, .submitted op ∈ d.trace → op.read = false →
    (d.cargo.map (writeCount op.id)).sum = pendingOf d.transfers op.id
  reading : ∀ op, .submitted op ∈ d.trace → op.read = true →
    ((d.reads op.requester).map (ReadState.countOf op.id)).sum = pendingOf d.transfers op.id
  returned : ∀ op, .submitted op ∈ d.trace → op.read = true → ∀ x,
    (d.trace.map (arrivedSpan op.id x)).sum +
        ((d.reads op.requester).map (ReadState.spanOf op.id x)).sum =
      span 0 (nextOf d.transfers op) x +
        ((d.reads op.requester).map (ReadState.coverOf op.id x)).sum
  traffic : ∀ n t id x, (d.cargo.map (readSpan n t id x)).sum +
      ((d.reads n).map (atTag t (ReadState.coverOf id x))).sum =
    ((d.reads n).map (atTag t (ReadState.spanOf id x))).sum

namespace Txn.Accounts

variable {d : Txn}

theorem note (h : d.Accounts) {o : Obs} (ho : ∀ op, o ≠ .submitted op) (hd : ∀ f, o ≠ .delivered f) :
    Txn.Accounts { d with trace := d.trace ++ [o] } := by
  have hzero : ∀ id x, arrivedSpan id x o = 0 := by
    intro id x
    cases o with
    | delivered f => exact absurd rfl (hd f)
    | _ => rfl
  have hsub : ∀ op, .submitted op ∈ d.trace ++ [o] → .submitted op ∈ d.trace := by
    intro op hop
    rcases List.mem_append.mp hop with hop | hop
    · exact hop
    · exact absurd (List.mem_singleton.mp hop).symm (ho op)
  refine ⟨fun op hop hrd x => ?_, fun op hop => h.writing op (hsub op hop),
    fun op hop => h.reading op (hsub op hop), fun op hop hrd x => ?_, h.traffic⟩
  · simpa [hzero] using h.written op (hsub op hop) hrd x
  · simpa [hzero] using h.returned op (hsub op hop) hrd x

end Txn.Accounts

/-! ### Steps of a write -/

section Writes

variable {d : Txn}

variable {op : Transfer} {bytes id tag : Nat}

theorem Txn.Filing.id_ne (h : d.Filing) {op' : Transfer} (hop : .submitted op ∈ d.trace)
    (hop' : .submitted op' ∈ d.trace) (hdir : op.read ≠ op'.read) : op.id ≠ op'.id := by
  intro heq
  rw [h.unique op op' hop hop' heq] at hdir
  exact hdir rfl

theorem Txn.Accounts.submit {op : Transfer} (h : d.Accounts) (hf : d.Filing) (hid : op.id = d.nextId)
    (hnext : op.next = 0) (hpend : op.pending = 0) :
    Txn.Accounts
      { d with
        nextId := d.nextId + 1
        transfers := update d.transfers op.id (some op)
        trace := d.trace ++ [.submitted op] } := by
  -- nothing belongs to the new id yet
  have hcargo : ∀ c ∈ d.cargo, c.transaction ≠ op.id := by
    intro c hc
    obtain ⟨x, hx, hof⟩ := hf.cargo c hc
    have := (hf.submitted x hx).1
    rw [hof.transaction]
    omega
  have hreads : ∀ n, ∀ r ∈ d.reads n, r.transaction ≠ op.id := by
    intro n r hr
    obtain ⟨x, hx, -, -, hxid⟩ := hf.reads n r hr
    have := (hf.submitted x hx).1
    omega
  have htrace : ∀ x, (d.trace.map (arrivedSpan op.id x)).sum = 0 := by
    intro x
    refine List.sum_eq_zero fun v hv => ?_
    obtain ⟨o, ho, rfl⟩ := List.mem_map.mp hv
    cases o with
    | delivered f =>
        obtain ⟨-, y, hy, hof⟩ := hf.delivered f ho
        have := (hf.submitted y hy).1
        have hne : f.transaction ≠ op.id := by
          have := hof.transaction
          change f.transaction = y.id at this
          omega
        simp [arrivedSpan, hne]
    | _ => rfl
  have hold : ∀ x, .submitted x ∈ d.trace ++ [.submitted op] →
      .submitted x ∈ d.trace ∧ x.id ≠ op.id ∨ x = op := by
    intro x hx
    rcases List.mem_append.mp hx with hx | hx
    · have := (hf.submitted x hx).1
      exact .inl ⟨hx, by omega⟩
    · cases List.mem_singleton.mp hx
      exact .inr rfl
  refine ⟨fun y hy hrd x => ?_, fun y hy hrd => ?_, fun y hy hrd => ?_, fun y hy hrd x => ?_, h.traffic⟩
  · rcases hold y hy with ⟨hy, hne⟩ | rfl
    · simpa [nextOf_update_ne hne, arrivedSpan] using h.written y hy hrd x
    · have hz : (d.cargo.map (writeSpan y.id x)).sum = 0 := Multiset.sum_eq_zero fun v hv => by
        obtain ⟨c, hc, rfl⟩ := Multiset.mem_map.mp hv
        simp [writeSpan, hcargo c hc]
      simp [nextOf_update rfl, hnext, hz, htrace, arrivedSpan]
  · rcases hold y hy with ⟨hy, hne⟩ | rfl
    · simpa [pendingOf_update_ne hne] using h.writing y hy hrd
    · have hz : (d.cargo.map (writeCount y.id)).sum = 0 := Multiset.sum_eq_zero fun v hv => by
        obtain ⟨c, hc, rfl⟩ := Multiset.mem_map.mp hv
        simp [writeCount, hcargo c hc]
      simp [pendingOf_update, hpend, hz]
  · rcases hold y hy with ⟨hy, hne⟩ | rfl
    · simpa [pendingOf_update_ne hne] using h.reading y hy hrd
    · have hz : ((d.reads y.requester).map (ReadState.countOf y.id)).sum = 0 :=
        List.sum_eq_zero fun v hv => by
          obtain ⟨r, hr, rfl⟩ := List.mem_map.mp hv
          simp [ReadState.countOf, hreads _ r hr]
      simp [pendingOf_update, hpend, hz]
  · rcases hold y hy with ⟨hy, hne⟩ | rfl
    · simpa [nextOf_update_ne hne, arrivedSpan] using h.returned y hy hrd x
    · have hz : ∀ w : ReadState → Nat, (∀ r, r.transaction ≠ y.id → w r = 0) →
          ((d.reads y.requester).map w).sum = 0 := fun w hw =>
        List.sum_eq_zero fun v hv => by
          obtain ⟨r, hr, rfl⟩ := List.mem_map.mp hv
          exact hw r (hreads _ r hr)
      simp [nextOf_update rfl, hnext, htrace, arrivedSpan,
        hz (ReadState.spanOf y.id x) fun r hr => by simp [ReadState.spanOf, hr],
        hz (ReadState.coverOf y.id x) fun r hr => by simp [ReadState.coverOf, hr]]

theorem writeSpan_request {x : Nat} :
    writeSpan id x (requestCargo op bytes tag) =
      if op.read = false ∧ op.id = id then span op.next bytes x else 0 := by
  cases hr : op.read <;> simp [writeSpan, requestCargo, hr]

theorem writeCount_request :
    writeCount id (requestCargo op bytes tag) = if op.read = false ∧ op.id = id then 1 else 0 := by
  cases hr : op.read <;> simp [writeCount, requestCargo, hr]

theorem readSpan_request {n t x : Nat} :
    readSpan n t id x (requestCargo op bytes tag) =
      if op.read = true ∧ op.requester = n ∧ tag = t ∧ op.id = id then span op.next bytes x else 0 := by
  cases hr : op.read <;> simp [readSpan, requestCargo, hr]

theorem Txn.Accounts.issueWrite {op : Transfer} {bytes : Nat} (h : d.Accounts) (hf : d.Filing)
    (hop : d.transfers op.id = some op) (hrd : op.read = false) :
    Txn.Accounts
      { d with
        cargo := d.cargo + {requestCargo op bytes 0}
        transfers := update d.transfers op.id (some (op.issued bytes)) } := by
  have hsub := (hf.filed _ _ hop).2.2
  have hne : ∀ y, .submitted y ∈ d.trace → y.read = true → y.id ≠ op.id := fun y hy hy' =>
    (hf.id_ne hy hsub (by rw [hy']; simp [Transfer.origin, hrd]) : y.id ≠ op.origin.id)
  refine ⟨fun y hy hy' x => ?_, fun y hy hy' => ?_, fun y hy hy' => ?_, fun y hy hy' x => ?_,
    fun n t id x => ?_⟩
  · have hold := h.written y hy hy' x
    simp only [map_add, map_singleton, sum_add, sum_singleton]
    by_cases heq : y.id = op.id
    · rw [nextOf_eq (heq ▸ hop)] at hold
      rw [nextOf_update heq]
      rw [writeSpan_request, if_pos ⟨hrd, heq.symm⟩]
      have hspan := span_add 0 op.next bytes x
      rw [Nat.zero_add] at hspan
      show _ = span 0 (op.next + bytes) x
      omega
    · rw [nextOf_update_ne heq, writeSpan_request, if_neg fun hc => heq hc.2.symm, add_zero]
      exact hold
  · have hold := h.writing y hy hy'
    simp only [map_add, map_singleton, sum_add, sum_singleton]
    by_cases heq : y.id = op.id
    · rw [heq, pendingOf_eq hop] at hold
      rw [heq, pendingOf_update, hold, writeCount_request, if_pos ⟨hrd, rfl⟩]
      rfl
    · rw [pendingOf_update_ne heq, hold, writeCount_request, if_neg fun hc => heq hc.2.symm,
        add_zero]
  · rw [pendingOf_update_ne (hne y hy hy')]
    exact h.reading y hy hy'
  · rw [nextOf_update_ne (hne y hy hy')]
    exact h.returned y hy hy' x
  · simpa [readSpan_request, hrd] using h.traffic n t id x

theorem Txn.Accounts.land {f : Frame} {op : Transfer} {m : Multiset Cargo} (h : d.Accounts)
    (hf : d.Filing) (hty : f.header.type = .write) (hm : d.cargo = m + {f.cargo})
    (hop : d.transfers f.transaction = some op) :
    Txn.Accounts
      { d with
        cargo := m
        transfers := update d.transfers f.transaction (some op.settled)
        trace := d.trace ++ [.delivered f] } := by
  obtain ⟨o, ho, hof⟩ := hf.cargo f.cargo (by rw [hm]; simp)
  have hoid : f.transaction = o.id := hof.transaction
  have horead : o.read = false := by
    have := hof.direction
    simpa [Frame.cargo, hty] using this
  have hsub : ∀ x, .submitted x ∈ d.trace ++ [.delivered f] → .submitted x ∈ d.trace := by
    intro x hx
    simpa using hx
  refine ⟨fun y hy hy' x => ?_, fun y hy hy' => ?_, fun y hy hy' => ?_, fun y hy hy' x => ?_,
    fun n t id x => ?_⟩
  · have hold := h.written y (hsub y hy) hy' x
    rw [hm] at hold
    simp only [map_add, map_singleton, sum_add, sum_singleton] at hold
    simp only [List.map_append, List.map_cons, List.map_nil, List.sum_append, List.sum_cons,
      List.sum_nil, add_zero]
    by_cases heq : y.id = f.transaction
    · rw [nextOf_eq (heq ▸ hop)] at hold
      rw [nextOf_update heq]
      simp only [writeSpan, Frame.cargo, hty, heq, and_self, ↓reduceIte, arrivedSpan] at hold ⊢
      rw [show op.settled.next = op.next from rfl]
      omega
    · rw [nextOf_update_ne heq]
      simp only [writeSpan, Frame.cargo, Ne.symm heq, and_false, ↓reduceIte, add_zero, arrivedSpan] at hold ⊢
      exact hold
  · have hold := h.writing y (hsub y hy) hy'
    rw [hm] at hold
    simp only [map_add, map_singleton, sum_add, sum_singleton] at hold
    by_cases heq : y.id = f.transaction
    · rw [heq, pendingOf_eq hop] at hold
      rw [heq, pendingOf_update]
      simp only [writeCount, Frame.cargo, hty, and_self, ↓reduceIte] at hold
      show _ = op.pending - 1
      rw [← hold]
      rfl
    · rw [pendingOf_update_ne heq, ← hold]
      simp [writeCount, Frame.cargo, Ne.symm heq]
  · have hne : y.id ≠ f.transaction := hoid ▸ hf.id_ne (hsub y hy) ho (by rw [hy', horead]; simp)
    simpa [pendingOf_update_ne hne] using h.reading y (hsub y hy) hy'
  · have hne : y.id ≠ f.transaction := hoid ▸ hf.id_ne (hsub y hy) ho (by rw [hy', horead]; simp)
    simpa [nextOf_update_ne hne, arrivedSpan, Ne.symm hne] using h.returned y (hsub y hy) hy' x
  · have hold := h.traffic n t id x
    rw [hm] at hold
    simpa [readSpan, Frame.cargo, hty] using hold

end Writes

/-! ### Steps of a read -/

section Reads

variable {d : Txn} {reads : Nat → List ReadState} {n : Nat} {r : ReadState}

theorem sum_reads_append (w : ReadState → Nat) (k : Nat) :
    ((update reads n (reads n ++ [r]) k).map w).sum =
      ((reads k).map w).sum + if k = n then w r else 0 := by
  by_cases hk : k = n
  · subst hk
    simp
  · simp [hk]

theorem sum_reads_replace (r' : ReadState) (w : ReadState → Nat) (k : Nat)
    (hnd : ((reads n).map ReadState.tag).Nodup) (hr : r ∈ reads n) :
    ((update reads n ((reads n).map fun x => if x.tag == r.tag then r' else x) k).map w).sum +
      (if k = n then w r else 0) = ((reads k).map w).sum + if k = n then w r' else 0 := by
  by_cases hk : k = n
  · subst hk
    simpa using sum_replace w ReadState.tag (b := r') hnd hr
  · simp [hk]

theorem sum_reads_remove (w : ReadState → Nat) (k : Nat)
    (hnd : ((reads n).map ReadState.tag).Nodup) (hr : r ∈ reads n) :
    ((update reads n ((reads n).filter fun x => x.tag != r.tag) k).map w).sum +
      (if k = n then w r else 0) = ((reads k).map w).sum := by
  by_cases hk : k = n
  · subst hk
    have hfilter : ((reads k).filter fun x => x.tag != r.tag) =
        (reads k).filter fun x => x.tag ≠ r.tag := by
      refine List.filter_congr fun x _ => ?_
      by_cases hx : x.tag = r.tag <;> simp [hx]
    simpa [hfilter] using sum_remove w ReadState.tag hnd hr
  · simp [hk]

theorem Txn.Accounts.issueRead {op : Transfer} {bytes tag : Nat} {readBytes : Nat → Nat}
    (h : d.Accounts) (hf : d.Filing) (hop : d.transfers op.id = some op) (hrd : op.read = true) :
    Txn.Accounts
      { d with
        cargo := d.cargo + {requestCargo op bytes tag}
        reads := update d.reads op.requester (d.reads op.requester ++
          [{ tag, transaction := op.id, offset := op.next, bytes }])
        readBytes
        transfers := update d.transfers op.id (some (op.issued bytes)) } := by
  have hsub := (hf.filed _ _ hop).2.2
  have hne : ∀ y, .submitted y ∈ d.trace → y.read = false → y.id ≠ op.id := fun y hy hy' =>
    (hf.id_ne hy hsub (by rw [hy']; simp [Transfer.origin, hrd]) : y.id ≠ op.origin.id)
  have hsame : ∀ y, .submitted y ∈ d.trace → y.id = op.id → y.requester = op.requester := by
    intro y hy heq
    rw [hf.unique y op.origin hy hsub heq]
    rfl
  refine ⟨fun y hy hy' x => ?_, fun y hy hy' => ?_, fun y hy hy' => ?_, fun y hy hy' x => ?_,
    fun n t id x => ?_⟩
  · rw [nextOf_update_ne (hne y hy hy')]
    simpa [writeSpan_request, hrd] using h.written y hy hy' x
  · rw [pendingOf_update_ne (hne y hy hy')]
    simpa [writeCount_request, hrd] using h.writing y hy hy'
  · have hold := h.reading y hy hy'
    dsimp only
    rw [sum_reads_append]
    by_cases heq : y.id = op.id
    · rw [heq, pendingOf_eq hop] at hold
      rw [heq, pendingOf_update, hold, if_pos (hsame y hy heq)]
      simp [ReadState.countOf, Transfer.issued]
    · rw [pendingOf_update_ne heq, hold]
      simp [ReadState.countOf, Ne.symm heq]
  · have hold := h.returned y hy hy' x
    dsimp only
    rw [sum_reads_append, sum_reads_append]
    by_cases heq : y.id = op.id
    · rw [nextOf_eq (heq ▸ hop)] at hold
      rw [nextOf_update heq, if_pos (hsame y hy heq), if_pos (hsame y hy heq)]
      have hspan := span_add 0 op.next bytes x
      rw [Nat.zero_add] at hspan
      show _ = span 0 (op.next + bytes) x + _
      simp only [ReadState.spanOf, ReadState.coverOf, heq, ↓reduceIte, cover_nil] at hold ⊢
      omega
    · rw [nextOf_update_ne heq]
      simpa [ReadState.spanOf, ReadState.coverOf, Ne.symm heq] using hold
  · have hold := h.traffic n t id x
    simp only [map_add, map_singleton, sum_add, sum_singleton]
    rw [sum_reads_append, sum_reads_append, readSpan_request]
    by_cases hn : n = op.requester
    · subst hn
      by_cases ht : tag = t
      · by_cases hid : op.id = id
        · simp only [hrd, ht, hid, true_and, ↓reduceIte, atTag, ReadState.spanOf, ReadState.coverOf,
            cover_nil, add_zero] at hold ⊢
          omega
        · simpa [hrd, ht, hid, atTag, ReadState.spanOf, ReadState.coverOf] using hold
      · simpa [ht, atTag] using hold
    · simpa [hn, Ne.symm hn] using hold

theorem Txn.Accounts.respond {c : Cargo} {bytes : Nat} {m : Multiset Cargo} (h : d.Accounts)
    (hty : c.header.type = .read) (hle : c.answered + bytes ≤ c.header.bytes)
    (hm : d.cargo = m + {c}) :
    Txn.Accounts { d with cargo := m + {completionCargo c bytes} + remainder c bytes } := by
  have hzero : ∀ w : Cargo → Nat, (∀ x : Cargo, x.header.type ≠ .write → w x = 0) →
      ((m + {completionCargo c bytes} + remainder c bytes).map w).sum = (d.cargo.map w).sum := by
    intro w hw
    have hrem : ((remainder c bytes).map w).sum = 0 := by
      unfold remainder
      split
      · rfl
      · simp [hw { c with answered := c.answered + bytes } (by simp [hty])]
    have hcpl : w (completionCargo c bytes) = 0 := hw _ (by simp [completionCargo])
    simp [hm, hrem, hcpl, hw c (by simp [hty])]
  refine ⟨fun y hy hy' x => ?_, fun y hy hy' => ?_, h.reading, h.returned, fun n t id x => ?_⟩
  · dsimp only
    rw [hzero _ fun x hx => by simp [writeSpan, hx]]
    exact h.written y hy hy' x
  · dsimp only
    rw [hzero _ fun x hx => by simp [writeCount, hx]]
    exact h.writing y hy hy'
  · have hold := h.traffic n t id x
    have hsplit : readSpan n t id x c = readSpan n t id x (completionCargo c bytes) +
        ((remainder c bytes).map (readSpan n t id x)).sum := by
      have hspan := span_add (c.offset + c.answered) bytes
        (c.header.bytes - (c.answered + bytes)) x
      rw [show bytes + (c.header.bytes - (c.answered + bytes)) = c.header.bytes - c.answered by omega]
        at hspan
      by_cases hc : c.header.requester = n ∧ c.header.tag = t ∧ c.transaction = id
      · have h1 : readSpan n t id x c = span (c.offset + c.answered) (c.header.bytes - c.answered) x := by
          simp [readSpan, hty, hc]
        have h2 : readSpan n t id x (completionCargo c bytes) = span (c.offset + c.answered) bytes x := by
          simp [readSpan, completionCargo, hc]
        have h3 : ((remainder c bytes).map (readSpan n t id x)).sum =
            span (c.offset + c.answered + bytes) (c.header.bytes - (c.answered + bytes)) x := by
          unfold remainder
          split
          · rename_i hdone
            simp [hdone]
          · simp [readSpan, hty, hc, Nat.add_assoc]
        rw [h1, h2, h3, hspan]
      · have h3 : ((remainder c bytes).map (readSpan n t id x)).sum = 0 := by
          unfold remainder
          split
          · rfl
          · simp [readSpan, hty, hc]
        rw [h3]
        simp [readSpan, completionCargo, hc]
    rw [hm] at hold
    simp only [map_add, map_singleton, sum_add, sum_singleton] at hold ⊢
    omega

theorem sum_atTag {l : List ReadState} (hnd : (l.map ReadState.tag).Nodup) (hr : r ∈ l)
    (w : ReadState → Nat) : (l.map (atTag r.tag w)).sum = w r := by
  induction l with
  | nil => cases hr
  | cons a l ih =>
      rw [List.map_cons, List.nodup_cons] at hnd
      rcases List.mem_cons.mp hr with rfl | hl
      · have hzero : (l.map (atTag r.tag w)).sum = 0 := List.sum_eq_zero fun v hv => by
          obtain ⟨b, hb, rfl⟩ := List.mem_map.mp hv
          have hne : b.tag ≠ r.tag := fun he => hnd.1 (he ▸ List.mem_map_of_mem hb)
          simp [atTag, hne]
        simp [hzero, atTag]
      · have hne : a.tag ≠ r.tag := fun he => hnd.1 (he ▸ List.mem_map_of_mem hl)
        rw [List.map_cons, List.sum_cons, ih hnd.2 hl]
        simp [atTag, hne]

theorem Txn.Accounts.range_of_read (h : d.Accounts) (hnd : ((d.reads n).map ReadState.tag).Nodup)
    (hr : r ∈ d.reads n) (x : Nat) :
    (d.cargo.map (readSpan n r.tag r.transaction x)).sum + cover r.pieces x = span r.offset r.bytes x := by
  have hold := h.traffic n r.tag r.transaction x
  rw [sum_atTag hnd hr, sum_atTag hnd hr] at hold
  simpa [ReadState.coverOf, ReadState.spanOf] using hold

theorem Txn.Accounts.cover_of_full (h : d.Accounts)
    (hw : ReadWindow d.config (d.reads n) (d.readBytes n)) (hr : r ∈ d.reads n)
    (hfull : r.received = r.bytes) (x : Nat) : cover r.pieces x = span r.offset r.bytes x := by
  refine cover_eq_span (fun y => ?_) ?_ x
  · have := h.range_of_read hw.nodup hr y
    omega
  · rw [← hw.received r hr, hfull]

theorem Txn.Accounts.accept {f : Frame} {m : Multiset Cargo} (h : d.Accounts) (hf : d.Filing)
    (hnd : ((d.reads f.destination).map ReadState.tag).Nodup) (hty : f.header.type = .completion)
    (hm : d.cargo = m + {f.cargo}) (hr : r ∈ d.reads f.destination) (htag : r.tag = f.header.tag)
    (htxn : r.transaction = f.transaction) :
    Txn.Accounts
      { d with
        cargo := m
        reads := update d.reads f.destination ((d.reads f.destination).map fun x =>
          if x.tag == r.tag then accepted r f else x)
        trace := d.trace ++ [.delivered f] } := by
  obtain ⟨o, ho, hof⟩ := hf.cargo f.cargo (by rw [hm]; simp)
  have hoid : f.transaction = o.id := hof.transaction
  have horead : o.read = true := by
    have hdir := hof.direction
    rw [show f.cargo.header.type = _ from hty] at hdir
    exact hdir.trans rfl
  have hodest : f.destination = o.requester := by
    have := hof.destination
    simpa [Frame.cargo, hty] using this
  have hreq : f.header.requester = f.destination := hof.requester.trans hodest.symm
  have hsub : ∀ x, .submitted x ∈ d.trace ++ [.delivered f] → .submitted x ∈ d.trace := by
    intro x hx
    simpa using hx
  have hsame : ∀ y, .submitted y ∈ d.trace → y.id = f.transaction → y.requester = f.destination := by
    intro y hy heq
    rw [hf.unique y o hy ho (heq.trans hoid), hodest]
  have hpieces : ∀ x, cover (accepted r f).pieces x =
      span f.offset f.header.bytes x + cover r.pieces x := fun x => cover_insertPiece _ _ x
  refine ⟨fun y hy hy' x => ?_, fun y hy hy' => ?_, fun y hy hy' => ?_, fun y hy hy' x => ?_,
    fun n t id x => ?_⟩
  · have hne : y.id ≠ f.transaction := hoid ▸ hf.id_ne (hsub y hy) ho (by rw [hy', horead]; simp)
    have hold := h.written y (hsub y hy) hy' x
    rw [hm] at hold
    simpa [writeSpan, Frame.cargo, hty, arrivedSpan, Ne.symm hne] using hold
  · have hold := h.writing y (hsub y hy) hy'
    rw [hm] at hold
    simpa [writeCount, Frame.cargo, hty] using hold
  · have hold := h.reading y (hsub y hy) hy'
    have hrep := sum_reads_replace (accepted r f) (ReadState.countOf y.id) y.requester hnd hr
    have hcount : ReadState.countOf y.id (accepted r f) = ReadState.countOf y.id r := rfl
    rw [hcount] at hrep
    exact (add_right_cancel hrep).trans hold
  · have hold := h.returned y (hsub y hy) hy' x
    have hspan := sum_reads_replace (accepted r f) (ReadState.spanOf y.id x) y.requester hnd hr
    have hcov := sum_reads_replace (accepted r f) (ReadState.coverOf y.id x) y.requester hnd hr
    have hsame1 : ReadState.spanOf y.id x (accepted r f) = ReadState.spanOf y.id x r := rfl
    rw [hsame1] at hspan
    have hspan' := add_right_cancel hspan
    dsimp only
    rw [hspan']
    simp only [List.map_append, List.map_cons, List.map_nil, List.sum_append, List.sum_cons,
      List.sum_nil, add_zero, arrivedSpan]
    by_cases heq : y.id = f.transaction
    · rw [if_pos (hsame y (hsub y hy) heq), if_pos (hsame y (hsub y hy) heq)] at hcov
      simp only [ReadState.coverOf, htxn, heq, ↓reduceIte, accepted] at hcov hold ⊢
      have hp := hpieces x
      simp only [accepted] at hp
      omega
    · have hz : ∀ z : ReadState, z.transaction = f.transaction → ReadState.coverOf y.id x z = 0 :=
        fun z hz => by simp [ReadState.coverOf, hz, Ne.symm heq]
      rw [hz r htxn, hz (accepted r f) htxn] at hcov
      simp only [Ne.symm heq, ↓reduceIte, add_zero, ite_self] at hcov ⊢
      rw [hcov]
      exact hold
  · have hold := h.traffic n t id x
    rw [hm] at hold
    simp only [map_add, map_singleton, sum_add, sum_singleton] at hold
    have hspan := sum_reads_replace (accepted r f) (atTag t (ReadState.spanOf id x)) n hnd hr
    have hcov := sum_reads_replace (accepted r f) (atTag t (ReadState.coverOf id x)) n hnd hr
    have hsame1 : atTag t (ReadState.spanOf id x) (accepted r f) =
        atTag t (ReadState.spanOf id x) r := rfl
    rw [hsame1] at hspan
    dsimp only
    rw [add_right_cancel hspan]
    by_cases hall : f.destination = n ∧ f.header.tag = t ∧ f.transaction = id
    · obtain ⟨rfl, rfl, rfl⟩ := hall
      have hrs : readSpan f.destination f.header.tag f.transaction x f.cargo =
          span f.offset f.header.bytes x := by
        simp [readSpan, Frame.cargo, hty, hreq]
      have hp := hpieces x
      have hc1 : atTag f.header.tag (ReadState.coverOf f.transaction x) r = cover r.pieces x := by
        simp [atTag, htag, ReadState.coverOf, htxn]
      have hc2 : atTag f.header.tag (ReadState.coverOf f.transaction x) (accepted r f) =
          cover (accepted r f).pieces x := by
        have h1 : (accepted r f).tag = f.header.tag := htag
        have h2 : (accepted r f).transaction = f.transaction := htxn
        simp [atTag, h1, ReadState.coverOf, h2]
      rw [hrs] at hold
      rw [if_pos rfl, if_pos rfl, hc1, hc2] at hcov
      omega
    · have hrs : readSpan n t id x f.cargo = 0 := by
        simp only [readSpan, Frame.cargo, hreq]
        rw [if_neg fun hc => hall hc.2]
      have hzero : ∀ z : ReadState, z.tag = f.header.tag → z.transaction = f.transaction →
          n = f.destination → atTag t (ReadState.coverOf id x) z = 0 := by
        intro z hz1 hz2 hn
        simp only [atTag, ReadState.coverOf, hz1, hz2]
        split
        · rw [if_neg fun hc => hall ⟨hn.symm, ‹_›, hc⟩]
        · rfl
      have hcov' : ((update d.reads f.destination ((d.reads f.destination).map fun x =>
          if x.tag == r.tag then accepted r f else x) n).map (atTag t (ReadState.coverOf id x))).sum =
            ((d.reads n).map (atTag t (ReadState.coverOf id x))).sum := by
        by_cases hn : n = f.destination
        · rw [if_pos hn, if_pos hn, hzero r htag htxn hn, hzero (accepted r f) htag htxn hn] at hcov
          exact hcov
        · rw [if_neg hn, if_neg hn] at hcov
          exact hcov
      rw [hrs] at hold
      rw [hcov']
      omega

theorem Txn.Accounts.retire {op : Transfer} {readBytes : Nat → Nat} (h : d.Accounts)
    (hf : d.Filing) (hw : ReadWindow d.config (d.reads n) (d.readBytes n)) (hr : r ∈ d.reads n)
    (hfull : r.received = r.bytes) (hop : d.transfers r.transaction = some op) :
    Txn.Accounts
      { d with
        reads := update d.reads n ((d.reads n).filter fun x => x.tag != r.tag)
        readBytes
        transfers := update d.transfers r.transaction (some op.settled) } := by
  obtain ⟨o, ho, horead, horeq, hoid⟩ := hf.reads n r hr
  have hcover := h.cover_of_full hw hr hfull
  have hsame : ∀ y, .submitted y ∈ d.trace → y.id = r.transaction → y.requester = n := by
    intro y hy heq
    rw [hf.unique y o hy ho (heq.trans hoid.symm), horeq]
  -- a full read has as much range as cover, whatever else is counted
  have hbal : ∀ id x, ReadState.spanOf id x r = ReadState.coverOf id x r := by
    intro id x
    simp only [ReadState.spanOf, ReadState.coverOf, hcover]
  refine ⟨fun y hy hy' x => ?_, fun y hy hy' => ?_, fun y hy hy' => ?_, fun y hy hy' x => ?_,
    fun k t id x => ?_⟩
  · have hne : y.id ≠ r.transaction := hoid ▸ hf.id_ne hy ho (by rw [hy', horead]; simp)
    rw [nextOf_update_ne hne]
    exact h.written y hy hy' x
  · have hne : y.id ≠ r.transaction := hoid ▸ hf.id_ne hy ho (by rw [hy', horead]; simp)
    rw [pendingOf_update_ne hne]
    exact h.writing y hy hy'
  · have hold := h.reading y hy hy'
    have hrem := sum_reads_remove (ReadState.countOf y.id) y.requester hw.nodup hr
    dsimp only
    by_cases heq : y.id = r.transaction
    · rw [if_pos (hsame y hy heq)] at hrem
      rw [heq, pendingOf_eq hop] at hold
      have h1 : ReadState.countOf y.id r = 1 := by simp [ReadState.countOf, heq]
      rw [h1] at hrem
      rw [heq, pendingOf_update]
      rw [heq] at hrem
      show _ = op.pending - 1
      omega
    · have h0 : ReadState.countOf y.id r = 0 := by simp [ReadState.countOf, Ne.symm heq]
      rw [h0, ite_self, add_zero] at hrem
      rw [pendingOf_update_ne heq, hrem]
      exact hold
  · have hold := h.returned y hy hy' x
    have hspan := sum_reads_remove (ReadState.spanOf y.id x) y.requester hw.nodup hr
    have hcov := sum_reads_remove (ReadState.coverOf y.id x) y.requester hw.nodup hr
    rw [hbal] at hspan
    have hnext : nextOf (update d.transfers r.transaction (some op.settled)) y =
        nextOf d.transfers y := by
      by_cases heq : y.id = r.transaction
      · rw [nextOf_update heq, nextOf_eq (heq ▸ hop)]
        rfl
      · rw [nextOf_update_ne heq]
    dsimp only
    rw [hnext]
    omega
  · have hold := h.traffic k t id x
    have hspan := sum_reads_remove (atTag t (ReadState.spanOf id x)) k hw.nodup hr
    have hcov := sum_reads_remove (atTag t (ReadState.coverOf id x)) k hw.nodup hr
    have hb : atTag t (ReadState.spanOf id x) r = atTag t (ReadState.coverOf id x) r := by
      simp only [atTag, hbal]
    rw [hb] at hspan
    dsimp only
    omega

theorem Txn.Accounts.erase {id : Nat} {op : Transfer} (h : d.Accounts) (hf : d.Filing)
    (hop : d.transfers id = some op) (hnext : op.next = op.bytes) (hpend : op.pending = 0) :
    Txn.Accounts { d with transfers := update d.transfers id none } := by
  have hid := (hf.filed id op hop).1
  have hn : ∀ y, .submitted y ∈ d.trace →
      nextOf (update d.transfers id none) y = nextOf d.transfers y := by
    intro y hy
    by_cases heq : y.id = id
    · have horigin := hf.origin_eq (heq ▸ hop) hy
      have hnow : nextOf d.transfers y = y.bytes := by
        rw [nextOf_eq (heq ▸ hop), hnext, ← horigin]
        rfl
      rw [hnow]
      simp [nextOf, heq]
    · exact nextOf_update_ne heq
  have hp : ∀ id', pendingOf (update d.transfers id none) id' = pendingOf d.transfers id' := by
    intro id'
    by_cases heq : id' = id
    · subst heq
      rw [pendingOf_eq hop, hpend]
      simp [pendingOf]
    · exact pendingOf_update_ne heq
  refine ⟨fun y hy hy' x => ?_, fun y hy hy' => ?_, fun y hy hy' => ?_, fun y hy hy' x => ?_,
    h.traffic⟩
  · rw [hn y hy]
    exact h.written y hy hy' x
  · rw [hp]
    exact h.writing y hy hy'
  · rw [hp]
    exact h.reading y hy hy'
  · rw [hn y hy]
    exact h.returned y hy hy' x

end Reads

theorem Txn.Step.accounts (h : Txn.Step d d') (hf : d.Filing)
    (hw : ∀ n, ReadWindow d.config (d.reads n) (d.readBytes n)) (ha : d.Accounts)
    : d'.Accounts := by
  cases h with
  | note ho =>
      obtain ⟨f, rfl⟩ := ho
      exact ha.note (by simp) (by simp)
  | submit hid hnext hpend => exact ha.submit hf hid hnext hpend
  | issueWrite hop hrd => exact (ha.issueWrite hf hop hrd).note (by simp) (by simp)
  | issueRead hop hrd => exact (ha.issueRead hf hop hrd).note (by simp) (by simp)
  | respond hty _ hle hm => exact (ha.respond hty hle hm).note (by simp) (by simp)
  | land hty hm hop => exact ha.land hf hty hm hop
  | accept hty hm hr htxn =>
      exact ha.accept hf (hw _).nodup hty hm (List.mem_of_find?_eq_some hr)
        (by simpa using List.find?_some hr) htxn
  | retire hr hfull hop => exact ha.retire hf (hw _) (List.mem_of_find?_eq_some hr) hfull hop
  | @finish id op hop hnext hpend =>
      have herase := ha.erase hf hop hnext hpend
      cases op.complete with
      | true => exact herase.note (by simp) (by simp)
      | false => exact herase

end ProtoBridge.Pcie
