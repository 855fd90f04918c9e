import ProtoBridge.Lib.Tiling
import ProtoBridge.Pcie.Delivery

/-!
# Segmentation

How `IssueTransfer` cuts a transfer into request TLPs and `IssueResponse` cuts
the answer of a read into completions. `Txn.Cut` says of the TLPs created so far
that the requests of a transfer tile what it has issued, and that the
completions of a request tile what of it has been answered.
-/

namespace ProtoBridge.Pcie

open Lib Fabric

/-! ## Sizes -/

theorem dvd_of_powerOfTwo {n k : Nat} (pow : powerOfTwo n = true) (le : 2 ^ k ≤ n) : 2 ^ k ∣ n := by
  simp only [powerOfTwo, Bool.and_eq_true, bne_iff_ne, beq_iff_eq] at pow
  obtain ⟨i, rfl⟩ := (Nat.and_sub_one_eq_zero_iff_isPowerOfTwo pow.1).1 pow.2
  exact Nat.pow_dvd_pow 2 ((Nat.pow_le_pow_iff_right (by decide)).1 le)

/-- What `Validate` makes of the two sizes of a completion. -/
structure Config.Grid (c : Config) : Prop where
  mps : 128 ∣ c.mps
  rcb : c.rcb ∣ c.mps
  dword : 4 ∣ c.rcb

theorem Config.Valid.grid {c : Config} (valid : c.Valid) : c.Grid := by
  have mps : 2 ^ 7 ∣ c.mps := dvd_of_powerOfTwo valid.mps_pow valid.mps_ge
  refine ⟨mps, ?_, ?_⟩
  · rcases valid.rcb_eq with small | large
    · rw [small]
      exact (by decide : 64 ∣ 2 ^ 7).trans mps
    · rw [large]
      exact mps
  · rcases valid.rcb_eq with small | large
    · rw [small]
      decide
    · rw [large]
      decide

/-- The limits of a request TLP. -/
structure RequestFits (c : Config) (read : Bool) (address bytes : Nat) : Prop where
  page : address % 4096 + bytes ≤ 4096
  write : read = false → address % 4 + bytes ≤ c.mps
  read : read = true → bytes ≤ min (min c.mrrs c.maxReadBytes) c.completionBufferBytes

theorem requestBytes_fits {c : Config} {op : Transfer} (valid : c.Valid) :
    RequestFits c op.read (op.address + op.next) (requestBytes c op) := by
  have dword : (op.address + op.next) % 4 < 4 := Nat.mod_lt _ (by decide)
  have page : (op.address + op.next) % 4096 < 4096 := Nat.mod_lt _ (by decide)
  have mps := valid.mps_ge
  constructor
  · simp only [requestBytes]
    omega
  · intro write
    simp only [requestBytes, write, Bool.false_eq_true, if_false]
    omega
  · intro read
    simp only [requestBytes, read, if_true]
    omega

/-- The limits of a completion that starts at `address` with `remain` bytes owed. -/
structure CompletionFits (c : Config) (address remain bytes : Nat) : Prop where
  pos : 0 < bytes
  le : bytes ≤ remain
  payload : address % 4 + bytes ≤ c.mps
  boundary : bytes = remain ∨ (address + bytes) % c.rcb = 0

/-- A piece that reaches up to the payload limit still makes progress when it
is cut back to an RCB boundary: both limits are multiples of the boundary. -/
theorem completionBytes_fits {c : Config} {r : Response} (valid : c.Valid)
    (more : r.next < r.request.header.bytes) :
    CompletionFits c (r.request.header.address + r.next) (r.request.header.bytes - r.next)
      (completionBytes c r) := by
  obtain ⟨mps, rcb, dword⟩ := valid.grid
  have mps_ge := valid.mps_ge
  have rcb_le : c.rcb ≤ 128 := by rcases valid.rcb_eq with h | h <;> omega
  have rcb_pos : 0 < c.rcb := by rcases valid.rcb_eq with h | h <;> omega
  have start : (r.request.header.address + r.next) % 4 < 4 := Nat.mod_lt _ (by decide)
  generalize haddress : r.request.header.address + r.next = address at start
  generalize hremain : r.request.header.bytes - r.next = remain
  have remain_pos : 0 < remain := by omega
  have size : completionBytes c r =
      if min (c.mps - address % 4) remain < remain then
        min (c.mps - address % 4) remain -
          (address + min (c.mps - address % 4) remain) % c.rcb
      else min (c.mps - address % 4) remain := by
    rw [← haddress, ← hremain]
    rfl
  rw [size]
  split_ifs with cut
  · have whole : min (c.mps - address % 4) remain = c.mps - address % 4 := by omega
    rw [whole]
    -- The end of the uncut piece is a multiple of four past a multiple of the boundary.
    have ends : address + (c.mps - address % 4) = address / 4 * 4 + c.mps := by omega
    have excess : (address / 4 * 4 + c.mps) % c.rcb = address / 4 * 4 % c.rcb := by
      obtain ⟨k, hk⟩ := rcb
      rw [hk, Nat.add_mul_mod_self_left]
    have excess_lt : address / 4 * 4 % c.rcb < c.rcb := Nat.mod_lt _ rcb_pos
    have excess_dvd : 4 ∣ address / 4 * 4 % c.rcb :=
      (Nat.dvd_mod_iff dword).2 (Nat.dvd_mul_left _ _)
    rw [ends, excess]
    have back : (address / 4 * 4 + c.mps - address / 4 * 4 % c.rcb) % c.rcb = 0 := by
      rw [← excess]
      exact Nat.mod_eq_zero_of_dvd (Nat.dvd_sub_mod _)
    refine ⟨by omega, by omega, by omega, .inr ?_⟩
    have same : address + (c.mps - address % 4 - address / 4 * 4 % c.rcb) =
        address / 4 * 4 + c.mps - address / 4 * 4 % c.rcb := by omega
    rw [same]
    exact back
  · have whole : min (c.mps - address % 4) remain = remain := by omega
    rw [whole]
    exact ⟨remain_pos, Nat.le_refl _, by omega, .inl rfl⟩

/-! ## The TLPs created so far -/

/-- The TLP an event created. -/
def Obs.made : Obs → Option Cargo
  | .created f => some f.cargo
  | _ => none

/-- All TLPs created so far, in order. -/
def made (trace : List Obs) : List Cargo := trace.filterMap Obs.made

/-- The bytes of its transfer that a TLP is about. -/
def Cargo.piece (c : Cargo) : Nat × Nat := (c.offset, c.header.bytes)

/-- The request TLPs of a transfer. -/
def requestsOf (id : Nat) (trace : List Obs) : List Cargo :=
  (made trace).filter fun c => c.transaction == id && c.header.type != .completion

/-- The completions of a request: those that start inside it. -/
def answersOf (q : Cargo) (trace : List Obs) : List Cargo :=
  (made trace).filter fun c => c.transaction == q.transaction && c.header.type == .completion &&
    q.offset ≤ c.offset && c.offset < q.offset + q.header.bytes

/-- The completion `c` answers a part of the request `q`. -/
structure Cargo.Answers (config : Config) (c q : Cargo) : Prop where
  transaction : c.transaction = q.transaction
  offset_le : q.offset ≤ c.offset
  offset_lt : c.offset < q.offset + q.header.bytes
  requester : c.header.requester = q.header.requester
  tag : c.header.tag = q.header.tag
  completer : c.header.completer = q.destination
  address : c.header.address = q.header.address + (c.offset - q.offset)
  owed : c.header.byteCount = q.header.bytes - (c.offset - q.offset)
  fits : CompletionFits config c.header.address c.header.byteCount c.header.bytes

variable {c q : Cargo} {trace : List Obs} {d : Txn}

theorem mem_requestsOf {id : Nat} :
    c ∈ requestsOf id trace ↔
      c ∈ made trace ∧ c.transaction = id ∧ c.header.type ≠ .completion := by
  simp [requestsOf]

theorem mem_answersOf :
    c ∈ answersOf q trace ↔ c ∈ made trace ∧ c.transaction = q.transaction ∧
      c.header.type = .completion ∧ q.offset ≤ c.offset ∧
      c.offset < q.offset + q.header.bytes := by
  simp [answersOf, and_assoc]

theorem made_snoc {f : Frame} : made (trace ++ [.created f]) = made trace ++ [f.cargo] := by
  simp [made, Obs.made]

theorem answered_of_made (hc : c ∈ made trace) : c.answered = 0 := by
  obtain ⟨o, -, ho⟩ := List.mem_filterMap.1 hc
  cases o with
  | created f =>
      cases ho
      rfl
  | submitted _ => cases ho
  | received _ => cases ho
  | delivered _ => cases ho
  | scheduled _ => cases ho

/-- What was cut so far. -/
structure Txn.Cut (d : Txn) : Prop where
  issued : ∀ op, .submitted op ∈ d.trace →
    Tiles 0 ((requestsOf op.id d.trace).map Cargo.piece) (nextOf d.transfers op)
  owner : ∀ c ∈ made d.trace, ∃ op, .submitted op ∈ d.trace ∧ c.Of op
  request : ∀ c ∈ made d.trace, c.header.type ≠ .completion →
    RequestFits d.config (c.header.type == .read) c.header.address c.header.bytes ∧
      c.header.tag < 256
  answer : ∀ c ∈ made d.trace, c.header.type = .completion →
    ∃ q ∈ made d.trace, q.header.type = .read ∧ c.Answers d.config q
  opened : ∀ c ∈ d.cargo, c.header.type = .read → { c with answered := 0 } ∈ made d.trace ∧
    Tiles c.offset ((answersOf c d.trace).map Cargo.piece) (c.offset + c.answered)
  closed : ∀ q ∈ made d.trace, q.header.type = .read →
    (∃ k, { q with answered := k } ∈ d.cargo) ∨
      Tiles q.offset ((answersOf q d.trace).map Cargo.piece) (q.offset + q.header.bytes)

namespace Txn.Cut

variable {d d' : Txn}

theorem congr (h : d.Cut) (hconfig : d'.config = d.config) (hmade : made d'.trace = made d.trace)
    (hsub : ∀ op, .submitted op ∈ d'.trace ↔ .submitted op ∈ d.trace)
    (hnext : ∀ op, .submitted op ∈ d.trace → nextOf d'.transfers op = nextOf d.transfers op)
    (hcargo : ∀ c, c.header.type = .read → (c ∈ d'.cargo ↔ c ∈ d.cargo)) : d'.Cut := by
  have hrequests : ∀ id, requestsOf id d'.trace = requestsOf id d.trace := by
    intro id
    rw [requestsOf, requestsOf, hmade]
  have hanswers : ∀ q, answersOf q d'.trace = answersOf q d.trace := by
    intro q
    rw [answersOf, answersOf, hmade]
  constructor
  · intro op hop
    have hop' := (hsub op).1 hop
    rw [hrequests, hnext op hop']
    exact h.issued op hop'
  · intro c hc
    rw [hmade] at hc
    obtain ⟨op, hop, hof⟩ := h.owner c hc
    exact ⟨op, (hsub op).2 hop, hof⟩
  · rw [hmade, hconfig]
    exact h.request
  · rw [hmade, hconfig]
    exact h.answer
  · intro c hc hty
    rw [hmade, hanswers]
    exact h.opened c ((hcargo c hty).1 hc) hty
  · intro q hq hty
    rw [hmade] at hq
    rw [hanswers]
    rcases h.closed q hq hty with ⟨k, hk⟩ | full
    · exact .inl ⟨k, (hcargo { q with answered := k } hty).2 hk⟩
    · exact .inr full

theorem eq_of_overlap (h : d.Cut) {q' : Cargo} (hq : q ∈ made d.trace) (hq' : q' ∈ made d.trace)
    (hty : q.header.type ≠ .completion) (hty' : q'.header.type ≠ .completion)
    (same : q.transaction = q'.transaction) {x : Nat}
    (hx : q.offset ≤ x ∧ x < q.offset + q.header.bytes)
    (hx' : q'.offset ≤ x ∧ x < q'.offset + q'.header.bytes) : q = q' := by
  obtain ⟨op, hop, hof⟩ := h.owner q hq
  have tiles := h.issued op hop
  apply tiles.eq_of_overlap (x := q) (y := q') _ _ hx hx'
  · exact mem_requestsOf.2 ⟨hq, hof.transaction, hty⟩
  · exact mem_requestsOf.2 ⟨hq', same ▸ hof.transaction, hty'⟩

theorem request_le (h : d.Cut) {op : Transfer} (hop : .submitted op ∈ d.trace)
    (hq : q ∈ made d.trace) (hty : q.header.type ≠ .completion) (hid : q.transaction = op.id) :
    q.offset + q.header.bytes ≤ nextOf d.transfers op :=
  ((h.issued op hop).mem
    (List.mem_map_of_mem (f := Cargo.piece) (mem_requestsOf.2 ⟨hq, hid, hty⟩))).2.2

theorem answer_lt (h : d.Cut) {op : Transfer} (hop : .submitted op ∈ d.trace)
    (hc : c ∈ made d.trace) (hty : c.header.type = .completion) (hid : c.transaction = op.id) :
    c.offset < nextOf d.transfers op := by
  obtain ⟨q, hq, read, answers⟩ := h.answer c hc hty
  have inside := h.request_le hop hq (by simp [read]) (answers.transaction ▸ hid)
  have before := answers.offset_lt
  omega

end Txn.Cut

theorem Txn.Sound.lone (hs : d.Sound) {m : Multiset Cargo} {x : Cargo} (hm : d.cargo = m + {c})
    (hx : x ∈ m) (hc : c.header.type = .read)
    (same : { c with answered := 0 } = { x with answered := 0 }) : False := by
  obtain ⟨header, transaction, offset, -, -⟩ := Cargo.mk.inj same
  have hcmem : c ∈ d.cargo := by simp [hm]
  have hxmem : x ∈ d.cargo := by simp [hm, hx]
  have more : ∀ y ∈ d.cargo, y.header.type = .read → y.answered < y.header.bytes := by
    intro y hy hty
    obtain ⟨op, -, hof⟩ := hs.filing.cargo y hy
    simpa [hty] using hof.answered
  have cmore := more c hcmem hc
  have xmore := more x hxmem (header ▸ hc)
  obtain ⟨r, hr, htag, htxn, -⟩ :=
    hs.accounts.tag_live (hs.window _).nodup hcmem (by simp [hc]) rfl cmore
  set last := c.offset + c.header.bytes - 1 with hlast
  have balance := hs.accounts.range_of_read (hs.window _).nodup hr last
  have one := span_le_one r.offset r.bytes last
  have ofC : readSpan c.header.requester r.tag r.transaction last c = 1 := by
    simp only [readSpan, hc, htag, htxn]
    rw [if_pos (by simp), span, if_pos (by omega)]
  have ofX : readSpan c.header.requester r.tag r.transaction last x = 1 := by
    have bytes : c.header.bytes = x.header.bytes := by rw [header]
    simp only [readSpan, ← header, ← transaction, hc, htag, htxn]
    rw [if_pos (by simp), span, if_pos (by omega)]
  have atLeast := Multiset.single_le_sum (fun _ _ => Nat.zero_le _) _
    (Multiset.mem_map_of_mem (readSpan c.header.requester r.tag r.transaction last) hx)
  rw [hm, Multiset.map_add, Multiset.sum_add, Multiset.map_singleton, Multiset.sum_singleton,
    ofC] at balance
  omega

/-! ## Steps -/

section Steps

variable {d : Txn}

variable {f : Frame}

theorem answersOf_snoc (q : Cargo)
    (other : ¬ (f.cargo.transaction = q.transaction ∧ f.cargo.header.type = .completion ∧
      q.offset ≤ f.cargo.offset ∧ f.cargo.offset < q.offset + q.header.bytes)) :
    answersOf q (trace ++ [.created f]) = answersOf q trace := by
  simp only [answersOf, made_snoc, List.filter_append]
  rw [List.append_right_eq_self, List.filter_eq_nil_iff]
  intro c hc
  obtain rfl := List.mem_singleton.1 hc
  simpa [and_assoc] using other

theorem requestsOf_snoc {id : Nat} :
    requestsOf id (trace ++ [.created f]) = requestsOf id trace ++
      if f.cargo.transaction = id ∧ f.cargo.header.type ≠ .completion then [f.cargo] else [] := by
  simp only [requestsOf, made_snoc, List.filter_append]
  rw [List.filter_singleton]
  simp

/-- A transfer is submitted: nothing was cut from it yet. -/
theorem Txn.Cut.submit {op : Transfer} (h : d.Cut) (hf : d.Filing) (hid : op.id = d.nextId)
    (hnext : op.next = 0) :
    Txn.Cut
      { d with
        nextId := d.nextId + 1
        transfers := Function.update d.transfers op.id (some op)
        trace := d.trace ++ [.submitted op] } := by
  have hmade : made (d.trace ++ [.submitted op]) = made d.trace := by simp [made, Obs.made]
  have hrequests : ∀ id, requestsOf id (d.trace ++ [.submitted op]) = requestsOf id d.trace := by
    intro id
    rw [requestsOf, requestsOf, hmade]
  have hanswers : ∀ q, answersOf q (d.trace ++ [.submitted op]) = answersOf q d.trace := by
    intro q
    rw [answersOf, answersOf, hmade]
  have hsub : ∀ x, .submitted x ∈ d.trace ++ [.submitted op] ↔ .submitted x ∈ d.trace ∨ x = op := by
    simp
  constructor
  · intro x hx
    rw [hrequests]
    rcases (hsub x).1 hx with old | rfl
    · have older := (hf.submitted x old).1
      rw [nextOf_update_ne (by omega)]
      exact h.issued x old
    · have none : requestsOf x.id d.trace = [] := by
        rw [List.eq_nil_iff_forall_not_mem]
        intro c hc
        obtain ⟨hc, hid', -⟩ := mem_requestsOf.1 hc
        obtain ⟨y, hy, hof⟩ := h.owner c hc
        have older := (hf.submitted y hy).1
        have same := hof.transaction
        omega
      rw [none, nextOf_update rfl, hnext]
      exact Tiles.nil 0
  · rw [hmade]
    intro c hc
    obtain ⟨x, hx, hof⟩ := h.owner c hc
    exact ⟨x, (hsub x).2 (.inl hx), hof⟩
  · rw [hmade]
    exact h.request
  · rw [hmade]
    exact h.answer
  · intro c hc hty
    rw [hmade, hanswers]
    exact h.opened c hc hty
  · intro q hq hty
    rw [hmade] at hq
    rw [hanswers]
    exact h.closed q hq hty

/-- The next request TLP of a transfer. -/
theorem Txn.Cut.issue {op : Transfer} {tag : Nat} {reads : Nat → List ReadState}
    {readBytes : Nat → Nat} (h : d.Cut) (hf : d.Filing) (hv : d.config.Valid)
    (hop : d.transfers op.id = some op) (hmore : op.next < op.bytes) (htag : tag < 256)
    (hcargo : f.cargo = requestCargo op (requestBytes d.config op) tag) :
    Txn.Cut
      { d with
        cargo := d.cargo + {requestCargo op (requestBytes d.config op) tag}
        reads, readBytes
        transfers := Function.update d.transfers op.id
          (some (op.issued (requestBytes d.config op)))
        trace := d.trace ++ [.created f] } := by
  have hpos := requestBytes_pos hv hmore
  have hsub : .submitted op.origin ∈ d.trace := (hf.filed _ _ hop).2.2
  have hmem : ∀ x, .submitted x ∈ d.trace ++ [.created f] ↔ .submitted x ∈ d.trace := by simp
  have hty : (requestCargo op (requestBytes d.config op) tag).header.type ≠ .completion := by
    cases hr : op.read <;> simp [requestCargo, hr]
  have hnext : nextOf d.transfers op.origin = op.next := nextOf_eq hop
  -- No completion starts where nothing was requested.
  have hanswers : ∀ q : Cargo, answersOf q (d.trace ++ [.created f]) = answersOf q d.trace := by
    intro q
    apply answersOf_snoc
    rintro ⟨-, completion, -⟩
    exact hty (hcargo ▸ completion)
  generalize hreq : requestCargo op (requestBytes d.config op) tag = r at hcargo hty
  have hid : r.transaction = op.id := by rw [← hreq]; rfl
  have hoffset : r.offset = op.next := by rw [← hreq]; rfl
  have hbytes : r.header.bytes = requestBytes d.config op := by rw [← hreq]; rfl
  have hanswered : r.answered = 0 := by rw [← hreq]; rfl
  constructor
  · intro x hx
    have old := (hmem x).1 hx
    rw [requestsOf_snoc, hcargo]
    by_cases same : x.id = op.id
    · rw [if_pos ⟨hid.trans same.symm, hty⟩, List.map_append, nextOf_update same]
      have tiles := h.issued x old
      rw [nextOf_eq (same ▸ hop)] at tiles
      have piece : [r].map Cargo.piece = [(op.next, requestBytes d.config op)] := by
        rw [List.map_singleton, Cargo.piece, hoffset, hbytes]
      rw [piece]
      exact tiles.snoc _ hpos
    · rw [if_neg fun both => same (both.1.symm.trans hid), List.append_nil, nextOf_update_ne same]
      exact h.issued x old
  · intro c hc
    rw [made_snoc] at hc
    rcases List.mem_append.1 hc with old | new
    · obtain ⟨x, hx, hof⟩ := h.owner c old
      exact ⟨x, (hmem x).2 hx, hof⟩
    · obtain rfl := List.mem_singleton.1 new
      obtain ⟨x, hx, hof⟩ := @Txn.Filing.requestCargo_of _ hf _ hop _ tag hpos
      exact ⟨x, (hmem x).2 hx, hcargo ▸ hreq ▸ hof⟩
  · intro c hc hcty
    rw [made_snoc] at hc
    rcases List.mem_append.1 hc with old | new
    · exact h.request c old hcty
    · obtain rfl := List.mem_singleton.1 new
      rw [hcargo, ← hreq]
      refine ⟨?_, htag⟩
      have fits := @requestBytes_fits _ op hv
      cases hr : op.read with
      | true =>
          rw [hr] at fits
          simpa [requestCargo, hr] using fits
      | false =>
          have other : (TlpType.write == TlpType.read) = false := rfl
          rw [hr] at fits
          simpa [requestCargo, hr, other] using fits
  · intro c hc hcty
    rw [made_snoc] at hc ⊢
    rcases List.mem_append.1 hc with old | new
    · obtain ⟨q, hq, read, answers⟩ := h.answer c old hcty
      exact ⟨q, List.mem_append_left _ hq, read, answers⟩
    · obtain rfl := List.mem_singleton.1 new
      exact absurd (hcargo ▸ hcty) hty
  · intro c hc hcty
    rw [made_snoc, hanswers]
    rcases Multiset.mem_add.1 hc with old | new
    · obtain ⟨whole, tiles⟩ := h.opened c old hcty
      exact ⟨List.mem_append_left _ whole, tiles⟩
    · obtain rfl : c = r := Multiset.mem_singleton.1 new
      have whole : { c with answered := 0 } = c := by rw [← hanswered]
      rw [whole]
      refine ⟨List.mem_append_right _ (by simp [hcargo]), ?_⟩
      have none : answersOf c d.trace = [] := by
        rw [List.eq_nil_iff_forall_not_mem]
        intro a ha
        obtain ⟨ha, htxn, completion, le, -⟩ := mem_answersOf.1 ha
        have before := h.answer_lt hsub ha completion (htxn.trans hid)
        omega
      rw [none, hanswered]
      exact Tiles.nil _
  · intro q hq hqty
    rw [made_snoc] at hq
    rw [hanswers]
    rcases List.mem_append.1 hq with old | new
    · rcases h.closed q old hqty with ⟨k, hk⟩ | full
      · exact .inl ⟨k, Multiset.mem_add.2 (.inl hk)⟩
      · exact .inr full
    · obtain rfl := List.mem_singleton.1 new
      refine .inl ⟨0, Multiset.mem_add.2 (.inr ?_)⟩
      exact Multiset.mem_singleton.2 (by rw [hcargo, ← hanswered])

theorem completionCargo_answers {bytes : Nat} {r : Response} (hv : d.config.Valid)
    (hmore : c.answered < c.header.bytes) (hheader : r.request.header = c.header)
    (hnext : r.next = c.answered) (hbytes : bytes = completionBytes d.config r) :
    (completionCargo c bytes).Answers d.config { c with answered := 0 } := by
  have fits := completionBytes_fits (r := r) hv (by rw [hheader, hnext]; exact hmore)
  rw [hheader, hnext, ← hbytes] at fits
  have here : c.offset + c.answered - c.offset = c.answered := by omega
  constructor
  · rfl
  · exact Nat.le_add_right _ _
  · show c.offset + c.answered < c.offset + c.header.bytes
    omega
  · rfl
  · rfl
  · rfl
  · show c.header.address + c.answered = c.header.address + (c.offset + c.answered - c.offset)
    rw [here]
  · show c.header.bytes - c.answered = c.header.bytes - (c.offset + c.answered - c.offset)
    rw [here]
  · exact fits

/-- One completion more of a request. -/
theorem Txn.Cut.respond {c : Cargo} {bytes : Nat} {m : Multiset Cargo} {f : Frame} (h : d.Cut)
    (hs : d.Sound) (hv : d.config.Valid) (hty : c.header.type = .read) (hpos : 0 < bytes)
    (hle : c.answered + bytes ≤ c.header.bytes) (hm : d.cargo = m + {c})
    (hsplit : ∃ r : Response, r.request.header = c.header ∧ r.next = c.answered ∧
      bytes = completionBytes d.config r)
    (hcargo : f.cargo = completionCargo c bytes) :
    Txn.Cut
      { d with
        cargo := m + {completionCargo c bytes} + remainder c bytes
        trace := d.trace ++ [.created f] } := by
  obtain ⟨r, hheader, hnext, hbytes⟩ := hsplit
  have hcmem : c ∈ d.cargo := by simp [hm]
  obtain ⟨whole, tiles⟩ := h.opened c hcmem hty
  obtain ⟨op, hop, hof⟩ := h.owner _ whole
  have answers := completionCargo_answers hv (by omega) hheader hnext hbytes
  have hmem : ∀ x, .submitted x ∈ d.trace ++ [.created f] ↔ .submitted x ∈ d.trace := by simp
  have hf : f.cargo.header.type = .completion := by rw [hcargo]; rfl
  have hoffset : f.cargo.offset = c.offset + c.answered := by rw [hcargo]; rfl
  have htxn : f.cargo.transaction = c.transaction := by rw [hcargo]; rfl
  have hrequests : ∀ id, requestsOf id (d.trace ++ [.created f]) = requestsOf id d.trace := by
    intro id
    rw [requestsOf_snoc, if_neg fun both => both.2 hf, List.append_nil]
  -- The completion starts inside its own request, so inside no other.
  have owned : ∀ q ∈ made d.trace, q.header.type = .read →
      (f.cargo.transaction = q.transaction ∧ f.cargo.header.type = .completion ∧
        q.offset ≤ f.cargo.offset ∧ f.cargo.offset < q.offset + q.header.bytes) →
      q = { c with answered := 0 } := by
    rintro q hq hqty ⟨htxn', -, hin⟩
    apply h.eq_of_overlap hq whole (by simp [hqty]) (by simp [hty]) (htxn'.symm.trans htxn) hin
    rw [hoffset]
    show c.offset ≤ c.offset + c.answered ∧ c.offset + c.answered < c.offset + c.header.bytes
    omega
  have extended : (answersOf c (d.trace ++ [.created f])).map Cargo.piece =
      (answersOf c d.trace).map Cargo.piece ++ [(c.offset + c.answered, bytes)] := by
    simp only [answersOf, made_snoc, List.filter_append, List.map_append]
    congr 1
    have keeps : (f.cargo.transaction == c.transaction && f.cargo.header.type == .completion &&
        c.offset ≤ f.cargo.offset && f.cargo.offset < c.offset + c.header.bytes) = true := by
      simp only [htxn, hf, hoffset, BEq.rfl, Bool.true_and, Bool.and_eq_true, decide_eq_true_eq]
      omega
    rw [List.filter_cons_of_pos (by exact keeps), List.filter_nil, List.map_singleton, Cargo.piece,
      hoffset, hcargo]
    rfl
  constructor
  · intro x hx
    rw [hrequests]
    exact h.issued x ((hmem x).1 hx)
  · intro x hx
    rw [made_snoc] at hx
    rcases List.mem_append.1 hx with old | new
    · obtain ⟨y, hy, hof⟩ := h.owner x old
      exact ⟨y, (hmem y).2 hy, hof⟩
    · obtain rfl := List.mem_singleton.1 new
      refine ⟨op, (hmem op).2 hop, ?_⟩
      obtain ⟨y, hy, hofc⟩ := hs.filing.cargo c hcmem
      have same : y = op :=
        hs.filing.unique y op hy hop (hofc.transaction.symm.trans hof.transaction)
      rw [hcargo]
      exact (same ▸ hofc).completion hty hpos
  · intro x hx hxty
    rw [made_snoc] at hx
    rcases List.mem_append.1 hx with old | new
    · exact h.request x old hxty
    · obtain rfl := List.mem_singleton.1 new
      exact absurd hf hxty
  · intro x hx hxty
    rw [made_snoc] at hx ⊢
    rcases List.mem_append.1 hx with old | new
    · obtain ⟨q, hq, read, answers⟩ := h.answer x old hxty
      exact ⟨q, List.mem_append_left _ hq, read, answers⟩
    · obtain rfl := List.mem_singleton.1 new
      exact ⟨_, List.mem_append_left _ whole, hty, hcargo ▸ answers⟩
  · intro x hx hxty
    rw [made_snoc]
    rcases Multiset.mem_add.1 hx with left | rest
    · rcases Multiset.mem_add.1 left with old | new
      · obtain ⟨xwhole, xtiles⟩ := h.opened x (by simp [hm, old]) hxty
        refine ⟨List.mem_append_left _ xwhole, ?_⟩
        rw [answersOf_snoc]
        · exact xtiles
        · intro inside
          have same := owned _ xwhole hxty inside
          exact hs.lone hm old hty same.symm
      · obtain rfl := Multiset.mem_singleton.1 new
        cases hxty
    · unfold remainder at rest
      split at rest
      · exact absurd rest (Multiset.notMem_zero x)
      · obtain rfl := Multiset.mem_singleton.1 rest
        refine ⟨List.mem_append_left _ whole, ?_⟩
        show Tiles c.offset ((answersOf c (d.trace ++ [.created f])).map Cargo.piece)
          (c.offset + (c.answered + bytes))
        rw [extended, ← Nat.add_assoc]
        exact tiles.snoc bytes hpos
  · intro q hq hqty
    rw [made_snoc] at hq
    rcases List.mem_append.1 hq with old | new
    · by_cases own : q = { c with answered := 0 }
      · subst own
        by_cases done : c.answered + bytes = c.header.bytes
        · right
          show Tiles c.offset ((answersOf c (d.trace ++ [.created f])).map Cargo.piece)
            (c.offset + c.header.bytes)
          rw [extended, ← done, ← Nat.add_assoc]
          exact tiles.snoc bytes hpos
        · left
          refine ⟨c.answered + bytes, Multiset.mem_add.2 (.inr ?_)⟩
          rw [remainder, if_neg done]
          exact Multiset.mem_singleton_self _
      · have apart : answersOf q (d.trace ++ [.created f]) = answersOf q d.trace := by
          apply answersOf_snoc
          intro inside
          exact own (owned q old hqty inside)
        rw [apart]
        rcases h.closed q old hqty with ⟨k, hk⟩ | full
        · left
          refine ⟨k, Multiset.mem_add.2 (.inl (Multiset.mem_add.2 (.inl ?_)))⟩
          rw [hm] at hk
          rcases Multiset.mem_add.1 hk with still | gone
          · exact still
          · exfalso
            apply own
            rw [← Multiset.mem_singleton.1 gone, ← answered_of_made old]
        · exact .inr full
    · obtain rfl := List.mem_singleton.1 new
      rw [hf] at hqty
      cases hqty

theorem freeTag_lt (reads : List ReadState) : ∀ fuel number,
    (reads.countP fun r => number ≤ r.tag) < fuel → freeTag reads fuel number < number + fuel := by
  intro fuel
  induction fuel with
  | zero => intro number h; omega
  | succ fuel ih =>
      intro number h
      unfold freeTag
      split
      case isTrue any =>
        obtain ⟨r, hr, tag⟩ := List.any_eq_true.1 any
        simp only [beq_iff_eq] at tag
        have fewer : (reads.countP fun r => number + 1 ≤ r.tag) <
            reads.countP fun r => number ≤ r.tag := by
          refine countP_lt_countP (fun r _ hr => ?_) hr (by simp [tag]) (by simp [tag])
          simp only [decide_eq_true_eq] at hr ⊢
          omega
        have found := ih (number + 1) (by omega)
        omega
      case isFalse => omega

/-- Every step of the transaction layer keeps what was cut. -/
theorem Txn.Step.cut {d' : Txn} (h : Txn.Step d d') (hv : d.config.Valid) (hs : d.Sound)
    (hc : d.Cut) : d'.Cut := by
  cases h with
  | note ho =>
      obtain ⟨f, rfl⟩ := ho
      exact hc.congr rfl (by simp [made, Obs.made]) (by simp) (fun _ _ => rfl) fun _ _ => Iff.rfl
  | submit hid hnext hpend hpos => exact hc.submit hs.filing hid hnext
  | issueWrite hop hrd hmore hcargo =>
      exact hc.issue hs.filing hv hop hmore (by decide) hcargo
  | @issueRead op f hop hrd hmore hlen hmax hbuf hcargo =>
      have few := (hs.window op.requester).length_le
      have all : ((d.reads op.requester).countP fun r => 0 ≤ r.tag) ≤
          (d.reads op.requester).length := List.countP_le_length
      have tag := freeTag_lt (d.reads op.requester) d.config.tags 0 (by omega)
      have limit := hv.tags_le
      exact hc.issue hs.filing hv hop hmore (by omega) hcargo
  | respond hty hpos hle hm hsplit hcargo => exact hc.respond hs hv hty hpos hle hm hsplit hcargo
  | @land f op m hty hm hop =>
      refine hc.congr rfl (by simp [made, Obs.made]) (by simp) (fun x hx => ?_) fun c hcty => ?_
      · by_cases same : x.id = f.transaction
        · rw [nextOf_update same, nextOf_eq (same ▸ hop)]
          rfl
        · rw [nextOf_update_ne same]
      · rw [hm, Multiset.mem_add, Multiset.mem_singleton]
        refine ⟨.inl, fun either => either.resolve_right ?_⟩
        rintro rfl
        rw [show f.cargo.header.type = .write from hty] at hcty
        cases hcty
  | @accept f r m hty hm hr htxn =>
      refine hc.congr rfl (by simp [made, Obs.made]) (by simp) (fun _ _ => rfl) fun c hcty => ?_
      rw [hm, Multiset.mem_add, Multiset.mem_singleton]
      refine ⟨.inl, fun either => either.resolve_right ?_⟩
      rintro rfl
      rw [show f.cargo.header.type = .completion from hty] at hcty
      cases hcty
  | @retire n r op hr hfull hop =>
      refine hc.congr rfl rfl (by simp) (fun x hx => ?_) fun _ _ => Iff.rfl
      by_cases same : x.id = r.transaction
      · rw [nextOf_update same, nextOf_eq (same ▸ hop)]
        rfl
      · rw [nextOf_update_ne same]
  | @finish id op hop hnext hpend =>
      refine hc.congr rfl ?_ ?_ (fun x hx => ?_) fun _ _ => Iff.rfl
      · show made (if op.complete then _ else _) = _
        split_ifs <;> simp [made, Obs.made]
      · intro x
        show _ ∈ (if op.complete then _ else _) ↔ _
        split_ifs <;> simp
      · by_cases same : x.id = id
        · -- The last byte was issued before the transfer finished.
          have origin := hs.filing.origin_eq (same ▸ hop) hx
          have bytes : x.bytes = op.bytes := by rw [← origin]; rfl
          have gone : nextOf (Function.update d.transfers id none) x = x.bytes := by
            simp [nextOf, same]
          rw [gone, nextOf_eq (same ▸ hop), bytes, hnext]
        · rw [nextOf_update_ne same]

end Steps

theorem Txn.Cut.initial (c : Config) : (Snap.txn ⟨{ config := c }, none⟩).Cut := by
  have empty : Snap.total ⟨{ config := c }, none⟩ = 0 := by
    simp [Snap.total_none, Fabric.total, live, lost]
  constructor
  all_goals simp [empty, Snap.txn, made]

theorem Micro.cut {env : Env} {s s' : Snap} (h : Micro env s s') (hwf : s.Wf) (hs : s.txn.Sound)
    (hc : s.txn.Cut) : s'.txn.Cut := by
  rcases h.txn hwf with same | step
  · exact same ▸ hc
  · exact step.cut hwf.valid hs hc

/-! ## What a run has cut -/

/-- The addresses a TLP is about. -/
def Cargo.range (c : Cargo) : Nat × Nat := (c.header.address, c.header.bytes)

/-- The limits of the configuration on one TLP. -/
structure Header.Legal (c : Config) (h : Header) : Prop where
  page : h.type ≠ .completion → h.address / 4096 = (h.address + h.bytes - 1) / 4096
  payload : h.payloadBytesOnWire ≤ c.mps
  read : h.type = .read → h.bytes ≤ min (min c.mrrs c.maxReadBytes) c.completionBufferBytes
  credit : 0 < c.credits (creditClass h.type)
  dataCredits : h.dataCredits ≤ c.credits (dataClass h.type)
  replay : h.payloadBytesOnWire + h.serializedSize + tlpLinkBytes ≤ c.replayBufferBytes

/-- A TLP whose payload fits the payload limit fits the credit pools and the
replay buffer. -/
theorem Header.Legal.of_payload {c : Config} {h : Header} (valid : c.Valid)
    (payload : h.type ≠ .read → h.address % 4 + h.bytes ≤ c.mps)
    (page : h.type ≠ .completion → h.address / 4096 = (h.address + h.bytes - 1) / 4096)
    (read : h.type = .read → h.bytes ≤ min (min c.mrrs c.maxReadBytes) c.completionBufferBytes) :
    h.Legal c := by
  obtain ⟨units, hunits⟩ := valid.grid.mps
  have wire : h.payloadBytesOnWire ≤ c.mps := by
    unfold Header.payloadBytesOnWire
    split_ifs with is
    · omega
    · have fits := payload is
      omega
  have size : h.serializedSize ≤ 16 := by
    unfold Header.serializedSize
    split_ifs <;> omega
  have data : h.dataCredits ≤ c.mps / 16 := by
    unfold Header.dataCredits
    omega
  have buffer := valid.replay_ge
  refine ⟨page, wire, read, ?_, ?_, by omega⟩
  · cases h.type with
    | read => exact valid.nph_pos
    | write => exact valid.ph_pos
    | completion => exact valid.cplh_pos
  · cases is : h.type with
    | read => simp [Header.dataCredits, Header.payloadBytesOnWire, is]
    | write => exact data.trans valid.pd_ge
    | completion => exact data.trans valid.cpld_ge

theorem Txn.Cut.legal (h : d.Cut) (hv : d.config.Valid) (hc : c ∈ made d.trace)
    : c.header.Legal d.config := by
  obtain ⟨op, -, hof⟩ := h.owner c hc
  have some := hof.bytes_pos
  by_cases completion : c.header.type = .completion
  · obtain ⟨q, -, -, answers⟩ := h.answer c hc completion
    apply Header.Legal.of_payload hv
    · intro _
      exact answers.fits.payload
    · exact fun other => absurd completion other
    · intro read
      rw [completion] at read
      cases read
  · obtain ⟨fits, -⟩ := h.request c hc completion
    apply Header.Legal.of_payload hv
    · intro other
      exact fits.write (by simpa using other)
    · intro _
      have page := fits.page
      omega
    · intro read
      exact fits.read (by simp [read])

theorem Txn.Cut.requests_tile (h : d.Cut) (hf : d.Filing) {op : Transfer}
    (hop : .submitted op ∈ d.trace) :
    Tiles op.address ((requestsOf op.id d.trace).map Cargo.range)
      (op.address + nextOf d.transfers op) := by
  have tiles := (h.issued op hop).shift op.address
  rw [List.map_map, Nat.add_zero] at tiles
  have same : (requestsOf op.id d.trace).map Cargo.range =
      (requestsOf op.id d.trace).map
        ((fun q : Nat × Nat => (op.address + q.1, q.2)) ∘ Cargo.piece) := by
    apply List.map_congr_left
    intro c hc
    obtain ⟨hc, hid, -⟩ := mem_requestsOf.1 hc
    obtain ⟨x, hx, hof⟩ := h.owner c hc
    obtain rfl := hf.unique x op hx hop (hof.transaction.symm.trans hid)
    simp [Cargo.range, Cargo.piece, hof.address]
  rw [same]
  exact tiles

theorem Txn.Cut.answers_tile (h : d.Cut) (hf : d.Filing) {k : Nat} (hq : q ∈ made d.trace)
    (tiles : Tiles q.offset ((answersOf q d.trace).map Cargo.piece) (q.offset + k)) :
    Tiles q.header.address ((answersOf q d.trace).map Cargo.range) (q.header.address + k) := by
  obtain ⟨op, hop, hof⟩ := h.owner q hq
  have tiles := tiles.shift op.address
  rw [List.map_map, ← Nat.add_assoc, ← hof.address] at tiles
  have same : (answersOf q d.trace).map Cargo.range =
      (answersOf q d.trace).map
        ((fun q : Nat × Nat => (op.address + q.1, q.2)) ∘ Cargo.piece) := by
    apply List.map_congr_left
    intro c hc
    obtain ⟨hc, htxn, -⟩ := mem_answersOf.1 hc
    obtain ⟨x, hx, hofc⟩ := h.owner c hc
    obtain rfl := hf.unique x op hx hop
      (hofc.transaction.symm.trans (htxn.trans hof.transaction))
    simp [Cargo.range, Cargo.piece, hofc.address]
  rw [same]
  exact tiles

theorem Txn.Cut.progress (h : d.Cut) (hf : d.Filing) (hq : q ∈ made d.trace)
    (read : q.header.type = .read) :
    ∃ k ≤ q.header.bytes,
      Tiles q.header.address ((answersOf q d.trace).map Cargo.range) (q.header.address + k) ∧
      (k < q.header.bytes → { q with answered := k } ∈ d.cargo) := by
  rcases h.closed q hq read with ⟨k, hk⟩ | full
  · obtain ⟨op, -, hof⟩ := hf.cargo _ hk
    have less := hof.answered
    simp only [read, if_true] at less
    exact ⟨k, less.le, h.answers_tile hf hq (h.opened _ hk read).2, fun _ => hk⟩
  · exact ⟨_, Nat.le_refl _, h.answers_tile hf hq full, fun less => absurd less (lt_irrefl _)⟩

theorem Txn.Cut.answer_of (h : d.Cut) {a : Cargo} (hq : q ∈ made d.trace)
    (read : q.header.type = .read) (ha : a ∈ answersOf q d.trace) : a.Answers d.config q := by
  obtain ⟨ha, htxn, completion, inside⟩ := mem_answersOf.1 ha
  obtain ⟨p, hp, pread, answers⟩ := h.answer a ha completion
  have same : p = q := h.eq_of_overlap hp hq (by simp [pread]) (by simp [read])
    (answers.transaction.symm.trans htxn) ⟨answers.offset_le, answers.offset_lt⟩ inside
  exact same ▸ answers

/-- **Segmentation is exact and legal.** In every reachable state the request
TLPs of each transfer tile what it has issued; the completions of each read
request tile what of it was answered, the rest being under way; a completion
that does not end the answer ends on an RCB boundary, and names the bytes owed;
and every TLP keeps the limits of the configuration, so that an idle link can
take it. No answer is ever split without progress. -/
theorem segmentation_exact (env : Env) :
    (∀ σ, (machine env).Reachable σ →
      (∀ op, .submitted op ∈ σ.trace → nextOf σ.transfers op ≤ op.bytes ∧
        Tiles op.address ((requestsOf op.id σ.trace).map Cargo.range)
          (op.address + nextOf σ.transfers op)) ∧
      (∀ q ∈ made σ.trace, q.header.type = .read →
        (∃ k ≤ q.header.bytes,
          Tiles q.header.address ((answersOf q σ.trace).map Cargo.range) (q.header.address + k) ∧
          (k < q.header.bytes → ∃ x ∈ σ.total, x.cargo = { q with answered := k })) ∧
        ∀ a ∈ answersOf q σ.trace,
          a.header.byteCount = q.header.address + q.header.bytes - a.header.address ∧
          (a.header.address + a.header.bytes = q.header.address + q.header.bytes ∨
            (a.header.address + a.header.bytes) % σ.config.rcb = 0)) ∧
      (∀ a ∈ made σ.trace, a.header.type = .completion →
        ∃ q ∈ made σ.trace, q.header.type = .read ∧ a ∈ answersOf q σ.trace) ∧
      (∀ c ∈ made σ.trace, c.header.Legal σ.config) ∧
      ∀ p f, .created f ∈ σ.trace → (σ.ports p).available = σ.config.credits →
        (σ.ports p).replayBytes = 0 → σ.hasCredit p f = true ∧ σ.hasReplay p f = true) ∧
    ¬ (machine env).Aborts .splitNoProgress := by
  have initial : ∀ c : Config, c.Valid →
      (Snap.txn ⟨{ config := c }, none⟩).Sound ∧ (Snap.txn ⟨{ config := c }, none⟩).Cut :=
    fun c _ => ⟨.initial c, .initial c⟩
  have step : ∀ s s' : Snap, s.Wf → s.txn.Sound ∧ s.txn.Cut → Micro env s s' →
      s'.txn.Sound ∧ s'.txn.Cut :=
    fun s s' hwf both hm => ⟨hm.sound hwf both.1, hm.cut hwf both.1 both.2⟩
  constructor
  · intro σ hreach
    obtain ⟨hwf, hs, hc⟩ :=
      fabric_invariant (P := fun s => s.txn.Sound ∧ s.txn.Cut) initial step σ hreach
    have hv : σ.config.Valid := hwf.valid
    refine ⟨fun op hop => ⟨?_, hc.requests_tile hs.filing hop⟩, fun q hq read => ⟨?_, ?_⟩, ?_,
      fun c hmade => hc.legal hv hmade, ?_⟩
    · show nextOf σ.transfers op ≤ op.bytes
      cases live : σ.transfers op.id with
      | none => simp [nextOf, live]
      | some x =>
          have origin := hs.filing.origin_eq live hop
          have bytes : op.bytes = x.bytes := by rw [← origin]; rfl
          rw [nextOf_eq live, bytes]
          exact (hs.filing.filed _ _ live).2.1
    · obtain ⟨k, hk, tiles, open_⟩ := hc.progress hs.filing hq read
      refine ⟨k, hk, tiles, fun less => ?_⟩
      obtain ⟨x, hx, same⟩ := Multiset.mem_map.1 (open_ less)
      rw [Snap.total_none] at hx
      exact ⟨x, hx, same⟩
    · intro a ha
      have answers := hc.answer_of hq read ha
      have inside := answers.offset_lt
      have after := answers.offset_le
      have owed := answers.owed
      have address := answers.address
      refine ⟨by omega, ?_⟩
      rcases answers.fits.boundary with ends | boundary
      · exact .inl (by omega)
      · exact .inr boundary
    · intro a ha completion
      obtain ⟨q, hq, read, answers⟩ := hc.answer a ha completion
      exact ⟨q, hq, read, mem_answersOf.2
        ⟨ha, answers.transaction, completion, answers.offset_le, answers.offset_lt⟩⟩
    · intro p f hf available idle
      have legal := hc.legal hv (c := f.cargo)
        (List.mem_filterMap.2 ⟨.created f, hf, rfl⟩)
      constructor
      · simp only [hasCredit, available, Bool.and_eq_true, bne_iff_ne, decide_eq_true_eq]
        exact ⟨Nat.ne_of_gt legal.credit, legal.dataCredits⟩
      · have small := hv.inRange.replay_lt
        have room : wsub 64 σ.config.replayBufferBytes 0 = σ.config.replayBufferBytes :=
          wsub_eq (Nat.zero_le _) (lt_trans small (by decide))
        simp only [hasReplay, idle, room, decide_eq_true_eq]
        exact legal.replay
  · apply fabric_no_abort (P := fun s => s.txn.Sound ∧ s.txn.Cut) initial step
    rintro s hwf - ⟨n, response, others, hr, none⟩
    have hok := hwf.response_ok (h := s.hand) (by rw [hr]; exact List.mem_cons_self)
    have progress := (completionBytes_fits hwf.valid hok.fits.2.2.2).pos
    exact absurd none (Nat.ne_of_gt progress)

/-- The transfer of `readRun`. -/
def readTransfer : Transfer :=
  { id := 1, address := 2 * window, bytes := 512, requester := 0, target := 1, read := true
    relaxed := false, traffic := .payload, complete := true }

theorem readRun_submitted :
    ((machine tickEnv).runs { config := {} } readRun).map
      (fun σ => decide (.submitted readTransfer ∈ σ.trace ∧ nextOf σ.transfers readTransfer = 512)) =
        some true := by
  decide +kernel

theorem segmentation_exact_readRun : ∃ σ, (machine tickEnv).Reachable σ ∧
    Tiles (2 * window) ((requestsOf 1 σ.trace).map Cargo.range) (2 * window + 512) := by
  obtain ⟨σ, hreach, hvals⟩ := Machine.Reachable.exists_of_runs
    (M := machine tickEnv) ⟨_, by constructor <;> decide, rfl, rfl⟩ readRun_submitted
  obtain ⟨submitted, next⟩ := of_decide_eq_true hvals
  have tiles := (((segmentation_exact tickEnv).1 σ hreach).1 readTransfer submitted).2
  rw [next] at tiles
  exact ⟨σ, hreach, tiles⟩

end ProtoBridge.Pcie
