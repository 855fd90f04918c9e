import Mathlib.Tactic.IntervalCases
import ProtoBridge.Pcie.Segment

/-!
# TLP headers on the wire

`PcieTlpHeader::Serialize` and `Deserialize`. A header is written as three or
four 32-bit words. The byte count of a request is not among them: it comes back
from the dword count and the byte enables, and that of a completion from the
dword count and the bytes still owed.
-/

namespace ProtoBridge.Pcie

open Lib Fabric

/-! ## Words -/

/-- The enumerator of a type. -/
def TlpType.code : TlpType → Nat
  | .read => 0x20
  | .write => 0x60
  | .completion => 0x4a

/-- `static_cast<PcieTlpType>`; any other number is no type. -/
def TlpType.ofCode : Nat → Option TlpType
  | 0x20 => some .read
  | 0x60 => some .write
  | 0x4a => some .completion
  | _ => none

/-- `FirstBit`: the lowest of the four byte enables. -/
def firstBit (mask : Nat) : Nat :=
  ((List.range 4).find? fun i => mask &&& 1 <<< i != 0).getD 0

/-- `LastBit`: the highest of the four byte enables. -/
def lastBit (mask : Nat) : Nat :=
  ((List.range 4).reverse.find? fun i => mask &&& 1 <<< i != 0).getD 0

/-- The dwords a TLP touches. -/
def Header.dwords (h : Header) : Nat := (h.address % 4 + h.bytes + 3) / 4

/-- The byte enables of the first dword. -/
def Header.firstEnable (h : Header) : Nat :=
  let first := 15 <<< (h.address % 4) &&& 15
  let last := 1 <<< ((h.address + h.bytes - 1) % 4 + 1) - 1
  if h.dwords = 1 then first &&& last else first

/-- The byte enables of the last dword, unless it is the first. -/
def Header.lastEnable (h : Header) : Nat :=
  if h.dwords = 1 then 0 else 1 <<< ((h.address + h.bytes - 1) % 4 + 1) - 1

/-- `WriteHtonU32`. -/
def word (n : Nat) : Nat := n % 2 ^ 32

/-- `Serialize`. -/
def Header.serialize (h : Header) : List Nat :=
  let dw0 := h.type.code <<< 24 ||| (if h.relaxed then 1 <<< 13 else 0) ||| (h.dwords &&& 1023)
  if h.type = .completion then
    [word dw0,
      word (h.completer <<< 16 ||| (h.byteCount &&& 4095)),
      word (h.requester <<< 16 ||| h.tag <<< 8 ||| (h.address &&& 127))]
  else
    [word dw0,
      word (h.requester <<< 16 ||| h.tag <<< 8 ||| h.lastEnable <<< 4 ||| h.firstEnable),
      word (h.address >>> 32),
      word (h.address % 2 ^ 32 &&& 0xfffffffc)]

/-- The word count of a header, with 0 for 1024. -/
def wordsOf (dw0 : Nat) : Nat :=
  if dw0 &&& 1023 = 0 then 1024 else dw0 &&& 1023

/-- `Deserialize`, into a header with its defaults. -/
def Header.deserialize : List Nat → Option Header
  | dw0 :: dw1 :: dw2 :: rest => do
      let type ← TlpType.ofCode (dw0 >>> 24)
      let relaxed := (dw0 >>> 13) &&& 1 != 0
      let words := wordsOf dw0
      if type = .completion then
        let byteCount := if dw1 &&& 4095 = 0 then 4096 else dw1 &&& 4095
        let address := dw2 &&& 127
        some
          { type, relaxed, completer := dw1 >>> 16, byteCount, requester := dw2 >>> 16
            tag := (dw2 >>> 8) &&& 255, address
            bytes := min byteCount (words * 4 - address % 4) }
      else
        match rest with
        | [] => none
        | low :: _ =>
            let first := dw1 &&& 15
            let last := (dw1 >>> 4) &&& 15
            some
              { type, relaxed, requester := dw1 >>> 16, tag := (dw1 >>> 8) &&& 255
                address := (dw2 <<< 32 ||| (low &&& 0xfffffffc)) + firstBit first
                bytes := if words = 1 then lastBit first - firstBit first + 1
                  else (words - 1) * 4 + lastBit last + 1 - firstBit first }
  | _ => none

/-! ## Packing -/

@[simp] theorem TlpType.ofCode_code (t : TlpType) : TlpType.ofCode t.code = some t := by
  cases t <;> rfl

variable {a b n : Nat} {h : Header}

theorem or_eq_add {k : Nat} (high : 2 ^ k ∣ a) (low : b < 2 ^ k) : a ||| b = a + b := by
  obtain ⟨q, rfl⟩ := high
  rw [Nat.mul_comm, ← Nat.shiftLeft_eq, Nat.shiftLeft_add_eq_or_of_lt low]

theorem and_1023 (n : Nat) : n &&& 1023 = n % 1024 := Nat.and_two_pow_sub_one_eq_mod n 10

theorem and_4095 (n : Nat) : n &&& 4095 = n % 4096 := Nat.and_two_pow_sub_one_eq_mod n 12

theorem and_255 (n : Nat) : n &&& 255 = n % 256 := Nat.and_two_pow_sub_one_eq_mod n 8

theorem and_127 (n : Nat) : n &&& 127 = n % 128 := Nat.and_two_pow_sub_one_eq_mod n 7

theorem and_15 (n : Nat) : n &&& 15 = n % 16 := Nat.and_two_pow_sub_one_eq_mod n 4

theorem and_not_3 (h : n < 2 ^ 32) : n &&& 0xfffffffc = n - n % 4 := by
  have parts : n = (n / 4) <<< 2 ||| n % 4 := by
    rw [← Nat.shiftLeft_add_eq_or_of_lt (Nat.mod_lt n (by decide)), Nat.shiftLeft_eq]
    omega
  have mask : 0xfffffffc = (2 ^ 30 - 1) <<< 2 := by decide
  have low : n % 4 &&& (2 ^ 30 - 1) <<< 2 = 0 := by
    have small : n % 4 < 4 := Nat.mod_lt n (by decide)
    interval_cases n % 4
    all_goals decide
  have high : n / 4 &&& (2 ^ 30 - 1) = n / 4 := by
    rw [Nat.and_two_pow_sub_one_eq_mod]
    exact Nat.mod_eq_of_lt (by omega)
  conv_lhs => rw [parts, mask]
  rw [Nat.and_or_distrib_right, low, ← Nat.shiftLeft_and_distrib, high, Nat.or_zero,
    Nat.shiftLeft_eq]
  omega

theorem and_not_3_twice (h : n < 2 ^ 32) : (n &&& 0xfffffffc) &&& 0xfffffffc = n - n % 4 := by
  rw [Nat.and_assoc, Nat.and_self]
  exact and_not_3 h

/-! ## Byte enables -/

theorem firstBit_enable (h : a < 4) : firstBit (15 <<< a &&& 15) = a := by
  interval_cases a
  all_goals decide

theorem lastBit_enable {e : Nat} (h : e < 4) : lastBit (1 <<< (e + 1) - 1) = e := by
  interval_cases e
  all_goals decide

theorem enable_inter {e : Nat} (h : a ≤ e) (he : e < 4) :
    firstBit ((15 <<< a &&& 15) &&& (1 <<< (e + 1) - 1)) = a ∧
      lastBit ((15 <<< a &&& 15) &&& (1 <<< (e + 1) - 1)) = e := by
  interval_cases e
  all_goals interval_cases a
  all_goals decide

theorem enable_lt : 15 <<< a &&& 15 < 16 := by
  rw [and_15]
  exact Nat.mod_lt _ (by decide)

theorem lastEnable_lt (h : Header) : h.lastEnable < 16 := by
  have small : (h.address + h.bytes - 1) % 4 < 4 := Nat.mod_lt _ (by decide)
  unfold Header.lastEnable
  split_ifs
  · decide
  · interval_cases (h.address + h.bytes - 1) % 4
    all_goals decide

theorem firstEnable_lt (h : Header) : h.firstEnable < 16 := by
  unfold Header.firstEnable
  dsimp only
  split_ifs
  · exact Nat.and_le_left.trans_lt enable_lt
  · exact enable_lt

/-! ## The words of a header -/

theorem dw0_eq (h : Header) :
    h.type.code <<< 24 ||| (if h.relaxed then 1 <<< 13 else 0) ||| (h.dwords &&& 1023) =
      h.type.code * 2 ^ 24 + (if h.relaxed then 2 ^ 13 else 0) + h.dwords % 1024 := by
  have small : h.dwords % 1024 < 2 ^ 10 := Nat.mod_lt _ (by decide)
  have flag : (if h.relaxed then 1 <<< 13 else 0) = if h.relaxed then 2 ^ 13 else 0 := by
    split_ifs <;> rfl
  rw [and_1023, flag, Nat.shiftLeft_eq]
  rw [or_eq_add (k := 24) (Nat.dvd_mul_left _ _) (by split_ifs <;> decide)]
  apply or_eq_add (k := 13)
  · apply Nat.dvd_add
    · exact (by decide : 2 ^ 13 ∣ 2 ^ 24).mul_left _
    · split_ifs <;> decide
  · omega

theorem pack_completer (hb : b < 2 ^ 16) : a <<< 16 ||| b = a * 2 ^ 16 + b := by
  rw [Nat.shiftLeft_eq]
  exact or_eq_add (Nat.dvd_mul_left _ _) hb

theorem pack_address (hb : b < 2 ^ 32) : a <<< 32 ||| b = a * 2 ^ 32 + b := by
  rw [Nat.shiftLeft_eq]
  exact or_eq_add (Nat.dvd_mul_left _ _) hb

theorem address_parts (a : Nat) : a / 2 ^ 32 * 2 ^ 32 + (a % 2 ^ 32 - a % 4) = a - a % 4 := by
  omega

theorem pack_requester {t l : Nat} (ht : t < 2 ^ 8) (hl : l < 2 ^ 8) :
    a <<< 16 ||| t <<< 8 ||| l = a * 2 ^ 16 + t * 2 ^ 8 + l := by
  rw [pack_completer (by rw [Nat.shiftLeft_eq]; omega), Nat.shiftLeft_eq]
  apply or_eq_add (k := 8)
  · exact Nat.dvd_add ((by decide : 2 ^ 8 ∣ 2 ^ 16).mul_left _) (Nat.dvd_mul_left _ _)
  · exact hl

theorem pack_enables {l f : Nat} (hf : f < 2 ^ 4) : l <<< 4 ||| f = l * 2 ^ 4 + f := by
  rw [Nat.shiftLeft_eq]
  exact or_eq_add (Nat.dvd_mul_left _ _) hf

/-! ## Round trips -/

/-- What a header and its reading have in common, whatever the type. -/
structure Header.Same (h d : Header) : Prop where
  type : d.type = h.type
  relaxed : d.relaxed = h.relaxed
  requester : d.requester = h.requester
  tag : d.tag = h.tag
  bytes : d.bytes = h.bytes
  payload : d.payloadBytesOnWire = h.payloadBytesOnWire

theorem word_eq (h : n < 2 ^ 32) : word n = n := Nat.mod_eq_of_lt h

theorem dw0_lt (h : Header) :
    h.type.code * 2 ^ 24 + (if h.relaxed then 2 ^ 13 else 0) + h.dwords % 1024 < 2 ^ 32 := by
  have code : h.type.code < 2 ^ 7 := by cases h.type <;> decide
  have small : h.dwords % 1024 < 1024 := Nat.mod_lt _ (by decide)
  split_ifs <;> omega

theorem read_dw0 {w : Nat} (some : 0 < h.dwords) (fits : h.dwords ≤ 1024)
    (hw : w = h.type.code * 2 ^ 24 + (if h.relaxed then 2 ^ 13 else 0) + h.dwords % 1024) :
    w >>> 24 = h.type.code ∧ (((w >>> 13) &&& 1 != 0) = h.relaxed) ∧ wordsOf w = h.dwords := by
  have small : h.dwords % 1024 < 1024 := Nat.mod_lt _ (by decide)
  refine ⟨?_, ?_, ?_⟩
  · rw [Nat.shiftRight_eq_div_pow, hw]
    split_ifs <;> omega
  · rw [Nat.shiftRight_eq_div_pow, Nat.and_one_is_mod, hw]
    cases h.relaxed with
    | true =>
        have odd : (h.type.code * 2 ^ 24 + 2 ^ 13 + h.dwords % 1024) / 2 ^ 13 % 2 = 1 := by omega
        rw [if_pos rfl, odd]
        rfl
    | false =>
        have even : (h.type.code * 2 ^ 24 + 0 + h.dwords % 1024) / 2 ^ 13 % 2 = 0 := by omega
        rw [if_neg (by decide), even]
        rfl
  · have words : w % 1024 = h.dwords % 1024 := by
      rw [hw]
      split_ifs <;> omega
    unfold wordsOf
    rw [and_1023, words]
    split_ifs <;> omega

/-- **Requests.** A read or a write that spans at most 1024 dwords is read back
as it was written. -/
theorem memory_round_trip (memory : h.type ≠ .completion) (requester : h.requester < 2 ^ 16)
    (tag : h.tag < 2 ^ 8) (address : h.address + h.bytes ≤ 2 ^ 64) (bytes : 1 ≤ h.bytes)
    (fits : h.address % 4 + h.bytes ≤ 4096) :
    ∃ d, Header.deserialize h.serialize = some d ∧ h.Same d ∧ d.address = h.address := by
  have dwords : h.dwords = (h.address % 4 + h.bytes + 3) / 4 := rfl
  obtain ⟨hcode, hrelaxed, hwords⟩ := read_dw0 (h := h) (by omega) (by omega) rfl
  have first_lt := firstEnable_lt h
  have last_lt := lastEnable_lt h
  have a_lt : h.address % 4 < 4 := Nat.mod_lt _ (by decide)
  have e_lt : (h.address + h.bytes - 1) % 4 < 4 := Nat.mod_lt _ (by decide)
  -- The second word is four fields side by side.
  have word1 : h.requester <<< 16 ||| h.tag <<< 8 ||| h.lastEnable <<< 4 ||| h.firstEnable =
      h.requester * 2 ^ 16 + h.tag * 2 ^ 8 + (h.lastEnable * 2 ^ 4 + h.firstEnable) := by
    rw [Nat.or_assoc, pack_enables first_lt]
    exact pack_requester tag (by omega)
  set w1 := h.requester * 2 ^ 16 + h.tag * 2 ^ 8 + (h.lastEnable * 2 ^ 4 + h.firstEnable) with hw1
  have req : w1 >>> 16 = h.requester := by
    rw [Nat.shiftRight_eq_div_pow]
    omega
  have tagged : (w1 >>> 8) &&& 255 = h.tag := by
    rw [Nat.shiftRight_eq_div_pow, and_255]
    omega
  have first : w1 &&& 15 = h.firstEnable := by
    rw [and_15]
    omega
  have last : (w1 >>> 4) &&& 15 = h.lastEnable := by
    rw [Nat.shiftRight_eq_div_pow, and_15]
    omega
  -- The last two words hold the dword address.
  have word2 : h.address >>> 32 < 2 ^ 32 := by
    rw [Nat.shiftRight_eq_div_pow]
    omega
  have word3 : h.address % 2 ^ 32 &&& 0xfffffffc < 2 ^ 32 :=
    Nat.and_le_left.trans_lt (Nat.mod_lt _ (by norm_num))
  have low : (h.address % 2 ^ 32 &&& 0xfffffffc) &&& 0xfffffffc =
      h.address % 2 ^ 32 - h.address % 4 := by
    have fits32 : h.address % 2 ^ 32 < 2 ^ 32 := Nat.mod_lt _ (by norm_num)
    exact (and_not_3_twice fits32).trans (by omega)
  have aligned : (h.address >>> 32) <<< 32 ||| (h.address % 2 ^ 32 - h.address % 4) =
      h.address - h.address % 4 := by
    have fits32 : h.address % 2 ^ 32 - h.address % 4 < 2 ^ 32 := by omega
    have high : h.address >>> 32 = h.address / 2 ^ 32 := Nat.shiftRight_eq_div_pow _ _
    rw [pack_address fits32, high]
    exact address_parts h.address
  -- The byte enables give the offset in the first dword and the end in the last.
  have start : firstBit h.firstEnable = h.address % 4 := by
    unfold Header.firstEnable
    dsimp only
    split_ifs with one
    · exact (enable_inter (by omega) e_lt).1
    · exact firstBit_enable a_lt
  have count : (if h.dwords = 1 then lastBit h.firstEnable - h.address % 4 + 1
      else (h.dwords - 1) * 4 + lastBit h.lastEnable + 1 - h.address % 4) = h.bytes := by
    split_ifs with one
    · have stop : lastBit h.firstEnable = (h.address + h.bytes - 1) % 4 := by
        unfold Header.firstEnable
        dsimp only
        rw [if_pos one]
        exact (enable_inter (by omega) e_lt).2
      omega
    · have stop : lastBit h.lastEnable = (h.address + h.bytes - 1) % 4 := by
        unfold Header.lastEnable
        rw [if_neg one]
        exact lastBit_enable e_lt
      omega
  refine ⟨{ type := h.type, relaxed := h.relaxed, requester := h.requester, tag := h.tag
            address := h.address, bytes := h.bytes }, ?_, ⟨rfl, rfl, rfl, rfl, rfl, rfl⟩, rfl⟩
  have back : h.address - h.address % 4 + h.address % 4 = h.address := by omega
  unfold Header.serialize
  dsimp only
  rw [if_neg memory, dw0_eq, word1, word_eq (dw0_lt h), word_eq (by omega : w1 < 2 ^ 32),
    word_eq word2, word_eq word3]
  simp only [Header.deserialize, hcode, TlpType.ofCode_code, Option.bind_eq_bind, Option.bind_some,
    if_neg memory, hrelaxed, hwords, req, tagged, first, last, low, aligned, start, count, back]

/-- **Completions.** A completion whose padded payload fits 1024 dwords is read
back up to its address, of which the low bits are kept. -/
theorem completion_round_trip (completion : h.type = .completion) (completer : h.completer < 2 ^ 16)
    (requester : h.requester < 2 ^ 16) (tag : h.tag < 2 ^ 8) (owed : 1 ≤ h.byteCount)
    (owed_le : h.byteCount ≤ 4096) (bytes : 1 ≤ h.bytes) (fits : h.address % 4 + h.bytes ≤ 4096)
    (ends : h.bytes = h.byteCount ∨ h.bytes < h.byteCount ∧ (h.address + h.bytes) % 4 = 0) :
    ∃ d, Header.deserialize h.serialize = some d ∧ h.Same d ∧ d.completer = h.completer ∧
      d.byteCount = h.byteCount ∧ d.address = h.address % 128 := by
  have dwords : h.dwords = (h.address % 4 + h.bytes + 3) / 4 := rfl
  obtain ⟨hcode, hrelaxed, hwords⟩ := read_dw0 (h := h) (by omega) (by omega) rfl
  have word1 : h.completer <<< 16 ||| (h.byteCount &&& 4095) =
      h.completer * 2 ^ 16 + h.byteCount % 4096 := by
    rw [and_4095]
    exact pack_completer (by omega)
  have word2 : h.requester <<< 16 ||| h.tag <<< 8 ||| (h.address &&& 127) =
      h.requester * 2 ^ 16 + h.tag * 2 ^ 8 + h.address % 128 := by
    rw [and_127]
    exact pack_requester tag (by omega)
  set w1 := h.completer * 2 ^ 16 + h.byteCount % 4096 with hw1
  set w2 := h.requester * 2 ^ 16 + h.tag * 2 ^ 8 + h.address % 128 with hw2
  have comp : w1 >>> 16 = h.completer := by
    rw [Nat.shiftRight_eq_div_pow]
    omega
  have left : (if w1 &&& 4095 = 0 then 4096 else w1 &&& 4095) = h.byteCount := by
    rw [and_4095]
    split_ifs <;> omega
  have req : w2 >>> 16 = h.requester := by
    rw [Nat.shiftRight_eq_div_pow]
    omega
  have tagged : (w2 >>> 8) &&& 255 = h.tag := by
    rw [Nat.shiftRight_eq_div_pow, and_255]
    omega
  have address : w2 &&& 127 = h.address % 128 := by
    rw [and_127]
    omega
  -- A piece that does not end the answer ends on a dword.
  have count : min h.byteCount (h.dwords * 4 - h.address % 128 % 4) = h.bytes := by omega
  refine ⟨{ type := .completion, relaxed := h.relaxed, completer := h.completer
            byteCount := h.byteCount, requester := h.requester, tag := h.tag
            address := h.address % 128, bytes := h.bytes }, ?_,
    ⟨completion.symm, rfl, rfl, rfl, rfl, ?_⟩, rfl, rfl, rfl⟩
  · unfold Header.serialize
    dsimp only
    rw [if_pos completion, dw0_eq, word1, word2, word_eq (dw0_lt h),
      word_eq (by omega : w1 < 2 ^ 32), word_eq (by omega : w2 < 2 ^ 32)]
    simp only [Header.deserialize, hcode, TlpType.ofCode_code, Option.bind_eq_bind,
      Option.bind_some, if_pos completion, hrelaxed, hwords, comp, left, req, tagged, address, count]
    rw [completion]
  · have low : h.address % 128 % 4 = h.address % 4 := by omega
    simp [Header.payloadBytesOnWire, completion, low]

/-! ## The headers of a run -/

theorem Micro.numNodes_le {env : Env} {s s' : Snap} (h : Micro env s s')
    (le : s.fab.numNodes ≤ 65535) : s'.fab.numNodes ≤ 65535 := by
  cases h with
  | @addNode σ σ' k added =>
      simp only [Fabric.addNode] at added
      split_ifs at added with full
      cases added
      simp only at le ⊢
      omega
  | @addLink σ σ' a b linked =>
      obtain ⟨-, rfl⟩ := addLink_spec linked
      exact le
  | @enter σ r _ =>
      rw [enter_eq]
      exact le
  | @sendFrame σ h p i f _ _ _ _ =>
      have same := congrArg Topo.numNodes (topo_sendFrame σ env p i f)
      exact le_of_eq_of_le same le
  | @armWake σ h p _ _ _ =>
      have same := congrArg Topo.numNodes (topo_of_core (core_armWake σ p))
      exact le_of_eq_of_le same le
  | @holdRead σ p f calls delay _ _ =>
      have same := congrArg Topo.numNodes (topo_returnCredit (σ.observe (.received f)) f)
      exact le_of_eq_of_le same le
  | @popWrite σ i t n f op _ _ _ =>
      have same := congrArg Topo.numNodes (topo_returnCredit (σ.popEvent i ⟨t, .writeService n f⟩) f)
      exact le_of_eq_of_le same le
  | @popCompletion σ i t n f r hdue _ _ _ =>
      have same := congrArg Topo.numNodes
        (topo_returnCredit (((σ.popEvent i ⟨t, .completionService n f⟩).modNode n fun m =>
          { m with reads := m.reads.map fun r' => if r'.tag == r.tag then accepted r f else r' }).observe
            (.delivered f)) f)
      exact le_of_eq_of_le same le
  | @finish σ id op hop hnext hpend =>
      simp only [Fabric.finish, hop]
      split_ifs <;> exact le
  | _ => exact le

theorem Txn.Step.made_snoc {d d' : Txn} (h : Txn.Step d d') :
    made d'.trace = made d.trace ∨ ∃ x ∈ d'.cargo, made d'.trace = made d.trace ++ [x] ∧
      (x.header.completer = 0 ∨ ∃ c ∈ d.cargo, x.header.completer = c.destination) := by
  cases h with
  | note ho =>
      obtain ⟨f, rfl⟩ := ho
      simp [made, Obs.made]
  | submit => simp [made, Obs.made]
  | issueWrite _ _ _ hcargo | issueRead _ _ _ _ _ _ hcargo =>
      exact .inr ⟨_, Multiset.mem_add.2 (.inr (Multiset.mem_singleton_self _)),
        by rw [Pcie.made_snoc, hcargo], .inl rfl⟩
  | @respond c bytes m f _ _ _ hm _ hcargo =>
      refine .inr ⟨completionCargo c bytes, by simp, by rw [Pcie.made_snoc, hcargo],
        .inr ⟨c, by simp [hm], rfl⟩⟩
  | land => simp [made, Obs.made]
  | accept => simp [made, Obs.made]
  | retire => exact .inl rfl
  | @finish id op _ _ _ =>
      left
      show made (if op.complete then _ else _) = _
      split_ifs <;> simp [made, Obs.made]

theorem Site.cargo_header (x : Site) : x.cargo.header = x.frame.header := by
  unfold Site.cargo
  split <;> rfl

theorem Site.cargo_destination (x : Site) : x.cargo.destination = x.frame.destination := by
  unfold Site.cargo
  split <;> rfl

/-- The node fields of a header hold 16 bits. -/
def Cargo.Small (c : Cargo) : Prop := c.header.requester < 2 ^ 16 ∧ c.header.completer < 2 ^ 16

/-- Nodes are numbered by 16 bits, and so are they in every TLP. -/
structure Snap.Small (s : Snap) : Prop where
  nodes : s.fab.numNodes ≤ 65535
  made : ∀ c ∈ made s.fab.trace, c.Small

theorem Snap.Small.micro {env : Env} {s s' : Snap} (h : s.Small) (hwf : s.Wf)
    (hm : Micro env s s') : s'.Small := by
  have nodes := hm.numNodes_le h.nodes
  refine ⟨nodes, ?_⟩
  have hwf' := hm.wf hwf
  have keeps : Pcie.made s'.fab.trace = Pcie.made s.fab.trace →
      ∀ c ∈ Pcie.made s'.fab.trace, c.Small := by
    intro same
    rw [same]
    exact h.made
  rcases hm.txn hwf with same | step
  · exact keeps (congrArg (fun d => Pcie.made d.trace) same)
  · rcases step.made_snoc with same | ⟨x, hx, same, completer⟩
    · exact keeps same
    · intro c hc
      rw [show Pcie.made s'.fab.trace = Pcie.made s.fab.trace ++ [x] from same] at hc
      rcases List.mem_append.1 hc with old | new
      · exact h.made c old
      · obtain rfl := List.mem_singleton.1 new
        obtain ⟨site, hsite, cargo⟩ := Multiset.mem_map.1 hx
        have ok := hwf'.sites site hsite
        have requester : c.header.requester < s'.fab.numNodes := by
          have lt := ok.requester_lt
          rwa [← Site.cargo_header, cargo] at lt
        refine ⟨by omega, ?_⟩
        rcases completer with zero | ⟨q, hq, from_⟩
        · rw [zero]
          decide
        · obtain ⟨site', hsite', cargo'⟩ := Multiset.mem_map.1 hq
          have lt : site'.frame.destination < s.fab.numNodes :=
            (hwf.sites site' hsite').destination_lt
          have nodes' := h.nodes
          rw [from_, ← cargo', Site.cargo_destination]
          omega

/-- **Headers round-trip.** Every request that spans at most 1024 dwords, every
completion that ends its answer or ends on a dword, and in particular every
completion that a run of the fabric creates, is read back as it was written. -/
theorem header_round_trip (env : Env) :
    (∀ h : Header, h.type ≠ .completion → h.requester < 2 ^ 16 → h.tag < 2 ^ 8 →
      h.address + h.bytes ≤ 2 ^ 64 → 1 ≤ h.bytes → h.address % 4 + h.bytes ≤ 4096 →
      ∃ d, Header.deserialize h.serialize = some d ∧ h.Same d ∧ d.address = h.address) ∧
    (∀ h : Header, h.type = .completion → h.completer < 2 ^ 16 → h.requester < 2 ^ 16 →
      h.tag < 2 ^ 8 → 1 ≤ h.byteCount → h.byteCount ≤ 4096 → 1 ≤ h.bytes →
      h.address % 4 + h.bytes ≤ 4096 →
      (h.bytes = h.byteCount ∨ h.bytes < h.byteCount ∧ (h.address + h.bytes) % 4 = 0) →
      ∃ d, Header.deserialize h.serialize = some d ∧ h.Same d ∧ d.completer = h.completer ∧
        d.byteCount = h.byteCount ∧ d.address = h.address % 128) ∧
    ∀ σ, (machine env).Reachable σ → ∀ f, .created f ∈ σ.trace → f.header.type = .completion →
      1 ≤ f.header.byteCount ∧ f.header.byteCount ≤ 4096 ∧
      (f.header.bytes = f.header.byteCount ∨
        f.header.bytes < f.header.byteCount ∧ (f.header.address + f.header.bytes) % 4 = 0) ∧
      ∃ d, Header.deserialize f.header.serialize = some d ∧ f.header.Same d ∧
        d.completer = f.header.completer ∧ d.byteCount = f.header.byteCount ∧
        d.address = f.header.address % 128 := by
  refine ⟨fun h => memory_round_trip, fun h => completion_round_trip, ?_⟩
  intro σ hreach f hf completion
  obtain ⟨hwf, ⟨hs, hc⟩, small⟩ :=
    fabric_invariant (P := fun s => (s.txn.Sound ∧ s.txn.Cut) ∧ s.Small)
      (fun c _ => ⟨⟨.initial c, .initial c⟩, ⟨by simp, by simp [made]⟩⟩)
      (fun s s' hwf h hm =>
        ⟨⟨hm.sound hwf h.1.1, hm.cut hwf h.1.1 h.1.2⟩, h.2.micro hwf hm⟩) σ hreach
  have hv : σ.config.Valid := hwf.valid
  have hmade : f.cargo ∈ made σ.trace := List.mem_filterMap.2 ⟨.created f, hf, rfl⟩
  obtain ⟨q, hq, read, answers⟩ := hc.answer f.cargo hmade completion
  obtain ⟨fits, tag⟩ := hc.request q hq (by simp [read])
  obtain ⟨requester, completer⟩ := small.made f.cargo hmade
  have owed := answers.owed
  have inside := answers.offset_lt
  have bytes_pos := answers.fits.pos
  have bytes_le := answers.fits.le
  have payload := answers.fits.payload
  have limit := fits.read (by simp [read])
  have mrrs := hv.mrrs_le
  have mps := hv.mps_le
  change f.header.byteCount = _ at owed
  change 0 < f.header.bytes at bytes_pos
  change f.header.bytes ≤ f.header.byteCount at bytes_le
  change f.header.address % 4 + f.header.bytes ≤ σ.config.mps at payload
  have ends : f.header.bytes = f.header.byteCount ∨
      f.header.bytes < f.header.byteCount ∧ (f.header.address + f.header.bytes) % 4 = 0 := by
    rcases answers.fits.boundary with whole | boundary
    · exact .inl whole
    · rcases Nat.eq_or_lt_of_le bytes_le with whole | less
      · exact .inl whole
      · exact .inr ⟨less, Nat.mod_eq_zero_of_dvd
          (hv.grid.dword.trans (Nat.dvd_of_mod_eq_zero boundary))⟩
  have byteCount_le : f.header.byteCount ≤ 4096 := by
    change q.header.bytes ≤ min (min σ.config.mrrs _) _ at limit
    omega
  refine ⟨by omega, byteCount_le, ends, ?_⟩
  have htag : f.header.tag < 2 ^ 8 := answers.tag ▸ tag
  exact completion_round_trip completion completer requester htag (by omega) byteCount_le
    bytes_pos (by omega) ends

/-- A write of three bytes at an odd address. -/
def oddWrite : Header :=
  { type := .write, address := 2 ^ 42 + 1, bytes := 3, requester := 37, tag := 255, relaxed := true }

theorem readRun_answered :
    ((machine tickEnv).runs { config := {} } readRun).map
      (fun σ => (σ.trace.filterMap fun
        | .created f => if f.header.type = .completion then some f else none
        | _ => none).length) = some 2 := by
  decide +kernel

theorem header_round_trip_readRun :
    (∃ d, Header.deserialize oddWrite.serialize = some d ∧ oddWrite.Same d ∧
      d.address = 2 ^ 42 + 1) ∧
    ∃ σ, (machine tickEnv).Reachable σ ∧ ∃ f, .created f ∈ σ.trace ∧
      ∃ d, Header.deserialize f.header.serialize = some d ∧ f.header.Same d := by
  obtain ⟨memory, -, emitted⟩ := header_round_trip tickEnv
  refine ⟨memory oddWrite (by decide) (by decide) (by decide) (by decide) (by decide) (by decide), ?_⟩
  obtain ⟨σ, hreach, hvals⟩ := Machine.Reachable.exists_of_runs
    (M := machine tickEnv) ⟨_, by constructor <;> decide, rfl, rfl⟩ readRun_answered
  obtain ⟨f, hf⟩ := List.exists_mem_of_length_pos (by rw [hvals]; decide)
  obtain ⟨o, ho, created⟩ := List.mem_filterMap.1 hf
  cases o with
  | created g =>
      simp only [Option.ite_none_right_eq_some, Option.some.injEq] at created
      obtain ⟨completion, rfl⟩ := created
      obtain ⟨-, -, -, d, read, same, -⟩ := emitted σ hreach g ho completion
      exact ⟨σ, hreach, g, ho, d, read, same⟩
  | submitted | received | delivered | scheduled => cases created

end ProtoBridge.Pcie
