import ProtoBridge.Collective.AlltoAll

/-!
# The transfers of an AlltoAll

The chunk of a rank comes to another one by one transfer, its final hop; on the grid of ranks a first hop
may come before it, to the rank in the row of the one and the column of the other.
-/

namespace ProtoBridge.Collective

open Lib Fabric

namespace AlltoAll

variable {a : AlltoAll} {origin dest inter step gpu : Nat} {mode : AlltoAllMode} {numGpus : UInt16}
  {dataSize : UInt64}

/-- The layout that `Initialize` makes of at least two ranks and one byte. -/
structure Lawful (a : AlltoAll) : Prop where
  two : 2 ≤ a.numGpus
  few : a.numGpus ≤ 65535
  steps : a.totalSteps = a.numGpus - 1
  chunk : ∀ gpu, a.chunkSizeOf gpu = portion a.dataSize a.numGpus gpu
  small : a.chunkSize = 0 → a.chunkRemainder < a.numGpus
  data : 0 < a.dataSize
  word : a.dataSize < 2 ^ 64
  places : ∀ rows cols, a.mode = .twoDimensional rows cols →
    rows.toNat * cols.toNat = a.numGpus ∧ a.numGpus < 32768

/-- The setter of the mode has a grid with a place for each rank, and a flow id for each. -/
def Fits (mode : AlltoAllMode) (numGpus : UInt16) : Prop :=
  ∀ rows cols, mode = .twoDimensional rows cols →
    rows.toNat * cols.toNat = numGpus.toNat ∧ numGpus.toNat < 32768

theorem grid_chunkRemainder (mode : AlltoAllMode) (numGpus : UInt16) (dataSize : UInt64) :
    (grid mode numGpus dataSize).chunkRemainder = dataSize.toNat % numGpus.toNat := by
  unfold grid
  dsimp only
  split
  · rename_i hsmall
    have hmul := Nat.div_add_mod dataSize.toNat numGpus.toNat
    rw [hsmall.1] at hmul
    omega
  · rfl

theorem lawful_grid (htwo : 2 ≤ numGpus.toNat) (hdata : 1 ≤ dataSize.toNat)
    (hfits : Fits mode numGpus) : Lawful (grid mode numGpus dataSize) where
  two := htwo
  few := Nat.le_of_lt_succ numGpus.toNat_lt
  steps := rfl
  chunk gpu := by
    unfold chunkSizeOf portion
    rw [grid_chunkRemainder]
    rfl
  small _ := by
    rw [grid_chunkRemainder]
    exact Nat.mod_lt _ (by omega)
  data := hdata
  word := dataSize.toNat_lt
  places := hfits

theorem admits_of_fits (htwo : 2 ≤ numGpus.toNat) (hfits : Fits mode numGpus) :
    admits mode numGpus = .ok () := by
  unfold admits
  cases mode with
  | ringPipeline => rfl
  | concurrent => rfl
  | twoDimensional rows cols =>
      obtain ⟨hplaces, hfew⟩ := hfits rows cols rfl
      have hrows : rows ≠ 0 := by
        rintro rfl
        rw [UInt32.toNat_zero, Nat.zero_mul] at hplaces
        omega
      have hcols : cols ≠ 0 := by
        rintro rfl
        rw [UInt32.toNat_zero, Nat.mul_zero] at hplaces
        omega
      have hproduct : (rows * cols).toNat = numGpus.toNat := by
        rw [UInt32.toNat_mul, hplaces]
        exact Nat.mod_eq_of_lt (by omega)
      have hids : ¬ numGpus ≥ 0x8000 := by
        rw [ge_iff_le, UInt16.le_iff_toNat_le]
        show ¬ 32768 ≤ numGpus.toNat
        omega
      dsimp only
      rw [if_neg fun hzero => hzero.elim hrows hcols, if_neg fun hne => hne hproduct, if_neg hids]

/-! ## Hops -/

/-- The last transfer of the chunk that a rank sends another one. -/
def finalTransfer (a : AlltoAll) (origin dest : Nat) : AlltoAllTransfer :=
  match a.mode with
  | .ringPipeline => a.stepTransfer origin ((dest + a.numGpus - 1 - origin) % a.numGpus)
  | _ =>
      match a.intermediate origin dest with
      | some inter =>
          { origin, src := inter, dst := dest, final := dest, flowId := (dest + 1) % 2 ^ 16 }
      | none => a.chunkTransfer origin dest

theorem stepOf_dest (horigin : origin < a.numGpus) (hdest : dest < a.numGpus) (hne : origin ≠ dest) :
    (origin + (dest + a.numGpus - 1 - origin) % a.numGpus + 1) % a.numGpus = dest := by
  rcases Nat.lt_or_ge dest (origin + 1) with hwraps | hnext
  · have hsplit : origin + (dest + a.numGpus - 1 - origin) + 1 = dest + a.numGpus := by omega
    rw [Nat.mod_eq_of_lt (a := dest + a.numGpus - 1 - origin) (by omega), hsplit, Nat.add_mod_right,
      Nat.mod_eq_of_lt hdest]
  · have hsplit : dest + a.numGpus - 1 - origin = dest - 1 - origin + a.numGpus := by omega
    rw [hsplit, Nat.add_mod_right, Nat.mod_eq_of_lt (a := dest - 1 - origin) (by omega)]
    have hsum : origin + (dest - 1 - origin) + 1 = dest := by omega
    rw [hsum, Nat.mod_eq_of_lt hdest]

theorem stepOf_of_step (hgpu : gpu < a.numGpus) (hstep : step < a.numGpus - 1) :
    gpu ≠ (gpu + step + 1) % a.numGpus ∧
      ((gpu + step + 1) % a.numGpus + a.numGpus - 1 - gpu) % a.numGpus = step := by
  rcases Nat.lt_or_ge (gpu + step + 1) a.numGpus with hin | hwraps
  · rw [Nat.mod_eq_of_lt hin]
    have hsplit : gpu + step + 1 + a.numGpus - 1 - gpu = step + a.numGpus := by omega
    rw [hsplit, Nat.add_mod_right, Nat.mod_eq_of_lt (by omega)]
    omega
  · rw [Nat.mod_eq_sub_mod hwraps, Nat.mod_eq_of_lt (by omega)]
    have hsplit : gpu + step + 1 - a.numGpus + a.numGpus - 1 - gpu = step := by omega
    rw [hsplit, Nat.mod_eq_of_lt (by omega)]
    omega

theorem stepTransfer_injective {gpu' step' : Nat} (hr : a.Lawful) (hstep : step < a.numGpus - 1)
    (hstep' : step' < a.numGpus - 1) (heq : a.stepTransfer gpu step = a.stepTransfer gpu' step') :
    gpu = gpu' ∧ step = step' := by
  have hfew := hr.few
  have hgpu := congrArg AlltoAllTransfer.origin heq
  have hflow := congrArg AlltoAllTransfer.flowId heq
  simp only [stepTransfer] at hgpu hflow
  rw [Nat.mod_eq_of_lt (by omega), Nat.mod_eq_of_lt (by omega)] at hflow
  exact ⟨hgpu, by omega⟩

theorem mode_of_intermediate (hinter : a.intermediate origin dest = some inter) :
    a.mode ≠ .ringPipeline := by
  intro hmode
  unfold intermediate at hinter
  rw [hmode] at hinter
  exact absurd hinter (by simp)

theorem Lawful.intermediate (h : a.Lawful) (horigin : origin < a.numGpus)
    (hinter : a.intermediate origin dest = some inter) :
    inter < a.numGpus ∧ inter ≠ dest ∧ origin ≠ dest ∧ a.numGpus < 32768 := by
  unfold AlltoAll.intermediate at hinter
  split at hinter
  · rename_i rows cols hmode
    obtain ⟨hplaces, hfew⟩ := h.places rows cols hmode
    dsimp only at hinter
    split at hinter
    · rename_i hcross
      have hcols : 0 < cols.toNat := by
        rcases Nat.eq_zero_or_pos cols.toNat with hzero | hpos
        · rw [hzero, Nat.mul_zero] at hplaces
          omega
        · exact hpos
      have hrow : origin / cols.toNat < rows.toNat := by
        rw [Nat.div_lt_iff_lt_mul hcols, hplaces]
        exact horigin
      have hcol : dest % cols.toNat < cols.toNat := Nat.mod_lt _ hcols
      have hlt := place_lt hrow hcol
      rw [hplaces] at hlt
      rw [Option.some.injEq, Nat.mod_eq_of_lt (by omega)] at hinter
      subst hinter
      refine ⟨hlt, ?_, ?_, hfew⟩
      · intro hsame
        apply hcross.1
        rw [← hsame, place_div hcol]
      · rintro rfl
        exact hcross.1 rfl
    · exact absurd hinter (by simp)
  · exact absurd hinter (by simp)

theorem chunkTransfer_origin (a : AlltoAll) (origin dest : Nat) :
    (a.chunkTransfer origin dest).origin = origin := by
  unfold chunkTransfer
  split <;> rfl

theorem chunkTransfer_final (a : AlltoAll) (origin dest : Nat) :
    (a.chunkTransfer origin dest).final = dest := by
  unfold chunkTransfer
  split <;> rfl

theorem chunkTransfer_dst (hinter : a.intermediate origin dest = some inter) :
    (a.chunkTransfer origin dest).dst = inter := by
  unfold chunkTransfer
  rw [hinter]

theorem finalTransfer_origin (a : AlltoAll) (origin dest : Nat) :
    (a.finalTransfer origin dest).origin = origin := by
  unfold finalTransfer
  split
  · rfl
  · split
    · rfl
    · exact chunkTransfer_origin a origin dest

theorem finalTransfer_final (horigin : origin < a.numGpus) (hdest : dest < a.numGpus)
    (hne : origin ≠ dest) : (a.finalTransfer origin dest).final = dest := by
  unfold finalTransfer
  split
  · exact stepOf_dest horigin hdest hne
  · split
    · rfl
    · exact chunkTransfer_final a origin dest

theorem finalTransfer_dst (horigin : origin < a.numGpus) (hdest : dest < a.numGpus)
    (hne : origin ≠ dest) : (a.finalTransfer origin dest).dst = dest := by
  unfold finalTransfer
  split
  · exact stepOf_dest horigin hdest hne
  · split
    · rfl
    · rename_i hinter
      unfold chunkTransfer
      rw [hinter]

theorem chunkTransfer_eq_final (hmode : a.mode ≠ .ringPipeline)
    (hinter : a.intermediate origin dest = none) :
    a.chunkTransfer origin dest = a.finalTransfer origin dest := by
  unfold finalTransfer
  split
  · contradiction
  · rw [hinter]

theorem finalTransfer_forwarded (hmode : a.mode ≠ .ringPipeline)
    (hinter : a.intermediate origin dest = some inter) :
    a.finalTransfer origin dest =
      { origin, src := inter, dst := dest, final := dest, flowId := (dest + 1) % 2 ^ 16 } := by
  unfold finalTransfer
  split
  · contradiction
  · rw [hinter]

theorem stepTransfer_eq_final (hmode : a.mode = .ringPipeline) (hgpu : gpu < a.numGpus)
    (hstep : step < a.numGpus - 1) :
    a.stepTransfer gpu step = a.finalTransfer gpu ((gpu + step + 1) % a.numGpus) := by
  unfold finalTransfer
  rw [hmode]
  dsimp only
  rw [(stepOf_of_step hgpu hstep).2]

end AlltoAll

end ProtoBridge.Collective
