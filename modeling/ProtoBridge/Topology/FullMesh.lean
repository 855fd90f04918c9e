import ProtoBridge.Topology.Mesh

/-!
# Full meshes in two dimensions

A packet for another row and column crosses its row to the column of its goal. That node is a neighbor, so
the builder does not give up.
-/

namespace ProtoBridge.Topology

open Lib

/-- The links that `Build2DFullMesh` installs at a node, to the nodes behind it in its row and in its column. -/
def fullMeshLinksAt (rows cols row col : Nat) : List (Nat × Nat) :=
  let nodeId := indexFromCoord cols row col
  ((List.range cols).flatMap fun col2 =>
    let peerId := indexFromCoord cols row col2
    if col2 = col then [] else if peerId < nodeId then [] else [(nodeId, peerId)]) ++
  (List.range rows).flatMap fun row2 =>
    let peerId := indexFromCoord cols row2 col
    if row2 = row then [] else if peerId < nodeId then [] else [(nodeId, peerId)]

/-- The links of `Build2DFullMesh`. -/
def fullMeshLinks (rows cols : Nat) : List (Nat × Nat) :=
  (List.range rows).flatMap fun row => (List.range cols).flatMap fun col => fullMeshLinksAt rows cols row col

/-- The node at the source row and the destination column. -/
def fullMeshNext (cols src dst : Nat) : Nat := indexFromCoord cols (src / cols) (dst % cols)

/-- A round of the loop over the destinations, which gives up where the next hop has no entry. -/
def fillRouteOrAbort (next : Nat → Nat) (src : Nat) (ep : Endpoint) (dst : Nat) :
    Except BuildAbort Endpoint :=
  if src = dst ∨ ep.getRoutingDeviceIndex (UInt16.ofNat dst) ≠ noDevice then .ok ep
  else
    let devIdx := ep.getRoutingDeviceIndex (UInt16.ofNat (next dst))
    if devIdx = noDevice then .error .noDirectNextHop
    else .ok (ep.setRoutingEntry (UInt16.ofNat dst) devIdx)

/-- `Build2DFullMesh`. -/
def build2DFullMesh (rows cols : Nat) : Except BuildAbort Network :=
  let numNodes := rows * cols
  if numNodes < 2 then .error .tooFewNodes
  else
    (List.range numNodes).foldlM (fun net src => do
      let ep ← (List.range numNodes).foldlM (fillRouteOrAbort (fullMeshNext cols src) src) (net src)
      pure (Function.update net src ep)) (installLinks (fullMeshLinks rows cols))

/-- The hops of a full mesh. -/
def fullMeshDist (cols src dst : Nat) : Nat :=
  if src = dst then 0 else if src / cols = dst / cols ∨ src % cols = dst % cols then 1 else 2

/-! ## Filling up or giving up -/

variable {n rows cols row col row' col' src dst v w : Nat} {links : List (Nat × Nat)}

/-- Where the nodes on the way have entries, the loop fills up. -/
theorem foldlM_fillRouteOrAbort {next : Nat → Nat} {start : Endpoint} {dsts : List Nat}
    (hranks : ∀ dst ∈ dsts, dst < 2 ^ 16)
    (hdevices : ∀ key d, start.routingTable.lookup key = some d → d ≠ noDevice)
    (hnext : ∀ dst ∈ dsts, src ≠ dst → start.routingTable.lookup (UInt16.ofNat dst) = none →
      ∃ d, start.routingTable.lookup (UInt16.ofNat (next dst)) = some d) :
    dsts.foldlM (fillRouteOrAbort next src) start = .ok (fillRoutes next src dsts start) := by
  induction dsts using List.reverseRecOn with
  | nil => rfl
  | append_singleton dsts dst ih =>
      have hranks' : ∀ d ∈ dsts, d < 2 ^ 16 := fun d hd => hranks d (List.mem_append_left _ hd)
      have hnext' := fun d hd => hnext d (List.mem_append_left _ hd)
      have h := fillRoutes_filled hranks' hdevices hnext'
      rw [List.foldlM_append, ih hranks' hnext', fillRoutes_concat]
      generalize fillRoutes next src dsts start = ep at h
      show (fillRouteOrAbort next src ep dst >>= pure) = _
      rw [bind_pure]
      unfold fillRouteOrAbort fillRoute
      by_cases hself : src = dst
      · rw [if_pos (.inl hself), if_pos hself]
      · rw [if_neg hself]
        split
        · rename_i hskip
          rw [if_pos (hskip.resolve_left hself)]
        · rename_i hfill
          have hmissing : ¬ ep.getRoutingDeviceIndex (UInt16.ofNat dst) ≠ noDevice :=
            fun hne => hfill (.inr hne)
          rw [if_neg hmissing]
          have hnone : start.routingTable.lookup (UInt16.ofNat dst) = none := by
            cases hstart : start.routingTable.lookup (UInt16.ofNat dst) with
            | none => rfl
            | some device =>
                refine absurd ?_ hmissing
                unfold Endpoint.getRoutingDeviceIndex
                rw [h.kept _ _ hstart]
                exact hdevices _ _ hstart
          obtain ⟨device, hdevice⟩ :=
            hnext dst (List.mem_append_right _ (List.mem_singleton.mpr rfl)) hself hnone
          have hreal : ep.getRoutingDeviceIndex (UInt16.ofNat (next dst)) ≠ noDevice := by
            unfold Endpoint.getRoutingDeviceIndex
            rw [h.kept _ _ hdevice]
            exact hdevices _ _ hdevice
          exact if_neg hreal

theorem foldlM_update (f : Nat → Endpoint → Except BuildAbort Endpoint) (g : Nat → Endpoint) {net : Network}
    (n : Nat) (hf : ∀ src < n, f src (net src) = .ok (g src)) :
    (List.range n).foldlM (fun net src => do
      let ep ← f src (net src)
      pure (Function.update net src ep)) net =
        .ok fun v => if v < n then g v else net v := by
  induction n with
  | zero =>
      refine congrArg Except.ok (funext fun v => ?_)
      rw [if_neg (Nat.not_lt_zero v)]
  | succ n ih =>
      rw [List.range_succ, List.foldlM_append, ih fun src hsrc => hf src (Nat.lt_succ_of_lt hsrc)]
      have hopen : (if n < n then g n else net n) = net n := if_neg (Nat.lt_irrefl n)
      simp only [List.foldlM_cons, List.foldlM_nil, bind_pure]
      show (f n (if n < n then g n else net n) >>= fun ep =>
        pure (Function.update (fun v => if v < n then g v else net v) n ep)) = _
      rw [hopen, hf n (Nat.lt_succ_self n)]
      refine congrArg Except.ok (funext fun v => ?_)
      by_cases hv : v = n
      · rw [hv, Function.update_self, if_pos (Nat.lt_succ_self n)]
      · rw [Function.update_of_ne hv]
        by_cases hlt : v < n
        · rw [if_pos hlt, if_pos (by omega)]
        · rw [if_neg hlt, if_neg (by omega)]

/-! ## Build2DFullMesh -/

theorem mem_fullMeshLinks {l : Nat × Nat} : l ∈ fullMeshLinks rows cols ↔
    ∃ row col row' col', row < rows ∧ col < cols ∧ row' < rows ∧ col' < cols ∧
      (row' = row ∧ col' ≠ col ∨ row' ≠ row ∧ col' = col) ∧
      ¬ indexFromCoord cols row' col' < indexFromCoord cols row col ∧
      l = (indexFromCoord cols row col, indexFromCoord cols row' col') := by
  unfold fullMeshLinks fullMeshLinksAt
  simp only [List.mem_append, List.mem_flatMap, List.mem_range]
  constructor
  · rintro ⟨row, hrow, col, hcol, ⟨col2, hcol2, hmem⟩ | ⟨row2, hrow2, hmem⟩⟩
    · split at hmem
      · cases hmem
      · split at hmem
        · cases hmem
        · rename_i hne hbehind
          exact ⟨row, col, row, col2, hrow, hcol, hrow, hcol2, .inl ⟨rfl, hne⟩, hbehind,
            List.mem_singleton.mp hmem⟩
    · split at hmem
      · cases hmem
      · split at hmem
        · cases hmem
        · rename_i hne hbehind
          exact ⟨row, col, row2, col, hrow, hcol, hrow2, hcol, .inr ⟨hne, rfl⟩, hbehind,
            List.mem_singleton.mp hmem⟩
  · rintro ⟨row, col, row', col', hrow, hcol, hrow', hcol', hline, hbehind, rfl⟩
    refine ⟨row, hrow, col, hcol, ?_⟩
    rcases hline with ⟨rfl, hne⟩ | ⟨hne, rfl⟩
    · left
      refine ⟨col', hcol', ?_⟩
      rw [if_neg hne, if_neg hbehind]
      exact List.mem_singleton.mpr rfl
    · right
      refine ⟨row', hrow', ?_⟩
      rw [if_neg hne, if_neg hbehind]
      exact List.mem_singleton.mpr rfl

theorem linked_fullMesh (hrow : row < rows) (hcol : col < cols) (hrow' : row' < rows) (hcol' : col' < cols) :
    Linked (fullMeshLinks rows cols) (indexFromCoord cols row col) (indexFromCoord cols row' col') ↔
      row' = row ∧ col' ≠ col ∨ row' ≠ row ∧ col' = col := by
  unfold Linked
  simp only [mem_fullMeshLinks]
  constructor
  · rintro (⟨r, c, r', c', -, hc, -, hc', hline, -, heq⟩ | ⟨r, c, r', c', -, hc, -, hc', hline, -, heq⟩)
    · obtain ⟨hsrc, hdst⟩ := Prod.mk.inj heq
      obtain ⟨rfl, rfl⟩ := (indexFromCoord_inj hcol hc).mp hsrc
      obtain ⟨rfl, rfl⟩ := (indexFromCoord_inj hcol' hc').mp hdst
      exact hline
    · obtain ⟨hsrc, hdst⟩ := Prod.mk.inj heq
      obtain ⟨rfl, rfl⟩ := (indexFromCoord_inj hcol' hc).mp hsrc
      obtain ⟨rfl, rfl⟩ := (indexFromCoord_inj hcol hc').mp hdst
      rcases hline with ⟨hsame, hne⟩ | ⟨hne, hsame⟩
      · exact .inl ⟨hsame.symm, hne.symm⟩
      · exact .inr ⟨hne.symm, hsame.symm⟩
  · intro hline
    by_cases hbehind : indexFromCoord cols row' col' < indexFromCoord cols row col
    · right
      refine ⟨row', col', row, col, hrow', hcol', hrow, hcol, ?_, Nat.not_lt.mpr hbehind.le, rfl⟩
      rcases hline with ⟨hsame, hne⟩ | ⟨hne, hsame⟩
      · exact .inl ⟨hsame.symm, hne.symm⟩
      · exact .inr ⟨hne.symm, hsame.symm⟩
    · exact .inl ⟨row, col, row', col', hrow, hcol, hrow', hcol', hline, hbehind, rfl⟩

theorem fullMeshDist_coord (hcol : col < cols) (hcol' : col' < cols) :
    fullMeshDist cols (indexFromCoord cols row col) (indexFromCoord cols row' col') =
      if row = row' ∧ col = col' then 0 else if row = row' ∨ col = col' then 1 else 2 := by
  unfold fullMeshDist
  rw [if_congr (indexFromCoord_inj hcol hcol') rfl rfl]
  simp only [indexFromCoord, place_div hcol, place_div hcol', place_mod hcol, place_mod hcol']

theorem fullMeshNext_coord (hcol : col < cols) (hcol' : col' < cols) :
    fullMeshNext cols (indexFromCoord cols row col) (indexFromCoord cols row' col') =
      indexFromCoord cols row col' := by
  simp only [fullMeshNext, indexFromCoord, place_div hcol, place_mod hcol']

theorem proper_fullMeshLinks (rows cols : Nat) : Proper (rows * cols) (fullMeshLinks rows cols) := by
  intro l hl
  obtain ⟨row, col, row', col', hrow, hcol, hrow', hcol', hline, -, rfl⟩ := mem_fullMeshLinks.mp hl
  refine ⟨indexFromCoord_lt hrow hcol, indexFromCoord_lt hrow' hcol', fun heq => ?_⟩
  obtain ⟨hsame, hsame'⟩ := (indexFromCoord_inj hcol hcol').mp heq
  rcases hline with ⟨-, hne⟩ | ⟨hne, -⟩
  · exact hne hsame'.symm
  · exact hne hsame.symm

theorem length_fullMeshLinks (hrows : 0 < rows) (hcols : 0 < cols) (hnodes : rows * cols ≤ 65535) :
    (fullMeshLinks rows cols).length < noDevice := by
  have hone : ∀ (p q : Prop) [Decidable p] [Decidable q] (l : Nat × Nat),
      (if p then [] else if q then [] else [l]).length ≤ 1 := by
    intro p q _ _ l
    split
    · exact Nat.zero_le _
    · split
      · exact Nat.zero_le _
      · exact Nat.le_refl _
  have hat : ∀ row col, (fullMeshLinksAt rows cols row col).length ≤ cols + rows := by
    intro row col
    unfold fullMeshLinksAt
    rw [List.length_append]
    have hrow := length_flatMap_le (f := fun col2 => if col2 = col then [] else
      if indexFromCoord cols row col2 < indexFromCoord cols row col then []
      else [(indexFromCoord cols row col, indexFromCoord cols row col2)]) (l := List.range cols)
      fun col2 _ => hone _ _ _
    have hcolumn := length_flatMap_le (f := fun row2 => if row2 = row then [] else
      if indexFromCoord cols row2 col < indexFromCoord cols row col then []
      else [(indexFromCoord cols row col, indexFromCoord cols row2 col)]) (l := List.range rows)
      fun row2 _ => hone _ _ _
    rw [List.length_range, Nat.mul_one] at hrow hcolumn
    exact Nat.add_le_add hrow hcolumn
  have hall : (fullMeshLinks rows cols).length ≤ rows * (cols * (cols + rows)) := by
    have hlines := length_flatMap_le (l := List.range rows) (k := cols * (cols + rows))
      (f := fun row => (List.range cols).flatMap fun col => fullMeshLinksAt rows cols row col) ?_
    · rwa [List.length_range] at hlines
    · intro row _
      have hline := length_flatMap_le (l := List.range cols) (f := fullMeshLinksAt rows cols row)
        fun col _ => hat row col
      rwa [List.length_range] at hline
  -- a row and a column have at most one node more than the whole mesh
  have hsum : cols + rows ≤ rows * cols + 1 := by
    obtain ⟨r, rfl⟩ := Nat.exists_eq_succ_of_ne_zero hrows.ne'
    obtain ⟨c, rfl⟩ := Nat.exists_eq_succ_of_ne_zero hcols.ne'
    have : r * c + r + c + 1 = (r + 1) * (c + 1) := by ring
    show c + 1 + (r + 1) ≤ (r + 1) * (c + 1) + 1
    omega
  calc (fullMeshLinks rows cols).length ≤ rows * (cols * (cols + rows)) := hall
    _ = rows * cols * (cols + rows) := (Nat.mul_assoc _ _ _).symm
    _ ≤ 65535 * 65536 := Nat.mul_le_mul hnodes (hsum.trans (Nat.succ_le_succ hnodes))
    _ < noDevice := by decide

theorem fullMesh_routes (htwo : 2 ≤ rows * cols) (hnodes : rows * cols ≤ 65535) :
    ∃ net, build2DFullMesh rows cols = .ok net ∧ ShortestRoutes net (rows * cols) (fullMeshDist cols) := by
  have hrows : 0 < rows := Nat.pos_of_ne_zero fun hzero => by simp [hzero] at htwo
  have hcols : 0 < cols := Nat.pos_of_ne_zero fun hzero => by simp [hzero] at htwo
  have hproper := proper_fullMeshLinks rows cols
  have hfew := length_fullMeshLinks hrows hcols hnodes
  have hway : ∀ src < rows * cols, ∀ dst < rows * cols, src ≠ dst →
      ¬ Linked (fullMeshLinks rows cols) src dst → fullMeshNext cols src dst < rows * cols ∧
        Linked (fullMeshLinks rows cols) src (fullMeshNext cols src dst) ∧
        fullMeshDist cols (fullMeshNext cols src dst) dst + 1 = fullMeshDist cols src dst := by
    intro src hsrc dst hdst hne hapart
    obtain ⟨row, hrow, col, hcol, rfl⟩ := exists_coord hsrc
    obtain ⟨row', hrow', col', hcol', rfl⟩ := exists_coord hdst
    rw [Ne, indexFromCoord_inj hcol hcol'] at hne
    rw [linked_fullMesh hrow hcol hrow' hcol'] at hapart
    have hrows' : row ≠ row' := fun heq => hne ⟨heq, by tauto⟩
    have hcols' : col ≠ col' := fun heq => hne ⟨by tauto, heq⟩
    rw [fullMeshNext_coord hcol hcol', linked_fullMesh hrow hcol hrow hcol', fullMeshDist_coord hcol' hcol',
      fullMeshDist_coord hcol hcol', if_neg fun h => hrows' h.1, if_pos (.inr rfl),
      if_neg fun h => hrows' h.1, if_neg fun h => h.elim hrows' hcols']
    exact ⟨indexFromCoord_lt hrow hcol', .inl ⟨rfl, hcols'.symm⟩, rfl⟩
  refine ⟨build (rows * cols) (fullMeshLinks rows cols) (fullMeshNext cols), ?_, ?_⟩
  -- the next hop is a neighbor, so that no node gives up
  · have h := installed (by omega : rows * cols ≤ 2 ^ 16) hproper
    unfold build2DFullMesh
    dsimp only
    rw [if_neg (by omega)]
    refine foldlM_update
      (fun src ep => (List.range (rows * cols)).foldlM (fillRouteOrAbort (fullMeshNext cols src) src) ep)
      (fun src => fillRoutes (fullMeshNext cols src) src (List.range (rows * cols))
        (installLinks (fullMeshLinks rows cols) src)) (rows * cols) fun src hsrc => ?_
    obtain ⟨hdevices, hnext⟩ := h.entries_on_way hfew fun dst hdst hne hapart =>
      (hway src hsrc dst hdst hne hapart).2.1
    refine foldlM_fillRouteOrAbort ?_ hdevices hnext
    intro d hd
    rw [List.mem_range] at hd
    omega
  · refine shortestRoutes_build (by omega) hproper hfew ?_ ?_ hway
    · intro src hsrc dst hdst
      unfold fullMeshDist
      split
      · exact iff_of_true rfl ‹_›
      · refine iff_of_false ?_ ‹_›
        split <;> omega
    · intro src hsrc dst hdst hlinked
      obtain ⟨row, hrow, col, hcol, rfl⟩ := exists_coord hsrc
      obtain ⟨row', hrow', col', hcol', rfl⟩ := exists_coord hdst
      rw [linked_fullMesh hrow hcol hrow' hcol'] at hlinked
      rw [fullMeshDist_coord hcol hcol']
      rcases hlinked with ⟨rfl, hne⟩ | ⟨hne, rfl⟩
      · rw [if_neg fun h => hne h.2.symm, if_pos (.inl rfl)]
      · rw [if_neg fun h => hne h.1.symm, if_pos (.inr rfl)]

end ProtoBridge.Topology
