import ProtoBridge.Collective.TreeRuns

/-!
# The books of TreeAllReduce

A flow of a rank has sent no more than is ready, and all of it when all data are. So when nothing is in
flight the data have gone up to the root, and from the root down to all ranks.
-/

namespace ProtoBridge.Collective

open Lib Fabric

namespace TreeAllReduce

variable {t : TreeAllReduce} {flow flow' : TreeFlow} {src dst gpu : Nat}

/-- A rank sends to another with a flow. -/
def Edge (t : TreeAllReduce) : TreeFlow → Nat → Nat → Prop
  | .up, src, dst => t.ChildOf dst src
  | .down, src, dst => t.ChildOf src dst

theorem Edge.unique (h : t.Edge flow src dst) (h' : t.Edge flow' src dst) : flow = flow' := by
  cases flow <;> cases flow'
  · rfl
  · exact absurd (ChildOf.lt h) (Nat.lt_asymm (ChildOf.lt h'))
  · exact absurd (ChildOf.lt h) (Nat.lt_asymm (ChildOf.lt h'))
  · rfl

theorem Edge.lt (h : t.Edge flow src dst) : src < t.numGpus ∧ dst < t.numGpus := by
  cases flow with
  | up => exact ⟨h.1, (ChildOf.lt h).trans h.1⟩
  | down => exact ⟨(ChildOf.lt h).trans h.1, h.1⟩

end TreeAllReduce

namespace TreeRun

variable {t : TreeAllReduce} {c c' : TreeRun} {flow : TreeFlow} {gpu src dst child : Nat}

/-- What a flow of a rank may send. -/
def ready (c : TreeRun) : TreeFlow → Nat → Nat
  | .up, gpu => c.upReadyBytes gpu
  | .down, gpu => c.downReadyBytes gpu

theorem le_upReadyBytes_iff (ht : t.Lawful) (htree : c.tree = t) (hgpu : gpu < t.numGpus) (x : Nat) :
    x ≤ c.upReadyBytes gpu ↔
      x ≤ t.dataSize ∧ ∀ child, t.ChildOf gpu child → x ≤ c.upRecvFromChild child := by
  unfold upReadyBytes
  rw [htree]
  dsimp only
  by_cases hleft : t.getLeftChild gpu = TreeAllReduce.noRank
  · rw [if_neg (not_not.mpr hleft), if_neg (not_not.mpr (ht.no_right hgpu hleft))]
    exact (and_iff_left fun child hchild => absurd hchild (ht.no_child hgpu hleft child)).symm
  · have hchildren : ∀ child, t.ChildOf gpu child → child = t.getLeftChild gpu ∨
        child = t.getRightChild gpu := fun child hchild => (ht.childOf_iff hgpu hchild.1).mp hchild
    have hfirst := ht.childOf_left hgpu hleft
    rw [if_pos hleft]
    by_cases hright : t.getRightChild gpu = TreeAllReduce.noRank
    · rw [if_neg (not_not.mpr hright), le_min_iff]
      refine and_congr_right fun _ => ⟨?_, fun hall => hall _ hfirst⟩
      intro hle child hchild
      rcases hchildren child hchild with rfl | rfl
      · exact hle
      · exact absurd hright (ht.ne_noRank hchild.1)
    · have hsecond := ht.childOf_right hgpu hright
      rw [if_pos hright, le_min_iff, le_min_iff, and_assoc]
      refine and_congr_right fun _ => ⟨?_, fun hall => ⟨hall _ hfirst, hall _ hsecond⟩⟩
      rintro ⟨hle, hle'⟩ child hchild
      rcases hchildren child hchild with rfl | rfl
      · exact hle
      · exact hle'

theorem upReadyBytes_le (ht : t.Lawful) (htree : c.tree = t) (hgpu : gpu < t.numGpus) :
    c.upReadyBytes gpu ≤ t.dataSize :=
  ((le_upReadyBytes_iff ht htree hgpu _).mp le_rfl).1

theorem upReadyBytes_le_child (ht : t.Lawful) (htree : c.tree = t) (hchild : t.ChildOf gpu child) :
    c.upReadyBytes gpu ≤ c.upRecvFromChild child :=
  ((le_upReadyBytes_iff ht htree (hchild.lt.trans hchild.1) _).mp le_rfl).2 child hchild

theorem ready_le (ht : t.Lawful) (htree : c.tree = t) (hgpu : gpu < t.numGpus) (flow : TreeFlow) :
    c.ready flow gpu ≤ t.dataSize := by
  cases flow with
  | up => exact upReadyBytes_le ht htree hgpu
  | down =>
      show c.downReadyBytes gpu ≤ _
      unfold downReadyBytes
      rw [htree]
      split
      · have htwo := ht.two
        exact upReadyBytes_le ht htree (by omega)
      · exact min_le_right _ _

theorem upReadyBytes_eq (htree : c'.tree = c.tree) (hup : c'.upRecvFromChild = c.upRecvFromChild)
    (gpu : Nat) : c'.upReadyBytes gpu = c.upReadyBytes gpu := by
  unfold upReadyBytes
  rw [htree, hup]

theorem ready_congr (htree : c'.tree = c.tree) (hup : c'.upRecvFromChild = c.upRecvFromChild)
    (hdown : c'.downRecv = c.downRecv) (flow : TreeFlow) (gpu : Nat) :
    c'.ready flow gpu = c.ready flow gpu := by
  cases flow with
  | up => exact upReadyBytes_eq htree hup gpu
  | down =>
      show c'.downReadyBytes gpu = c.downReadyBytes gpu
      unfold downReadyBytes
      rw [upReadyBytes_eq htree hup, htree, hdown]

theorem upReadyBytes_mono (ht : t.Lawful) (htree : c.tree = t) (htree' : c'.tree = t)
    (hgpu : gpu < t.numGpus)
    (hle : ∀ child, t.ChildOf gpu child → c.upRecvFromChild child ≤ c'.upRecvFromChild child) :
    c.upReadyBytes gpu ≤ c'.upReadyBytes gpu := by
  rw [le_upReadyBytes_iff ht htree' hgpu]
  exact ⟨upReadyBytes_le ht htree hgpu,
    fun child hchild => (upReadyBytes_le_child ht htree hchild).trans (hle child hchild)⟩

theorem upReadyBytes_congr (ht : t.Lawful) (htree : c.tree = t) (htree' : c'.tree = t)
    (hgpu : gpu < t.numGpus)
    (heq : ∀ child, t.ChildOf gpu child → c'.upRecvFromChild child = c.upRecvFromChild child) :
    c'.upReadyBytes gpu = c.upReadyBytes gpu :=
  le_antisymm (upReadyBytes_mono ht htree' htree hgpu fun child hchild => (heq child hchild).le)
    (upReadyBytes_mono ht htree htree' hgpu fun child hchild => (heq child hchild).ge)

theorem ready_mono (ht : t.Lawful) (htree : c.tree = t) (htree' : c'.tree = t)
    (hgpu : gpu < t.numGpus) (hup : ∀ child, c.upRecvFromChild child ≤ c'.upRecvFromChild child)
    (hdown : ∀ child, c.downRecv child ≤ c'.downRecv child) (flow : TreeFlow) :
    c.ready flow gpu ≤ c'.ready flow gpu := by
  cases flow with
  | up => exact upReadyBytes_mono ht htree htree' hgpu fun child _ => hup child
  | down =>
      show c.downReadyBytes gpu ≤ c'.downReadyBytes gpu
      unfold downReadyBytes
      rw [htree, htree']
      split
      · have htwo := ht.two
        exact upReadyBytes_mono ht htree htree' (by omega) fun child _ => hup child
      · exact min_le_min_right _ (hdown gpu)

/-- The counters are those of the log and of the scheduled events, nothing goes but along the tree, and
no flow has sent more than is ready. -/
structure Books (t : TreeAllReduce) (c : TreeRun) : Prop where
  tree : c.tree = t
  sent : ∀ flow src dst, t.Edge flow src dst → c.promised src dst = c.sentBytes (flow, src)
  confined : ∀ src dst, (∀ flow, ¬ t.Edge flow src dst) → c.promised src dst = 0
  upGot : ∀ gpu child, t.ChildOf gpu child → c.upRecvFromChild child = edgeDelivered c.log child gpu
  downGot : ∀ gpu child, t.ChildOf gpu child → c.downRecv child = edgeDelivered c.log gpu child
  flown : ∀ src dst, edgeDelivered c.log src dst ≤ edgeSent c.log src dst
  cap : ∀ flow src dst, t.Edge flow src dst → c.sentBytes (flow, src) ≤ c.ready flow src

/-- A flow for which all data are ready holds nothing back. -/
def Released (t : TreeAllReduce) (c : TreeRun) (flow : TreeFlow) (src : Nat) : Prop :=
  ∀ dst, t.Edge flow src dst → t.dataSize ≤ c.ready flow src →
    c.sentBytes (flow, src) = t.dataSize

namespace Books

theorem edgeSent_le (h : Books t c) (hedge : t.Edge flow src dst) :
    edgeSent c.log src dst ≤ c.sentBytes (flow, src) := by
  rw [← h.sent flow src dst hedge]
  exact Nat.le_add_right _ _

theorem edgeSent_le_dataSize (h : Books t c) (ht : t.Lawful) (hedge : t.Edge flow src dst) :
    edgeSent c.log src dst ≤ t.dataSize :=
  (h.edgeSent_le hedge).trans ((h.cap flow src dst hedge).trans (ready_le ht h.tree hedge.lt.1 flow))

theorem upRecv_le (h : Books t c) (hchild : t.ChildOf gpu child) :
    c.upRecvFromChild child ≤ c.upReadyBytes child := by
  have hedge : t.Edge .up child gpu := hchild
  rw [h.upGot gpu child hchild]
  exact (h.flown _ _).trans ((h.edgeSent_le hedge).trans (h.cap _ _ _ hedge))

theorem downRecv_le (h : Books t c) (hchild : t.ChildOf gpu child) :
    c.downRecv child ≤ c.downReadyBytes gpu := by
  have hedge : t.Edge .down gpu child := hchild
  rw [h.downGot gpu child hchild]
  exact (h.flown _ _).trans ((h.edgeSent_le hedge).trans (h.cap _ _ _ hedge))

theorem sends (h : Books t c) {targets : List Nat} {amount : Nat}
    (htargets : ∀ dst, dst ∈ targets ↔ t.Edge flow gpu dst) (hsends : Sends gpu targets amount c c')
    (hsent : c'.sentBytes = Function.update c.sentBytes (flow, gpu) (c.sentBytes (flow, gpu) + amount))
    (hfits : c.sentBytes (flow, gpu) + amount ≤ c.ready flow gpu) : Books t c' := by
  have hdelivered : ∀ s d, edgeDelivered c'.log s d = edgeDelivered c.log s d := by
    intro s d
    obtain ⟨more, hlog, honly⟩ := hsends.log
    rw [hlog, edgeDelivered_append, honly.edgeDelivered, Nat.add_zero]
  have hready := ready_congr hsends.tree hsends.upRecv hsends.downRecv
  refine ⟨hsends.tree.trans h.tree, ?_, ?_, ?_, ?_, ?_, ?_⟩
  -- sent
  · intro flow' s d hedge
    rw [hsends.promised, h.sent flow' s d hedge, hsent]
    by_cases hs : s = gpu
    · subst hs
      by_cases hd : d ∈ targets
      · obtain rfl := hedge.unique ((htargets d).mp hd)
        rw [if_pos ⟨rfl, hd⟩, Function.update_self]
      · have hother : flow' ≠ flow := by
          rintro rfl
          exact hd ((htargets d).mpr hedge)
        rw [if_neg fun hin => hd hin.2, Nat.add_zero,
          Function.update_of_ne fun heq => hother (congrArg Prod.fst heq)]
    · rw [if_neg fun hin => hs hin.1, Nat.add_zero,
        Function.update_of_ne fun heq => hs (congrArg Prod.snd heq)]
  · intro s d hnone
    rw [hsends.promised, h.confined s d hnone, if_neg]
    rintro ⟨rfl, hd⟩
    exact hnone flow ((htargets d).mp hd)
  · intro g child hchild
    rw [hsends.upRecv, hdelivered]
    exact h.upGot g child hchild
  · intro g child hchild
    rw [hsends.downRecv, hdelivered]
    exact h.downGot g child hchild
  · intro s d
    obtain ⟨more, hlog, -⟩ := hsends.log
    rw [hdelivered, hlog, edgeSent_append]
    exact (h.flown s d).trans (Nat.le_add_right _ _)
  · intro flow' s d hedge
    rw [hready, hsent]
    by_cases heq : (flow', s) = (flow, gpu)
    · rw [heq, Function.update_self]
      obtain ⟨rfl, rfl⟩ := Prod.mk.inj heq
      exact hfits
    · rw [Function.update_of_ne heq]
      exact h.cap flow' s d hedge

theorem arrive (h : Books t c) (ht : t.Lawful) {bytes : Nat} (hedge : t.Edge flow src dst)
    (hfits : edgeDelivered c.log src dst + bytes ≤ edgeSent c.log src dst) (htree : c'.tree = c.tree)
    (hsent : c'.sentBytes = c.sentBytes) (hscheduled : c'.scheduled = c.scheduled)
    (hlog : c'.log = c.log ++ [.delivered src dst bytes])
    (hup : ∀ child, c'.upRecvFromChild child =
      c.upRecvFromChild child + if flow = .up ∧ child = src then bytes else 0)
    (hdown : ∀ child, c'.downRecv child =
      c.downRecv child + if flow = .down ∧ child = dst then bytes else 0) : Books t c' := by
  have hsame : ∀ s d, edgeSent c'.log s d = edgeSent c.log s d := by
    intro s d
    rw [hlog, edgeSent_append]
    rfl
  have hdelivered : ∀ s d, edgeDelivered c'.log s d =
      edgeDelivered c.log s d + if src = s ∧ dst = d then bytes else 0 := by
    intro s d
    rw [hlog, edgeDelivered_append, edgeDelivered_delivered]
  have hpromised : ∀ s d, c'.promised s d = c.promised s d := by
    intro s d
    rw [promised, promised, hsame, hscheduled]
  refine ⟨htree.trans h.tree, ?_, ?_, ?_, ?_, ?_, ?_⟩
  · intro flow' s d hedge'
    rw [hpromised, hsent]
    exact h.sent flow' s d hedge'
  · intro s d hnone
    rw [hpromised]
    exact h.confined s d hnone
  · intro g child hchild
    rw [hup, hdelivered, h.upGot g child hchild]
    refine congrArg _ (if_congr ?_ rfl rfl)
    constructor
    · rintro ⟨rfl, rfl⟩
      exact ⟨rfl, hedge.2.2.symm.trans hchild.2.2⟩
    · rintro ⟨rfl, rfl⟩
      exact ⟨hedge.unique (show t.Edge .up _ _ from hchild), rfl⟩
  · intro g child hchild
    rw [hdown, hdelivered, h.downGot g child hchild]
    refine congrArg _ (if_congr ?_ rfl rfl)
    constructor
    · rintro ⟨rfl, rfl⟩
      exact ⟨hedge.2.2.symm.trans hchild.2.2, rfl⟩
    · rintro ⟨rfl, rfl⟩
      exact ⟨hedge.unique (show t.Edge .down _ _ from hchild), rfl⟩
  · intro s d
    rw [hsame, hdelivered]
    split
    · rename_i heq
      rw [← heq.1, ← heq.2]
      exact hfits
    · exact h.flown s d
  · intro flow' s d hedge'
    rw [hsent]
    refine (h.cap flow' s d hedge').trans ?_
    exact ready_mono ht h.tree (htree.trans h.tree) hedge'.lt.1
      (fun child => (hup child).symm ▸ Nat.le_add_right _ _)
      (fun child => (hdown child).symm ▸ Nat.le_add_right _ _) flow'

end Books

/-- Books in which no flow holds anything back that all data are ready for. -/
structure Settled (t : TreeAllReduce) (c : TreeRun) : Prop where
  books : Books t c
  released : ∀ flow, ∀ gpu < t.numGpus, Released t c flow gpu

/-- A flow of a rank has been released, and all else left alone. -/
structure Pumped (t : TreeAllReduce) (flow : TreeFlow) (gpu : Nat) (c c' : TreeRun) : Prop where
  books : Books t c'
  only : SendsOnly c c'
  released : Released t c' flow gpu
  others : ∀ flow' g, (flow', g) ≠ (flow, gpu) → Released t c flow' g → Released t c' flow' g

theorem pumped_pump (h : Books t c) (ht : t.Lawful) {targets : List Nat} (hnodup : targets.Nodup)
    (htargets : ∀ dst, dst ∈ targets ↔ t.Edge flow gpu dst) (hsome : targets ≠ []) (now : Nat) :
    Pumped t flow gpu c (c.pump now flow gpu targets (c.ready flow gpu)) := by
  obtain ⟨first, hfirst⟩ := List.exists_mem_of_ne_nil targets hsome
  have hedge := (htargets first).mp hfirst
  have hcap := h.cap flow gpu first hedge
  obtain ⟨hsends, hsent⟩ := sends_chunks hnodup now flow gpu
    (pieces c.tree.pipeChunkSize c.tree.dataSize (c.ready flow gpu) (c.sentBytes (flow, gpu))) c
  have hready := ready_congr hsends.tree hsends.upRecv hsends.downRecv
  refine ⟨h.sends htargets hsends hsent (sum_pieces_le hcap), hsends.toSendsOnly, ?_, ?_⟩
  · intro dst _ hall
    unfold pump at hall ⊢
    rw [hready] at hall
    rw [hsent, Function.update_self]
    have hchunk : 0 < c.tree.pipeChunkSize := h.tree ▸ ht.chunk
    have htotal : c.tree.dataSize ≤ c.ready flow gpu := h.tree ▸ hall
    rw [sum_pieces_eq hchunk htotal hcap]
    exact le_antisymm (ready_le ht h.tree hedge.lt.1 flow) hall
  · intro flow' g hne hold dst hedge' hall
    unfold pump at hall ⊢
    rw [hready] at hall
    rw [hsent, Function.update_of_ne hne]
    exact hold dst hedge' hall

theorem pumped_none (h : Books t c) (hnone : ∀ dst, ¬ t.Edge flow gpu dst) : Pumped t flow gpu c c :=
  ⟨h, SendsOnly.refl c, fun dst hedge => absurd hedge (hnone dst), fun _ _ _ hold => hold⟩

theorem pumped_pumpUp (h : Books t c) (ht : t.Lawful) (hgpu : gpu < t.numGpus) (now : Nat) :
    Pumped t .up gpu c (c.pumpUp now gpu) := by
  unfold pumpUp
  dsimp only
  by_cases hzero : gpu = 0
  · subst hzero
    rw [if_pos TreeAllReduce.Lawful.getParent_zero]
    exact pumped_none h fun dst hchild => hchild.2.1 rfl
  · rw [ht.getParent_of_ne hgpu hzero,
      if_neg (ht.ne_noRank ((heapParent_lt hzero).trans hgpu))]
    refine pumped_pump h ht (List.nodup_singleton _) ?_ (List.cons_ne_nil _ _) now
    intro dst
    rw [List.mem_singleton]
    exact ⟨fun heq => ⟨hgpu, hzero, heq.symm⟩, fun hchild => hchild.2.2.symm⟩

theorem pumped_pumpDown (h : Books t c) (ht : t.Lawful) (hgpu : gpu < t.numGpus) (now : Nat) :
    Pumped t .down gpu c (c.pumpDown now gpu) := by
  unfold pumpDown
  rw [h.tree]
  dsimp only
  by_cases hleft : t.getLeftChild gpu = TreeAllReduce.noRank
  · rw [if_pos ⟨hleft, ht.no_right hgpu hleft⟩]
    exact pumped_none h (ht.no_child hgpu hleft)
  · have hfirst := ht.childOf_left hgpu hleft
    rw [if_neg fun hnone => hleft hnone.1]
    by_cases hright : t.getRightChild gpu = TreeAllReduce.noRank
    · rw [if_neg (not_not.mpr hright)]
      refine pumped_pump h ht (List.nodup_singleton _) ?_ (List.cons_ne_nil _ _) now
      intro dst
      rw [List.mem_singleton]
      constructor
      · rintro rfl
        exact hfirst
      · intro hchild
        refine ((ht.childOf_iff hgpu hchild.1).mp hchild).resolve_right fun heq => ?_
        exact ht.ne_noRank hchild.1 (heq.trans hright)
    · have hsecond := ht.childOf_right hgpu hright
      rw [if_pos hright]
      refine pumped_pump h ht ?_ ?_ (List.cons_ne_nil _ _) now
      · exact List.nodup_cons.mpr ⟨fun hmem => ht.left_ne_right hgpu hright (List.mem_singleton.mp hmem),
          List.nodup_singleton _⟩
      · intro dst
        rw [List.mem_cons, List.mem_singleton]
        constructor
        · rintro (rfl | rfl)
          · exact hfirst
          · exact hsecond
        · intro hchild
          exact (ht.childOf_iff hgpu hchild.1).mp hchild

/-! ## Along the tree -/

/-- All data have gone over all edges, both ways. -/
def AllDelivered (t : TreeAllReduce) (log : List TreeObs) : Prop :=
  ∀ flow src dst, t.Edge flow src dst → edgeDelivered log src dst = t.dataSize

namespace Books

theorem upReady_of_root (h : Books t c) (ht : t.Lawful) (hroot : t.dataSize ≤ c.upReadyBytes 0) :
    ∀ gpu < t.numGpus, t.dataSize ≤ c.upReadyBytes gpu := by
  refine heap_down hroot ?_
  intro child hchild hne hparent
  have hedge : t.ChildOf (heapParent child) child := ⟨hchild, hne, rfl⟩
  exact (hparent.trans (upReadyBytes_le_child ht h.tree hedge)).trans (h.upRecv_le hedge)

theorem allDelivered (h : Books t c) (ht : t.Lawful)
    (hall : ∀ gpu < t.numGpus, t.dataSize ≤ c.downReadyBytes gpu) : AllDelivered t c.log := by
  have htwo := ht.two
  have hroot : t.dataSize ≤ c.upReadyBytes 0 := hall 0 (by omega)
  have hup := h.upReady_of_root ht hroot
  intro flow src dst hedge
  refine le_antisymm ((h.flown src dst).trans (h.edgeSent_le_dataSize ht hedge)) ?_
  cases flow with
  | up =>
      rw [← h.upGot dst src hedge]
      exact (hup dst hedge.lt.2).trans (upReadyBytes_le_child ht h.tree hedge)
  | down =>
      rw [← h.downGot src dst hedge]
      have hready := hall dst hedge.lt.2
      unfold downReadyBytes at hready
      rw [if_neg hedge.2.1] at hready
      exact hready.trans (min_le_left _ _)

end Books

theorem Settled.ready_of_quiet (h : Settled t c) (ht : t.Lawful) (hquiet : c.Quiet) :
    ∀ gpu < t.numGpus, t.dataSize ≤ c.downReadyBytes gpu := by
  have hflow : ∀ flow src dst, t.Edge flow src dst → t.dataSize ≤ c.ready flow src →
      edgeDelivered c.log src dst = t.dataSize := by
    intro flow src dst hedge hready
    have hsent := h.books.sent flow src dst hedge
    rw [h.released flow src hedge.lt.1 dst hedge hready, promised, hquiet.1, ← hquiet.2] at hsent
    exact hsent
  have hup : ∀ gpu < t.numGpus, t.dataSize ≤ c.upReadyBytes gpu := by
    refine heap_up ?_
    intro gpu hgpu hchildren
    rw [le_upReadyBytes_iff ht h.books.tree hgpu]
    refine ⟨le_rfl, ?_⟩
    intro child hchild
    rw [h.books.upGot gpu child hchild, hflow .up child gpu hchild]
    exact hchildren child hchild.1 hchild.2.1 hchild.2.2
  have htwo := ht.two
  refine heap_down (hup 0 (by omega)) ?_
  intro child hchild hne hparent
  have hedge : t.ChildOf (heapParent child) child := ⟨hchild, hne, rfl⟩
  unfold downReadyBytes
  rw [if_neg hne, h.books.tree, h.books.downGot _ child hedge,
    hflow .down _ child hedge hparent, min_self]

end TreeRun

end ProtoBridge.Collective
