import ProtoBridge.Lib.Cycle
import ProtoBridge.Lib.Descent

/-!
# The locality tree

`BuildLocalityTree` makes the middle of a range of the locality order the parent of the middles of both
halves. The tables of parents and children that it writes are a balanced tree whose walk in order is the
locality order.
-/

namespace ProtoBridge.Collective

open Lib
open Function (update update_of_ne update_self)

/-- The rank that stands for none. -/
def noRank : Nat := 0xFFFF

/-- The neighbors in the tree, by rank. -/
structure TreeTables where
  parent : Nat → Nat
  left : Nat → Nat
  right : Nat → Nat

/-- The tables before they are written. -/
def TreeTables.bare : TreeTables := ⟨fun _ => noRank, fun _ => noRank, fun _ => noRank⟩

/-- The children of a rank are written. -/
def TreeTables.setChildren (t : TreeTables) (rank left right : Nat) : TreeTables :=
  { t with left := update t.left rank left, right := update t.right rank right }

/-- `BuildLocalityTree`, with the tables that it writes. -/
def buildLocalityTree (sortedOrder : Nat → Nat) (lo hi parent : Nat) (t : TreeTables) : Nat × TreeTables :=
  if lo ≥ hi then (noRank, t)
  else
    let mid := lo + (hi - lo) / 2
    let root := sortedOrder mid
    let t := { t with parent := update t.parent root parent }
    let built := buildLocalityTree sortedOrder lo mid root t
    let built' := buildLocalityTree sortedOrder (mid + 1) hi root built.2
    (root, built'.2.setChildren root built.1 built'.1)
termination_by hi - lo

/-- The tables hold a balanced tree over a range of the order. -/
inductive Planted (order : Nat → Nat) (t : TreeTables) : Nat → Nat → Nat → Nat → Prop
  | empty {lo hi parent : Nat} (h : hi ≤ lo) : Planted order t lo hi parent noRank
  | node {lo hi parent mid : Nat} (h : lo < hi) (hmid : mid = lo + (hi - lo) / 2)
      (hparent : t.parent (order mid) = parent)
      (hleft : Planted order t lo mid (order mid) (t.left (order mid)))
      (hright : Planted order t (mid + 1) hi (order mid) (t.right (order mid))) :
      Planted order t lo hi parent (order mid)

/-- The children of a rank. -/
def TreeTables.Child (t : TreeTables) (p c : Nat) : Prop := c ≠ noRank ∧ (t.left p = c ∨ t.right p = c)

/-- The walk of the tree in order, down to a depth. -/
def TreeTables.inOrder (t : TreeTables) : Nat → Nat → List Nat
  | 0, _ => []
  | depth + 1, rank =>
      if rank = noRank then []
      else inOrder t depth (t.left rank) ++ rank :: inOrder t depth (t.right rank)

/-- The tables hold one tree of the ranks below `n`, which is balanced and has them in order. -/
structure BalancedTree (n : Nat) (sortedOrder : List Nat) (t : TreeTables) : Prop where
  root : ∃ root < n, t.parent root = noRank ∧ (∀ rank < n, t.parent rank = noRank → rank = root) ∧
    t.inOrder (Nat.log2 n + 1) root = sortedOrder ∧
    ∀ path : Nat → Nat, ∀ k, path 0 = root → Walk t.Child path k → k + 1 ≤ Nat.log2 n + 1
  parent : ∀ rank < n, t.parent rank ≠ noRank → t.parent rank < n ∧
    (t.left (t.parent rank) = rank ∧ t.right (t.parent rank) ≠ rank ∨
      t.right (t.parent rank) = rank ∧ t.left (t.parent rank) ≠ rank)
  child : ∀ rank < n, ∀ c, t.Child rank c → c < n ∧ t.parent c = rank

variable {order : Nat → Nat} {t t' : TreeTables} {lo hi parent root n i j c depth : Nat}

/-! ## What is written -/

/-- Two tables have the same entries for a rank. -/
def TreeTables.SameAt (t t' : TreeTables) (rank : Nat) : Prop :=
  t'.parent rank = t.parent rank ∧ t'.left rank = t.left rank ∧ t'.right rank = t.right rank

theorem TreeTables.SameAt.trans {t'' : TreeTables} {rank : Nat} (h : t.SameAt t' rank)
    (h' : t'.SameAt t'' rank) : t.SameAt t'' rank :=
  ⟨h'.1.trans h.1, h'.2.1.trans h.2.1, h'.2.2.trans h.2.2⟩

theorem Planted.congr (h : Planted order t lo hi parent root)
    (hsame : ∀ i, lo ≤ i → i < hi → t.SameAt t' (order i)) : Planted order t' lo hi parent root := by
  induction h with
  | empty h => exact .empty h
  | @node lo hi parent mid h hmid hparent _ _ ihleft ihright =>
      obtain ⟨hsparent, hsleft, hsright⟩ := hsame mid (by omega) (by omega)
      refine .node h hmid (hsparent.trans hparent) ?_ ?_
      · rw [hsleft]
        exact ihleft fun i hlo hhi => hsame i hlo (by omega)
      · rw [hsright]
        exact ihright fun i hlo hhi => hsame i (by omega) hhi

/-- The tree is planted, and nothing else is written. -/
theorem buildLocalityTree_spec (order : Nat → Nat) (lo hi parent : Nat) (t : TreeTables)
    (hinj : ∀ i, lo ≤ i → i < hi → ∀ j, lo ≤ j → j < hi → order i = order j → i = j) :
    Planted order (buildLocalityTree order lo hi parent t).2 lo hi parent
        (buildLocalityTree order lo hi parent t).1 ∧
      ∀ rank, (∀ i, lo ≤ i → i < hi → order i ≠ rank) →
        t.SameAt (buildLocalityTree order lo hi parent t).2 rank := by
  induction lo, hi, parent, t using buildLocalityTree.induct order with
  | case1 lo hi parent t hempty =>
      unfold buildLocalityTree
      rw [if_pos hempty]
      exact ⟨.empty hempty, fun _ _ => ⟨rfl, rfl, rfl⟩⟩
  | case2 lo hi parent t hsome mid root tables built ih _ ih' =>
      have hmid : lo ≤ mid ∧ mid < hi := by
        constructor <;> simp only [mid] <;> omega
      obtain ⟨hplanted, hframe⟩ := ih fun i hlo hhi j hlo' hhi' =>
        hinj i hlo (hhi.trans hmid.2) j hlo' (hhi'.trans hmid.2)
      obtain ⟨hplanted', hframe'⟩ := ih' fun i hlo hhi j hlo' hhi' =>
        hinj i (by omega) hhi j (by omega) hhi'
      rw [buildLocalityTree, if_neg hsome]
      dsimp only
      generalize buildLocalityTree order (mid + 1) hi root built.2 = built' at hplanted' hframe'
      show Planted order (built'.2.setChildren root built.1 built'.1) lo hi parent root ∧
        ∀ rank, (∀ i, lo ≤ i → i < hi → order i ≠ rank) →
          t.SameAt (built'.2.setChildren root built.1 built'.1) rank
      have hwritten : ∀ rank ≠ root, built'.2.SameAt (built'.2.setChildren root built.1 built'.1) rank := by
        intro rank hne
        exact ⟨rfl, update_of_ne hne _ _, update_of_ne hne _ _⟩
      have hapart : ∀ i, lo ≤ i → i < hi → i ≠ mid → order i ≠ root := by
        intro i hlo hhi hne heq
        exact hne (hinj i hlo hhi mid hmid.1 hmid.2 heq)
      refine ⟨@Planted.node order _ lo hi parent mid (not_le.mp hsome) rfl ?_ ?_ ?_, ?_⟩
      · -- both halves leave the entry of the root alone
        show built'.2.parent root = parent
        rw [(hframe' root fun i hlo hhi => hapart i (by omega) hhi (by omega)).1,
          (hframe root fun i hlo hhi => hapart i hlo (by omega) (by omega)).1]
        exact update_self _ _ _
      · show Planted order _ lo mid root (update built'.2.left root built.1 root)
        rw [update_self]
        refine hplanted.congr fun i hlo hhi => ?_
        have hother := hapart i hlo (by omega) (by omega)
        refine (hframe' (order i) fun j hlo' hhi' heq => ?_).trans (hwritten _ hother)
        have := hinj j (by omega) hhi' i hlo (by omega) heq
        omega
      · show Planted order _ (mid + 1) hi root (update built'.2.right root built'.1 root)
        rw [update_self]
        exact hplanted'.congr fun i hlo hhi => hwritten _ (hapart i (by omega) hhi (by omega))
      · intro rank houtside
        have hne : rank ≠ root := fun heq => houtside mid hmid.1 hmid.2 heq.symm
        have htables : t.SameAt tables rank := ⟨update_of_ne hne _ _, rfl, rfl⟩
        exact ((htables.trans (hframe rank fun i hlo hhi => houtside i hlo (by omega))).trans
          (hframe' rank fun i hlo hhi => houtside i (by omega) hhi)).trans (hwritten rank hne)

/-! ## The shape of the tree -/

theorem Planted.top (h : Planted order t lo hi parent root) (hrange : lo < hi) :
    root = order (lo + (hi - lo) / 2) ∧ t.parent root = parent := by
  cases h with
  | empty hempty => omega
  | node _ hmid hparent _ _ => exact ⟨by rw [hmid], hparent⟩

theorem Planted.nothing (h : Planted order t lo hi parent root) (hrange : hi ≤ lo) : root = noRank := by
  cases h with
  | empty _ => rfl
  | node hsome _ _ _ _ => omega

theorem Planted.children (h : Planted order t lo hi parent root) : ∀ j, lo ≤ j → j < hi →
    (t.left (order j) = noRank ∨
      ∃ i, lo ≤ i ∧ i < j ∧ t.left (order j) = order i ∧ t.parent (order i) = order j) ∧
    (t.right (order j) = noRank ∨
      ∃ i, j < i ∧ i < hi ∧ t.right (order j) = order i ∧ t.parent (order i) = order j) := by
  induction h with
  | empty h =>
      intro j hlo hhi
      omega
  | @node lo hi parent mid h hmid hparent hleft hright ihleft ihright =>
      intro j hlo hhi
      have hbounds : lo ≤ mid ∧ mid < hi := by omega
      rcases Nat.lt_trichotomy j mid with hbefore | rfl | hafter
      · obtain ⟨hl, hr⟩ := ihleft j hlo hbefore
        refine ⟨hl, hr.imp_right ?_⟩
        rintro ⟨i, hji, hi', hchild⟩
        exact ⟨i, hji, hi'.trans hbounds.2, hchild⟩
      · constructor
        · rcases Nat.lt_or_ge lo j with hsome | hnone
          · obtain ⟨htop, hp⟩ := hleft.top hsome
            rw [htop] at hp
            have hplace : lo + (j - lo) / 2 < j := by omega
            exact .inr ⟨_, Nat.le_add_right _ _, hplace, htop, hp⟩
          · exact .inl (hleft.nothing hnone)
        · rcases Nat.lt_or_ge (j + 1) hi with hsome | hnone
          · obtain ⟨htop, hp⟩ := hright.top hsome
            rw [htop] at hp
            have hplace : j < j + 1 + (hi - (j + 1)) / 2 ∧ j + 1 + (hi - (j + 1)) / 2 < hi := by omega
            exact .inr ⟨_, hplace.1, hplace.2, htop, hp⟩
          · exact .inl (hright.nothing hnone)
      · obtain ⟨hl, hr⟩ := ihright j hafter hhi
        refine ⟨hl.imp_right ?_, hr⟩
        rintro ⟨i, hlo', hij, hchild⟩
        exact ⟨i, by omega, hij, hchild⟩

theorem Planted.parent_of (h : Planted order t lo hi parent root) : ∀ i, lo ≤ i → i < hi → order i ≠ root →
    ∃ j, lo ≤ j ∧ j < hi ∧ t.parent (order i) = order j ∧
      (i < j ∧ t.left (order j) = order i ∨ j < i ∧ t.right (order j) = order i) := by
  induction h with
  | empty h =>
      intro i hlo hhi
      omega
  | @node lo hi parent mid h hmid hparent hleft hright ihleft ihright =>
      intro i hlo hhi hne
      have hbounds : lo ≤ mid ∧ mid < hi := by omega
      rcases Nat.lt_trichotomy i mid with hbefore | rfl | hafter
      · by_cases htop : order i = t.left (order mid)
        · have hp := (hleft.top (by omega)).2
          rw [← htop] at hp
          exact ⟨mid, hbounds.1, hbounds.2, hp, .inl ⟨hbefore, htop.symm⟩⟩
        · obtain ⟨j, hlo', hj, hp, hside⟩ := ihleft i hlo hbefore htop
          exact ⟨j, hlo', hj.trans hbounds.2, hp, hside⟩
      · exact absurd rfl hne
      · by_cases htop : order i = t.right (order mid)
        · have hp := (hright.top (by omega)).2
          rw [← htop] at hp
          exact ⟨mid, hbounds.1, hbounds.2, hp, .inr ⟨hafter, htop.symm⟩⟩
        · obtain ⟨j, hj, hhi', hp, hside⟩ := ihright i hafter hhi htop
          exact ⟨j, by omega, hhi', hp, hside⟩

theorem Planted.depth_le (h : Planted order t lo hi parent root) : ∀ depth, hi - lo < 2 ^ depth →
    root ≠ noRank → ∀ path : Nat → Nat, ∀ k, path 0 = root → Walk t.Child path k → k < depth := by
  induction h with
  | empty h =>
      intro depth _ hnone
      exact absurd rfl hnone
  | @node lo hi parent mid h hmid hparent hleft hright ihleft ihright =>
      intro depth hlength hroot path k hstart hwalk
      cases depth with
      | zero =>
          rw [Nat.pow_zero] at hlength
          omega
      | succ depth =>
          rw [Nat.pow_succ] at hlength
          cases k with
          | zero => exact Nat.succ_pos depth
          | succ k =>
              have hrest : Walk t.Child (fun i => path (i + 1)) k := fun i hi => hwalk (i + 1) (by omega)
              obtain ⟨hsome, hside⟩ := hwalk 0 (Nat.succ_pos k)
              rw [hstart] at hside
              have hk : k < depth := by
                rcases hside with hl | hr
                · exact ihleft depth (by omega) (hl ▸ hsome) _ k hl.symm hrest
                · exact ihright depth (by omega) (hr ▸ hsome) _ k hr.symm hrest
              omega

theorem Planted.inOrder_eq (h : Planted order t lo hi parent root) : ∀ depth, hi - lo < 2 ^ depth →
    (∀ i, lo ≤ i → i < hi → order i ≠ noRank) →
    t.inOrder depth root = (List.range' lo (hi - lo)).map order := by
  induction h with
  | empty h =>
      intro depth _ _
      rw [Nat.sub_eq_zero_of_le h]
      cases depth with
      | zero => rfl
      | succ depth => exact if_pos rfl
  | @node lo hi parent mid h hmid hparent hleft hright ihleft ihright =>
      intro depth hlength hranks
      have hbounds : lo ≤ mid ∧ mid < hi := by omega
      cases depth with
      | zero =>
          rw [Nat.pow_zero] at hlength
          omega
      | succ depth =>
          rw [Nat.pow_succ] at hlength
          rw [TreeTables.inOrder, if_neg (hranks mid hbounds.1 hbounds.2),
            ihleft depth (by omega) fun i hlo hhi => hranks i hlo (hhi.trans hbounds.2),
            ihright depth (by omega) fun i hlo hhi => hranks i (by omega) hhi, ← List.map_cons,
            ← List.map_append]
          congr 1
          rw [show hi - lo = (mid - lo) + (1 + (hi - (mid + 1))) by omega, ← List.range'_append_1,
            Nat.add_comm 1, List.range'_succ, Nat.add_sub_cancel' hbounds.1]

/-- The tree over the whole order. -/
theorem balancedTree (hpos : 0 < n) (hn : n ≤ 65535) (hlt : ∀ i < n, order i < n)
    (hinj : ∀ i < n, ∀ j < n, order i = order j → i = j) :
    BalancedTree n ((List.range n).map order) (buildLocalityTree order 0 n noRank TreeTables.bare).2 := by
  have hspec := buildLocalityTree_spec order 0 n noRank TreeTables.bare fun i _ hi j _ hj => hinj i hi j hj
  generalize buildLocalityTree order 0 n noRank TreeTables.bare = built at hspec ⊢
  obtain ⟨hplanted, -⟩ := hspec
  have hrank : ∀ i < n, order i ≠ noRank := by
    intro i hi
    have := hlt i hi
    unfold noRank
    omega
  have hall := exists_of_injective hlt hinj
  obtain ⟨htop, hnone⟩ := hplanted.top hpos
  have hmid : 0 + (n - 0) / 2 < n := by omega
  have hlength : n - 0 < 2 ^ (Nat.log2 n + 1) := Nat.lt_log2_self
  -- below the top there are parents
  have hparent : ∀ i < n, order i ≠ built.1 → ∃ j < n, built.2.parent (order i) = order j ∧
      (i < j ∧ built.2.left (order j) = order i ∨ j < i ∧ built.2.right (order j) = order i) := by
    intro i hi hne
    obtain ⟨j, -, hj, hfound⟩ := hplanted.parent_of i (Nat.zero_le i) hi hne
    exact ⟨j, hj, hfound⟩
  have hroot : built.1 < n := by
    rw [htop]
    exact hlt _ hmid
  refine ⟨⟨built.1, hroot, hnone, ?_, ?_, ?_⟩, ?_, ?_⟩
  · intro rank hlow hp
    obtain ⟨i, hi, rfl⟩ := hall rank hlow
    by_contra hne
    obtain ⟨j, hj, hfound, -⟩ := hparent i hi hne
    exact hrank j hj (hfound.symm.trans hp)
  · rw [hplanted.inOrder_eq _ hlength fun i _ hi => hrank i hi, Nat.sub_zero, List.range_eq_range']
  · intro path k hstart hwalk
    have hsome : built.1 ≠ noRank := by
      rw [htop]
      exact hrank _ hmid
    exact hplanted.depth_le _ hlength hsome path k hstart hwalk
  · intro rank hlow hp
    obtain ⟨i, hi, rfl⟩ := hall rank hlow
    have hne : order i ≠ built.1 := fun heq => hp (heq ▸ hnone)
    obtain ⟨j, hj, hfound, hside⟩ := hparent i hi hne
    obtain ⟨hl, hr⟩ := hplanted.children j (Nat.zero_le j) hj
    rw [hfound]
    refine ⟨hlt j hj, hside.imp ?_ ?_⟩
    · rintro ⟨hij, hleft⟩
      refine ⟨hleft, fun hright => ?_⟩
      rcases hr with hempty | ⟨i', hji', hi', hother, -⟩
      · exact hrank i hi (hright.symm.trans hempty)
      · have := hinj i hi i' hi' (hright.symm.trans hother)
        omega
    · rintro ⟨hji, hright⟩
      refine ⟨hright, fun hleft => ?_⟩
      rcases hl with hempty | ⟨i', -, hij', hother, -⟩
      · exact hrank i hi (hleft.symm.trans hempty)
      · have := hinj i hi i' (hij'.trans hj) (hleft.symm.trans hother)
        omega
  · rintro rank hlow c ⟨hsome, hside⟩
    obtain ⟨j, hj, rfl⟩ := hall rank hlow
    obtain ⟨hl, hr⟩ := hplanted.children j (Nat.zero_le j) hj
    rcases hside with rfl | rfl
    · rcases hl with hempty | ⟨i, -, hij, hchild, hp⟩
      · exact absurd hempty hsome
      · rw [hchild]
        exact ⟨hlt i (hij.trans hj), hp⟩
    · rcases hr with hempty | ⟨i, -, hi, hchild, hp⟩
      · exact absurd hempty hsome
      · rw [hchild]
        exact ⟨hlt i hi, hp⟩

end ProtoBridge.Collective
