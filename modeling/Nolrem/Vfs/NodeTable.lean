import Mathlib.Data.Prod.Lex
import Nolrem.Lib.Avl
import Nolrem.Vfs.Name

/-!
# The table of vnodes

The tree of `kernel/vfs/nodetable.c`. A vnode is its address, and `NULL` is 0. The links and the
height that lie in the vnodes of the tree are the tree itself, a value of `Lib.AvlTree`.
-/

namespace Nolrem.Vfs

open Nolrem.Lib

/-! ## The code -/

/-- `st_dev` and `st_ino` of `struct stat` -/
structure Stat where
  dev : Nat
  ino : Nat
deriving DecidableEq, Repr

/-- The cast to `int8_t` -/
def int8 (x : Int) : Int := (x + 128) % 256 - 128

/-- `CompareKey` -/
def compareKey (dev ino : Nat) (n : Stat) : Ordering :=
  if dev ≠ n.dev then if dev < n.dev then .lt else .gt
  else if ino ≠ n.ino then if ino < n.ino then .lt else .gt
  else .eq

/-- `BalanceFactor` -/
def balanceFactor : AvlTree Nat → Int
  | .nil => 0
  | .node l _ r _ => l.height - r.height

/-- A node with these links, after `UpdateHeight` -/
def updateHeight (l : AvlTree Nat) (n : Nat) (r : AvlTree Nat) : AvlTree Nat :=
  .node l n r (int8 ((if r.height < l.height then l.height else r.height) + 1))

/-- `RotateRight` -/
def rotateRight : AvlTree Nat → AvlTree Nat
  | .node (.node a x b _) y c _ => updateHeight a x (updateHeight b y c)
  | t => t

/-- `RotateLeft` -/
def rotateLeft : AvlTree Nat → AvlTree Nat
  | .node a x (.node b y c _) _ => updateHeight (updateHeight a x b) y c
  | t => t

/-- `Rebalance` on a node with these links -/
def rebalance (l : AvlTree Nat) (n : Nat) (r : AvlTree Nat) : AvlTree Nat :=
  let sub := updateHeight l n r
  if 1 < balanceFactor sub then
    rotateRight (.node (if balanceFactor l < 0 then rotateLeft l else l) n r sub.height)
  else if balanceFactor sub < -1 then
    rotateLeft (.node l n (if 0 < balanceFactor r then rotateRight r else r) sub.height)
  else sub

section Code

variable (stat : Nat → Stat)

/-- `CompareNodes` -/
def compareNodes (a b : Nat) : Ordering := compareKey (stat a).dev (stat a).ino (stat b)

/-- `InsertNode`, and `duplicate` -/
def insertNode (node : Nat) : AvlTree Nat → AvlTree Nat × Bool
  | .nil => (.node .nil node .nil 1, false)
  | .node l sub r h =>
    match compareNodes stat node sub with
    | .eq => (.node l sub r h, true)
    | .lt =>
      let (l', duplicate) := insertNode node l
      (if duplicate then .node l' sub r h else rebalance l' sub r, duplicate)
    | .gt =>
      let (r', duplicate) := insertNode node r
      (if duplicate then .node l sub r' h else rebalance l sub r', duplicate)

/-- `DetachMin`; nothing without a node. -/
def detachMin : AvlTree Nat → Option (Nat × AvlTree Nat)
  | .nil => none
  | .node l sub r _ =>
    match detachMin l with
    | none => some (sub, r)
    | some (least, l') => some (least, rebalance l' sub r)

/-- The end of `RemoveNode`: what comes in place of a node with these links. -/
def replacement (l r : AvlTree Nat) : AvlTree Nat :=
  if l = .nil then r
  else
    match detachMin r with
    | none => l
    | some (successor, newRight) => rebalance l successor newRight

/-- `RemoveNode`, and `found` -/
def removeNode (node : Nat) : AvlTree Nat → AvlTree Nat × Bool
  | .nil => (.nil, false)
  | .node l sub r h =>
    match compareNodes stat node sub with
    | .lt =>
      let (l', found) := removeNode node l
      (rebalance l' sub r, found)
    | .gt =>
      let (r', found) := removeNode node r
      (rebalance l sub r', found)
    | .eq => if sub ≠ node then (.node l sub r h, false) else (replacement l r, true)

/-- `FindNode` -/
def findNode (dev ino : Nat) : AvlTree Nat → Option Nat
  | .nil => none
  | .node l n r _ =>
    match compareKey dev ino (stat n) with
    | .eq => some n
    | .lt => findNode dev ino l
    | .gt => findNode dev ino r

end Code

/-- `node->tree = { NULL, NULL, 1 }` when the node is part of the tree -/
def resetLinks (node : Nat) : AvlTree Nat → AvlTree Nat
  | .nil => .nil
  | .node l n r h =>
    if n = node then .node .nil n .nil 1 else .node (resetLinks node l) n (resetLinks node r) h

/-- The table, with the fields of all vnodes that matter to it; `refs` counts references. -/
structure Table where
  root : AvlTree Nat
  stat : Nat → Stat
  refs : Nat → Nat

/-- `TryFindAndReferenceExistingVnode` -/
def tryFindAndReferenceExistingVnode (t : Table) (ino dev : Nat) : Table × Option Nat :=
  match findNode t.stat dev ino t.root with
  | none => (t, none)
  | some node => ({ t with refs := refObject t.refs node }, some node)

/-- `RegisterNewVnode` -/
def registerNewVnode (t : Table) (node : Nat) : Table × Nat :=
  if node = 0 then (t, einval)
  else
    let (root, duplicate) := insertNode t.stat node (resetLinks node t.root)
    if duplicate then ({ t with root }, eexist)
    else ({ t with root, refs := refObject t.refs node }, 0)

/-- `UnregisterVnode` -/
def unregisterVnode (t : Table) (node : Nat) : Table :=
  if node = 0 then t
  else
    let (root, found) := removeNode t.stat node t.root
    if found then { t with root, refs := derefObject t.refs node } else { t with root }

/-! ## Keys -/

/-- The key of a vnode, `st_dev` before `st_ino` -/
def nodeKey (stat : Nat → Stat) (n : Nat) : Nat ×ₗ Nat := toLex ((stat n).dev, (stat n).ino)

theorem compareKey_eq (dev ino : Nat) (n : Stat) :
    (compareKey dev ino n = .lt ↔ toLex (dev, ino) < toLex (n.dev, n.ino)) ∧
      (compareKey dev ino n = .gt ↔ toLex (n.dev, n.ino) < toLex (dev, ino)) ∧
      (compareKey dev ino n = .eq ↔ toLex (dev, ino) = toLex (n.dev, n.ino)) := by
  simp only [Prod.Lex.toLex_lt_toLex, EmbeddingLike.apply_eq_iff_eq, Prod.mk.injEq]
  unfold compareKey
  split
  · split
    · simp
      omega
    · simp
      omega
  · split
    · split
      · simp
        omega
      · simp
        omega
    · simp
      omega

theorem compareNodes_lt {stat : Nat → Stat} {a b : Nat} :
    compareNodes stat a b = .lt ↔ nodeKey stat a < nodeKey stat b := (compareKey_eq ..).1

theorem compareNodes_gt {stat : Nat → Stat} {a b : Nat} :
    compareNodes stat a b = .gt ↔ nodeKey stat b < nodeKey stat a := (compareKey_eq ..).2.1

theorem compareNodes_eq {stat : Nat → Stat} {a b : Nat} :
    compareNodes stat a b = .eq ↔ nodeKey stat a = nodeKey stat b := (compareKey_eq ..).2.2

/-! ## Balance -/

theorem int8_eq {x : Int} (h1 : -128 ≤ x) (h2 : x ≤ 127) : int8 x = x := by
  unfold int8
  omega

section Balance

variable {l r : AvlTree Nat} {n : Nat}

@[simp] theorem toList_updateHeight (l : AvlTree Nat) (n : Nat) (r : AvlTree Nat) :
    (updateHeight l n r).toList = l.toList ++ n :: r.toList := rfl

@[simp] theorem depth_updateHeight (l : AvlTree Nat) (n : Nat) (r : AvlTree Nat) :
    (updateHeight l n r).depth = max l.depth r.depth + 1 := rfl

@[simp] theorem toList_rotateRight (t : AvlTree Nat) : (rotateRight t).toList = t.toList := by
  unfold rotateRight
  split <;> simp

@[simp] theorem toList_rotateLeft (t : AvlTree Nat) : (rotateLeft t).toList = t.toList := by
  unfold rotateLeft
  split <;> simp

/-- Balancing moves no vnode. -/
@[simp] theorem toList_rebalance (l : AvlTree Nat) (n : Nat) (r : AvlTree Nat) :
    (rebalance l n r).toList = l.toList ++ n :: r.toList := by
  unfold rebalance
  simp only
  split
  · rw [toList_rotateRight, AvlTree.toList_node]
    split <;> simp
  · split
    · rw [toList_rotateLeft, AvlTree.toList_node]
      split <;> simp
    · rfl

/-- Over two balanced sides that fit, `UpdateHeight` gives a balanced tree. -/
theorem avl_updateHeight (hl : l.Avl) (hr : r.Avl) (h1 : l.depth ≤ r.depth + 1)
    (h2 : r.depth ≤ l.depth + 1) (hdepth : l.depth ≤ 120) : (updateHeight l n r).Avl := by
  refine ⟨hl, hr, ?_, h1, h2⟩
  rw [hl.height_eq, hr.height_eq, int8_eq (by split <;> omega) (by split <;> omega)]
  split <;> omega

theorem balanceFactor_eq {t : AvlTree Nat} {l r : AvlTree Nat} {n : Nat} {h : Int}
    (ht : t = .node l n r h) (hl : l.Avl) (hr : r.Avl) :
    balanceFactor t = (l.depth : Int) - r.depth := by
  subst ht
  show l.height - r.height = _
  rw [hl.height_eq, hr.height_eq]

/-- A tree that leans to the left is turned to the right. -/
theorem avl_rotate_right (hl : l.Avl) (hr : r.Avl) (hlean : l.depth = r.depth + 2)
    (hdepth : l.depth ≤ 110) (h : Int) :
    (rotateRight (.node (if balanceFactor l < 0 then rotateLeft l else l) n r h)).Avl ∧
      l.depth ≤ (rotateRight (.node (if balanceFactor l < 0 then rotateLeft l else l) n r h)).depth
      ∧ (rotateRight (.node (if balanceFactor l < 0 then rotateLeft l else l) n r h)).depth
        ≤ l.depth + 1 := by
  cases l with
  | nil => simp at hlean
  | node a x b hx =>
    obtain ⟨ha, hb, -, hab, hba⟩ := hl
    rw [AvlTree.depth_node] at hlean hdepth ⊢
    rw [balanceFactor_eq rfl ha hb]
    by_cases hright : (a.depth : Int) - b.depth < 0
    · -- the inner grandchild is the higher one, so it becomes the root
      rw [if_pos hright]
      cases b with
      | nil => rw [AvlTree.depth_nil] at hright; omega
      | node c y d hy =>
        obtain ⟨hc, hd, -, hcd, hdc⟩ := hb
        rw [AvlTree.depth_node] at hab hba hright hlean hdepth ⊢
        have hax : (updateHeight a x c).Avl := avl_updateHeight ha hc (by omega) (by omega) (by omega)
        have hdr : (updateHeight d n r).Avl := avl_updateHeight hd hr (by omega) (by omega) (by omega)
        have hroot : (updateHeight (updateHeight a x c) y (updateHeight d n r)).Avl := by
          refine avl_updateHeight hax hdr ?_ ?_ ?_ <;>
            simp only [depth_updateHeight] <;> omega
        refine ⟨hroot, ?_, ?_⟩ <;>
          show _ ≤ _ <;>
          simp only [rotateLeft, rotateRight, updateHeight, AvlTree.depth_node] <;> omega
    · rw [if_neg hright]
      have hbr : (updateHeight b n r).Avl := avl_updateHeight hb hr (by omega) (by omega) (by omega)
      have hroot : (updateHeight a x (updateHeight b n r)).Avl := by
        refine avl_updateHeight ha hbr ?_ ?_ (by omega) <;>
          simp only [depth_updateHeight] <;> omega
      refine ⟨hroot, ?_, ?_⟩ <;>
        simp only [rotateRight, updateHeight, AvlTree.depth_node] <;> omega

/-- A tree that leans to the right is turned to the left. -/
theorem avl_rotate_left (hl : l.Avl) (hr : r.Avl) (hlean : r.depth = l.depth + 2)
    (hdepth : r.depth ≤ 110) (h : Int) :
    (rotateLeft (.node l n (if 0 < balanceFactor r then rotateRight r else r) h)).Avl ∧
      r.depth ≤ (rotateLeft (.node l n (if 0 < balanceFactor r then rotateRight r else r) h)).depth
      ∧ (rotateLeft (.node l n (if 0 < balanceFactor r then rotateRight r else r) h)).depth
        ≤ r.depth + 1 := by
  cases r with
  | nil => simp at hlean
  | node a x b hx =>
    obtain ⟨ha, hb, -, hab, hba⟩ := hr
    rw [AvlTree.depth_node] at hlean hdepth ⊢
    rw [balanceFactor_eq rfl ha hb]
    by_cases hleft : 0 < (a.depth : Int) - b.depth
    · rw [if_pos hleft]
      cases a with
      | nil => rw [AvlTree.depth_nil] at hleft; omega
      | node c y d hy =>
        obtain ⟨hc, hd, -, hcd, hdc⟩ := ha
        rw [AvlTree.depth_node] at hab hba hleft hlean hdepth ⊢
        have hlc : (updateHeight l n c).Avl := avl_updateHeight hl hc (by omega) (by omega) (by omega)
        have hdb : (updateHeight d x b).Avl := avl_updateHeight hd hb (by omega) (by omega) (by omega)
        have hroot : (updateHeight (updateHeight l n c) y (updateHeight d x b)).Avl := by
          refine avl_updateHeight hlc hdb ?_ ?_ ?_ <;>
            simp only [depth_updateHeight] <;> omega
        refine ⟨hroot, ?_, ?_⟩ <;>
          simp only [rotateLeft, rotateRight, updateHeight, AvlTree.depth_node] <;> omega
    · rw [if_neg hleft]
      have hla : (updateHeight l n a).Avl := avl_updateHeight hl ha (by omega) (by omega) (by omega)
      have hroot : (updateHeight (updateHeight l n a) x b).Avl := by
        refine avl_updateHeight hla hb ?_ ?_ ?_ <;> simp only [depth_updateHeight] <;> omega
      refine ⟨hroot, ?_, ?_⟩ <;>
        simp only [rotateLeft, updateHeight, AvlTree.depth_node] <;> omega

/-- What `Rebalance` needs and what it gives. -/
theorem rebalance_spec (hl : l.Avl) (hr : r.Avl) (h1 : l.depth ≤ r.depth + 2)
    (h2 : r.depth ≤ l.depth + 2) (hdepth : l.depth ≤ 100) :
    (rebalance l n r).Avl ∧ max l.depth r.depth ≤ (rebalance l n r).depth ∧
      (rebalance l n r).depth ≤ max l.depth r.depth + 1 ∧
      (l.depth ≤ r.depth + 1 → r.depth ≤ l.depth + 1 →
        (rebalance l n r).depth = max l.depth r.depth + 1) := by
  have hbalance : balanceFactor (updateHeight l n r) = (l.depth : Int) - r.depth :=
    balanceFactor_eq rfl hl hr
  unfold rebalance
  simp only [hbalance]
  by_cases hleft : 1 < (l.depth : Int) - r.depth
  · rw [if_pos hleft]
    obtain ⟨havl, hge, hle⟩ := avl_rotate_right (n := n) hl hr (by omega) (by omega)
      (updateHeight l n r).height
    exact ⟨havl, by omega, by omega, by omega⟩
  · rw [if_neg hleft]
    by_cases hright : (l.depth : Int) - r.depth < -1
    · rw [if_pos hright]
      obtain ⟨havl, hge, hle⟩ := avl_rotate_left (n := n) hl hr (by omega) (by omega)
        (updateHeight l n r).height
      exact ⟨havl, by omega, by omega, by omega⟩
    · rw [if_neg hright]
      rw [depth_updateHeight]
      exact ⟨avl_updateHeight hl hr (by omega) (by omega) (by omega), by omega, by omega,
        fun _ _ => rfl⟩

end Balance

/-! ## What the operations do to the tree -/

/-- What a change of a side does to the height: one more at most, or one less at most. -/
structure Grown (t t' : AvlTree Nat) : Prop where
  avl : t'.Avl
  ge : t.depth ≤ t'.depth
  le : t'.depth ≤ t.depth + 1

structure Shrunk (t t' : AvlTree Nat) : Prop where
  avl : t'.Avl
  ge : t.depth ≤ t'.depth + 1
  le : t'.depth ≤ t.depth

section Operations

variable {stat : Nat → Stat} {l r t : AvlTree Nat} {n node : Nat} {h : Int}

theorem Grown.left {l' : AvlTree Nat} (hg : Grown l l') (ht : (AvlTree.node l n r h).Avl)
    (hdepth : (AvlTree.node l n r h).depth ≤ 90) :
    Grown (.node l n r h) (rebalance l' n r) := by
  obtain ⟨-, hr, -, h1, h2⟩ := ht
  have hge := hg.ge
  have hle := hg.le
  rw [AvlTree.depth_node] at hdepth
  obtain ⟨havl, hmin, hmax, hsame⟩ := rebalance_spec (n := n) hg.avl hr (by omega) (by omega)
    (by omega)
  refine ⟨havl, ?_, ?_⟩ <;> rw [AvlTree.depth_node] <;> omega

theorem Grown.right {r' : AvlTree Nat} (hg : Grown r r') (ht : (AvlTree.node l n r h).Avl)
    (hdepth : (AvlTree.node l n r h).depth ≤ 90) :
    Grown (.node l n r h) (rebalance l n r') := by
  obtain ⟨hl, -, -, h1, h2⟩ := ht
  have hge := hg.ge
  have hle := hg.le
  rw [AvlTree.depth_node] at hdepth
  obtain ⟨havl, hmin, hmax, hsame⟩ := rebalance_spec (n := n) hl hg.avl (by omega) (by omega)
    (by omega)
  refine ⟨havl, ?_, ?_⟩ <;> rw [AvlTree.depth_node] <;> omega

theorem Shrunk.left {l' : AvlTree Nat} (hs : Shrunk l l') (ht : (AvlTree.node l n r h).Avl)
    (hdepth : (AvlTree.node l n r h).depth ≤ 90) :
    Shrunk (.node l n r h) (rebalance l' n r) := by
  obtain ⟨-, hr, -, h1, h2⟩ := ht
  have hge := hs.ge
  have hle := hs.le
  rw [AvlTree.depth_node] at hdepth
  obtain ⟨havl, hmin, hmax, hsame⟩ := rebalance_spec (n := n) hs.avl hr (by omega) (by omega)
    (by omega)
  refine ⟨havl, ?_, ?_⟩ <;> rw [AvlTree.depth_node] <;> omega

theorem Shrunk.right {r' : AvlTree Nat} (hs : Shrunk r r') (ht : (AvlTree.node l n r h).Avl)
    (hdepth : (AvlTree.node l n r h).depth ≤ 90) :
    Shrunk (.node l n r h) (rebalance l n r') := by
  obtain ⟨hl, -, -, h1, h2⟩ := ht
  have hge := hs.ge
  have hle := hs.le
  rw [AvlTree.depth_node] at hdepth
  obtain ⟨havl, hmin, hmax, hsame⟩ := rebalance_spec (n := n) hl hs.avl (by omega) (by omega)
    (by omega)
  refine ⟨havl, ?_, ?_⟩ <;> rw [AvlTree.depth_node] <;> omega

/-- `InsertNode` does nothing to a tree that has the key. -/
theorem insertNode_of_key {node u : Nat} (hord : t.Ordered (nodeKey stat)) (hu : u ∈ t.toList)
    (heq : nodeKey stat u = nodeKey stat node) : insertNode stat node t = (t, true) := by
  induction t with
  | nil => simp at hu
  | node l sub r h ihl ihr =>
    obtain ⟨hol, hor, hlt, hgt⟩ := AvlTree.ordered_node.mp hord
    rw [AvlTree.toList_node, List.mem_append, List.mem_cons] at hu
    unfold insertNode
    cases hc : compareNodes stat node sub with
    | eq => rfl
    | lt =>
      have hkey := compareNodes_lt.mp hc
      -- the vnode with this key is on the left
      rcases hu with hu | rfl | hu
      · simp [ihl hol hu]
      · exact absurd heq (ne_of_gt hkey)
      · exact absurd heq (ne_of_gt (lt_trans hkey (hgt u hu)))
    | gt =>
      have hkey := compareNodes_gt.mp hc
      rcases hu with hu | rfl | hu
      · exact absurd heq (ne_of_lt (lt_trans (hlt u hu) hkey))
      · exact absurd heq (ne_of_lt hkey)
      · simp [ihr hor hu]

/-- Else it adds the vnode. -/
theorem insertNode_spec (node : Nat) (havl : t.Avl) (hord : t.Ordered (nodeKey stat))
    (hdepth : t.depth ≤ 90) (hnone : ∀ u ∈ t.toList, nodeKey stat u ≠ nodeKey stat node) :
    (insertNode stat node t).2 = false ∧ Grown t (insertNode stat node t).1 ∧
      (insertNode stat node t).1.Ordered (nodeKey stat) ∧
      ∀ u, u ∈ (insertNode stat node t).1.toList ↔ u = node ∨ u ∈ t.toList := by
  induction t with
  | nil =>
    refine ⟨rfl, ?_, ?_, fun u => ?_⟩
    · exact ⟨⟨trivial, trivial, rfl, by simp, by simp⟩, by simp, by simp [insertNode]⟩
    · simp [insertNode, AvlTree.Ordered]
    · simp [insertNode]
  | node l sub r h ihl ihr =>
    obtain ⟨hol, hor, hlt, hgt⟩ := AvlTree.ordered_node.mp hord
    have havl' := havl
    obtain ⟨hl, hr, -⟩ := havl'
    have hdepth' := hdepth
    rw [AvlTree.depth_node] at hdepth'
    unfold insertNode
    cases hc : compareNodes stat node sub with
    | eq => exact absurd (compareNodes_eq.mp hc).symm (hnone sub (by simp))
    | lt =>
      have hkey := compareNodes_lt.mp hc
      obtain ⟨hflag, hgrown, hord', hmem⟩ :=
        ihl hl hol (by omega) fun u hu => hnone u (by simp [hu])
      simp only [hflag, Bool.false_eq_true, if_false, true_and]
      refine ⟨hgrown.left havl hdepth, ?_, fun u => ?_⟩
      · unfold AvlTree.Ordered
        rw [toList_rebalance, ← AvlTree.toList_node (h := 0)]
        refine AvlTree.ordered_node.mpr ⟨hord', hor, fun a ha => ?_, hgt⟩
        rcases (hmem a).mp ha with rfl | ha
        · exact hkey
        · exact hlt a ha
      · simp [hmem u, or_assoc]
    | gt =>
      have hkey := compareNodes_gt.mp hc
      obtain ⟨hflag, hgrown, hord', hmem⟩ :=
        ihr hr hor (by omega) fun u hu => hnone u (by simp [hu])
      simp only [hflag, Bool.false_eq_true, if_false, true_and]
      refine ⟨hgrown.right havl hdepth, ?_, fun u => ?_⟩
      · unfold AvlTree.Ordered
        rw [toList_rebalance, ← AvlTree.toList_node (h := 0)]
        refine AvlTree.ordered_node.mpr ⟨hol, hord', hlt, fun b hb => ?_⟩
        rcases (hmem b).mp hb with rfl | hb
        · exact hkey
        · exact hgt b hb
      · simp [hmem u, or_left_comm]

/-- `DetachMin` takes the first vnode. -/
theorem detachMin_spec (havl : t.Avl) (hdepth : t.depth ≤ 90) :
    (detachMin t = none ↔ t = .nil) ∧ ∀ least t', detachMin t = some (least, t') →
      t.toList = least :: t'.toList ∧ Shrunk t t' := by
  induction t with
  | nil => exact ⟨by simp [detachMin], nofun⟩
  | node l sub r h ihl ihr =>
    have havl' := havl
    obtain ⟨hl, hr, -, h1, h2⟩ := havl'
    have hdepth' := hdepth
    rw [AvlTree.depth_node] at hdepth'
    obtain ⟨hnone, hsome⟩ := ihl hl (by omega)
    unfold detachMin
    cases hd : detachMin l with
    | none =>
      obtain rfl := hnone.mp hd
      refine ⟨by simp, fun least t' heq => ?_⟩
      cases heq
      refine ⟨rfl, hr, ?_, ?_⟩ <;> rw [AvlTree.depth_node, AvlTree.depth_nil] <;>
        rw [AvlTree.depth_nil] at h2 <;> omega
    | some found =>
      obtain ⟨least, l'⟩ := found
      obtain ⟨hlist, hshrunk⟩ := hsome least l' hd
      refine ⟨by simp, fun least' t' heq => ?_⟩
      cases heq
      exact ⟨by simp [hlist], hshrunk.left havl hdepth⟩

/-- A removed node leaves the vnodes of its sides behind. -/
theorem replacement_spec (havl : (AvlTree.node l n r h).Avl)
    (hdepth : (AvlTree.node l n r h).depth ≤ 90) :
    (replacement l r).toList = l.toList ++ r.toList ∧
      Shrunk (.node l n r h) (replacement l r) := by
  have havl' := havl
  obtain ⟨hl, hr, -, h1, h2⟩ := havl'
  have hdepth' := hdepth
  rw [AvlTree.depth_node] at hdepth'
  obtain ⟨hnone, hsome⟩ := detachMin_spec hr (by omega)
  unfold replacement
  split
  · next hnil =>
    subst hnil
    rw [AvlTree.depth_nil] at h2
    refine ⟨rfl, hr, ?_, ?_⟩ <;> rw [AvlTree.depth_node, AvlTree.depth_nil] <;> omega
  · cases hd : detachMin r with
    | none =>
      obtain rfl := hnone.mp hd
      rw [AvlTree.depth_nil] at h1
      refine ⟨by simp, hl, ?_, ?_⟩ <;> simp only [AvlTree.depth_node, AvlTree.depth_nil] <;> omega
    | some found =>
      obtain ⟨successor, newRight⟩ := found
      obtain ⟨hlist, hshrunk⟩ := hsome successor newRight hd
      have hge := hshrunk.ge
      have hle := hshrunk.le
      obtain ⟨hbal, hmin, hmax, hsame⟩ := rebalance_spec (n := successor) hl hshrunk.avl
        (by omega) (by omega) (by omega)
      refine ⟨by simp [hlist], hbal, ?_, ?_⟩ <;> rw [AvlTree.depth_node] <;> simp only <;> omega

/-- What `RemoveNode` does: it takes out the vnode if that is in the tree, and nothing else. -/
theorem removeNode_spec (node : Nat) (havl : t.Avl) (hord : t.Ordered (nodeKey stat))
    (hdepth : t.depth ≤ 90) :
    Shrunk t (removeNode stat node t).1 ∧
      (removeNode stat node t).1.toList = t.toList.filter (· ≠ node) ∧
      ((removeNode stat node t).2 = true ↔ node ∈ t.toList) := by
  induction t with
  | nil => exact ⟨⟨trivial, by simp [removeNode], by simp [removeNode]⟩, rfl, by simp [removeNode]⟩
  | node l sub r h ihl ihr =>
    obtain ⟨hol, hor, hlt, hgt⟩ := AvlTree.ordered_node.mp hord
    have havl' := havl
    obtain ⟨hl, hr, -⟩ := havl'
    have hdepth' := hdepth
    rw [AvlTree.depth_node] at hdepth'
    obtain ⟨hshl, hlistl, hfl⟩ := ihl hl hol (by omega)
    obtain ⟨hshr, hlistr, hfr⟩ := ihr hr hor (by omega)
    have hkeep : ∀ xs : List Nat, node ∉ xs → xs.filter (· ≠ node) = xs := by
      intro xs hxs
      refine List.filter_eq_self.mpr fun x hx => ?_
      simp only [ne_eq, decide_not, Bool.not_eq_true', decide_eq_false_iff_not]
      rintro rfl
      exact hxs hx
    unfold removeNode
    cases hc : compareNodes stat node sub with
    | lt =>
      have hkey := compareNodes_lt.mp hc
      have hnr : node ∉ r.toList := fun hin => lt_asymm hkey (hgt node hin)
      have hne : sub ≠ node := fun heq => lt_irrefl _ (heq ▸ hkey)
      refine ⟨hshl.left havl hdepth, ?_, ?_⟩
      · rw [toList_rebalance, hlistl, AvlTree.toList_node, List.filter_append, List.filter_cons,
          if_pos (by simpa using hne), hkeep _ hnr]
      · simp [hfl, hnr, hne.symm]
    | gt =>
      have hkey := compareNodes_gt.mp hc
      have hnl : node ∉ l.toList := fun hin => lt_asymm hkey (hlt node hin)
      have hne : sub ≠ node := fun heq => lt_irrefl _ (heq ▸ hkey)
      refine ⟨hshr.right havl hdepth, ?_, ?_⟩
      · rw [toList_rebalance, hlistr, AvlTree.toList_node, List.filter_append, List.filter_cons,
          if_pos (by simpa using hne), hkeep _ hnl]
      · simp [hfr, hnl, hne.symm]
    | eq =>
      have hkey := compareNodes_eq.mp hc
      have hnl : node ∉ l.toList := fun hin => absurd hkey (ne_of_lt (hlt node hin))
      have hnr : node ∉ r.toList := fun hin => absurd hkey (ne_of_gt (hgt node hin))
      by_cases hne : sub ≠ node
      · simp only [if_pos hne]
        refine ⟨⟨havl, Nat.le_succ _, Nat.le_refl _⟩, ?_, ?_⟩
        · exact (hkeep _ (by simp [hnl, hnr, hne.symm])).symm
        · simp [hnl, hnr, hne.symm]
      · simp only [if_neg hne]
        obtain rfl : sub = node := Classical.not_not.mp hne
        obtain ⟨hlist, hshrunk⟩ := replacement_spec havl hdepth
        refine ⟨hshrunk, ?_, by simp⟩
        rw [hlist, AvlTree.toList_node, List.filter_append, List.filter_cons, if_neg (by simp),
          hkeep _ hnl, hkeep _ hnr]

/-- `FindNode` finds the vnode with the key. -/
theorem findNode_eq_some (hord : t.Ordered (nodeKey stat)) (dev ino n : Nat) :
    findNode stat dev ino t = some n ↔ n ∈ t.toList ∧ stat n = ⟨dev, ino⟩ := by
  induction t with
  | nil => simp [findNode]
  | node l sub r h ihl ihr =>
    obtain ⟨hol, hor, hlt, hgt⟩ := AvlTree.ordered_node.mp hord
    have hstat : stat n = ⟨dev, ino⟩ ↔ nodeKey stat n = toLex (dev, ino) := by
      unfold nodeKey
      rw [EmbeddingLike.apply_eq_iff_eq, Prod.mk.injEq]
      cases stat n
      simp
    rw [hstat] at ihl ihr ⊢
    obtain ⟨hclt, hcgt, hceq⟩ := compareKey_eq dev ino (stat sub)
    unfold findNode
    cases hc : compareKey dev ino (stat sub) with
    | eq =>
      have hkey : nodeKey stat sub = toLex (dev, ino) := (hceq.mp hc).symm
      constructor
      · rintro heq
        cases heq
        exact ⟨by simp, hkey⟩
      · rintro ⟨hn, heq⟩
        exact congrArg some (hord.eq_of_key_eq (by simp) hn (hkey.trans heq.symm))
    | lt =>
      have hkey : toLex (dev, ino) < nodeKey stat sub := hclt.mp hc
      simp only
      rw [ihl hol]
      constructor
      · exact fun ⟨hn, heq⟩ => ⟨by simp [hn], heq⟩
      · rintro ⟨hn, heq⟩
        rw [← heq] at hkey
        rcases List.mem_append.mp hn with hn | hn
        · exact ⟨hn, heq⟩
        · rcases List.mem_cons.mp hn with rfl | hn
          · exact absurd hkey (lt_irrefl _)
          · exact absurd (hgt n hn) (lt_asymm hkey)
    | gt =>
      have hkey : nodeKey stat sub < toLex (dev, ino) := hcgt.mp hc
      simp only
      rw [ihr hor]
      constructor
      · exact fun ⟨hn, heq⟩ => ⟨by simp [hn], heq⟩
      · rintro ⟨hn, heq⟩
        rw [← heq] at hkey
        rcases List.mem_append.mp hn with hn | hn
        · exact absurd (hlt n hn) (lt_asymm hkey)
        · rcases List.mem_cons.mp hn with rfl | hn
          · exact absurd hkey (lt_irrefl _)
          · exact ⟨hn, heq⟩

end Operations

end Nolrem.Vfs
