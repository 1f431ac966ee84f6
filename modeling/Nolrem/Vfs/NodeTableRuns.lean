import Mathlib.Data.Finset.Basic
import Mathlib.Data.List.Perm.Subperm
import Nolrem.Word
import Nolrem.Lib.Transition
import Nolrem.Vfs.Purge

/-!
# Runs of the table of vnodes

Calls on the table in any order, while everybody takes and drops references to vnodes. `held`
counts the references of everybody but the table.
-/

namespace Nolrem.Vfs

open Nolrem.Lib

/-- `PURGE_BATCH` -/
def purgeBatch : Nat := 16

structure TableState where
  table : Table
  /-- Registered with result 0, and not unregistered or purged since -/
  members : Finset Nat
  held : Nat → Nat

/-- The vnode is in the tree and has children there. -/
def hasChildren (node : Nat) : AvlTree Nat → Bool
  | .nil => false
  | .node l n r _ =>
    if n = node then l ≠ .nil || r ≠ .nil else hasChildren node l || hasChildren node r

/-- One call, or something else that happens to a vnode. -/
inductive TableStep : TableState → TableState → Prop where
  | register (st : TableState) (node : Nat) (hword : node < wordSize)
      (hnew : hasChildren node st.table.root = false) :
      TableStep st { st with
        table := (registerNewVnode st.table node).1
        members := if (registerNewVnode st.table node).2 = 0 then insert node st.members
          else st.members }
  | unregister (st : TableState) (node : Nat) :
      TableStep st { st with
        table := unregisterVnode st.table node
        members := st.members.erase node }
  | find (st : TableState) (ino dev : Nat) :
      TableStep st { st with
        table := (tryFindAndReferenceExistingVnode st.table ino dev).1
        held := match (tryFindAndReferenceExistingVnode st.table ino dev).2 with
          | none => st.held
          | some node => refObject st.held node }
  | purge (st : TableState) (t : Table) (rounds : List PurgeRound)
      (h : purgeOldVnodes purgeBatch st.table = some (t, rounds)) :
      TableStep st { st with
        table := t
        members := st.members.filter fun n => n ∉ rounds.flatMap PurgeRound.gone }
  | setStat (st : TableState) (node : Nat) (s : Stat) (hnew : node ∉ st.members) :
      TableStep st { st with table.stat := Function.update st.table.stat node s }
  | hold (st : TableState) (node : Nat) :
      TableStep st { st with
        table.refs := refObject st.table.refs node
        held := refObject st.held node }
  | drop (st : TableState) (node : Nat) (h : 0 < st.held node) :
      TableStep st { st with
        table.refs := derefObject st.table.refs node
        held := derefObject st.held node }

/-- `InitVnodeTable` -/
def initVnodeTable (stat : Nat → Stat) (held : Nat → Nat) : TableState :=
  { table := { root := .nil, stat, refs := held }, members := ∅, held }

/-! ## The invariant -/

/-- The tree holds the members, and the table a reference to each. -/
structure TableInv (st : TableState) : Prop where
  ordered : st.table.root.Ordered (nodeKey st.table.stat)
  avl : st.table.root.Avl
  word : ∀ n ∈ st.table.root.toList, n ≠ 0 ∧ n < wordSize
  mem : ∀ n, n ∈ st.members ↔ n ∈ st.table.root.toList
  refs : ∀ n, st.table.refs n = st.held n + if n ∈ st.members then 1 else 0

theorem length_le_of_lt {xs : List Nat} {bound : Nat} (hnodup : xs.Nodup)
    (h : ∀ x ∈ xs, x < bound) : xs.length ≤ bound := by
  have hsub : xs ⊆ List.range bound := fun x hx => List.mem_range.mpr (h x hx)
  have hle := (hnodup.subperm hsub).length_le
  rwa [List.length_range] at hle

section Invariant

variable {st st' : TableState}

/-- No more vnodes than addresses. -/
theorem TableInv.depth_le (h : TableInv st) : st.table.root.depth ≤ 65 :=
  h.avl.depth_le (length_le_of_lt h.ordered.nodup fun n hn => (h.word n hn).2)

theorem TableInv.searchable (h : TableInv st) : Searchable st.table.stat st.table.root :=
  ⟨h.ordered, h.avl, Nat.le_trans h.depth_le (by decide)⟩

theorem tableInv_initVnodeTable (stat : Nat → Stat) (held : Nat → Nat) :
    TableInv (initVnodeTable stat held) := by
  refine ⟨List.Pairwise.nil, trivial, nofun, fun n => ?_, fun n => ?_⟩
  · simp [initVnodeTable]
  · simp [initVnodeTable]

/-- A vnode without children has no links to reset. -/
theorem resetLinks_eq {node : Nat} {t : AvlTree Nat} (havl : t.Avl)
    (h : hasChildren node t = false) : resetLinks node t = t := by
  induction t with
  | nil => rfl
  | node l n r height ihl ihr =>
    obtain ⟨hl, hr, hheight, -⟩ := havl
    unfold hasChildren at h
    unfold resetLinks
    by_cases hn : n = node
    · rw [if_pos hn] at h ⊢
      simp only [ne_eq, decide_not, Bool.or_eq_false_iff, Bool.not_eq_false',
        decide_eq_true_eq] at h
      obtain ⟨rfl, rfl⟩ := h
      rw [hheight]
      rfl
    · rw [if_neg hn] at h ⊢
      obtain ⟨h1, h2⟩ := Bool.or_eq_false_iff.mp h
      rw [ihl hl h1, ihr hr h2]

/-- What `RegisterNewVnode` does for a vnode without children. -/
theorem registerNewVnode_spec {node : Nat} (h : TableInv st) (hnull : node ≠ 0)
    (hnew : hasChildren node st.table.root = false) :
    (∃ u ∈ st.table.root.toList, nodeKey st.table.stat u = nodeKey st.table.stat node) ∧
        registerNewVnode st.table node = (st.table, eexist) ∨
      (∀ u ∈ st.table.root.toList, nodeKey st.table.stat u ≠ nodeKey st.table.stat node) ∧
        registerNewVnode st.table node = ({ st.table with
          root := (insertNode st.table.stat node st.table.root).1
          refs := refObject st.table.refs node }, 0) := by
  by_cases hkey : ∃ u ∈ st.table.root.toList,
      nodeKey st.table.stat u = nodeKey st.table.stat node
  · refine .inl ⟨hkey, ?_⟩
    obtain ⟨u, hu, heq⟩ := hkey
    unfold registerNewVnode
    rw [if_neg hnull, resetLinks_eq h.avl hnew, insertNode_of_key h.ordered hu heq]
    rfl
  · have hnone : ∀ u ∈ st.table.root.toList,
        nodeKey st.table.stat u ≠ nodeKey st.table.stat node := fun u hu heq => hkey ⟨u, hu, heq⟩
    refine .inr ⟨hnone, ?_⟩
    obtain ⟨hflag, -⟩ := insertNode_spec node h.avl h.ordered h.searchable.depth_le hnone
    unfold registerNewVnode
    rw [if_neg hnull, resetLinks_eq h.avl hnew]
    simp only [hflag, Bool.false_eq_true, if_false]

theorem TableInv.register {node : Nat} (h : TableInv st) (hword : node < wordSize)
    (hnew : hasChildren node st.table.root = false) :
    TableInv { st with
      table := (registerNewVnode st.table node).1
      members := if (registerNewVnode st.table node).2 = 0 then insert node st.members
        else st.members } := by
  by_cases hnull : node = 0
  · have hsame : registerNewVnode st.table node = (st.table, einval) := if_pos hnull
    rw [hsame]
    exact h
  rcases registerNewVnode_spec h hnull hnew with ⟨-, heq⟩ | ⟨hnone, heq⟩
  · rw [heq]
    exact h
  · rw [heq]
    obtain ⟨-, hgrown, hord, hmem⟩ :=
      insertNode_spec node h.avl h.ordered h.searchable.depth_le hnone
    have hout : node ∉ st.members := fun hin => hnone node ((h.mem node).mp hin) rfl
    refine ⟨hord, hgrown.avl, fun n hn => ?_, fun n => ?_, fun n => ?_⟩
    · rcases (hmem n).mp hn with rfl | hn
      · exact ⟨hnull, hword⟩
      · exact h.word n hn
    · simp only [if_true, Finset.mem_insert, hmem, h.mem]
    · have hrefs := h.refs n
      simp only [if_true, Finset.mem_insert, refObject_apply]
      by_cases hn : n = node
      · subst hn
        rw [if_neg hout] at hrefs
        simp [hrefs]
      · simp [hn, hrefs]

theorem TableInv.unregister (h : TableInv st) (node : Nat) :
    TableInv { st with
      table := unregisterVnode st.table node
      members := st.members.erase node } := by
  obtain ⟨hshrunk, hlist, hfound⟩ :=
    removeNode_spec node h.avl h.ordered h.searchable.depth_le
  have hord : (removeNode st.table.stat node st.table.root).1.Ordered
      (nodeKey st.table.stat) := by
    unfold AvlTree.Ordered
    rw [hlist]
    exact h.ordered.filter _
  have hmem : ∀ n, n ∈ (removeNode st.table.stat node st.table.root).1.toList ↔
      n ≠ node ∧ n ∈ st.table.root.toList := by
    intro n
    rw [hlist, List.mem_filter, decide_eq_true_eq, and_comm]
  unfold unregisterVnode
  by_cases hnull : node = 0
  · rw [if_pos hnull, Finset.erase_eq_of_notMem fun hin => (h.word node ((h.mem node).mp hin)).1
      hnull]
    exact h
  rw [if_neg hnull]
  simp only
  split
  · next hin =>
    have hin := (h.mem node).mpr (hfound.mp hin)
    refine ⟨hord, hshrunk.avl, fun n hn => h.word n ((hmem n).mp hn).2, fun n => ?_, fun n => ?_⟩
    · rw [hmem, Finset.mem_erase, h.mem]
    · have hrefs := h.refs n
      simp only [Finset.mem_erase, derefObject_apply]
      by_cases hn : n = node
      · subst hn
        rw [if_pos hin] at hrefs
        simp [hrefs]
      · simp [hn, hrefs]
  · next hout =>
    have hout : node ∉ st.members := fun hin => hout (hfound.mpr ((h.mem node).mp hin))
    rw [Finset.erase_eq_of_notMem hout]
    refine ⟨hord, hshrunk.avl, fun n hn => h.word n ((hmem n).mp hn).2, fun n => ?_, h.refs⟩
    rw [hmem, h.mem]
    refine ⟨fun hn => ⟨?_, hn⟩, And.right⟩
    rintro rfl
    exact hout ((h.mem n).mpr hn)

theorem TableInv.purge {t : Table} {rounds : List PurgeRound} (h : TableInv st)
    (hrun : purgeOldVnodes purgeBatch st.table = some (t, rounds)) :
    TableInv { st with
      table := t
      members := st.members.filter fun n => n ∉ rounds.flatMap PurgeRound.gone } := by
  have hpos : ∀ n ∈ st.table.root.toList, 0 < st.table.refs n := by
    intro n hn
    rw [h.refs, if_pos ((h.mem n).mpr hn)]
    exact Nat.succ_pos _
  obtain ⟨t', rounds', hrun', -, hlist, hs, hrefs, hstat, hgone, -⟩ :=
    purge_old_vnodes_exact purgeBatch (by decide) st.table h.searchable hpos
  obtain ⟨rfl, rfl⟩ := Prod.mk.inj (Option.some.inj (hrun.symm.trans hrun'))
  have hmem : ∀ n, n ∈ t.root.toList ↔ n ∈ st.table.root.toList ∧ 1 < st.table.refs n := by
    intro n
    rw [hlist, List.mem_filter, decide_eq_true_eq]
  have hout : ∀ n, n ∈ unused st.table ↔ n ∈ st.table.root.toList ∧ st.table.refs n = 1 := by
    intro n
    unfold unused shouldRemoveVnode
    rw [List.mem_filter, decide_eq_true_eq]
  refine ⟨hs.ordered, hs.avl, fun n hn => h.word n ((hmem n).mp hn).1, fun n => ?_, fun n => ?_⟩
  · simp only [Finset.mem_filter, hgone, hout, hmem, h.mem]
    refine and_congr_right fun hn => ?_
    have := hpos n hn
    simp only [hn, true_and]
    omega
  · have hold := h.refs n
    simp only [Finset.mem_filter, hgone, hout, hrefs, h.mem] at hold ⊢
    by_cases hn : n ∈ st.table.root.toList
    · simp only [hn, true_and, if_true] at hold ⊢
      split <;> omega
    · simp only [hn, false_and, if_false] at hold ⊢
      exact hold

theorem TableInv.step (h : TableInv st) (hstep : TableStep st st') : TableInv st' := by
  cases hstep with
  | register node hword hnew => exact h.register hword hnew
  | unregister node => exact h.unregister node
  | find ino dev =>
    unfold tryFindAndReferenceExistingVnode
    cases findNode st.table.stat dev ino st.table.root with
    | none => exact h
    | some node =>
      refine ⟨h.ordered, h.avl, h.word, h.mem, fun n => ?_⟩
      have hrefs := h.refs n
      simp only [refObject_apply]
      split <;> omega
  | purge t rounds hrun => exact h.purge hrun
  | setStat node s hnew =>
    refine ⟨?_, h.avl, h.word, h.mem, h.refs⟩
    refine h.ordered.imp_of_mem fun {a b} ha hb hlt => ?_
    have hne : ∀ n ∈ st.table.root.toList, n ≠ node := by
      rintro n hn rfl
      exact hnew ((h.mem n).mpr hn)
    unfold nodeKey at hlt ⊢
    simp only [Function.update_of_ne (hne a ha), Function.update_of_ne (hne b hb)]
    exact hlt
  | hold node =>
    refine ⟨h.ordered, h.avl, h.word, h.mem, fun n => ?_⟩
    have hrefs := h.refs n
    simp only [refObject_apply]
    split <;> omega
  | drop node hpos =>
    refine ⟨h.ordered, h.avl, h.word, h.mem, fun n => ?_⟩
    have hrefs := h.refs n
    simp only [derefObject_apply]
    split
    · next hn =>
      subst hn
      omega
    · exact hrefs

theorem TableInv.run {stat : Nat → Stat} {held : Nat → Nat}
    (h : Reaches TableStep (initVnodeTable stat held) st) : TableInv st :=
  h.invariant (tableInv_initVnodeTable stat held) fun _ _ hinv hstep => hinv.step hstep

end Invariant

/-! ## The table -/

/-- What the table promises. -/
structure TableSound (st : TableState) : Prop where
  ordered : st.table.root.Ordered (nodeKey st.table.stat)
  balanced : st.table.root.Avl
  height_le : st.table.root.depth ≤ 127
  members : ∀ n, n ∈ st.table.root.toList ↔ n ∈ st.members
  lookup : ∀ dev ino n, (tryFindAndReferenceExistingVnode st.table ino dev).2 = some n ↔
    n ∈ st.members ∧ st.table.stat n = ⟨dev, ino⟩
  lookup_refs : ∀ dev ino n, (tryFindAndReferenceExistingVnode st.table ino dev).1.refs n =
    st.table.refs n + if (tryFindAndReferenceExistingVnode st.table ino dev).2 = some n then 1
      else 0
  refs : ∀ n, st.table.refs n = st.held n + if n ∈ st.members then 1 else 0

theorem TableInv.sound {st : TableState} (h : TableInv st) : TableSound st := by
  refine ⟨h.ordered, h.avl, Nat.le_trans h.depth_le (by decide), fun n => (h.mem n).symm,
    fun dev ino n => ?_, fun dev ino n => ?_, h.refs⟩
  · rw [h.mem, ← findNode_eq_some h.ordered]
    unfold tryFindAndReferenceExistingVnode
    split
    · next hnone => simp [hnone]
    · next hsome => simp [hsome]
  · unfold tryFindAndReferenceExistingVnode
    split
    · simp
    · next m _ =>
      simp only [refObject_apply, Option.some.injEq]
      by_cases hn : n = m
      · simp [hn]
      · simp [hn, Ne.symm hn]

/--
**The table of vnodes is a balanced search tree of its members.** After every sequence of calls it
is strictly ordered by `(st_dev, st_ino)`, its heights are true and its sides differ by at most 1;
it holds just the members, finds each by its key, and has one reference to each.
-/
theorem vnode_table_sound (stat : Nat → Stat) (held : Nat → Nat) (st : TableState)
    (h : Reaches TableStep (initVnodeTable stat held) st) : TableSound st :=
  (TableInv.run h).sound

theorem vnode_table_sound_registered :
    TableSound
      { table := (registerNewVnode (initVnodeTable (fun n => ⟨1, n⟩) fun _ => 0).table 5).1
        members := {5}, held := fun _ => 0 } :=
  vnode_table_sound (fun n => ⟨1, n⟩) (fun _ => 0) _
    (.tail .refl (.register (initVnodeTable (fun n => ⟨1, n⟩) fun _ => 0) 5 (by decide) rfl))

/-! ## A refused registration -/

/-- What a call must leave alone: what can be found, the heights and the references. -/
structure Unchanged (t t' : Table) : Prop where
  found : ∀ dev ino n, findNode t.stat dev ino t.root = some n →
    findNode t'.stat dev ino t'.root = some n
  heights : t'.root.HeightsTrue
  refs : t'.refs = t.refs

section Refused

variable {node : Nat} {t : AvlTree Nat}

theorem resetLinks_sublist (node : Nat) (t : AvlTree Nat) :
    (resetLinks node t).toList.Sublist t.toList := by
  induction t with
  | nil => exact List.Sublist.refl _
  | node l n r h ihl ihr =>
    unfold resetLinks
    split
    · rw [AvlTree.toList_node, AvlTree.toList_node, AvlTree.toList_nil, List.nil_append]
      exact (List.singleton_sublist.mpr (List.mem_append_right _ List.mem_cons_self))
    · exact ihl.append (ihr.cons_cons n)

/-- The links of a vnode with children are all that holds on to the children. -/
theorem length_resetLinks_lt (h : hasChildren node t = true) :
    (resetLinks node t).toList.length < t.toList.length := by
  induction t with
  | nil => cases h
  | node l n r height ihl ihr =>
    have hle := (resetLinks_sublist node l).length_le
    have hre := (resetLinks_sublist node r).length_le
    unfold hasChildren at h
    unfold resetLinks
    split at h
    · next hn =>
      rw [if_pos hn]
      simp only [AvlTree.toList_node, AvlTree.toList_nil, List.length_append, List.length_cons,
        List.length_nil]
      simp only [ne_eq, decide_not, Bool.or_eq_true, Bool.not_eq_true', decide_eq_false_iff_not,
        ← AvlTree.toList_eq_nil, ← List.length_eq_zero_iff] at h
      omega
    · next hn =>
      rw [if_neg hn]
      simp only [AvlTree.toList_node, List.length_append, List.length_cons]
      rcases Bool.or_eq_true_iff.mp h with h | h
      · have := ihl h
        omega
      · have := ihr h
        omega

theorem mem_resetLinks (h : hasChildren node t = true) : node ∈ (resetLinks node t).toList := by
  induction t with
  | nil => cases h
  | node l n r height ihl ihr =>
    unfold hasChildren at h
    unfold resetLinks
    split at h
    · next hn =>
      rw [if_pos hn, hn]
      exact List.mem_singleton_self _
    · next hn =>
      rw [if_neg hn]
      rcases Bool.or_eq_true_iff.mp h with h | h
      · exact List.mem_append_left _ (ihl h)
      · exact List.mem_append_right _ (List.mem_cons_of_mem _ (ihr h))

/-- To register a member again cuts its children off. -/
theorem not_unchanged_of_hasChildren {st : TableState} (hinv : TableInv st) (hnull : node ≠ 0)
    (h : hasChildren node st.table.root = true) :
    ¬Unchanged st.table (registerNewVnode st.table node).1 := by
  have hord : (resetLinks node st.table.root).Ordered (nodeKey st.table.stat) :=
    hinv.ordered.sublist (resetLinks_sublist _ _)
  have hreg : (registerNewVnode st.table node).1 =
      { st.table with root := resetLinks node st.table.root } := by
    unfold registerNewVnode
    rw [if_neg hnull, insertNode_of_key hord (mem_resetLinks h) rfl]
    rfl
  rw [hreg]
  rintro ⟨hfound, -, -⟩
  have hall : st.table.root.toList ⊆ (resetLinks node st.table.root).toList := by
    intro u hu
    have hold := (findNode_eq_some hinv.ordered _ _ u).mpr ⟨hu, rfl⟩
    exact ((findNode_eq_some hord _ _ u).mp (hfound _ _ u hold)).1
  have hle := (hinv.ordered.nodup.subperm hall).length_le
  exact absurd (length_resetLinks_lt h) (Nat.not_lt_of_le hle)

/--
**A refused registration changes nothing unless the vnode is a member with children.** Its links are
reset before the table is searched for a duplicate.
-/
theorem refused_registration_unchanged (stat : Nat → Stat) (held : Nat → Nat) (st : TableState)
    (node : Nat) (hrun : Reaches TableStep (initVnodeTable stat held) st) (hnull : node ≠ 0)
    (hrefused : (registerNewVnode st.table node).2 = eexist) :
    Unchanged st.table (registerNewVnode st.table node).1 ↔
      hasChildren node st.table.root = false := by
  have hinv := TableInv.run hrun
  constructor
  · intro h
    by_contra hchildren
    exact not_unchanged_of_hasChildren hinv hnull (by simpa using hchildren) h
  · intro h
    rcases registerNewVnode_spec hinv hnull h with ⟨-, heq⟩ | ⟨-, heq⟩
    · rw [heq]
      exact ⟨fun _ _ _ => id, hinv.avl.heightsTrue, rfl⟩
    · rw [heq] at hrefused
      exact absurd hrefused (show (0 : Nat) ≠ eexist by decide)

end Refused

/-- The table after the vnodes 1 and 2 are registered, where `stat` tells them apart or not. -/
def registered (stat : Nat → Stat) : TableState :=
  { table := (registerNewVnode (registerNewVnode (initVnodeTable stat fun _ => 0).table 1).1 2).1
    members := if (registerNewVnode (registerNewVnode
        (initVnodeTable stat fun _ => 0).table 1).1 2).2 = 0 then {2, 1} else {1}
    held := fun _ => 0 }

theorem reaches_registered (stat : Nat → Stat) :
    Reaches TableStep (initVnodeTable stat fun _ => 0) (registered stat) := by
  refine .tail (.tail .refl (.register (initVnodeTable stat fun _ => 0) 1 (by decide) rfl))
    (.register _ 2 (by decide) ?_)
  rfl

theorem refused_registration_unchanged_stranger :
    Unchanged (registered fun _ => ⟨1, 1⟩).table
      (registerNewVnode (registered fun _ => ⟨1, 1⟩).table 2).1 :=
  (refused_registration_unchanged _ _ _ 2 (reaches_registered fun _ => ⟨1, 1⟩) (by decide)
    (by decide)).mpr (by decide)

/-- Vnode 2 cannot be found any more after vnode 1 was registered a second time. -/
theorem registered_twice_loses_child :
    (registerNewVnode (registered fun n => ⟨1, n⟩).table 1).2 = eexist ∧
      ¬Unchanged (registered fun n => ⟨1, n⟩).table
        (registerNewVnode (registered fun n => ⟨1, n⟩).table 1).1 := by
  refine ⟨by decide, ?_⟩
  rintro ⟨hfound, -, -⟩
  exact absurd (hfound 1 2 2 (by decide)) (by decide)

end Nolrem.Vfs
