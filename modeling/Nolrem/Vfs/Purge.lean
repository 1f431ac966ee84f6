import Nolrem.Vfs.NodeTable

/-!
# Purging unused vnodes

`PurgeOldVnodes` of `kernel/vfs/nodetable.c`, with nothing else going on.
-/

namespace Nolrem.Vfs

open Nolrem.Lib

/-! ## The code -/

section Code

variable (stat : Nat → Stat) (refs : Nat → Nat)

/-- `ShouldRemoveVnode` -/
def shouldRemoveVnode (node : Nat) : Bool := refs node = 1

/-- `sub_after_resume`; there may be no key to resume after. -/
def afterResume (after : Option Stat) (sub : Nat) : Bool :=
  match after with
  | none => true
  | some s => compareKey s.dev s.ino (stat sub) = .lt

/-- `CollectPurgeVictims`: what `scan->found` holds after it -/
def collectPurgeVictims (batch : Nat) (after : Option Stat) : AvlTree Nat → List Nat → List Nat
  | .nil, found => found
  | .node l sub r _, found =>
    if batch ≤ found.length then found
    else if afterResume stat after sub then
      let found := collectPurgeVictims batch after l found
      if batch ≤ found.length then found
      else collectPurgeVictims batch after r
        (if shouldRemoveVnode refs sub then found ++ [sub] else found)
    else collectPurgeVictims batch after r found

/-- The loop over the victims: the tree, and what is still in `scan.found` -/
def removeVictims : List Nat → AvlTree Nat → AvlTree Nat × List Nat
  | [], t => (t, [])
  | node :: rest, t =>
    let (t', found) := removeNode stat node t
    let (t'', gone) := removeVictims rest t'
    (t'', if found then node :: gone else gone)

/-- The loop after the lock is released -/
def derefAll (refs : Nat → Nat) (nodes : List Nat) : Nat → Nat := nodes.foldl derefObject refs

end Code

/-- One time around the loop: the tree it sees, and the vnodes it gives up. -/
structure PurgeRound where
  before : AvlTree Nat
  gone : List Nat

/-- The loop of `PurgeOldVnodes`; nothing when it is not over after `fuel` times. -/
def purgeLoop (batch : Nat) : Nat → Option Stat → Table → Option (Table × List PurgeRound)
  | 0, _, _ => none
  | fuel + 1, after, t =>
    let found := collectPurgeVictims t.stat t.refs batch after t.root []
    let (root, gone) := removeVictims t.stat found t.root
    let t' := { t with root, refs := derefAll t.refs gone }
    let round := { before := t.root, gone }
    if found.length = batch then
      match purgeLoop batch fuel (found.getLast?.map t.stat) t' with
      | none => none
      | some (t'', rounds) => some (t'', round :: rounds)
    else some (t', [round])

/-- `PurgeOldVnodes`, where `PURGE_BATCH` is `batch` -/
def purgeOldVnodes (batch : Nat) (t : Table) : Option (Table × List PurgeRound) :=
  purgeLoop batch (t.root.toList.length + 1) none t

/-! ## One batch -/

section Batch

variable {stat : Nat → Stat} {refs : Nat → Nat} {after : Option Stat} {batch : Nat} {t : AvlTree Nat}

/-- What a scan looks for. -/
def isVictim (stat : Nat → Stat) (refs : Nat → Nat) (after : Option Stat) (node : Nat) : Bool :=
  afterResume stat after node && shouldRemoveVnode refs node

/-- What a resume point cuts off is everything up to some vnode. -/
theorem afterResume_of_lt {a b : Nat} (h : nodeKey stat a < nodeKey stat b)
    (hb : afterResume stat after b = false) : afterResume stat after a = false := by
  unfold afterResume at *
  cases after with
  | none => cases hb
  | some s =>
    simp only [decide_eq_false_iff_not, (compareKey_eq ..).1, not_lt] at hb ⊢
    exact le_of_lt (lt_of_lt_of_le h hb)

/-- A scan finds the next victims in order, up to a full batch. -/
theorem collectPurgeVictims_eq (hord : t.Ordered (nodeKey stat)) (found : List Nat) :
    collectPurgeVictims stat refs batch after t found =
      found ++ (t.toList.filter (isVictim stat refs after)).take (batch - found.length) := by
  induction t generalizing found with
  | nil => simp [collectPurgeVictims]
  | node l sub r h ihl ihr =>
    obtain ⟨hol, hor, hlt, -⟩ := AvlTree.ordered_node.mp hord
    unfold collectPurgeVictims
    by_cases hfull : batch ≤ found.length
    · rw [if_pos hfull, Nat.sub_eq_zero_of_le hfull]
      simp
    rw [if_neg hfull, AvlTree.toList_node, List.filter_append]
    cases hsub : afterResume stat after sub with
    | false =>
      -- then nothing on the left is beyond the resume point either
      have hleft : l.toList.filter (isVictim stat refs after) = [] := by
        refine List.filter_eq_nil_iff.mpr fun a ha => ?_
        simp [isVictim, afterResume_of_lt (hlt a ha) hsub]
      have hskip : isVictim stat refs after sub = false := by simp [isVictim, hsub]
      rw [hleft, List.nil_append, List.filter_cons_of_neg (by simp [hskip])]
      exact ihr hor found
    | true =>
      simp only [if_true]
      rw [ihl hol found]
      generalize l.toList.filter (isVictim stat refs after) = xs
      by_cases hleft : batch - found.length ≤ xs.length
      · have hlen : batch ≤ (found ++ xs.take (batch - found.length)).length := by
          rw [List.length_append, List.length_take]
          omega
        rw [if_pos hlen, List.take_append_of_le_length hleft]
      · have hall : xs.take (batch - found.length) = xs := List.take_of_length_le (by omega)
        have hlen : ¬batch ≤ (found ++ xs).length := by
          rw [List.length_append]
          omega
        have hvictim : isVictim stat refs after sub = shouldRemoveVnode refs sub := by
          simp [isVictim, hsub]
        rw [hall, if_neg hlen, ihr hor, List.take_append, hall, List.filter_cons, hvictim]
        cases shouldRemoveVnode refs sub with
        | true =>
          obtain ⟨k, hk⟩ : ∃ k, batch - found.length - xs.length = k + 1 :=
            ⟨batch - found.length - xs.length - 1, by omega⟩
          have hk' : batch - (found ++ xs ++ [sub]).length = k := by
            simp only [List.length_append, List.length_cons, List.length_nil]
            omega
          simp only [if_true]
          rw [hk', hk, List.take_succ_cons]
          simp
        | false =>
          have hk' : batch - (found ++ xs).length = batch - found.length - xs.length := by
            rw [List.length_append]
            omega
          simp only [Bool.false_eq_true, if_false]
          rw [hk', List.append_assoc]

/-- Removing victims that are in the tree takes out all of them. -/
theorem removeVictims_spec (stat : Nat → Stat) (victims : List Nat) (havl : t.Avl) (hord : t.Ordered (nodeKey stat))
    (hdepth : t.depth ≤ 90) (hnodup : victims.Nodup) (hsub : ∀ v ∈ victims, v ∈ t.toList) :
    (removeVictims stat victims t).1 =
        victims.foldl (fun t v => (removeNode stat v t).1) t ∧
      (removeVictims stat victims t).2 = victims ∧
      (removeVictims stat victims t).1.Avl ∧ (removeVictims stat victims t).1.depth ≤ t.depth ∧
      (removeVictims stat victims t).1.toList = t.toList.filter (· ∉ victims) := by
  induction victims generalizing t with
  | nil =>
    refine ⟨rfl, rfl, havl, Nat.le_refl _, ?_⟩
    exact (List.filter_eq_self.mpr fun _ _ => by simp).symm
  | cons v rest ih =>
    obtain ⟨hv, hrest⟩ := List.nodup_cons.mp hnodup
    obtain ⟨hshrunk, hlist, hfound⟩ := removeNode_spec v havl hord hdepth
    have hord' : (removeNode stat v t).1.Ordered (nodeKey stat) := by
      unfold AvlTree.Ordered
      rw [hlist]
      exact hord.filter _
    have hle := hshrunk.le
    obtain ⟨hfold, hgone, havl', hdepth', hlist'⟩ := ih hshrunk.avl hord' (by omega) hrest (by
      intro u hu
      rw [hlist, List.mem_filter]
      refine ⟨hsub u (List.mem_cons_of_mem _ hu), ?_⟩
      simp only [ne_eq, decide_not, Bool.not_eq_true', decide_eq_false_iff_not]
      rintro rfl
      exact hv hu)
    have hin : (removeNode stat v t).2 = true := hfound.mpr (hsub v List.mem_cons_self)
    unfold removeVictims
    simp only [hin, if_true]
    refine ⟨hfold, by rw [hgone], havl', Nat.le_trans hdepth' hle, ?_⟩
    rw [hlist', hlist, List.filter_filter]
    refine List.filter_congr fun u _ => ?_
    simp [not_or, Bool.and_comm]

end Batch

/-! ## The loop -/

section Loop

variable {batch : Nat} {t t' : Table}

/-- The table is a balanced search tree that is not too high. -/
structure Searchable (stat : Nat → Stat) (root : AvlTree Nat) : Prop where
  ordered : root.Ordered (nodeKey stat)
  avl : root.Avl
  depth_le : root.depth ≤ 90

/-- The members without a reference but the table's. -/
def unused (t : Table) : List Nat := t.root.toList.filter (shouldRemoveVnode t.refs)

theorem derefAll_apply (refs : Nat → Nat) {nodes : List Nat} (hnodup : nodes.Nodup) (n : Nat) :
    derefAll refs nodes n = if n ∈ nodes then refs n - 1 else refs n := by
  induction nodes generalizing refs with
  | nil => simp [derefAll]
  | cons v rest ih =>
    obtain ⟨hv, hrest⟩ := List.nodup_cons.mp hnodup
    show derefAll (derefObject refs v) rest n = _
    rw [ih _ hrest]
    unfold derefObject
    by_cases hn : n = v
    · subst hn
      rw [if_neg hv, Function.update_self, if_pos List.mem_cons_self]
    · rw [Function.update_of_ne hn]
      simp [hn]

theorem derefAll_append (refs : Nat → Nat) (xs ys : List Nat) :
    derefAll refs (xs ++ ys) = derefAll (derefAll refs xs) ys := List.foldl_append

/-- The table after a batch of unused members is gone. -/
structure AfterBatch (t t' : Table) (found : List Nat) : Prop where
  stat : t'.stat = t.stat
  root : t'.root = found.foldl (fun root v => (removeNode t.stat v root).1) t.root
  refs : t'.refs = derefAll t.refs found
  toList : t'.root.toList = t.root.toList.filter (· ∉ found)
  searchable : Searchable t'.stat t'.root

/-- What is unused afterwards is what was unused and not in the batch. -/
theorem AfterBatch.unused_eq {xs ys : List Nat} (h : AfterBatch t t' xs)
    (hord : t.root.Ordered (nodeKey t.stat)) (hxs : unused t = xs ++ ys) : unused t' = ys := by
  have hnodup : (xs ++ ys).Nodup := hxs ▸ hord.nodup.filter _
  obtain ⟨hnx, -, hdisj⟩ := List.nodup_append.mp hnodup
  unfold unused at hxs ⊢
  rw [h.toList, h.refs]
  calc (t.root.toList.filter (· ∉ xs)).filter (shouldRemoveVnode (derefAll t.refs xs))
      = (t.root.toList.filter (shouldRemoveVnode t.refs)).filter (· ∉ xs) := by
        rw [List.filter_filter, List.filter_filter]
        refine List.filter_congr fun n _ => ?_
        unfold shouldRemoveVnode
        rw [derefAll_apply t.refs hnx]
        by_cases hn : n ∈ xs <;> simp [hn]
    _ = ys := by
        rw [hxs, List.filter_append]
        have hnone : xs.filter (· ∉ xs) = [] :=
          List.filter_eq_nil_iff.mpr fun n hn => by simp [hn]
        have hall : ys.filter (· ∉ xs) = ys :=
          List.filter_eq_self.mpr fun n hn => by
            simp only [decide_not, Bool.not_eq_true', decide_eq_false_iff_not]
            exact fun hin => hdisj n hin n hn rfl
        rw [hnone, hall, List.nil_append]

/-- One time around the loop. -/
theorem afterBatch_of_round {xs ys : List Nat} (hs : Searchable t.stat t.root)
    (hxs : unused t = xs ++ ys) :
    (removeVictims t.stat xs t.root).2 = xs ∧
      AfterBatch t { t with
        root := (removeVictims t.stat xs t.root).1
        refs := derefAll t.refs xs } xs := by
  have hnodup : (xs ++ ys).Nodup := hxs ▸ hs.ordered.nodup.filter _
  obtain ⟨hfold, hgone, havl, hdepth, hlist⟩ := removeVictims_spec t.stat xs hs.avl
    hs.ordered hs.depth_le (List.nodup_append.mp hnodup).1 (by
      intro v hv
      have hin : v ∈ unused t := by
        rw [hxs]
        exact List.mem_append_left _ hv
      exact (List.mem_filter.mp hin).1)
  refine ⟨hgone, rfl, hfold, rfl, hlist, ⟨?_, havl, Nat.le_trans hdepth hs.depth_le⟩⟩
  unfold AvlTree.Ordered
  rw [hlist]
  exact hs.ordered.filter _

/-- What the loop has done when it is over. -/
structure Purged (t t' : Table) (rounds : List PurgeRound) : Prop where
  batch : AfterBatch t t' (unused t)
  gone : rounds.flatMap PurgeRound.gone = unused t
  before : ∀ r ∈ rounds, ∀ n ∈ r.before.toList, n ∈ t.root.toList
  apart : rounds.Pairwise fun r r' => ∀ n ∈ r.gone, n ∉ r'.before.toList

/-- The loop removes what is unused, in order, and is over before the fuel is. -/
theorem purgeLoop_spec (hbatch : 0 < batch) (fuel : Nat) (after : Option Stat)
    (hs : Searchable t.stat t.root) (hfuel : (unused t).length < fuel)
    (hafter : ∀ n ∈ unused t, afterResume t.stat after n = true) :
    ∃ t' rounds, purgeLoop batch fuel after t = some (t', rounds) ∧ Purged t t' rounds := by
  induction fuel generalizing t after with
  | zero => exact absurd hfuel (Nat.not_lt_zero _)
  | succ fuel ih =>
    -- every unused member lies beyond the resume point, so the scan sees all of them
    have hscan : collectPurgeVictims t.stat t.refs batch after t.root [] =
        (unused t).take batch := by
      rw [collectPurgeVictims_eq hs.ordered, List.nil_append, List.length_nil, Nat.sub_zero]
      congr 1
      refine List.filter_congr fun n hn => ?_
      unfold isVictim
      cases hun : shouldRemoveVnode t.refs n with
      | false => simp
      | true => simp [hafter n (List.mem_filter.mpr ⟨hn, hun⟩)]
    have hsplit : unused t = (unused t).take batch ++ (unused t).drop batch :=
      (List.take_append_drop ..).symm
    obtain ⟨hgone, hround⟩ := afterBatch_of_round hs hsplit
    have hrest := hround.unused_eq hs.ordered hsplit
    unfold purgeLoop
    simp only [hscan, hgone]
    by_cases hmore : ((unused t).take batch).length = batch
    · rw [if_pos hmore]
      have hlen : batch ≤ (unused t).length := by
        rw [List.length_take] at hmore
        omega
      obtain ⟨t', rounds, hloop, hpurged⟩ := ih (((unused t).take batch).getLast?.map t.stat)
        hround.searchable (by rw [hrest, List.length_drop]; omega) (by
          intro n hn
          rw [hrest] at hn
          have hne : (unused t).take batch ≠ [] :=
            List.ne_nil_of_length_pos (by rw [hmore]; exact hbatch)
          obtain ⟨last, hlast⟩ : ∃ last, ((unused t).take batch).getLast? = some last :=
            ⟨_, List.getLast?_eq_some_getLast hne⟩
          have hsorted : (unused t).Pairwise fun a b => nodeKey t.stat a < nodeKey t.stat b :=
            hs.ordered.filter _
          rw [hsplit] at hsorted
          have hlt := (List.pairwise_append.mp hsorted).2.2 last (List.mem_of_getLast? hlast) n hn
          rw [hlast, Option.map_some]
          exact decide_eq_true ((compareKey_eq ..).1.mpr hlt))
      rw [hloop]
      refine ⟨t', _, rfl, ⟨hpurged.batch.stat, ?_, ?_, ?_, hpurged.batch.searchable⟩, ?_, ?_, ?_⟩
      · rw [hpurged.batch.root, hrest, hround.root, ← List.foldl_append, ← hsplit]
      · rw [hpurged.batch.refs, hrest, hround.refs, ← derefAll_append, ← hsplit]
      · rw [hpurged.batch.toList, hrest, hround.toList, List.filter_filter]
        refine List.filter_congr fun n _ => ?_
        have hmem : n ∈ unused t ↔ n ∈ (unused t).take batch ∨ n ∈ (unused t).drop batch := by
          rw [← List.mem_append, ← hsplit]
        by_cases h1 : n ∈ (unused t).take batch <;>
          by_cases h2 : n ∈ (unused t).drop batch <;> simp [hmem, h1, h2]
      · rw [List.flatMap_cons, hpurged.gone, hrest]
        exact hsplit.symm
      · intro r hr n hn
        rcases List.mem_cons.mp hr with rfl | hr
        · exact hn
        · have hin := hpurged.before r hr n hn
          rw [hround.toList] at hin
          exact (List.mem_filter.mp hin).1
      · refine List.pairwise_cons.mpr ⟨fun r hr n hn hin => ?_, hpurged.apart⟩
        have hlater := hpurged.before r hr n hin
        rw [hround.toList] at hlater
        exact absurd hn (by simpa using (List.mem_filter.mp hlater).2)
    · rw [if_neg hmore]
      have hall : (unused t).take batch = unused t := by
        refine List.take_of_length_le ?_
        rw [List.length_take] at hmore
        omega
      rw [hall] at hround ⊢
      refine ⟨_, _, rfl, hround, by simp, ?_, List.pairwise_singleton _ _⟩
      intro r hr n hn
      obtain rfl := List.mem_singleton.mp hr
      exact hn

/--
**`PurgeOldVnodes` removes exactly the unused vnodes.** On every searchable table it is over after
finitely many rounds. The tree is then the one that the unused members, removed one by one in order
of their keys, leave behind, whatever the size of a batch: a balanced search tree of the members
with a second reference. Each unused member lost one reference, once, and no vnode that was given
up in one round is in the tree that a later round reads.
-/
theorem purge_old_vnodes_exact (batch : Nat) (hbatch : 0 < batch) (t : Table)
    (hs : Searchable t.stat t.root) (hrefs : ∀ n ∈ t.root.toList, 0 < t.refs n) :
    ∃ t' rounds, purgeOldVnodes batch t = some (t', rounds) ∧
      t'.root = (unused t).foldl (fun root v => (removeNode t.stat v root).1) t.root ∧
      t'.root.toList = t.root.toList.filter (fun n => 1 < t.refs n) ∧
      Searchable t'.stat t'.root ∧
      (∀ n, t'.refs n = if n ∈ t.root.toList ∧ t.refs n = 1 then 0 else t.refs n) ∧
      t'.stat = t.stat ∧
      rounds.flatMap PurgeRound.gone = unused t ∧ (unused t).Nodup ∧
      rounds.Pairwise fun r r' => ∀ n ∈ r.gone, n ∉ r'.before.toList := by
  have hlen : (unused t).length < t.root.toList.length + 1 :=
    Nat.lt_succ_of_le (List.length_filter_le ..)
  obtain ⟨t', rounds, hloop, hpurged⟩ :=
    purgeLoop_spec hbatch _ none hs hlen fun n _ => rfl
  have hnodup : (unused t).Nodup := hs.ordered.nodup.filter _
  have hmem : ∀ n, n ∈ unused t ↔ n ∈ t.root.toList ∧ t.refs n = 1 := by
    intro n
    unfold unused shouldRemoveVnode
    rw [List.mem_filter, decide_eq_true_eq]
  refine ⟨t', rounds, hloop, hpurged.batch.root, ?_, hpurged.batch.searchable, fun n => ?_,
    hpurged.batch.stat, hpurged.gone, hnodup, hpurged.apart⟩
  · rw [hpurged.batch.toList]
    refine List.filter_congr fun n hn => ?_
    have hpos := hrefs n hn
    have hiff : n ∉ unused t ↔ 1 < t.refs n := by
      rw [hmem]
      constructor
      · intro h
        have hne : t.refs n ≠ 1 := fun heq => h ⟨hn, heq⟩
        omega
      · rintro h ⟨-, heq⟩
        omega
    exact decide_eq_decide.mpr hiff
  · rw [hpurged.batch.refs, derefAll_apply t.refs hnodup]
    by_cases hn : n ∈ t.root.toList ∧ t.refs n = 1
    · rw [if_pos ((hmem n).mpr hn), if_pos hn, hn.2]
    · rw [if_neg fun h => hn ((hmem n).mp h), if_neg hn]

end Loop

/-- Two registered vnodes, of which somebody else holds the second. -/
def twoVnodes : Table :=
  { root := .node .nil 1 (.node .nil 2 .nil 1) 2
    stat := fun n => ⟨1, n⟩
    refs := fun n => if n = 1 then 1 else if n = 2 then 2 else 0 }

theorem searchable_twoVnodes : Searchable twoVnodes.stat twoVnodes.root := by
  refine ⟨?_, ⟨trivial, ⟨trivial, trivial, rfl, by decide, by decide⟩, rfl, by decide, by decide⟩,
    by decide⟩
  simp [AvlTree.Ordered, twoVnodes, nodeKey, Prod.Lex.toLex_lt_toLex]

theorem purge_old_vnodes_exact_two : ∃ t' rounds,
    purgeOldVnodes 16 twoVnodes = some (t', rounds) ∧ t'.root.toList = [2] := by
  obtain ⟨t', rounds, hrun, -, hlist, -⟩ := purge_old_vnodes_exact 16 (by decide) twoVnodes
    searchable_twoVnodes (by simp [twoVnodes])
  exact ⟨t', rounds, hrun, hlist.trans (by decide)⟩

end Nolrem.Vfs
