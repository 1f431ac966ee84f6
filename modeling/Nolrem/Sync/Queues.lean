import Mathlib.Data.List.Nodup
import Nolrem.Lib.Chain
import Nolrem.Lib.Outcome
import Nolrem.Sync.Sem

/-!
# The waiting lists of semaphores

`Queues s q` says that the list of each semaphore `k` is `q k`. A clot is on several lists
and has one successor for each; a bare thread has one successor, so it can be on one list
only. `CleanupAfterSem` removes one object from the lists of several semaphores, and the
loop of `AddThreadToSemQueues` adds one.
-/

namespace Nolrem.Sync

open Nolrem.Lib

attribute [simp] Kernel.setThr Kernel.setClot

@[simp] theorem setSem_sem_self (s : Kernel) (k : Nat) (f : Sem → Sem) :
    (s.setSem k f).sem k = f (s.sem k) := Function.update_self ..

@[simp] theorem setSem_sem_ne {s : Kernel} {k j : Nat} {f : Sem → Sem} (h : j ≠ k) :
    (s.setSem k f).sem j = s.sem j := Function.update_of_ne h ..

/-! ## Successors -/

/-- The object after `w` on the list of `k`. -/
def nextIn (s : Kernel) (k : Nat) : WaitObj → Option WaitObj
  | .thread t => (s.thr t).nextWaitingSem
  | .clot c =>
    match s.clot c with
    | none => none
    | some cl =>
      match lookupClotIndex cl.sems k with
      | none => none
      | some i => (cl.nexts[i]?).getD none

@[simp] theorem nextIn_setSem (s : Kernel) (k : Nat) (f : Sem → Sem) :
    nextIn (s.setSem k f) = nextIn s := by
  funext j w
  cases w <;> rfl

/-- The thread that waits through `w`. -/
def ownerOf (s : Kernel) : WaitObj → Nat
  | .thread t => t
  | .clot c =>
    match s.clot c with
    | none => 0
    | some cl => cl.thr

/-- `w` can be linked on the list of `k`. -/
def Linkable (s : Kernel) (k : Nat) : WaitObj → Prop
  | .thread _ => True
  | .clot c => ∃ cl i, s.clot c = some cl ∧ lookupClotIndex cl.sems k = some i ∧
      i < cl.nexts.length

theorem lookupClotIndex_eq_some {sems : List Nat} {k i : Nat}
    (h : lookupClotIndex sems k = some i) : sems[i]? = some k := by
  induction sems generalizing i with
  | nil => simp [lookupClotIndex] at h
  | cons a sems ih =>
    unfold lookupClotIndex at h
    split at h
    · next hak =>
      obtain rfl := Option.some.inj h
      simp [hak]
    · obtain ⟨j, hj, rfl⟩ := Option.map_eq_some_iff.mp h
      simpa using ih hj

theorem lookupClotIndex_of_mem {sems : List Nat} {k : Nat} (h : k ∈ sems) :
    ∃ i, lookupClotIndex sems k = some i ∧ i < sems.length := by
  induction sems with
  | nil => simp at h
  | cons a sems ih =>
    unfold lookupClotIndex
    by_cases hak : a = k
    · exact ⟨0, by simp [hak], by simp⟩
    · have hk : k ∈ sems := by
        rcases List.mem_cons.mp h with h | h
        · exact absurd h.symm hak
        · exact h
      obtain ⟨i, hi, hlt⟩ := ih hk
      exact ⟨i + 1, by simp [hak, hi], by simpa using hlt⟩

theorem waiterOf_eq {s : Kernel} {k : Nat} {w : WaitObj} (h : Linkable s k w) :
    waiterOf s w = .ok (ownerOf s w) := by
  cases w with
  | thread t => rfl
  | clot c =>
    obtain ⟨cl, i, hc, -⟩ := h
    simp [waiterOf, getClot, ownerOf, hc]
    rfl

theorem nextOf_eq {s : Kernel} {k : Nat} {w : WaitObj} (h : Linkable s k w) :
    nextOf s k w = .ok (nextIn s k w) := by
  cases w with
  | thread t => rfl
  | clot c =>
    obtain ⟨cl, i, hc, hi, hlt⟩ := h
    have hget : cl.nexts[i]? = some cl.nexts[i] := List.getElem?_eq_getElem hlt
    simp only [nextOf, getClot, nextIn, hc, hi, hget]
    show clotNext cl k = _
    simp only [clotNext, hi, hget, Option.getD_some]

/-- `s'` is `s` but for the waiting lists. -/
structure Requeued (s s' : Kernel) : Prop where
  thr : ∀ t, ∃ next, s'.thr t = { s.thr t with nextWaitingSem := next }
  sem : ∀ k, (s'.sem k).count = (s.sem k).count ∧ (s'.sem k).max = (s.sem k).max
  clot : ∀ c, s'.clot c = none ∧ s.clot c = none ∨ ∃ cl nexts, s.clot c = some cl ∧
    s'.clot c = some { cl with nexts := nexts } ∧ nexts.length = cl.nexts.length
  schedInit : s'.schedInit = s.schedInit
  nsSinceBoot : s'.nsSinceBoot = s.nsSinceBoot
  nextWakeupNs : s'.nextWakeupNs = s.nextWakeupNs
  firstWaitingTimer : s'.firstWaitingTimer = s.firstWaitingTimer

namespace Requeued

variable {s s' s'' : Kernel}

theorem refl (s : Kernel) : Requeued s s := by
  refine ⟨fun t => ⟨_, rfl⟩, fun _ => ⟨rfl, rfl⟩, fun c => ?_, rfl, rfl, rfl, rfl⟩
  cases hc : s.clot c with
  | none => exact Or.inl ⟨rfl, rfl⟩
  | some cl => exact Or.inr ⟨cl, cl.nexts, rfl, rfl, rfl⟩

theorem trans (h : Requeued s s') (h' : Requeued s' s'') : Requeued s s'' := by
  refine ⟨fun t => ?_, fun k => ?_, fun c => ?_, h'.schedInit.trans h.schedInit,
    h'.nsSinceBoot.trans h.nsSinceBoot, h'.nextWakeupNs.trans h.nextWakeupNs,
    h'.firstWaitingTimer.trans h.firstWaitingTimer⟩
  · obtain ⟨n, hn⟩ := h.thr t
    obtain ⟨n', hn'⟩ := h'.thr t
    exact ⟨n', by rw [hn', hn]⟩
  · exact ⟨(h'.sem k).1.trans (h.sem k).1, (h'.sem k).2.trans (h.sem k).2⟩
  · rcases h.clot c with ⟨h1, h2⟩ | ⟨cl, nexts, h1, h2, h3⟩
    · rcases h'.clot c with ⟨h4, -⟩ | ⟨cl', -, h4, -⟩
      · exact Or.inl ⟨h4, h2⟩
      · rw [h1] at h4
        simp at h4
    · rcases h'.clot c with ⟨-, h4⟩ | ⟨cl', nexts', h4, h5, h6⟩
      · rw [h2] at h4
        simp at h4
      · rw [h2] at h4
        obtain rfl := Option.some.inj h4
        exact Or.inr ⟨cl, nexts', h1, h5, h6.trans h3⟩

theorem setSem (h : Requeued s s') (k : Nat) {f : Sem → Sem}
    (hf : ∀ x, (f x).count = x.count ∧ (f x).max = x.max) : Requeued s (s'.setSem k f) := by
  refine ⟨h.thr, fun j => ?_, h.clot, h.schedInit, h.nsSinceBoot, h.nextWakeupNs,
    h.firstWaitingTimer⟩
  by_cases hj : j = k
  · subst hj
    simpa using ⟨(hf _).1.trans (h.sem j).1, (hf _).2.trans (h.sem j).2⟩
  · simpa [hj] using h.sem j

theorem ownerOf (h : Requeued s s') (w : WaitObj) : ownerOf s' w = ownerOf s w := by
  cases w with
  | thread t => rfl
  | clot c =>
    rcases h.clot c with ⟨h1, h2⟩ | ⟨cl, nexts, h1, h2, -⟩ <;> simp [Sync.ownerOf, h1, h2]

theorem linkable (h : Requeued s s') {k : Nat} {w : WaitObj} (hw : Linkable s k w) :
    Linkable s' k w := by
  cases w with
  | thread t => trivial
  | clot c =>
    obtain ⟨cl, i, hc, hi, hlt⟩ := hw
    rcases h.clot c with ⟨-, h2⟩ | ⟨cl', nexts, h1, h2, h3⟩
    · rw [hc] at h2
      simp at h2
    · rw [hc] at h1
      obtain rfl := Option.some.inj h1
      exact ⟨_, i, h2, hi, by simpa [h3] using hlt⟩

end Requeued

/-- Assigning a successor on the list of `k`. -/
structure NextSet (s : Kernel) (k : Nat) (w : WaitObj) (next : Option WaitObj) (s' : Kernel) :
    Prop where
  requeued : Requeued s s'
  sem : s'.sem = s.sem
  self : nextIn s' k w = next
  other : ∀ k' w', w' ≠ w → nextIn s' k' w' = nextIn s k' w'
  /-- A clot keeps its successors on the other lists. -/
  clot : ∀ k' c, w = .clot c → k' ≠ k → nextIn s' k' w = nextIn s k' w

theorem setNextOf_spec {s : Kernel} {k : Nat} {w : WaitObj} (h : Linkable s k w)
    (next : Option WaitObj) : ∃ s', setNextOf s k w next = .ok s' ∧ NextSet s k w next s' := by
  cases w with
  | thread t =>
    refine ⟨_, rfl, ⟨?_, ?_, ?_, ?_, ?_, ?_, ?_⟩, rfl, by simp [nextIn], ?_, by simp⟩
    · intro u
      by_cases hu : u = t
      · subst hu
        exact ⟨next, by simp⟩
      · exact ⟨_, by simp [hu]; rfl⟩
    · exact fun _ => ⟨rfl, rfl⟩
    · exact (Requeued.refl s).clot
    all_goals first | rfl | skip
    rintro k' (u | c) hu
    · have hut : u ≠ t := fun hut => hu (by rw [hut])
      simp [nextIn, hut]
    · rfl
  | clot c =>
    obtain ⟨cl, i, hc, hi, hlt⟩ := h
    have heq : setNextOf s k (.clot c) next =
        .ok (s.setClot c (some { cl with nexts := cl.nexts.set i next })) := by
      simp only [setNextOf, getClot, hc]
      show (match lookupClotIndex cl.sems k with
        | none => Except.error Fault.badIndex
        | some i => if i < cl.nexts.length then
            .ok (s.setClot c (some { cl with nexts := cl.nexts.set i next }))
          else .error .badIndex) = _
      simp only [hi, hlt, if_true]
    refine ⟨_, heq, ⟨?_, ?_, ?_, rfl, rfl, rfl, rfl⟩, rfl, ?_, ?_, ?_⟩
    · exact fun u => ⟨_, rfl⟩
    · exact fun _ => ⟨rfl, rfl⟩
    · intro c'
      by_cases hcc : c' = c
      · subst hcc
        exact Or.inr ⟨cl, _, hc, by simp; rfl, by simp⟩
      · simpa [hcc] using (Requeued.refl s).clot c'
    · simp [nextIn, hi, hlt]
    · rintro k' (u | c') hu
      · rfl
      · have hcc : c' ≠ c := fun hcc => hu (by rw [hcc])
        simp [nextIn, hcc]
    · intro k' c' hcc hk
      obtain rfl : c = c' := by simpa using hcc
      simp only [nextIn, Kernel.setClot, Function.update_self, hc]
      cases hj : lookupClotIndex cl.sems k' with
      | none => rfl
      | some j =>
        -- two semaphores have two entries
        have hij : i ≠ j := by
          rintro rfl
          have h1 := lookupClotIndex_eq_some hi
          rw [lookupClotIndex_eq_some hj] at h1
          exact hk (Option.some.inj h1)
        simp only [List.getElem?_set_ne hij]

/-! ## The lists -/

structure Queues (s : Kernel) (q : Nat → List WaitObj) : Prop where
  chain : ∀ k, Chain (nextIn s k) (s.sem k).waitingListStart (q k)
  last : ∀ k, (s.sem k).waitingListEnd = (q k).getLast?
  linkable : ∀ k, ∀ w ∈ q k, Linkable s k w
  bare : ∀ k k' t, .thread t ∈ q k → .thread t ∈ q k' → k = k'
  owners : ∀ k w w', w ∈ q k → w' ∈ q k → ownerOf s w = ownerOf s w' → w = w'

theorem Queues.nodup {s : Kernel} {q : Nat → List WaitObj} (h : Queues s q) (k : Nat) :
    (q k).Nodup := (h.chain k).nodup

/-- The lists after `w` has been taken off the list of `k`. -/
theorem Queues.erase {s s' : Kernel} {q : Nat → List WaitObj} {k : Nat} {w : WaitObj}
    (h : Queues s q) (hr : Requeued s s')
    (hchain : Chain (nextIn s' k) (s'.sem k).waitingListStart ((q k).erase w))
    (hlast : (s'.sem k).waitingListEnd = ((q k).erase w).getLast?)
    (hother : ∀ k', k' ≠ k → s'.sem k' = s.sem k')
    (hnext : ∀ k', k' ≠ k → ∀ v ∈ q k', nextIn s' k' v = nextIn s k' v) :
    Queues s' (Function.update q k ((q k).erase w)) := by
  have hsub : ∀ k' v, v ∈ Function.update q k ((q k).erase w) k' → v ∈ q k' := by
    intro k' v hv
    by_cases hk : k' = k
    · subst hk
      rw [Function.update_self] at hv
      exact List.mem_of_mem_erase hv
    · rwa [Function.update_of_ne hk] at hv
  refine ⟨fun k' => ?_, fun k' => ?_, fun k' v hv => ?_, fun k1 k2 t h1 h2 => ?_,
    fun k' v v' hv hv' ho => ?_⟩
  · by_cases hk : k' = k
    · subst hk
      rwa [Function.update_self]
    · rw [Function.update_of_ne hk, hother k' hk]
      exact Chain.congr (hnext k' hk) (h.chain k')
  · by_cases hk : k' = k
    · subst hk
      rwa [Function.update_self]
    · rw [Function.update_of_ne hk, hother k' hk]
      exact h.last k'
  · exact hr.linkable (h.linkable k' v (hsub k' v hv))
  · exact h.bare k1 k2 t (hsub _ _ h1) (hsub _ _ h2)
  · rw [hr.ownerOf, hr.ownerOf] at ho
    exact h.owners k' v v' (hsub _ _ hv) (hsub _ _ hv') ho

/-! ## Taking an object off -/

section Found

variable {s : Kernel} {q : Nat → List WaitObj} {k : Nat} {a b : List WaitObj} {prev v : WaitObj}

/-- Without `v` the list is that of the objects before and behind it. -/
theorem Queues.erase_found (h : Queues s q) (hq : q k = a ++ prev :: v :: b) :
    (q k).erase v = a ++ prev :: b := by
  have hnd : ((a ++ [prev]) ++ v :: b).Nodup := by simpa [hq] using h.nodup k
  have hva : v ∉ a ++ [prev] := fun hva => (List.nodup_append.mp hnd).2.2 v hva v (by simp) rfl
  rw [hq, show a ++ prev :: v :: b = (a ++ [prev]) ++ v :: b by simp,
    List.erase_append_right _ hva, List.erase_cons_head]
  simp

/-- The end of the list is `v` if nothing is behind it. -/
theorem Queues.last_found (h : Queues s q) (hq : q k = a ++ prev :: v :: b) :
    (s.sem k).waitingListEnd = some v ↔ b = [] := by
  have hnd := h.nodup k
  rw [hq] at hnd
  rw [h.last k, hq]
  rcases List.eq_nil_or_concat b with rfl | ⟨b', z, rfl⟩
  · simp
  · have hvz : v ≠ z := by
      rintro rfl
      simp [List.nodup_append] at hnd
    rw [List.concat_eq_append, show a ++ prev :: v :: (b' ++ [z]) =
      (a ++ prev :: v :: b') ++ [z] by simp, List.getLast?_concat]
    simp [Ne.symm hvz]

/-- The object before `v` is linked with the one behind it, and other lists do not see it. -/
theorem Queues.unlink_found (h : Queues s q) (hq : q k = a ++ prev :: v :: b) {s1 : Kernel}
    (hset : NextSet s k prev (nextIn s k v) s1) :
    Chain (nextIn s1 k) (s1.sem k).waitingListStart ((q k).erase v) ∧
      ∀ k', k' ≠ k → ∀ u ∈ q k', nextIn s1 k' u = nextIn s k' u := by
  have hchain := h.chain k
  rw [hq] at hchain
  have hprev : prev ∈ q k := by simp [hq]
  constructor
  · rw [h.erase_found hq, hset.sem]
    refine Chain.remove_after hchain ?_ fun u hup _ => hset.other k u hup
    rw [hset.self]
  · intro k' hk u hu
    by_cases hup : u = prev
    · subst hup
      cases u with
      | thread t' => exact absurd (h.bare k' k t' hu hprev) hk
      | clot c => exact hset.clot k' c rfl hk
    · exact hset.other k' u hup

/-- The round that finds the object. -/
theorem Queues.cleanup_found (h : Queues s q) (hq : q k = a ++ prev :: v :: b) {s1 : Kernel}
    (hset : NextSet s k prev (nextIn s k v) s1) (e : Fault → Prop) :
    Ends (if (s1.sem k).waitingListEnd = some v then
        .ok (s1.setSem k fun sem => { sem with waitingListEnd := some prev })
      else .ok s1)
      (fun s' => Queues s' (Function.update q k ((q k).erase v)) ∧ Requeued s s') e := by
  obtain ⟨hrem, hother⟩ := h.unlink_found hq hset
  have hlast := h.last_found hq
  rw [hset.sem]
  split
  · next he =>
    have hb' := hlast.mp he
    subst hb'
    refine ⟨h.erase (hset.requeued.setSem k fun _ => ⟨rfl, rfl⟩) ?_ ?_ ?_ ?_,
      hset.requeued.setSem k fun _ => ⟨rfl, rfl⟩⟩
    · rw [nextIn_setSem, setSem_sem_self]
      exact hrem
    · rw [h.erase_found hq]
      simp
    · intro k' hk
      simp [hk, hset.sem]
    · exact hother
  · next he =>
    refine ⟨h.erase hset.requeued hrem ?_ ?_ hother, hset.requeued⟩
    · rw [h.erase_found hq, hset.sem, h.last k, hq]
      cases b with
      | nil => exact absurd (hlast.mpr rfl) he
      | cons u b => simp [List.getLast?_append, List.getLast?_cons]
    · intro k' _
      rw [hset.sem]

end Found

/-- The invariant of the loop: `a ++ [prev]` has been passed, and `b` is left. -/
theorem cleanupFrom_spec {s : Kernel} {q : Nat → List WaitObj} {k t : Nat} {w : WaitObj}
    (h : Queues s q) (hw : ownerOf s w = t) : ∀ (b a : List WaitObj) (prev : WaitObj)
    (fuel : Nat), q k = a ++ prev :: b → w ∈ b →
    Ends (cleanupFrom s k t fuel prev b.head?)
      (fun s' => Queues s' (Function.update q k ((q k).erase w)) ∧ Requeued s s')
      (fun e => e = .outOfFuel ∧ fuel ≤ b.length) := by
  intro b
  induction b with
  | nil =>
    intro a prev fuel hq hb
    simp at hb
  | cons v b ih =>
    intro a prev fuel hq hb
    cases fuel with
    | zero => simp [cleanupFrom]
    | succ fuel =>
      have hv : v ∈ q k := by simp [hq]
      have hwq : w ∈ q k := by
        rw [hq]
        exact List.mem_append_right _ (List.mem_cons_of_mem _ hb)
      have hchain := h.chain k
      rw [hq] at hchain
      have hnext : nextIn s k v = b.head? := by
        obtain ⟨-, -, h2⟩ := chain_append_cons.mp hchain
        exact Chain.head_eq h2
      unfold cleanupFrom
      rw [List.head?_cons]
      simp only [waiterOf_eq (h.linkable k v hv), nextOf_eq (h.linkable k v hv)]
      show Ends (if ownerOf s v = t then _ else _) _ _
      split
      · next hvt =>
        obtain rfl : v = w := h.owners k v w hv hwq (by rw [hvt, hw])
        have hprev : prev ∈ q k := by simp [hq]
        obtain ⟨s1, hs1, hset⟩ := setNextOf_spec (h.linkable k prev hprev) (nextIn s k v)
        rw [hs1]
        exact h.cleanup_found hq hset _
      · next hvt =>
        rw [hnext]
        have hwb : w ∈ b := by
          rcases List.mem_cons.mp hb with rfl | hb
          · exact absurd hw hvt
          · exact hb
        refine (ih (a ++ [prev]) v fuel (by simpa using hq) hwb).mono (fun _ h => h)
          fun e he => ⟨he.1, by simpa using he.2⟩

theorem cleanupOne_spec {s : Kernel} {q : Nat → List WaitObj} {k t : Nat} {w : WaitObj}
    (h : Queues s q) (hw : ownerOf s w = t) (hwq : w ∈ q k) (fuel : Nat) :
    Ends (cleanupOne fuel s k t)
      (fun s' => Queues s' (Function.update q k ((q k).erase w)) ∧ Requeued s s')
      (fun e => e = .outOfFuel ∧ fuel ≤ (q k).length) := by
  have hchain := h.chain k
  cases hq : q k with
  | nil => simp [hq] at hwq
  | cons head b =>
    rw [hq] at hchain
    have hhead : head ∈ q k := by simp [hq]
    have hnext : nextIn s k head = b.head? := Chain.head_eq hchain.2
    have hstart := hchain.1
    unfold cleanupOne
    rw [hstart]
    simp only [waiterOf_eq (h.linkable k head hhead), nextOf_eq (h.linkable k head hhead)]
    show Ends (if ownerOf s head = t then _ else _) _ _
    split
    · next ht =>
      obtain rfl : head = w := h.owners k head w hhead hwq (by rw [ht, hw])
      have herase : (q k).erase head = b := by simp [hq]
      have hr : Requeued s (s.setSem k fun sem =>
          { sem with
            waitingListStart := nextIn s k head
            waitingListEnd := if nextIn s k head = none then none else sem.waitingListEnd }) :=
        (Requeued.refl s).setSem k fun _ => ⟨rfl, rfl⟩
      rw [← hq]
      refine ⟨h.erase hr ?_ ?_ ?_ ?_, hr⟩
      · rw [herase, nextIn_setSem, setSem_sem_self]
        exact hchain.2
      · rw [herase]
        simp only [setSem_sem_self, hnext, h.last k, hq]
        cases b with
        | nil => simp
        | cons u b => simp [List.getLast?_cons]
      · intro k' hk
        simp [hk]
      · exact fun _ _ _ _ => rfl
    · next ht =>
      have hwb : w ∈ b := by
        rw [hq] at hwq
        rcases List.mem_cons.mp hwq with rfl | hwb
        · exact absurd hw ht
        · exact hwb
      rw [hnext, ← hq]
      refine (cleanupFrom_spec h hw b [] head fuel hq hwb).mono (fun _ h => h)
        fun e he => ⟨he.1, ?_⟩
      have := he.2
      simp [hq]
      omega

/-- `CleanupAfterSem` takes `w` off the lists of all the semaphores in `sems`. -/
theorem cleanupAfterSem_spec {t n : Nat} {w : WaitObj} {fuel : Nat} : ∀ {sems : List Nat}
    {s : Kernel} {q : Nat → List WaitObj}, Queues s q → ownerOf s w = t → sems.Nodup →
    (∀ k ∈ sems, w ∈ q k) → (∀ k, (q k).length ≤ n) →
    Ends (cleanupAfterSem fuel s t sems)
      (fun s' => Queues s' (fun k => if k ∈ sems then (q k).erase w else q k) ∧ Requeued s s')
      (fun e => e = .outOfFuel ∧ fuel ≤ n)
  | [], s, q, h, _, _, _, _ => by
    refine ⟨?_, Requeued.refl s⟩
    simpa using h
  | k :: sems, s, q, h, hw, hnd, hmem, hn => by
    obtain ⟨hk, hnd⟩ := List.nodup_cons.mp hnd
    unfold cleanupAfterSem
    refine ((cleanupOne_spec h hw (hmem k (by simp)) fuel).mono (fun _ h => h)
      fun e he => ⟨he.1, Nat.le_trans he.2 (hn k)⟩).bind ?_
    rintro s1 ⟨h1, hr1⟩
    refine (cleanupAfterSem_spec h1 (by rw [hr1.ownerOf, hw]) hnd ?_ ?_).mono ?_ fun _ h => h
    · intro k' hk'
      have hkk : k' ≠ k := fun hkk => hk (hkk ▸ hk')
      rw [Function.update_of_ne hkk]
      exact hmem k' (by simp [hk'])
    · intro k'
      by_cases hkk : k' = k
      · subst hkk
        rw [Function.update_self]
        exact Nat.le_trans List.length_erase_le (hn k')
      · rw [Function.update_of_ne hkk]
        exact hn k'
    · rintro s2 ⟨h2, hr2⟩
      refine ⟨?_, hr1.trans hr2⟩
      have hfun : (fun k' => if k' ∈ sems then
          (Function.update q k ((q k).erase w) k').erase w
          else Function.update q k ((q k).erase w) k') =
          fun k' => if k' ∈ k :: sems then (q k').erase w else q k' := by
        funext k'
        by_cases hkk : k' = k
        · subst hkk
          simp [hk]
        · simp [hkk]
      rw [← hfun]
      exact h2

/-! ## Adding an object -/

/-- The object is linked behind the last one of the list; the list itself is not changed yet. -/
theorem linkLast_spec {s : Kernel} {q : Nat → List WaitObj} {k : Nat} {w : WaitObj}
    (h : Queues s q) (hwk : w ∉ q k) (hnext : nextIn s k w = none) :
    ∃ s1, linkLast s w k = .ok s1 ∧ s1.sem = s.sem ∧ Requeued s s1 ∧
      (∀ k', nextIn s1 k' w = nextIn s k' w) ∧
      (∀ k', k' ≠ k → ∀ u ∈ q k', nextIn s1 k' u = nextIn s k' u) ∧
      Chain (nextIn s1 k) ((s.sem k).waitingListStart.orElse fun _ => some w) (q k ++ [w]) := by
  have hchain := h.chain k
  unfold linkLast
  rw [h.last k]
  rcases List.eq_nil_or_concat (q k) with hq | ⟨l, z, hq⟩
  · rw [hq] at hchain ⊢
    refine ⟨s, rfl, rfl, Requeued.refl s, fun _ => rfl, fun _ _ _ _ => rfl, ?_⟩
    rw [chain_nil.mp hchain]
    exact ⟨rfl, hnext⟩
  · rw [List.concat_eq_append] at hq
    have hz : z ∈ q k := by simp [hq]
    have hwz : w ≠ z := fun hwz => hwk (hwz ▸ hz)
    obtain ⟨s1, hs1, hset⟩ := setNextOf_spec (h.linkable k z hz) (some w)
    rw [hq, List.getLast?_concat]
    refine ⟨s1, hs1, hset.sem, hset.requeued, fun k' => hset.other k' w hwz, ?_, ?_⟩
    · intro k' hk u hu
      by_cases huz : u = z
      · subst huz
        cases u with
        | thread t => exact absurd (h.bare k' k t hu hz) hk
        | clot c => exact hset.clot k' c rfl hk
      · exact hset.other k' u huz
    · rw [hq] at hchain
      have hstart : (s.sem k).waitingListStart ≠ none := by
        intro hn
        have := (hchain.start_eq_none_iff).mp hn
        simp at this
      obtain ⟨x, hx⟩ := Option.ne_none_iff_exists'.mp hstart
      rw [hx] at hchain ⊢
      rw [List.append_assoc]
      refine Chain.push_back hchain (hq ▸ hwk) hset.self ?_ fun u huz _ => hset.other k u huz
      rw [hset.other k w hwz, hnext]

theorem enqueue_spec {s : Kernel} {q : Nat → List WaitObj} {k : Nat} {w : WaitObj}
    (h : Queues s q) (hwk : w ∉ q k) (hlink : Linkable s k w) (hnext : nextIn s k w = none)
    (hbare : ∀ t, w = .thread t → ∀ k', w ∉ q k')
    (howner : ∀ v ∈ q k, ownerOf s v ≠ ownerOf s w) :
    ∃ s', enqueue s w k = .ok s' ∧ Queues s' (Function.update q k (q k ++ [w])) ∧
      Requeued s s' ∧ ∀ k', nextIn s' k' w = nextIn s k' w := by
  have hmem : ∀ k' v, v ∈ Function.update q k (q k ++ [w]) k' → v ∈ q k' ∨ k' = k ∧ v = w := by
    intro k' v hv
    by_cases hk : k' = k
    · subst hk
      rw [Function.update_self] at hv
      rcases List.mem_append.mp hv with hv | hv
      · exact Or.inl hv
      · exact Or.inr ⟨rfl, List.mem_singleton.mp hv⟩
    · rw [Function.update_of_ne hk] at hv
      exact Or.inl hv
  obtain ⟨s1, hs1, hsem, hr, hself, hother, hchain⟩ := linkLast_spec h hwk hnext
  have hr' : Requeued s (s1.setSem k fun sem =>
      { sem with
        waitingListEnd := some w
        waitingListStart := if sem.waitingListStart = none then some w
          else sem.waitingListStart }) := hr.setSem k fun _ => ⟨rfl, rfl⟩
  refine ⟨_, ?_, ⟨fun k' => ?_, fun k' => ?_, fun k' v hv => ?_, fun k1 k2 t h1 h2 => ?_,
    fun k' v v' hv hv' ho => ?_⟩, hr', hself⟩
  · unfold enqueue
    rw [hs1]
    rfl
  · by_cases hk : k' = k
    · subst hk
      rw [Function.update_self]
      simp only [nextIn_setSem, setSem_sem_self, hsem]
      refine Eq.subst (motive := fun x => Chain _ x _) ?_ hchain
      cases (s.sem k').waitingListStart <;> simp
    · rw [Function.update_of_ne hk]
      rw [nextIn_setSem, setSem_sem_ne hk, hsem]
      exact Chain.congr (hother k' hk) (h.chain k')
  · by_cases hk : k' = k
    · subst hk
      rw [Function.update_self]
      simp
    · rw [Function.update_of_ne hk]
      rw [setSem_sem_ne hk, hsem]
      exact h.last k'
  · rcases hmem k' v hv with hv | ⟨rfl, rfl⟩
    · exact hr'.linkable (h.linkable k' v hv)
    · exact hr'.linkable hlink
  · rcases hmem _ _ h1 with h1 | ⟨hk1, hw1⟩ <;> rcases hmem _ _ h2 with h2 | ⟨hk2, hw2⟩
    · exact h.bare k1 k2 t h1 h2
    · exact absurd (hw2 ▸ h1) (hbare t hw2.symm k1)
    · exact absurd (hw1 ▸ h2) (hbare t hw1.symm k2)
    · rw [hk1, hk2]
  · rw [hr'.ownerOf, hr'.ownerOf] at ho
    rcases hmem _ _ hv with h1 | ⟨hk1, hw1⟩ <;> rcases hmem _ _ hv' with h2 | ⟨hk2, hw2⟩
    · exact h.owners k' v v' h1 h2 ho
    · subst hk2 hw2
      exact absurd ho (howner v h1)
    · subst hk1 hw1
      exact absurd ho.symm (howner v' h2)
    · rw [hw1, hw2]

/-- The loop of `AddThreadToSemQueues` puts `w` at the end of the list of each semaphore. -/
theorem enqueueAll_spec {w : WaitObj} : ∀ (sems : List Nat) {s : Kernel}
    {q : Nat → List WaitObj}, Queues s q → sems.Nodup → (∀ k ∈ sems, w ∉ q k) →
    (∀ k ∈ sems, Linkable s k w) → (∀ k ∈ sems, nextIn s k w = none) →
    (∀ t, w = .thread t → sems.length ≤ 1 ∧ (sems ≠ [] → ∀ k, w ∉ q k)) →
    (∀ k ∈ sems, ∀ v ∈ q k, ownerOf s v ≠ ownerOf s w) →
    ∃ s', enqueueAll s w sems = .ok s' ∧
      Queues s' (fun k => if k ∈ sems then q k ++ [w] else q k) ∧ Requeued s s'
  | [], s, q, h, _, _, _, _, _, _ => ⟨s, rfl, by simpa using h, Requeued.refl s⟩
  | k :: sems, s, q, h, hnd, hwk, hlink, hnext, hbare, howner => by
    obtain ⟨hk, hnd⟩ := List.nodup_cons.mp hnd
    obtain ⟨s1, hs1, h1, hr1, hself⟩ := enqueue_spec h (hwk k (by simp)) (hlink k (by simp))
      (hnext k (by simp)) (fun t ht => (hbare t ht).2 (by simp))
      (howner k (by simp))
    have hupd : ∀ k' ∈ sems, Function.update q k (q k ++ [w]) k' = q k' := by
      intro k' hk'
      refine Function.update_of_ne ?_ _ _
      rintro rfl
      exact hk hk'
    have hsub : ∀ k' ∈ sems, k' ∈ k :: sems := fun k' hk' => List.mem_cons_of_mem _ hk'
    obtain ⟨s2, hs2, h2, hr2⟩ := enqueueAll_spec sems h1 hnd
      (fun k' hk' => by rw [hupd k' hk']; exact hwk k' (hsub k' hk'))
      (fun k' hk' => hr1.linkable (hlink k' (hsub k' hk')))
      (fun k' hk' => by rw [hself]; exact hnext k' (hsub k' hk'))
      (fun t ht => by
        obtain ⟨hlen, hno⟩ := hbare t ht
        have hnil : sems = [] := by
          cases sems with
          | nil => rfl
          | cons _ _ => simp at hlen
        exact ⟨by simp [hnil], fun hne => absurd hnil hne⟩)
      (fun k' hk' v hv => by
        rw [hupd k' hk'] at hv
        rw [hr1.ownerOf, hr1.ownerOf]
        exact howner k' (hsub k' hk') v hv)
    refine ⟨s2, ?_, ?_, hr1.trans hr2⟩
    · unfold enqueueAll
      rw [hs1]
      exact hs2
    · have hfun : (fun k' => if k' ∈ sems then Function.update q k (q k ++ [w]) k' ++ [w]
          else Function.update q k (q k ++ [w]) k') =
          fun k' => if k' ∈ k :: sems then q k' ++ [w] else q k' := by
        funext k'
        by_cases hkk : k' = k
        · subst hkk
          simp [hk]
        · simp [hkk]
      rw [← hfun]
      exact h2

end Nolrem.Sync
