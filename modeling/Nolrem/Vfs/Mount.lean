import Mathlib.Data.List.Nodup
import Nolrem.Lib.Transition
import Nolrem.Vfs.Name

/-!
# Mounted devices and filesystems

`Mount` and `Unmount` of `kernel/vfs/vfs.c`, with `CreateFile` and `CleanupFile` of
`kernel/vfs/file.c`. What `AcquireMutex` and `AllocHeap` answer is an argument of a call.
-/

namespace Nolrem.Vfs

open Nolrem.Lib

/-! ## The code -/

/-- `struct mounted_file` and its address -/
structure MountedFile where
  addr : Nat
  node : Nat
  name : Name
deriving DecidableEq, Repr

/-- `struct file`, as far as a mount uses it -/
structure File where
  refs : Nat
  node : Nat
deriving DecidableEq, Repr

/-- `allocs` is what `AllocHeap` returned so far, and `frees` what `FreeHeap` was given. -/
structure MountState where
  mountedFileList : List MountedFile
  files : Nat → File
  refs : Nat → Nat
  allocs : List Nat
  frees : List Nat
  /-- `RefObject(NULL)` -/
  crashed : Bool

/-- What `AcquireMutex` returns, and the calls of `AllocHeap` for the entry and for its file. -/
structure MountAnswers where
  lock : Nat
  entry : Option Nat
  file : Option Nat

/-- `GetMountPointFromName` -/
def getMountPointFromName (l : List MountedFile) (name : Name) : Option MountedFile :=
  l.find? fun m => m.name = name

/-- `CreateFile`, where `AllocHeap` returned `file` -/
def createFile (st : MountState) (file node : Nat) : MountState :=
  { st with
    files := Function.update st.files file { refs := 1, node }
    refs := refObject st.refs node
    allocs := file :: st.allocs }

/-- `RefObject` on a file -/
def refFile (st : MountState) (file : Nat) : MountState :=
  { st with
    files := Function.update st.files file
      { st.files file with refs := (st.files file).refs + 1 } }

/-- `DerefObject` on a file, with `CleanupFile` -/
def derefFile (st : MountState) (file : Nat) : MountState :=
  let st' := { st with
    files := Function.update st.files file
      { st.files file with refs := (st.files file).refs - 1 } }
  if (st'.files file).refs = 0 then
    { st' with refs := derefObject st.refs (st.files file).node, frees := file :: st.frees }
  else st'

/-- `Mount` -/
def mount (st : MountState) (ans : MountAnswers) (node : Nat) (name : Option Name) :
    MountState × Nat :=
  match name with
  | none => (st, einval)
  | some name =>
    if node = 0 then (st, einval)
    else if maxComponentLength ≤ name.length then (st, enametoolong)
    else if checkValidComponentName name ≠ 0 then (st, checkValidComponentName name)
    else if ans.lock ≠ 0 then (st, ans.lock)
    else if (getMountPointFromName st.mountedFileList name).isSome then (st, eexist)
    else
      match ans.entry, ans.file with
      | none, _ => (st, enomem)
      | some addr, none =>
        ({ st with
            mountedFileList := { addr, node := 0, name } :: st.mountedFileList
            allocs := addr :: st.allocs
            crashed := true }, 0)
      | some addr, some file =>
        let st' := createFile { st with allocs := addr :: st.allocs } file node
        (refFile { st' with
          mountedFileList := { addr, node := file, name } :: st.mountedFileList } file, 0)

/-- The vnode that a name stands for -/
def mountedNode (st : MountState) (name : Name) : Option Nat :=
  (getMountPointFromName st.mountedFileList name).map fun m => (st.files m.node).node

/-- `offsetof(struct mounted_file, name)` -/
def nameOffset : Nat := 8

/-- `Unmount` -/
def unmount (st : MountState) (lock : Nat) (name : Option Name) : MountState × Nat :=
  match name with
  | none => (st, einval)
  | some name =>
    if checkValidComponentName name ≠ 0 then (st, einval)
    else if lock ≠ 0 then (st, lock)
    else
      match getMountPointFromName st.mountedFileList name with
      | none => (st, enodev)
      | some actual =>
        let st' := derefFile st actual.node
        ({ st' with
            mountedFileList := st.mountedFileList.eraseP fun m => m.addr = actual.addr
            frees := actual.addr :: (actual.addr + nameOffset) :: st'.frees }, 0)

/-! ## Runs -/

/-- `ledger` is what is mounted, and `unmounted` the nodes of all successful calls of `Unmount`. -/
structure MountRun where
  vfs : MountState
  ledger : List (Name × Nat)
  unmounted : List Nat
  held : Nat → Nat

/-- `AllocHeap` returns blocks that are not in use. -/
structure Fresh (st : MountState) (ans : MountAnswers) : Prop where
  entry : ∀ addr, ans.entry = some addr → ∀ m ∈ st.mountedFileList, m.addr ≠ addr
  file : ∀ file, ans.file = some file → file ≠ 0 ∧ ∀ m ∈ st.mountedFileList, m.node ≠ file

/-- A call, or a reference to a vnode that somebody takes or drops. -/
inductive MountStep : MountRun → MountRun → Prop where
  | refused (r : MountRun) (ans : MountAnswers) (node : Nat) (name : Option Name)
      (hup : r.vfs.crashed = false) (h : (mount r.vfs ans node name).2 ≠ 0) :
      MountStep r { r with vfs := (mount r.vfs ans node name).1 }
  | mounted (r : MountRun) (ans : MountAnswers) (node : Nat) (name : Name)
      (hup : r.vfs.crashed = false) (hfresh : Fresh r.vfs ans)
      (h : (mount r.vfs ans node (some name)).2 = 0) :
      MountStep r { r with
        vfs := (mount r.vfs ans node (some name)).1
        ledger := (name, node) :: r.ledger }
  | unmountRefused (r : MountRun) (lock : Nat) (name : Option Name)
      (hup : r.vfs.crashed = false) (h : (unmount r.vfs lock name).2 ≠ 0) :
      MountStep r { r with vfs := (unmount r.vfs lock name).1 }
  | unmounted (r : MountRun) (lock : Nat) (name : Name)
      (hup : r.vfs.crashed = false) (h : (unmount r.vfs lock (some name)).2 = 0) :
      MountStep r { r with
        vfs := (unmount r.vfs lock (some name)).1
        ledger := r.ledger.eraseP fun p => p.1 = name
        unmounted := (mountedNode r.vfs name).toList ++ r.unmounted }
  | hold (r : MountRun) (node : Nat) (hup : r.vfs.crashed = false) :
      MountStep r { r with
        vfs.refs := refObject r.vfs.refs node
        held := refObject r.held node }
  | drop (r : MountRun) (node : Nat) (hup : r.vfs.crashed = false) (h : 0 < r.held node) :
      MountStep r { r with
        vfs.refs := derefObject r.vfs.refs node
        held := derefObject r.held node }

/-- `InitVfs`, where the vnodes have some references already -/
def initVfs (files : Nat → File) (held : Nat → Nat) : MountRun :=
  { vfs :=
      { mountedFileList := [], files, refs := held, allocs := [], frees := [], crashed := false }
    ledger := []
    unmounted := []
    held }

/-! ## What one call does -/

section Calls

variable {st : MountState} {ans : MountAnswers} {node lock : Nat} {name : Option Name}

/-- A refused call changes nothing. -/
theorem mount_of_ne_zero (h : (mount st ans node name).2 ≠ 0) :
    (mount st ans node name).1 = st := by
  unfold mount at h ⊢
  cases name with
  | none => rfl
  | some name =>
    simp only at h ⊢
    split
    · rfl
    · split
      · rfl
      · split
        · rfl
        · split
          · rfl
          · split
            · rfl
            · next h1 h2 h3 h4 h5 =>
              rw [if_neg h1, if_neg h2, if_neg h3, if_neg h4, if_neg h5] at h
              split at h <;> first | rfl | exact absurd rfl h

theorem unmount_of_ne_zero (h : (unmount st lock name).2 ≠ 0) : (unmount st lock name).1 = st := by
  unfold unmount at h ⊢
  cases name with
  | none => rfl
  | some name =>
    simp only at h ⊢
    split
    · rfl
    · split
      · rfl
      · next h1 h2 =>
        rw [if_neg h1, if_neg h2] at h
        cases hget : getMountPointFromName st.mountedFileList name with
        | none => rfl
        | some actual =>
          rw [hget] at h
          exact absurd rfl h

/-- A call of `Mount` that comes to its end. -/
theorem mount_of_zero {name : Name} (h : (mount st ans node (some name)).2 = 0) :
    node ≠ 0 ∧ getMountPointFromName st.mountedFileList name = none ∧ ∃ addr,
      ans.entry = some addr ∧
      (ans.file = none ∧ (mount st ans node (some name)).1 =
        { st with
          mountedFileList := { addr, node := 0, name } :: st.mountedFileList
          allocs := addr :: st.allocs
          crashed := true } ∨
      ∃ file, ans.file = some file ∧ (mount st ans node (some name)).1 =
        { st with
          mountedFileList := { addr, node := file, name } :: st.mountedFileList
          files := Function.update st.files file { refs := 2, node }
          refs := refObject st.refs node
          allocs := file :: addr :: st.allocs }) := by
  unfold mount at h ⊢
  simp only at h ⊢
  split at h
  · cases h
  · next hnode =>
    split at h
    · cases h
    · next hlen =>
      split at h
      · next hvalid => exact absurd h hvalid
      · next hvalid =>
        split at h
        · next hlock => exact absurd h hlock
        · next hlock =>
          split at h
          · cases h
          · next hexists =>
            rw [if_neg hnode, if_neg hlen, if_neg hvalid, if_neg hlock, if_neg hexists]
            refine ⟨hnode, by simpa using hexists, ?_⟩
            cases hentry : ans.entry with
            | none => simp [hentry, enomem] at h
            | some addr =>
              refine ⟨addr, rfl, ?_⟩
              cases hfile : ans.file with
              | none => exact .inl ⟨rfl, rfl⟩
              | some file =>
                refine .inr ⟨file, rfl, ?_⟩
                simp [refFile, createFile]

/-- A call of `Unmount` that comes to its end. -/
theorem unmount_of_zero {name : Name} (h : (unmount st lock (some name)).2 = 0) :
    ∃ actual, getMountPointFromName st.mountedFileList name = some actual ∧
      (unmount st lock (some name)).1 =
        { derefFile st actual.node with
          mountedFileList := st.mountedFileList.eraseP fun m => m.addr = actual.addr
          frees := actual.addr :: (actual.addr + nameOffset) ::
            (derefFile st actual.node).frees } := by
  unfold unmount at h ⊢
  simp only at h ⊢
  split at h
  · cases h
  · next hvalid =>
    split at h
    · next hlock => exact absurd h hlock
    · next hlock =>
      rw [if_neg hvalid, if_neg hlock]
      cases hget : getMountPointFromName st.mountedFileList name with
      | none => simp [hget, enodev] at h
      | some actual => exact ⟨actual, rfl, rfl⟩

end Calls

/-! ## The invariant -/

/-- The list is the ledger, and `Unmount` lost a reference each time. -/
structure MountInv (r : MountRun) : Prop where
  names : (r.vfs.mountedFileList.map MountedFile.name).Nodup
  addrs : (r.vfs.mountedFileList.map MountedFile.addr).Nodup
  nodes : (r.vfs.mountedFileList.map MountedFile.node).Nodup
  node_ne : ∀ m ∈ r.vfs.mountedFileList, m.node ≠ 0
  file_refs : ∀ m ∈ r.vfs.mountedFileList, (r.vfs.files m.node).refs = 2
  ledger : r.ledger = r.vfs.mountedFileList.map fun m => (m.name, (r.vfs.files m.node).node)
  refs : ∀ n, r.vfs.refs n =
    r.held n + (r.ledger.map Prod.snd).count n + r.unmounted.count n
  frees : r.unmounted = [] → r.vfs.frees = []

section Invariant

variable {r r' : MountRun}

theorem mountInv_initVfs (files : Nat → File) (held : Nat → Nat) :
    MountInv (initVfs files held) := by
  refine ⟨List.nodup_nil, List.nodup_nil, List.nodup_nil, nofun, nofun, rfl, fun n => ?_,
    fun _ => rfl⟩
  simp [initVfs]

theorem getMountPointFromName_split {l : List MountedFile} {name : Name} {m : MountedFile}
    (h : getMountPointFromName l name = some m) :
    m.name = name ∧ ∃ as bs, l = as ++ m :: bs ∧ ∀ a ∈ as, a.name ≠ name := by
  obtain ⟨hm, as, bs, hl, has⟩ := List.find?_eq_some_iff_append.mp h
  exact ⟨by simpa using hm, as, bs, hl, fun a ha => by simpa using has a ha⟩

theorem MountInv.mounted {ans : MountAnswers} {node : Nat} {name : Name} (h : MountInv r)
    (hfresh : Fresh r.vfs ans) (hok : (mount r.vfs ans node (some name)).2 = 0)
    (hup : (mount r.vfs ans node (some name)).1.crashed = false) :
    MountInv { r with
      vfs := (mount r.vfs ans node (some name)).1
      ledger := (name, node) :: r.ledger } := by
  obtain ⟨-, hnew, addr, haddr, ⟨-, heq⟩ | ⟨file, hfile, heq⟩⟩ := mount_of_zero hok
  · rw [heq] at hup
    cases hup
  · rw [heq]
    have haddr' := hfresh.entry addr haddr
    obtain ⟨hne, hfile'⟩ := hfresh.file file hfile
    have hsame : ∀ m ∈ r.vfs.mountedFileList,
        Function.update r.vfs.files file { refs := 2, node } m.node = r.vfs.files m.node :=
      fun m hm => Function.update_of_ne (hfile' m hm) ..
    have hname : ∀ m ∈ r.vfs.mountedFileList, m.name ≠ name := fun m hm => by
      simpa using List.find?_eq_none.mp hnew m hm
    refine ⟨?_, ?_, ?_, ?_, ?_, ?_, fun n => ?_, h.frees⟩
    · exact List.nodup_cons.mpr ⟨fun hin => by
        obtain ⟨m, hm, hmn⟩ := List.mem_map.mp hin
        exact hname m hm hmn, h.names⟩
    · exact List.nodup_cons.mpr ⟨fun hin => by
        obtain ⟨m, hm, hma⟩ := List.mem_map.mp hin
        exact haddr' m hm hma, h.addrs⟩
    · exact List.nodup_cons.mpr ⟨fun hin => by
        obtain ⟨m, hm, hmn⟩ := List.mem_map.mp hin
        exact hfile' m hm hmn, h.nodes⟩
    · intro m hm
      rcases List.mem_cons.mp hm with rfl | hm
      · exact hne
      · exact h.node_ne m hm
    · intro m hm
      rcases List.mem_cons.mp hm with rfl | hm
      · simp only [Function.update_self]
      · show (Function.update r.vfs.files file _ m.node).refs = 2
        rw [hsame m hm]
        exact h.file_refs m hm
    · simp only [List.map_cons, Function.update_self, h.ledger, List.cons.injEq, true_and]
      exact List.map_congr_left fun m hm => by rw [hsame m hm]
    · have hrefs := h.refs n
      simp only [refObject_apply, List.map_cons, List.count_cons, beq_iff_eq]
      by_cases hn : n = node
      · subst hn
        simp only [if_true]
        omega
      · rw [if_neg hn, if_neg (Ne.symm hn)]
        omega

theorem MountInv.unmounted {lock : Nat} {name : Name} (h : MountInv r)
    (hok : (unmount r.vfs lock (some name)).2 = 0) :
    MountInv { r with
      vfs := (unmount r.vfs lock (some name)).1
      ledger := r.ledger.eraseP fun p => p.1 = name
      unmounted := (mountedNode r.vfs name).toList ++ r.unmounted } := by
  obtain ⟨actual, hget, heq⟩ := unmount_of_zero hok
  have hnode : mountedNode r.vfs name = some (r.vfs.files actual.node).node := by
    unfold mountedNode
    rw [hget]
    rfl
  rw [heq, hnode]
  obtain ⟨hname, as, bs, hl, has⟩ := getMountPointFromName_split hget
  have hin : actual ∈ r.vfs.mountedFileList := by
    rw [hl]
    simp
  -- the file has two references, so it stays, and with it the reference to the vnode
  have hderef : derefFile r.vfs actual.node = { r.vfs with
      files := Function.update r.vfs.files actual.node
        { refs := 1, node := (r.vfs.files actual.node).node } } := by
    unfold derefFile
    simp [h.file_refs actual hin]
  rw [hderef]
  have hnames := h.names
  have haddrs := h.addrs
  have hnodes := h.nodes
  have hledger := h.ledger
  rw [hl] at hnames haddrs hnodes hledger
  simp only [List.map_append, List.map_cons] at hnames haddrs hnodes hledger
  have hlist : (r.vfs.mountedFileList.eraseP fun m => m.addr = actual.addr) = as ++ bs := by
    rw [hl, List.eraseP_append_right _ fun a ha => ?_, List.eraseP_cons_of_pos (by simp)]
    have hdisj := (List.nodup_append.mp haddrs).2.2 a.addr (List.mem_map_of_mem ha)
      actual.addr List.mem_cons_self
    simpa using hdisj
  have hrest : ∀ m ∈ as ++ bs, m ∈ r.vfs.mountedFileList ∧ m.node ≠ actual.node := by
    intro m hm
    rw [hl]
    rcases List.mem_append.mp hm with hm | hm
    · exact ⟨List.mem_append_left _ hm, (List.nodup_append.mp hnodes).2.2 m.node
        (List.mem_map_of_mem hm) actual.node List.mem_cons_self⟩
    · refine ⟨List.mem_append_right _ (List.mem_cons_of_mem _ hm), fun heq => ?_⟩
      have hout := (List.nodup_cons.mp (List.nodup_append.mp hnodes).2.1).1
      exact hout (heq ▸ List.mem_map_of_mem hm)
  have hsame : ∀ m ∈ as ++ bs, Function.update r.vfs.files actual.node
      { refs := 1, node := (r.vfs.files actual.node).node } m.node = r.vfs.files m.node :=
    fun m hm => Function.update_of_ne (hrest m hm).2 ..
  have hledger' : (r.ledger.eraseP fun p => p.1 = name) =
      (as ++ bs).map fun m => (m.name, (r.vfs.files m.node).node) := by
    rw [hledger, List.eraseP_append_right _ fun p hp => ?_,
      List.eraseP_cons_of_pos (by simpa using hname), List.map_append]
    obtain ⟨a, ha, rfl⟩ := List.mem_map.mp hp
    simpa using has a ha
  have hsub : ∀ {β : Type} (f : MountedFile → β),
      ((as ++ bs).map f).Sublist (as.map f ++ f actual :: bs.map f) := by
    intro β f
    rw [List.map_append]
    exact (List.Sublist.refl _).append (List.sublist_cons_self _ _)
  refine ⟨?_, ?_, ?_, ?_, ?_, ?_, fun n => ?_, nofun⟩
  · rw [hlist]
    exact hnames.sublist (hsub _)
  · rw [hlist]
    exact haddrs.sublist (hsub _)
  · rw [hlist]
    exact hnodes.sublist (hsub _)
  · rw [hlist]
    exact fun m hm => h.node_ne m (hrest m hm).1
  · intro m hm
    rw [hlist] at hm
    show (Function.update r.vfs.files actual.node _ m.node).refs = 2
    rw [hsame m hm]
    exact h.file_refs m (hrest m hm).1
  · rw [hlist, hledger']
    exact List.map_congr_left fun m hm =>
      congrArg (fun f : File => (m.name, f.node)) (hsame m hm).symm
  · have hrefs := h.refs n
    rw [hledger] at hrefs
    rw [hledger']
    simp only [List.map_append, List.map_cons, List.map_map, List.count_append, List.count_cons,
      Option.toList_some, List.count_nil, beq_iff_eq] at hrefs ⊢
    omega

/-- A run goes on until a file could not be allocated; that entry has no file. -/
structure MountRunInv (r : MountRun) : Prop where
  up : r.vfs.crashed = false → MountInv r
  down : r.vfs.crashed = true → ∃ m ∈ r.vfs.mountedFileList, m.node = 0

theorem MountRunInv.step (h : MountRunInv r) (hstep : MountStep r r') : MountRunInv r' := by
  cases hstep with
  | refused ans node name hup hne =>
    rw [mount_of_ne_zero hne]
    exact h
  | mounted ans node name hup hfresh hok =>
    refine ⟨(h.up hup).mounted hfresh hok, fun hdown => ?_⟩
    obtain ⟨-, -, addr, -, ⟨-, heq⟩ | ⟨file, -, heq⟩⟩ := mount_of_zero hok
    · rw [heq]
      exact ⟨_, List.mem_cons_self, rfl⟩
    · simp only [heq] at hdown
      exact absurd (hup.symm.trans hdown) (by decide)
  | unmountRefused lock name hup hne =>
    rw [unmount_of_ne_zero hne]
    exact h
  | unmounted lock name hup hok =>
    refine ⟨fun _ => (h.up hup).unmounted hok, fun hdown => ?_⟩
    obtain ⟨actual, -, heq⟩ := unmount_of_zero hok
    have hcrashed : (derefFile r.vfs actual.node).crashed = r.vfs.crashed := by
      unfold derefFile
      simp only
      split <;> rfl
    simp only [heq, hcrashed, hup] at hdown
    cases hdown
  | hold node hup =>
    have hinv := h.up hup
    refine ⟨fun _ => ⟨hinv.names, hinv.addrs, hinv.nodes, hinv.node_ne, hinv.file_refs, hinv.ledger,
      fun n => ?_, hinv.frees⟩, h.down⟩
    have hrefs := hinv.refs n
    simp only [refObject_apply]
    split <;> omega
  | drop node hup hpos =>
    have hinv := h.up hup
    refine ⟨fun _ => ⟨hinv.names, hinv.addrs, hinv.nodes, hinv.node_ne, hinv.file_refs, hinv.ledger,
      fun n => ?_, hinv.frees⟩, h.down⟩
    have hrefs := hinv.refs n
    simp only [derefObject_apply]
    split
    · next hn =>
      subst hn
      omega
    · exact hrefs

theorem MountRunInv.run {files : Nat → File} {held : Nat → Nat}
    (h : Reaches MountStep (initVfs files held) r) : MountRunInv r :=
  h.invariant ⟨fun _ => mountInv_initVfs files held, nofun⟩ fun _ _ hinv hstep => hinv.step hstep

end Invariant

/-! ## Mounting and unmounting -/

/-- What is asked of the list of mounts. -/
structure MountSound (r : MountRun) : Prop where
  names : (r.vfs.mountedFileList.map MountedFile.name).Nodup
  resolves : ∀ name node, mountedNode r.vfs name = some node ↔ (name, node) ∈ r.ledger
  node_ne : ∀ m ∈ r.vfs.mountedFileList, m.node ≠ 0
  mount_refused : ∀ ans node name, (mount r.vfs ans node name).2 ≠ 0 →
    (mount r.vfs ans node name).1 = r.vfs
  unmount_refused : ∀ lock name, (unmount r.vfs lock name).2 ≠ 0 →
    (unmount r.vfs lock name).1 = r.vfs
  restores : ∀ ans node lock name, (mount r.vfs ans node (some name)).2 = 0 →
    (unmount (mount r.vfs ans node (some name)).1 lock (some name)).2 = 0 →
    (unmount (mount r.vfs ans node (some name)).1 lock (some name)).1.mountedFileList =
      r.vfs.mountedFileList
  refs : ∀ n, r.vfs.refs n = r.held n + (r.ledger.map Prod.snd).count n
  frees : ∀ p ∈ r.vfs.frees, p ∈ r.vfs.allocs

section Sound

variable {r : MountRun}

/-- `Unmount` takes out the entry that `Mount` just added. -/
theorem unmount_mount_list {st : MountState} {ans : MountAnswers} {node lock : Nat} {name : Name}
    (h : (mount st ans node (some name)).2 = 0)
    (h' : (unmount (mount st ans node (some name)).1 lock (some name)).2 = 0) :
    (unmount (mount st ans node (some name)).1 lock (some name)).1.mountedFileList =
      st.mountedFileList := by
  obtain ⟨actual, hget, heq⟩ := unmount_of_zero h'
  rw [heq]
  obtain ⟨-, -, addr, -, ⟨-, hmount⟩ | ⟨file, -, hmount⟩⟩ := mount_of_zero h <;>
  · rw [hmount] at hget ⊢
    simp only [getMountPointFromName, List.find?_cons, decide_true, Option.some.injEq] at hget
    subst hget
    simp

theorem MountInv.resolves (h : MountInv r) (name : Name) (node : Nat) :
    mountedNode r.vfs name = some node ↔ (name, node) ∈ r.ledger := by
  have hnames := h.names
  rw [h.ledger]
  unfold mountedNode getMountPointFromName
  generalize r.vfs.mountedFileList = l at hnames
  induction l with
  | nil => simp
  | cons m rest ih =>
    obtain ⟨hm, hrest⟩ := List.nodup_cons.mp hnames
    rw [List.map_cons, List.mem_cons, Prod.mk.injEq, List.find?_cons]
    by_cases hname : m.name = name
    · have hout : ∀ m' ∈ rest, m'.name ≠ name := by
        rintro m' hm' rfl
        exact hm (hname ▸ List.mem_map_of_mem hm')
      simp only [hname, decide_true, Option.map_some, Option.some.injEq, true_and]
      constructor
      · exact fun heq => .inl heq.symm
      · rintro (heq | hin)
        · exact heq.symm
        · obtain ⟨m', hm', heq⟩ := List.mem_map.mp hin
          exact absurd (Prod.mk.inj heq).1 (hout m' hm')
    · simp only [hname, decide_false, Ne.symm hname, false_and, false_or]
      exact ih hrest

/--
**`Mount` and `Unmount` keep their books as long as no `Unmount` succeeds.** Then, and as long as
there is memory for the files, the names are distinct, each stands for the vnode that was mounted,
a refused call changes nothing, each mount holds one reference, and only blocks of the heap are
freed. A successful `Unmount` leaves a reference behind and frees the name inside of the entry.
-/
theorem mount_sound_iff (files : Nat → File) (held : Nat → Nat) (r : MountRun)
    (hrun : Reaches MountStep (initVfs files held) r) :
    MountSound r ↔ r.vfs.crashed = false ∧ r.unmounted = [] := by
  have hinv := MountRunInv.run hrun
  constructor
  · intro h
    cases hcrashed : r.vfs.crashed with
    | true =>
      obtain ⟨m, hm, hnode⟩ := hinv.down hcrashed
      exact absurd hnode (h.node_ne m hm)
    | false =>
      refine ⟨rfl, ?_⟩
      cases hgone : r.unmounted with
      | nil => rfl
      | cons n rest =>
        have hrefs := (hinv.up hcrashed).refs n
        have hsound := h.refs n
        rw [hgone, List.count_cons_self] at hrefs
        omega
  · rintro ⟨hup, hgone⟩
    have h := hinv.up hup
    refine ⟨h.names, h.resolves, h.node_ne, fun ans node name => mount_of_ne_zero,
      fun lock name => unmount_of_ne_zero, fun ans node lock name => unmount_mount_list,
      fun n => ?_, ?_⟩
    · have hrefs := h.refs n
      rwa [hgone, List.count_nil, Nat.add_zero] at hrefs
    · rw [h.frees hgone]
      exact nofun

end Sound

/-- Vnode 5 with one reference, and memory for the entry and the file. -/
def hdRun : MountRun := initVfs (fun _ => { refs := 0, node := 0 }) fun _ => 1

def hdAnswers : MountAnswers := { lock := 0, entry := some 4096, file := some 8192 }

def hdMounted : MountRun :=
  { hdRun with
    vfs := (mount hdRun.vfs hdAnswers 5 (some ['h', 'd'])).1
    ledger := [(['h', 'd'], 5)] }

def hdUnmounted : MountRun :=
  { hdMounted with
    vfs := (unmount hdMounted.vfs 0 (some ['h', 'd'])).1
    ledger := []
    unmounted := [5] }

theorem reaches_hdMounted : Reaches MountStep hdRun hdMounted :=
  .tail .refl (.mounted hdRun hdAnswers 5 ['h', 'd'] rfl
    ⟨fun _ _ => nofun, fun file hfile => ⟨by cases hfile; decide, nofun⟩⟩ (by decide))

theorem mount_sound_iff_mounted : MountSound hdMounted :=
  (mount_sound_iff _ _ hdMounted reaches_hdMounted).mpr ⟨rfl, rfl⟩

/-- After `Mount` and `Unmount` the vnode has a reference too many. -/
theorem mount_unmount_leaks : Reaches MountStep hdRun hdUnmounted ∧ ¬MountSound hdUnmounted := by
  constructor
  · exact .tail reaches_hdMounted (.unmounted hdMounted 0 ['h', 'd'] rfl (by decide))
  · intro h
    exact absurd (h.refs 5) (by decide)

end Nolrem.Vfs
