import Virthub.Klnk.Rma.MrRegistry
import Virthub.Lib.RwLock
import Virthub.Lib.Trace
import Mathlib.Data.Fintype.Basic

/-! The locks of the registry. The table is locked before the index by the operations that change them, and
the index before the table by the lookup of a buffer. -/
namespace Virthub.Klnk.Rma
open Virthub.Lib

inductive RegistryLock
  | regions
  | vaddrIndex
  deriving DecidableEq, Repr

inductive RegistryOp where
  | register (region : MemoryRegion)
  | deregister (rkey : UInt32)
  | get (rkey : UInt32)
  | getByVaddrSize (vaddr size : UInt64)

inductive RegistryResult where
  | registered (result : Except MemoryRegionError Unit)
  | removed (result : Except MemoryRegionError MemoryRegion)
  | found (result : Option MemoryRegion)

/-- The operation as one step. -/
def RegistryOp.run (registry : MemoryRegionRegistry) : RegistryOp → RegistryResult × MemoryRegionRegistry
  | register region => (registry.register region).map .registered id
  | deregister rkey => (registry.deregister rkey).map .removed id
  | get rkey => (.found (registry.get rkey), registry)
  | getByVaddrSize vaddr size => (.found (registry.getByVaddrSize vaddr size), registry)

/-- Where a thread is: before the next lock that it takes or releases. -/
inductive RegistryPc where
  | idle
  | register (region : MemoryRegion)
  | registerIndex (region : MemoryRegion)
  | registerRelease (region : MemoryRegion)
  | registerDone (result : Except MemoryRegionError Unit)
  | deregister (rkey : UInt32)
  | deregisterIndex (region : MemoryRegion)
  | deregisterRelease (region : MemoryRegion)
  | deregisterDone (result : Except MemoryRegionError MemoryRegion)
  | get (rkey : UInt32)
  | getDone (result : Option MemoryRegion)
  | lookupIndex (vaddr size : UInt64)
  | lookupRegion (rkey : UInt32)
  | lookupRelease (result : Option MemoryRegion)
  | lookupDone (result : Option MemoryRegion)

namespace RegistryPc

def lockUse : RegistryPc → LockUse RegistryLock
  | idle => ⟨[], none⟩
  | register _ | deregister _ => ⟨[], some (.regions, .write)⟩
  | registerIndex _ | deregisterIndex _ => ⟨[(.regions, .write)], some (.vaddrIndex, .write)⟩
  | registerRelease _ | deregisterRelease _ => ⟨[(.regions, .write), (.vaddrIndex, .write)], none⟩
  | registerDone _ | deregisterDone _ => ⟨[(.regions, .write)], none⟩
  | get _ => ⟨[], some (.regions, .read)⟩
  | getDone _ => ⟨[(.regions, .read)], none⟩
  | lookupIndex _ _ => ⟨[], some (.vaddrIndex, .read)⟩
  | lookupRegion _ => ⟨[(.vaddrIndex, .read)], some (.regions, .read)⟩
  | lookupRelease _ => ⟨[(.vaddrIndex, .read), (.regions, .read)], none⟩
  | lookupDone _ => ⟨[(.vaddrIndex, .read)], none⟩

/-- An invalid descriptor is refused before a lock is taken. -/
def start : RegistryOp → Option RegistryResult × RegistryPc
  | .register region =>
    if region.vaddr = 0 ∨ region.size = 0 then
      (some (.registered (.error (.invalidDescriptor "Base address and size must be non‑zero"))), idle)
    else (none, register region)
  | .deregister rkey => (none, deregister rkey)
  | .get rkey => (none, get rkey)
  | .getByVaddrSize vaddr size => (none, lookupIndex vaddr size)

/-- From one lock operation to the next, once the lock that is wanted is free. -/
def next (registry : MemoryRegionRegistry) :
    RegistryPc → Option RegistryResult × RegistryPc × MemoryRegionRegistry
  | idle => (none, idle, registry)
  | register region =>
    if region.rkey ∈ registry.regions then
      (none, registerDone (.error (.alreadyExists region.rkey)), registry)
    else (none, registerIndex region, registry)
  | registerIndex region =>
    (none, registerRelease region, { registry with
      vaddrIndex := registry.vaddrIndex.insert (region.vaddr, region.size) region.rkey })
  | registerRelease region =>
    (none, registerDone (.ok ()), { registry with
      regions := registry.regions.insert region.rkey region })
  | registerDone result => (some (.registered result), idle, registry)
  | deregister rkey =>
    match registry.regions.lookup rkey with
    | some region =>
      (none, deregisterIndex region, { registry with regions := registry.regions.erase rkey })
    | none => (none, deregisterDone (.error (.notFound rkey)), registry)
  | deregisterIndex region =>
    (none, deregisterRelease region, { registry with
      vaddrIndex := registry.vaddrIndex.erase (region.vaddr, region.size) })
  | deregisterRelease region => (none, deregisterDone (.ok region), registry)
  | deregisterDone result => (some (.removed result), idle, registry)
  | get rkey => (none, getDone (registry.regions.lookup rkey), registry)
  | getDone result => (some (.found result), idle, registry)
  | lookupIndex vaddr size =>
    match registry.vaddrIndex.lookup (vaddr, size) with
    | some rkey => (none, lookupRegion rkey, registry)
    | none => (none, lookupDone none, registry)
  | lookupRegion rkey => (none, lookupRelease (registry.regions.lookup rkey), registry)
  | lookupRelease result => (none, lookupDone result, registry)
  | lookupDone result => (some (.found result), idle, registry)

/-- Holds the table and waits to write the index. -/
def Updating : RegistryPc → Prop
  | registerIndex _ | deregisterIndex _ => True
  | _ => False

/-- Holds the index and waits to read the table. -/
def LookingUp : RegistryPc → Prop
  | lookupRegion _ => True
  | _ => False

theorem Updating.lockUse_eq {pc : RegistryPc} (h : pc.Updating) :
    pc.lockUse = ⟨[(.regions, .write)], some (.vaddrIndex, .write)⟩ := by
  cases pc with
  | registerIndex region => rfl
  | deregisterIndex region => rfl
  | _ => cases h

theorem LookingUp.lockUse_eq {pc : RegistryPc} (h : pc.LookingUp) :
    pc.lockUse = ⟨[(.vaddrIndex, .read)], some (.regions, .read)⟩ := by
  cases pc with
  | lookupRegion rkey => rfl
  | _ => cases h

/-- Only these hold a lock and want another one. -/
theorem updating_or_lookingUp {pc : RegistryPc} {held : RegistryLock × LockMode}
    (hheld : held ∈ pc.lockUse.holds) (hwants : pc.lockUse.wants.isSome) : pc.Updating ∨ pc.LookingUp := by
  cases pc with
  | registerIndex region => exact .inl trivial
  | deregisterIndex region => exact .inl trivial
  | lookupRegion rkey => exact .inr trivial
  | idle => cases hwants
  | registerRelease region => cases hwants
  | registerDone result => cases hwants
  | deregisterRelease region => cases hwants
  | deregisterDone result => cases hwants
  | getDone result => cases hwants
  | lookupRelease result => cases hwants
  | lookupDone result => cases hwants
  | register region => cases hheld
  | deregister rkey => cases hheld
  | get rkey => cases hheld
  | lookupIndex vaddr size => cases hheld

/-- A step takes no lock but the wanted one. -/
theorem holds_next (registry : MemoryRegionRegistry) (pc : RegistryPc) :
    (pc.next registry).2.1.lockUse.holds ⊆ pc.lockUse.holds ++ pc.lockUse.wants.toList := by
  cases pc with
  | register region =>
    simp only [next]
    split_ifs <;> simp [lockUse]
  | deregister rkey =>
    simp only [next]
    cases registry.regions.lookup rkey <;> simp [lockUse]
  | lookupIndex vaddr size =>
    simp only [next]
    cases registry.vaddrIndex.lookup (vaddr, size) <;> simp [lockUse]
  | _ => simp [next, lockUse]

theorem holds_start (op : RegistryOp) : (start op).2.lockUse.holds = [] := by
  cases op with
  | register region =>
    rw [start]
    split_ifs <;> rfl
  | _ => rfl

/-- A thread comes to update from the lock of the table, with the key that it looks for absent or present. -/
theorem updating_next_iff (registry : MemoryRegionRegistry) (pc : RegistryPc) :
    (pc.next registry).2.1.Updating ↔
      (∃ region, pc = register region ∧ region.rkey ∉ registry.regions) ∨
        ∃ rkey, pc = deregister rkey ∧ rkey ∈ registry.regions := by
  cases pc with
  | register region =>
    simp only [next]
    split_ifs with h <;> simp [Updating, h]
  | deregister rkey =>
    simp only [next, ← AList.lookup_isSome]
    cases h : registry.regions.lookup rkey <;> simp [Updating, h]
  | lookupIndex vaddr size =>
    simp only [next]
    cases registry.vaddrIndex.lookup (vaddr, size) <;> simp [Updating]
  | _ => simp [next, Updating]

theorem lookingUp_next_iff (registry : MemoryRegionRegistry) (pc : RegistryPc) :
    (pc.next registry).2.1.LookingUp ↔
      ∃ vaddr size, pc = lookupIndex vaddr size ∧ (vaddr, size) ∈ registry.vaddrIndex := by
  cases pc with
  | register region =>
    simp only [next]
    split_ifs <;> simp [LookingUp]
  | deregister rkey =>
    simp only [next]
    cases registry.regions.lookup rkey <;> simp [LookingUp]
  | lookupIndex vaddr size =>
    simp only [next, ← AList.lookup_isSome]
    cases h : registry.vaddrIndex.lookup (vaddr, size) <;> simp [LookingUp, h]
  | _ => simp [next, LookingUp]

end RegistryPc

/-- The registry and `n` threads that use it. -/
structure LockedRegistry (n : ℕ) where
  registry : MemoryRegionRegistry
  threads : Fin n → RegistryPc

inductive LockedCall (n : ℕ) where
  | start (thread : Fin n) (op : RegistryOp)
  | advance (thread : Fin n)

namespace LockedRegistry
variable {n : ℕ}

def idle (n : ℕ) (registry : MemoryRegionRegistry) : LockedRegistry n := ⟨registry, fun _ => .idle⟩

def lockUse (self : LockedRegistry n) (thread : Fin n) : LockUse RegistryLock :=
  (self.threads thread).lockUse

/-- The thread waits for nobody. -/
def Runs (self : LockedRegistry n) (thread : Fin n) : Prop := ∀ u, ¬ WaitsFor self.lockUse thread u

instance (self : LockedRegistry n) (thread : Fin n) : Decidable (self.Runs thread) :=
  inferInstanceAs (Decidable (∀ _, _))

/-- The answer is what an operation returns when it ends. -/
def step (self : LockedRegistry n) : LockedCall n → Option RegistryResult × LockedRegistry n
  | .start thread op =>
    match self.threads thread with
    | .idle =>
      ((RegistryPc.start op).1,
        { self with threads := Function.update self.threads thread (RegistryPc.start op).2 })
    | _ => (none, self)
  | .advance thread =>
    if self.Runs thread then
      let next := (self.threads thread).next self.registry
      (next.1, ⟨next.2.2, Function.update self.threads thread next.2.1⟩)
    else (none, self)

/-- No operation wants a lock that it holds. -/
theorem not_waitsFor_self (self : LockedRegistry n) (t : Fin n) : ¬ WaitsFor self.lockUse t t := by
  rw [waitsFor_iff]
  unfold lockUse
  rintro ⟨l, m, k, hwant, hheld, -⟩
  cases h : self.threads t <;> simp_all [RegistryPc.lockUse]

section Alone
variable (t : Fin n) (registry : MemoryRegionRegistry)

/-- One thread at work, and all others idle. -/
def alone (pc : RegistryPc) : LockedRegistry n := ⟨registry, Function.update (fun _ => .idle) t pc⟩

theorem idle_eq_alone : idle n registry = alone t registry .idle := by
  unfold idle alone
  rw [Function.update_eq_self_iff.mpr rfl]

theorem runs_alone (pc : RegistryPc) : (alone t registry pc).Runs t := by
  intro u
  by_cases hu : u = t
  · rw [hu]
    exact not_waitsFor_self _ t
  · rw [waitsFor_iff]
    rintro ⟨l, m, k, -, hheld, -⟩
    simp [lockUse, alone, Function.update_of_ne hu, RegistryPc.lockUse] at hheld

theorem step_start_alone (op : RegistryOp) :
    step (alone t registry .idle) (.start t op) =
      ((RegistryPc.start op).1, alone t registry (RegistryPc.start op).2) := by
  simp [step, alone]

theorem step_advance_alone (pc : RegistryPc) :
    step (alone t registry pc) (.advance t) =
      ((pc.next registry).1, alone t (pc.next registry).2.2 (pc.next registry).2.1) := by
  rw [step, if_pos (runs_alone t registry pc)]
  simp [alone]

/-- A thread that meets no other one runs the operation as one step. -/
theorem exec_alone (op : RegistryOp) :
    exec step (idle n registry) (.start t op :: List.replicate 4 (.advance t)) =
        idle n (op.run registry).2 ∧
      some (op.run registry).1 ∈
        (trace step (idle n registry) (.start t op :: List.replicate 4 (.advance t))).map Event.answer := by
  simp only [idle_eq_alone t, List.replicate, exec_cons, exec_nil, trace, event, List.map_cons,
    List.map_nil, step_start_alone, step_advance_alone]
  cases op with
  | register region =>
    simp only [RegistryPc.start, RegistryOp.run, MemoryRegionRegistry.register]
    split_ifs with hzero hkey
    · simp [RegistryPc.next]
    · simp [RegistryPc.next, hkey]
    · simp [RegistryPc.next, hkey]
  | deregister rkey =>
    simp only [RegistryPc.start, RegistryOp.run, MemoryRegionRegistry.deregister]
    cases hl : registry.regions.lookup rkey <;> simp [RegistryPc.next, hl]
  | get rkey => simp [RegistryPc.start, RegistryOp.run, RegistryPc.next, MemoryRegionRegistry.get]
  | getByVaddrSize vaddr size =>
    simp only [RegistryPc.start, RegistryOp.run, MemoryRegionRegistry.getByVaddrSize]
    cases hl : registry.vaddrIndex.lookup (vaddr, size) <;> simp [RegistryPc.next, hl]

end Alone

/-- What a call does to the threads: nothing, or one of them moves. -/
theorem threads_step (self : LockedRegistry n) (call : LockedCall n) :
    (self.step call).2 = self ∨
      (∃ t op, call = .start t op ∧ self.threads t = .idle ∧
        (self.step call).2.threads = Function.update self.threads t (RegistryPc.start op).2) ∨
      ∃ t, call = .advance t ∧ self.Runs t ∧ (self.step call).2.threads =
        Function.update self.threads t ((self.threads t).next self.registry).2.1 := by
  cases call with
  | start t op =>
    by_cases hpc : self.threads t = .idle
    · refine .inr (.inl ⟨t, op, rfl, hpc, ?_⟩)
      simp only [step, hpc]
    · refine .inl ?_
      dsimp only [step]
      split
      · contradiction
      · rfl
  | advance t =>
    by_cases h : self.Runs t
    · refine .inr (.inr ⟨t, rfl, h, ?_⟩)
      rw [step, if_pos h]
    · rw [step, if_neg h]
      exact .inl rfl

theorem lockUse_update {self s : LockedRegistry n} {t : Fin n} {pc : RegistryPc}
    (h : s.threads = Function.update self.threads t pc) :
    s.lockUse = Function.update self.lockUse t pc.lockUse := by
  funext u
  unfold lockUse
  rw [h]
  by_cases hu : u = t
  · rw [hu, Function.update_self, Function.update_self]
  · rw [Function.update_of_ne hu, Function.update_of_ne hu]

theorem exclusive_step {self : LockedRegistry n} (h : Exclusive self.lockUse) (call : LockedCall n) :
    Exclusive (self.step call).2.lockUse := by
  rcases self.threads_step call with heq | ⟨t, op, -, -, heq⟩ | ⟨t, -, hruns, heq⟩
  · rw [heq]
    exact h
  · rw [lockUse_update heq]
    apply h.update
    rw [RegistryPc.holds_start]
    intro held hheld
    cases hheld
  · rw [lockUse_update heq]
    apply h.update
    intro held hheld
    rcases List.mem_append.mp (RegistryPc.holds_next self.registry _ hheld) with hold | hwant
    · exact .inl hold
    · exact .inr ⟨Option.mem_toList.mp hwant, hruns⟩

/-- Two threads never hold a lock in modes that exclude each other. -/
theorem exclusive_exec (registry : MemoryRegionRegistry) (calls : List (LockedCall n)) :
    Exclusive (exec step (idle n registry) calls).lockUse := by
  have hstart : Exclusive (idle n registry).lockUse := by
    intro t u _ l m k hheld
    cases hheld
  exact (forall_event_of_invariant (I := fun s : LockedRegistry n => Exclusive s.lockUse)
    (Q := fun _ => True) hstart (fun s call h _ => ⟨exclusive_step h call, trivial⟩) calls
    (along_true _ _ _)).1

/-- Threads are deadlocked exactly if one updates while another one looks up. -/
theorem exists_deadlocked_iff {self : LockedRegistry n} :
    (∃ D, Deadlocked self.lockUse D) ↔
      (∃ t, (self.threads t).Updating) ∧ ∃ u, (self.threads u).LookingUp := by
  constructor
  · intro ⟨D, hD⟩
    obtain ⟨t, ht⟩ := hD.1
    obtain ⟨u, hu, _, _, _, -, hheld, -, hwants⟩ := hD.exists_holder ht
    -- what `u` waits for is held by a thread that is stuck the other way
    obtain ⟨v, -, l, m, k, hwant, hheld', -, hwants'⟩ := hD.exists_holder hu
    have hv := RegistryPc.updating_or_lookingUp hheld' hwants'
    unfold lockUse at hwant hheld'
    rcases RegistryPc.updating_or_lookingUp hheld hwants with hup | hlook
    · refine ⟨⟨u, hup⟩, v, hv.resolve_left fun hup' => ?_⟩
      rw [hup.lockUse_eq] at hwant
      rw [hup'.lockUse_eq] at hheld'
      cases hwant
      simp at hheld'
    · refine ⟨⟨v, hv.resolve_right fun hlook' => ?_⟩, u, hlook⟩
      rw [hlook.lockUse_eq] at hwant
      rw [hlook'.lockUse_eq] at hheld'
      cases hwant
      simp at hheld'
  · intro ⟨⟨t, ht⟩, u, hu⟩
    have htu : WaitsFor self.lockUse t u := by
      refine waitsFor_iff.mpr ⟨.vaddrIndex, .write, .read, ?_, ?_, .inl rfl⟩ <;> unfold lockUse
      · rw [ht.lockUse_eq]
      · rw [hu.lockUse_eq]
        exact List.mem_singleton_self _
    have hut : WaitsFor self.lockUse u t := by
      refine waitsFor_iff.mpr ⟨.regions, .read, .write, ?_, ?_, .inr rfl⟩ <;> unfold lockUse
      · rw [hu.lockUse_eq]
      · rw [ht.lockUse_eq]
        exact List.mem_singleton_self _
    exact ⟨{t, u}, deadlocked_pair htu hut⟩

/-- A thread that gets the lock of the table and goes on to the index meets no lookup, and a lookup that finds
its buffer meets no such thread. -/
def TakesApart (self : LockedRegistry n) : LockedCall n → Prop
  | .start _ _ => True
  | .advance t => self.Runs t →
    (∀ region, self.threads t = .register region → region.rkey ∉ self.registry.regions →
      ∀ u, ¬ (self.threads u).LookingUp) ∧
    (∀ rkey, self.threads t = .deregister rkey → rkey ∈ self.registry.regions →
      ∀ u, ¬ (self.threads u).LookingUp) ∧
    ∀ vaddr size, self.threads t = .lookupIndex vaddr size →
      (vaddr, size) ∈ self.registry.vaddrIndex → ∀ u, ¬ (self.threads u).Updating

theorem takesApart_advance_iff {self : LockedRegistry n} {t : Fin n} (hruns : self.Runs t) :
    self.TakesApart (.advance t) ↔
      (((self.threads t).next self.registry).2.1.Updating → ∀ u, ¬ (self.threads u).LookingUp) ∧
        (((self.threads t).next self.registry).2.1.LookingUp → ∀ u, ¬ (self.threads u).Updating) := by
  rw [RegistryPc.updating_next_iff, RegistryPc.lookingUp_next_iff]
  unfold TakesApart
  constructor
  · intro h
    obtain ⟨hreg, hdereg, hlook⟩ := h hruns
    refine ⟨?_, ?_⟩
    · rintro (⟨region, hpc, hkey⟩ | ⟨rkey, hpc, hkey⟩)
      · exact hreg region hpc hkey
      · exact hdereg rkey hpc hkey
    · rintro ⟨vaddr, size, hpc, hindex⟩
      exact hlook vaddr size hpc hindex
  · intro ⟨hup, hlook⟩ _
    exact ⟨fun region hpc hkey => hup (.inl ⟨region, hpc, hkey⟩),
      fun rkey hpc hkey => hup (.inr ⟨rkey, hpc, hkey⟩),
      fun vaddr size hpc hindex => hlook ⟨vaddr, size, hpc, hindex⟩⟩

/-- Only the thread that moves can come to a lock that it then waits for. -/
theorem not_deadlocked_step {self : LockedRegistry n} (h : ¬ ∃ D, Deadlocked self.lockUse D)
    (call : LockedCall n) (hc : self.TakesApart call) :
    ¬ ∃ D, Deadlocked (self.step call).2.lockUse D := by
  rw [exists_deadlocked_iff] at h ⊢
  intro ⟨⟨a, ha⟩, b, hb⟩
  -- the pair is new, so that one of the two has moved
  rcases self.threads_step call with heq | ⟨t, op, rfl, -, heq⟩ | ⟨t, rfl, hruns, heq⟩
  · rw [heq] at ha hb
    exact h ⟨⟨a, ha⟩, b, hb⟩
  · rw [heq, Function.update_apply] at ha hb
    have hup : ¬ (RegistryPc.start op).2.Updating := fun hup => by
      have hheld := RegistryPc.holds_start op
      rw [hup.lockUse_eq] at hheld
      cases hheld
    have hlook : ¬ (RegistryPc.start op).2.LookingUp := fun hlook => by
      have hheld := RegistryPc.holds_start op
      rw [hlook.lockUse_eq] at hheld
      cases hheld
    split_ifs at ha hb
    · exact hup ha
    · exact hup ha
    · exact hlook hb
    · exact h ⟨⟨a, ha⟩, b, hb⟩
  · obtain ⟨hup, hlook⟩ := (takesApart_advance_iff hruns).mp hc
    rw [heq, Function.update_apply] at ha hb
    split_ifs at ha hb with hat hbt hbt
    · have hone := ha.lockUse_eq.symm.trans hb.lockUse_eq
      cases hone
    · exact hup ha b hb
    · exact hlook hb a ha
    · exact h ⟨⟨a, ha⟩, b, hb⟩

theorem takesApart_of_not_deadlocked {self : LockedRegistry n} (call : LockedCall n)
    (h : ¬ ∃ D, Deadlocked (self.step call).2.lockUse D) : self.TakesApart call := by
  cases call with
  | start t op => trivial
  | advance t =>
    by_cases hruns : self.Runs t
    · rw [takesApart_advance_iff hruns]
      rw [exists_deadlocked_iff, step, if_pos hruns] at h
      dsimp only at h
      refine ⟨fun hup u hu => h ⟨⟨t, ?_⟩, u, ?_⟩, fun hlook u hu => h ⟨⟨u, ?_⟩, t, ?_⟩⟩
      · rwa [Function.update_self]
      · rw [Function.update_of_ne]
        · exact hu
        · rintro rfl
          rcases (RegistryPc.updating_next_iff _ _).mp hup with ⟨region, hpc, -⟩ | ⟨rkey, hpc, -⟩ <;>
            rw [hpc] at hu <;> cases hu
      · rw [Function.update_of_ne]
        · exact hu
        · rintro rfl
          obtain ⟨vaddr, size, hpc, -⟩ := (RegistryPc.lookingUp_next_iff _ _).mp hlook
          rw [hpc] at hu
          cases hu
      · rwa [Function.update_self]
    · intro hr
      contradiction

/-- No state of a run is deadlocked exactly if no thread comes to wait for the index with the table locked
while another one waits for the table with the index locked. -/
theorem not_deadlocked_iff_takesApart (registry : MemoryRegionRegistry) (calls : List (LockedCall n)) :
    (∀ as, as <+: calls → ¬ ∃ D, Deadlocked (exec step (idle n registry) as).lockUse D) ↔
      Along (fun _ => TakesApart) step (idle n registry) calls := by
  apply forall_prefix_iff_along (I := fun s : LockedRegistry n => ¬ ∃ D, Deadlocked s.lockUse D)
    (P := fun s : LockedRegistry n => ¬ ∃ D, Deadlocked s.lockUse D)
  · rw [exists_deadlocked_iff]
    rintro ⟨⟨t, ht⟩, -⟩
    cases ht
  · exact fun _ h => h
  · intro s call h hc
    exact not_deadlocked_step h call hc
  · intro s call _ h
    exact takesApart_of_not_deadlocked call h

/-- A lookup that has found its buffer in the index, and a registration that has locked the table. -/
theorem lookup_and_register_deadlock :
    ∃ D, Deadlocked (exec step (idle 2 .new) [.start 0 (.register ⟨1, 1, 4096, 64, 3, 0⟩), .advance 0,
      .advance 0, .advance 0, .advance 0, .start 0 (.getByVaddrSize 4096 64),
      .start 1 (.register ⟨2, 2, 8192, 64, 3, 0⟩), .advance 0, .advance 1]).lockUse D := by
  rw [exists_deadlocked_iff]
  exact ⟨⟨1, trivial⟩, 0, trivial⟩

end LockedRegistry

end Virthub.Klnk.Rma
