import Mathlib.Data.BitVec
import X86Kernel.Lib.Owners
import X86Kernel.Lib.Run

/- Spinlocks (`kernel/services/threads/locks/spinlock.c`) on any number of processors, with
   interrupts.

   A processor runs an activity; an interrupt that comes in while IF is set starts another one,
   and `iret` goes back to the one below. Every atomic access to a lock, `irq_save` and
   `irq_restore` is one step, and the steps of all processors are taken in any order. Code outside
   the lock's functions gives back the lock taken last first, ends an interrupt without a lock, and
   sets or clears IF only where it has no lock.

   What is proved: a lock has one owner at most, whatever the order (`run_exclusive`). Where no lock
   is taken while another processor is still leaving it, `unlock` gives back the flags that were
   there before `lock`, interrupts are off wherever a lock is owned, and no activity waits for a
   lock of one that it has interrupted (`run_sound`); on one processor this is every run
   (`meets_of_subsingleton`). On two it is not: `spinlock_unlock` lets the lock go before it reads
   `irq_data`, and clears `irq_data` after that (`overlap_loses_interrupts`).

   Correspondence (C ↔ Lean):
     `spinlock_t`          ↔ `SpinlockT`
     `spinlock_initlock`   ↔ `spinlockInitlock`
     `spinlock_lock`       ↔ `Action.lock`, then `Action.next` from `Pc.spinning` and `Pc.taken`
     `spinlock_try_lock`   ↔ `Action.tryLock`, then `Action.next` from `Pc.trying`, `Pc.taken` and
                             `Pc.refused`
     `spinlock_unlock`     ↔ `Action.unlock`, then `Action.next` from `Pc.released` and
                             `Pc.restored`
     `spinlock_is_locked`  ↔ `SpinlockT.locked`
     `irq_save`, `irq_disable` ↔ `cli`, `irq_enable` ↔ `sti` -/
namespace X86Kernel.Spinlock
open Lib

/-- `eflags` -/
abbrev Flags := BitVec 32

def irqOn (f : Flags) : Bool := f.getLsbD 9

def cli (f : Flags) : Flags := f &&& ~~~0x200

def sti (f : Flags) : Flags := f ||| 0x200

@[simp] theorem irqOn_cli (f : Flags) : irqOn (cli f) = false := by
  simp [irqOn, cli]

/-- `spinlock_t` -/
structure SpinlockT where
  locked : Bool
  irqData : Flags
  deriving DecidableEq

def spinlockInitlock : SpinlockT := ⟨false, 0⟩

/-- Where an activity is in the lock's code, with its local `irq_state`. The flags in `released`
are those that the lock was taken with; the code reads them from the lock. -/
inductive Pc (L : Type) where
  | out
  | spinning (l : L) (irqState : Flags)
  | trying (l : L) (irqState : Flags)
  | taken (l : L) (irqState : Flags)
  | refused (irqState : Flags)
  | released (l : L) (flags : Flags)
  | restored (l : L)
  deriving DecidableEq

/-- An activity, with the locks that it has and the flags it took them with, the last one first. -/
structure Activity (L : Type) where
  pc : Pc L
  held : List (L × Flags)
  deriving DecidableEq

/-- A processor, with the activities it has interrupted and the flags they had. -/
structure Core (L : Type) where
  eflags : Flags
  current : Activity L
  interrupted : List (Activity L × Flags)
  deriving DecidableEq

structure System (C L : Type) where
  locks : L → SpinlockT
  cores : C → Core L

inductive Action (L : Type) where
  | lock (l : L)
  | tryLock (l : L)
  | unlock
  | next
  | irqEnable
  | irqDisable
  | interrupt
  | iret
  deriving DecidableEq

section Step

variable {C L : Type} [DecidableEq C] [DecidableEq L]

def Core.goto (k : Core L) (pc : Pc L) : Core L := { k with current := { k.current with pc := pc } }

/-- The next step in the lock's code, on the locks and the processor. -/
def nextStep (locks : L → SpinlockT) (k : Core L) : Option ((L → SpinlockT) × Core L) :=
  match k.current.pc with
  | .out => none
  | .spinning l st =>
    if (locks l).locked then some (locks, k)
    else some (Function.update locks l { locks l with locked := true }, k.goto (.taken l st))
  | .trying l st =>
    if (locks l).locked then some (locks, k.goto (.refused st))
    else some (Function.update locks l { locks l with locked := true }, k.goto (.taken l st))
  | .taken l st =>
    some (Function.update locks l { locks l with irqData := st },
      { k with current := ⟨.out, (l, st) :: k.current.held⟩ })
  | .refused st => some (locks, { k with eflags := st }.goto .out)
  | .released l _ => some (locks, { k with eflags := (locks l).irqData }.goto (.restored l))
  | .restored l => some (Function.update locks l { locks l with irqData := 0 }, k.goto .out)

/-- One step of a processor, or `none` where it cannot be taken. -/
def coreStep (locks : L → SpinlockT) (k : Core L) :
    Action L → Option ((L → SpinlockT) × Core L)
  | .next => nextStep locks k
  | .lock l =>
    if k.current.pc = .out then
      some (locks, { k with eflags := cli k.eflags }.goto (.spinning l k.eflags))
    else none
  | .tryLock l =>
    if k.current.pc = .out then
      some (locks, { k with eflags := cli k.eflags }.goto (.trying l k.eflags))
    else none
  | .unlock =>
    if k.current.pc = .out then
      match k.current.held with
      | [] => none
      | (l, flags) :: held =>
        some (Function.update locks l { locks l with locked := false },
          { k with current := ⟨.released l flags, held⟩ })
    else none
  | .irqEnable =>
    if k.current.pc = .out ∧ k.current.held = [] then
      some (locks, { k with eflags := sti k.eflags })
    else none
  | .irqDisable =>
    if k.current.pc = .out ∧ k.current.held = [] then
      some (locks, { k with eflags := cli k.eflags })
    else none
  | .interrupt =>
    if irqOn k.eflags then
      some (locks, ⟨cli k.eflags, ⟨.out, []⟩, (k.current, k.eflags) :: k.interrupted⟩)
    else none
  | .iret =>
    match k.interrupted with
    | [] => none
    | (below, flags) :: interrupted =>
      if k.current.pc = .out ∧ k.current.held = [] then some (locks, ⟨flags, below, interrupted⟩)
      else none

/-- One step of one of the processors. -/
def step (s : System C L) (i : C × Action L) : Except Unit (System C L × Unit) :=
  match coreStep s.locks (s.cores i.1) i.2 with
  | none => .error ()
  | some (locks, k) => .ok (⟨locks, Function.update s.cores i.1 k⟩, ())

/-- Locks that are free, and processors outside the lock's code. -/
def System.init (eflags : C → Flags) : System C L :=
  ⟨fun _ => spinlockInitlock, fun c => ⟨eflags c, ⟨.out, []⟩, []⟩⟩

/-- What a step can be. -/
inductive CoreStep (locks : L → SpinlockT) (k : Core L) :
    Action L → (L → SpinlockT) → Core L → Prop
  | lock (l : L) : k.current.pc = .out →
    CoreStep locks k (.lock l) locks ({ k with eflags := cli k.eflags }.goto (.spinning l k.eflags))
  | tryLock (l : L) : k.current.pc = .out →
    CoreStep locks k (.tryLock l) locks
      ({ k with eflags := cli k.eflags }.goto (.trying l k.eflags))
  | wait (l : L) (st : Flags) : k.current.pc = .spinning l st → CoreStep locks k .next locks k
  | fail (l : L) (st : Flags) : k.current.pc = .trying l st →
    CoreStep locks k .next locks (k.goto (.refused st))
  | acquire (l : L) (st : Flags) : k.current.pc = .spinning l st ∨ k.current.pc = .trying l st →
    (locks l).locked = false →
    CoreStep locks k .next (Function.update locks l { locks l with locked := true })
      (k.goto (.taken l st))
  | store (l : L) (st : Flags) : k.current.pc = .taken l st →
    CoreStep locks k .next (Function.update locks l { locks l with irqData := st })
      { k with current := ⟨.out, (l, st) :: k.current.held⟩ }
  | giveBack (st : Flags) : k.current.pc = .refused st →
    CoreStep locks k .next locks ({ k with eflags := st }.goto .out)
  | unlock (l : L) (flags : Flags) (held : List (L × Flags)) : k.current.pc = .out →
    k.current.held = (l, flags) :: held →
    CoreStep locks k .unlock (Function.update locks l { locks l with locked := false })
      { k with current := ⟨.released l flags, held⟩ }
  | restore (l : L) (flags : Flags) : k.current.pc = .released l flags →
    CoreStep locks k .next locks ({ k with eflags := (locks l).irqData }.goto (.restored l))
  | clear (l : L) : k.current.pc = .restored l →
    CoreStep locks k .next (Function.update locks l { locks l with irqData := 0 }) (k.goto .out)
  | setIrq (a : Action L) (flags : Flags) : k.current.pc = .out → k.current.held = [] →
    CoreStep locks k a locks { k with eflags := flags }
  | interrupt : irqOn k.eflags = true →
    CoreStep locks k .interrupt locks
      ⟨cli k.eflags, ⟨.out, []⟩, (k.current, k.eflags) :: k.interrupted⟩
  | iret (below : Activity L) (flags : Flags) (interrupted : List (Activity L × Flags)) :
    k.interrupted = (below, flags) :: interrupted → k.current.pc = .out → k.current.held = [] →
    CoreStep locks k .iret locks ⟨flags, below, interrupted⟩

theorem coreStep_cases {locks locks' : L → SpinlockT} {k k' : Core L} {a : Action L}
    (h : coreStep locks k a = some (locks', k')) : CoreStep locks k a locks' k' := by
  cases a with
  | lock l =>
    simp only [coreStep] at h
    split_ifs at h with hpc
    cases h
    exact .lock l hpc
  | tryLock l =>
    simp only [coreStep] at h
    split_ifs at h with hpc
    cases h
    exact .tryLock l hpc
  | unlock =>
    simp only [coreStep] at h
    split_ifs at h with hpc
    cases hheld : k.current.held with
    | nil => simp [hheld] at h
    | cons p held =>
      rw [hheld] at h
      cases h
      exact .unlock p.1 p.2 held hpc hheld
  | next =>
    change nextStep locks k = _ at h
    unfold nextStep at h
    cases hpc : k.current.pc with
    | out => simp [hpc] at h
    | spinning l st =>
      simp only [hpc] at h
      split_ifs at h with hlocked
      · cases h
        exact .wait l st hpc
      · cases h
        exact .acquire l st (.inl hpc) (Bool.eq_false_iff.2 hlocked)
    | trying l st =>
      simp only [hpc] at h
      split_ifs at h with hlocked
      · cases h
        exact .fail l st hpc
      · cases h
        exact .acquire l st (.inr hpc) (Bool.eq_false_iff.2 hlocked)
    | taken l st =>
      simp only [hpc] at h
      cases h
      exact .store l st hpc
    | refused st =>
      simp only [hpc] at h
      cases h
      exact .giveBack st hpc
    | released l flags =>
      simp only [hpc] at h
      cases h
      exact .restore l flags hpc
    | restored l =>
      simp only [hpc] at h
      cases h
      exact .clear l hpc
  | irqEnable =>
    simp only [coreStep] at h
    split_ifs at h with hout
    cases h
    exact .setIrq _ _ hout.1 hout.2
  | irqDisable =>
    simp only [coreStep] at h
    split_ifs at h with hout
    cases h
    exact .setIrq _ _ hout.1 hout.2
  | interrupt =>
    simp only [coreStep] at h
    split_ifs at h with hon
    cases h
    exact .interrupt hon
  | iret =>
    simp only [coreStep] at h
    cases hbelow : k.interrupted with
    | nil => simp [hbelow] at h
    | cons p interrupted =>
      simp only [hbelow] at h
      split_ifs at h with hout
      cases h
      exact .iret p.1 p.2 interrupted hbelow hout.1 hout.2

theorem step_cases {s s' : System C L} {i : C × Action L} {o : Unit} (h : step s i = .ok (s', o)) :
    ∃ k, CoreStep s.locks (s.cores i.1) i.2 s'.locks k ∧
      s'.cores = Function.update s.cores i.1 k := by
  unfold step at h
  cases hcore : coreStep s.locks (s.cores i.1) i.2 with
  | none => simp [hcore] at h
  | some q =>
    rw [hcore] at h
    cases h
    exact ⟨q.2, coreStep_cases hcore, rfl⟩

/-! ## One owner -/

/-- The locks that an activity owns. -/
def Activity.owned (a : Activity L) : List L :=
  match a.pc with
  | .taken l _ => l :: a.held.map Prod.fst
  | _ => a.held.map Prod.fst

def Core.owned (k : Core L) : List L :=
  k.current.owned ++ k.interrupted.flatMap fun p => p.1.owned

/-- A lock is owned once if it is locked, and not owned if it is not. -/
def Exclusive (s : System C L) : Prop :=
  Owners (fun l => (s.locks l).locked) fun c => (s.cores c).owned

/-- The next step takes the lock. -/
def Acquires (locks : L → SpinlockT) (k : Core L) (a : Action L) (l : L) : Prop :=
  a = .next ∧ (∃ st, k.current.pc = .spinning l st ∨ k.current.pc = .trying l st) ∧
    (locks l).locked = false

/-- A step takes a free lock, or lets one go that the processor owns, or neither. -/
inductive Moves (locks : L → SpinlockT) (k : Core L) (a : Action L) (locks' : L → SpinlockT)
    (k' : Core L) : Prop
  | neither : (∀ m, (locks' m).locked = (locks m).locked) → k'.owned = k.owned →
    Moves locks k a locks' k'
  | takes (l : L) : Acquires locks k a l →
    (∀ m, (locks' m).locked = if m = l then true else (locks m).locked) →
    k'.owned = l :: k.owned → Moves locks k a locks' k'
  | gives (l : L) : (∀ m, (locks' m).locked = if m = l then false else (locks m).locked) →
    k.owned = l :: k'.owned → Moves locks k a locks' k'

theorem coreStep_moves {locks locks' : L → SpinlockT} {k k' : Core L} {a : Action L}
    (h : CoreStep locks k a locks' k') : Moves locks k a locks' k' := by
  cases h with
  | lock l hpc =>
    exact .neither (fun _ => rfl) (by simp [Core.owned, Activity.owned, Core.goto, hpc])
  | tryLock l hpc =>
    exact .neither (fun _ => rfl) (by simp [Core.owned, Activity.owned, Core.goto, hpc])
  | wait l st hpc => exact .neither (fun _ => rfl) rfl
  | fail l st hpc =>
    exact .neither (fun _ => rfl) (by simp [Core.owned, Activity.owned, Core.goto, hpc])
  | acquire l st hpc hfree =>
    refine .takes l ⟨rfl, ⟨st, hpc⟩, hfree⟩ (fun m => ?_) ?_
    · rw [Function.update_apply]
      split_ifs <;> rfl
    · rcases hpc with hpc | hpc <;> simp [Core.owned, Activity.owned, Core.goto, hpc]
  | store l st hpc =>
    refine .neither (fun m => ?_) (by simp [Core.owned, Activity.owned, hpc])
    rw [Function.update_apply]
    split_ifs with hm
    · rw [hm]
    · rfl
  | giveBack st hpc =>
    exact .neither (fun _ => rfl) (by simp [Core.owned, Activity.owned, Core.goto, hpc])
  | unlock l flags held hpc hheld =>
    refine .gives l (fun m => ?_) (by simp [Core.owned, Activity.owned, hpc, hheld])
    rw [Function.update_apply]
    split_ifs <;> rfl
  | restore l flags hpc =>
    exact .neither (fun _ => rfl) (by simp [Core.owned, Activity.owned, Core.goto, hpc])
  | clear l hpc =>
    refine .neither (fun m => ?_) (by simp [Core.owned, Activity.owned, Core.goto, hpc])
    rw [Function.update_apply]
    split_ifs with hm
    · rw [hm]
    · rfl
  | setIrq a flags hpc hheld => exact .neither (fun _ => rfl) rfl
  | interrupt hon =>
    exact .neither (fun _ => rfl) (by simp [Core.owned, Activity.owned])
  | iret below flags interrupted hbelow hpc hheld =>
    exact .neither (fun _ => rfl) (by simp [Core.owned, Activity.owned, hbelow, hpc, hheld])

theorem Exclusive.step {s s' : System C L} {i : C × Action L} {o : Unit} (h : Exclusive s)
    (hstep : step s i = .ok (s', o)) : Exclusive s' := by
  obtain ⟨k, hcore, hcores⟩ := step_cases hstep
  have howned : ∀ owned, k.owned = owned → (fun c => (s'.cores c).owned) =
      Function.update (fun c => (s.cores c).owned) i.1 owned := by
    rintro owned rfl
    funext c
    rw [hcores]
    exact Function.apply_update (fun _ k => Core.owned k) s.cores i.1 k c
  cases coreStep_moves hcore with
  | neither hlocked hsame =>
    have hlocked' : (fun l => (s'.locks l).locked) = fun l => (s.locks l).locked := funext hlocked
    have howned' : (fun c => (s'.cores c).owned) = fun c => (s.cores c).owned := by
      rw [howned _ hsame, Function.update_eq_self]
    unfold Exclusive
    rw [hlocked', howned']
    exact h
  | takes l hacquires hlocked htaken => exact h.take hacquires.2.2 hlocked (howned _ htaken)
  | gives l hlocked hgiven => exact h.give hgiven hlocked (howned _ rfl)

omit [DecidableEq C] [DecidableEq L] in
theorem exclusive_init (eflags : C → Flags) : Exclusive (System.init eflags : System C L) :=
  ⟨fun _ => List.nodup_nil, fun _ _ _ hl => (List.not_mem_nil hl).elim,
    fun _ => ⟨nofun, fun ⟨_, hl⟩ => (List.not_mem_nil hl).elim⟩⟩

/-- A lock has one owner at most, in whatever order the processors take their steps and
interrupts come in, and is locked as long as it has one. -/
theorem run_exclusive (eflags : C → Flags) (is : List (C × Action L)) {s : System C L}
    {os : List Unit} (hrun : run step (System.init eflags) is = .ok (s, os)) : Exclusive s :=
  run_keeps (C := fun _ _ => True) (fun h _ hstep => h.step hstep) (exclusive_init eflags)
    (meets_of_forall (fun _ _ => trivial) is _) hrun

/-- The first processor gets the lock, the second one waits for it. -/
def waitingRun : List (Bool × Action Unit) :=
  [(true, .lock ()), (false, .lock ()), (true, .next), (true, .next), (false, .next)]

theorem waitingRun_exclusive : ∃ s os,
    run step (System.init fun _ : Bool => 0x202) waitingRun = .ok (s, os) ∧ Exclusive s :=
  ⟨_, _, rfl, run_exclusive (fun _ => 0x202) waitingRun rfl⟩

/-! ## The flags -/

/-- Interrupts may be on here, if no lock is held. -/
def Pc.quiet : Pc L → Bool
  | .out | .restored _ => true
  | _ => false

/-- An activity has let go of the lock, and is still in `spinlock_unlock`. -/
def Activity.leaving (a : Activity L) (l : L) : Prop :=
  (∃ flags, a.pc = .released l flags) ∨ a.pc = .restored l

def Core.leaving (k : Core L) (l : L) : Prop :=
  k.current.leaving l ∨ ∃ p ∈ k.interrupted, p.1.leaving l

/-- No lock is taken that another processor is still leaving. -/
def NoOverlap (s : System C L) (i : C × Action L) : Prop :=
  ∀ l, Acquires s.locks (s.cores i.1) i.2 l → ∀ c, c ≠ i.1 → ¬ (s.cores c).leaving l

/-- Interrupts were off when a lock was taken, but for the first one. -/
def Nested : List (L × Flags) → Prop
  | [] => True
  | p :: ps => (ps ≠ [] → irqOn p.2 = false) ∧ Nested ps

/-- The flags that an activity will give back. -/
def PcSound (locks : L → SpinlockT) (held : List (L × Flags)) : Pc L → Prop
  | .out => True
  | .spinning _ st | .trying _ st | .taken _ st | .refused st => held ≠ [] → irqOn st = false
  | .released l flags =>
    (held ≠ [] → irqOn flags = false) ∧ (locks l).irqData = flags ∧ l ∉ held.map Prod.fst
  | .restored l => l ∉ held.map Prod.fst

/-- The invariant of one processor. -/
structure Calm (locks : L → SpinlockT) (k : Core L) : Prop where
  off : k.current.pc.quiet = false ∨ k.current.held ≠ [] → irqOn k.eflags = false
  below : ∀ p ∈ k.interrupted, p.1.pc.quiet = true ∧ p.1.held = []
  saved : ∀ p ∈ k.current.held, (locks p.1).irqData = p.2
  nested : Nested k.current.held
  pc : PcSound locks k.current.held k.current.pc

/-- The invariant of all processors together. -/
structure Inv (s : System C L) : Prop where
  exclusive : Exclusive s
  calm : ∀ c, Calm s.locks (s.cores c)
  left : ∀ c c' l, c ≠ c' → (s.cores c).leaving l →
    l ∉ (s.cores c').owned ∧ ¬ (s.cores c').leaving l

section OneCore

variable {locks locks' : L → SpinlockT} {k k' : Core L} {a : Action L}

theorem irqData_of_step (h : CoreStep locks k a locks' k') {m : L}
    (hm : (locks' m).irqData ≠ (locks m).irqData) : m ∈ k.owned ∨ k.leaving m := by
  have hupdate : ∀ {l : L} {b : SpinlockT},
      (Function.update locks l b m).irqData ≠ (locks m).irqData → m = l := by
    intro l b hne
    by_contra hml
    exact hne (by rw [Function.update_of_ne hml])
  cases h with
  | store l st hpc =>
    obtain rfl := hupdate hm
    exact .inl (by simp [Core.owned, Activity.owned, hpc])
  | clear l hpc =>
    obtain rfl := hupdate hm
    exact .inr (.inl (.inr hpc))
  | acquire l st hpc hfree =>
    obtain rfl := hupdate hm
    simp at hm
  | unlock l flags held hpc hheld =>
    obtain rfl := hupdate hm
    simp at hm
  | _ => exact absurd rfl hm

theorem owned_of_step (h : CoreStep locks k a locks' k') {m : L} (hm : m ∈ k'.owned) :
    m ∈ k.owned ∨ Acquires locks k a m := by
  cases coreStep_moves h with
  | neither hlocked hsame => exact .inl (hsame ▸ hm)
  | takes l hacquires hlocked htaken =>
    rw [htaken, List.mem_cons] at hm
    rcases hm with rfl | hm
    · exact .inr hacquires
    · exact .inl hm
  | gives l hlocked hgiven => exact .inl (hgiven ▸ List.mem_cons_of_mem l hm)

theorem leaving_of_step (h : CoreStep locks k a locks' k') {m : L} (hm : k'.leaving m) :
    k.leaving m ∨ m ∈ k.owned := by
  cases h with
  | unlock l flags held hpc hheld =>
    rcases hm with (⟨flags', hm⟩ | hm) | hm
    · obtain ⟨rfl, -⟩ := Pc.released.inj hm
      exact .inr (by simp [Core.owned, Activity.owned, hpc, hheld])
    · cases hm
    · exact .inl (.inr hm)
  | restore l flags hpc =>
    rcases hm with (⟨flags', hm⟩ | hm) | hm
    · cases hm
    · obtain rfl := Pc.restored.inj hm
      exact .inl (.inl (.inl ⟨flags, hpc⟩))
    · exact .inl (.inr hm)
  | wait l st hpc => exact .inl hm
  | setIrq a flags hpc hheld => exact .inl hm
  | interrupt hon =>
    rcases hm with (⟨flags, hm⟩ | hm) | ⟨p, hp, hm⟩
    · cases hm
    · cases hm
    · rcases List.mem_cons.1 hp with rfl | hp
      · exact .inl (.inl hm)
      · exact .inl (.inr ⟨p, hp, hm⟩)
  | iret below flags interrupted hinterrupted hpc hheld =>
    refine .inl (.inr ?_)
    rw [hinterrupted]
    rcases hm with hm | ⟨p, hp, hm⟩
    · exact ⟨(below, flags), List.mem_cons_self, hm⟩
    · exact ⟨p, List.mem_cons_of_mem _ hp, hm⟩
  | _ => exact .inl (.inr (hm.resolve_left (by simp [Activity.leaving, Core.goto])))

omit [DecidableEq L] in
theorem Calm.congr (h : Calm locks k)
    (hsame : ∀ l, l ∈ k.owned ∨ k.leaving l → (locks' l).irqData = (locks l).irqData) :
    Calm locks' k := by
  refine ⟨h.off, h.below, fun p hp => ?_, h.nested, ?_⟩
  · refine (hsame p.1 (.inl ?_)).trans (h.saved p hp)
    have hheld : p.1 ∈ k.current.held.map Prod.fst := List.mem_map_of_mem hp
    unfold Core.owned Activity.owned
    rw [List.mem_append]
    left
    split
    · exact List.mem_cons_of_mem _ hheld
    · exact hheld
  · have hpc := h.pc
    cases hcase : k.current.pc with
    | released l flags =>
      rw [hcase] at hpc
      exact ⟨hpc.1, (hsame l (.inr (.inl (.inl ⟨flags, hcase⟩)))).trans hpc.2.1, hpc.2.2⟩
    | _ =>
      rw [hcase] at hpc
      exact hpc

theorem Calm.step (h : Calm locks k) (honce : k.owned.Nodup)
    (hstep : CoreStep locks k a locks' k') :
    Calm locks' k' := by
  have hpc' := h.pc
  cases hstep with
  | lock l hpc =>
    refine ⟨fun _ => irqOn_cli _, h.below, h.saved, h.nested, fun hheld => h.off (.inr hheld)⟩
  | tryLock l hpc =>
    refine ⟨fun _ => irqOn_cli _, h.below, h.saved, h.nested, fun hheld => h.off (.inr hheld)⟩
  | wait l st hpc => exact h
  | fail l st hpc =>
    rw [hpc] at hpc'
    exact ⟨fun _ => h.off (.inl (by rw [hpc]; rfl)), h.below, h.saved, h.nested, hpc'⟩
  | acquire l st hpc hfree =>
    have hoff : irqOn k.eflags = false := by
      rcases hpc with hpc | hpc <;> exact h.off (.inl (by rw [hpc]; rfl))
    have hst : k.current.held ≠ [] → irqOn st = false := by
      rcases hpc with hpc | hpc <;>
      · rw [hpc] at hpc'
        exact hpc'
    refine ⟨fun _ => hoff, h.below, fun p hp => ?_, h.nested, hst⟩
    rw [← h.saved p hp, Function.update_apply]
    split_ifs with hl
    · rw [hl]
    · rfl
  | store l st hpc =>
    rw [hpc] at hpc'
    have hl : l ∉ k.current.held.map Prod.fst := by
      unfold Core.owned Activity.owned at honce
      rw [hpc] at honce
      exact (List.nodup_cons.1 (List.Nodup.of_append_left honce)).1
    refine ⟨fun _ => h.off (.inl (by rw [hpc]; rfl)), h.below, fun p hp => ?_, ⟨hpc', h.nested⟩,
      trivial⟩
    rcases List.mem_cons.1 hp with rfl | hold
    · rw [Function.update_self]
    · have hne : p.1 ≠ l := by
        rintro rfl
        exact hl (List.mem_map_of_mem hold)
      rw [Function.update_of_ne hne]
      exact h.saved p hold
  | giveBack st hpc =>
    rw [hpc] at hpc'
    exact ⟨fun hheld => hpc' (hheld.resolve_left nofun), h.below, h.saved, h.nested, trivial⟩
  | unlock l flags held hpc hheld =>
    have hsaved := h.saved
    have hnested := h.nested
    have hl : l ∉ held.map Prod.fst := by
      unfold Core.owned Activity.owned at honce
      rw [hpc, hheld] at honce
      exact (List.nodup_cons.1 (List.Nodup.of_append_left honce)).1
    have hdata : ∀ m, (Function.update locks l { locks l with locked := false } m).irqData =
        (locks m).irqData := by
      intro m
      rw [Function.update_apply]
      split_ifs with hm
      · rw [hm]
      · rfl
    rw [hheld] at hsaved hnested
    refine ⟨fun _ => h.off (.inr (by rw [hheld]; exact List.cons_ne_nil _ _)), h.below,
      fun p hp => (hdata p.1).trans (hsaved p (List.mem_cons_of_mem _ hp)), hnested.2,
      hnested.1, (hdata l).trans (hsaved (l, flags) List.mem_cons_self), hl⟩
  | restore l flags hpc =>
    rw [hpc] at hpc'
    obtain ⟨hoff, hdata, hl⟩ := hpc'
    refine ⟨fun hheld => ?_, h.below, h.saved, h.nested, hl⟩
    show irqOn (locks l).irqData = false
    rw [hdata]
    exact hoff (hheld.resolve_left nofun)
  | clear l hpc =>
    rw [hpc] at hpc'
    refine ⟨fun hheld => h.off (.inr (hheld.resolve_left nofun)), h.below, fun p hp => ?_, h.nested,
      trivial⟩
    have hne : p.1 ≠ l := by
      rintro rfl
      exact hpc' (List.mem_map_of_mem hp)
    rw [Function.update_of_ne hne]
    exact h.saved p hp
  | setIrq a flags hpc hheld =>
    refine ⟨fun hbusy => ?_, h.below, h.saved, h.nested, h.pc⟩
    rcases hbusy with hbusy | hbusy
    · exact absurd (hpc ▸ hbusy) nofun
    · exact absurd hheld hbusy
  | interrupt hon =>
    refine ⟨fun _ => irqOn_cli _, fun p hp => ?_, nofun, trivial, trivial⟩
    rcases List.mem_cons.1 hp with rfl | hold
    · -- interrupts were on, so that no lock was held
      have hquiet : ¬ (k.current.pc.quiet = false ∨ k.current.held ≠ []) := by
        intro hbusy
        rw [h.off hbusy] at hon
        cases hon
      rw [not_or, Bool.not_eq_false, not_not] at hquiet
      exact hquiet
    · exact h.below p hold
  | iret below flags interrupted hinterrupted hpc hheld =>
    have hbelow := h.below
    rw [hinterrupted] at hbelow
    obtain ⟨hquiet, hnone⟩ := hbelow _ List.mem_cons_self
    refine ⟨fun hbusy => ?_, fun p hp => hbelow p (List.mem_cons_of_mem _ hp), fun p hp => ?_, ?_,
      ?_⟩
    · rcases hbusy with hbusy | hbusy
      · rw [hquiet] at hbusy
        cases hbusy
      · exact absurd hnone hbusy
    · rw [hnone] at hp
      cases hp
    · rw [hnone]
      trivial
    · rw [hnone]
      cases hcase : below.pc with
      | out => trivial
      | restored l => exact List.not_mem_nil
      | _ =>
        rw [hcase] at hquiet
        cases hquiet

end OneCore

theorem Inv.step {s s' : System C L} {i : C × Action L} {o : Unit} (h : Inv s)
    (hoverlap : NoOverlap s i) (hstep : step s i = .ok (s', o)) : Inv s' := by
  have hexclusive := h.exclusive.step hstep
  obtain ⟨k, hcore, hcores⟩ := step_cases hstep
  have hself : s'.cores i.1 = k := by rw [hcores, Function.update_self]
  have hother : ∀ c, c ≠ i.1 → s'.cores c = s.cores c := by
    intro c hc
    rw [hcores, Function.update_of_ne hc]
  refine ⟨hexclusive, fun c => ?_, fun c c' l hne hleaving => ?_⟩
  · by_cases hc : c = i.1
    · rw [hc, hself]
      exact (h.calm i.1).step (h.exclusive.once i.1) hcore
    · rw [hother c hc]
      refine (h.calm c).congr fun l hl => ?_
      by_contra hdata
      rcases irqData_of_step hcore hdata with howns | hleft
      · rcases hl with hl | hl
        · exact hc (h.exclusive.one c i.1 l hl howns)
        · exact (h.left c i.1 l hc hl).1 howns
      · obtain ⟨hno, hnot⟩ := h.left i.1 c l (Ne.symm hc) hleft
        exact hl.elim hno hnot
  · by_cases hc : c = i.1
    · -- what this processor leaves it left before, or owned
      subst hc
      rw [hself] at hleaving
      rw [hother c' (Ne.symm hne)]
      rcases leaving_of_step hcore hleaving with hold | howned
      · exact h.left i.1 c' l hne hold
      · exact ⟨fun hl => hne (h.exclusive.one i.1 c' l howned hl),
          fun hl => (h.left c' i.1 l (Ne.symm hne) hl).1 howned⟩
    · rw [hother c hc] at hleaving
      by_cases hc' : c' = i.1
      · subst hc'
        rw [hself]
        obtain ⟨hno, hnot⟩ := h.left c i.1 l hne hleaving
        refine ⟨fun hl => ?_, fun hl => ?_⟩
        · rcases owned_of_step hcore hl with hold | hacquires
          · exact hno hold
          · exact hoverlap l hacquires c hc hleaving
        · exact (leaving_of_step hcore hl).elim hnot hno
      · rw [hother c' hc']
        exact h.left c c' l hne hleaving

omit [DecidableEq C] [DecidableEq L] in
theorem inv_init (eflags : C → Flags) : Inv (System.init eflags : System C L) := by
  refine ⟨exclusive_init eflags, fun c => ⟨?_, nofun, nofun, trivial, trivial⟩,
    fun c c' l _ hleaving => ?_⟩
  · rintro (h | h)
    · cases h
    · exact absurd rfl h
  · rcases hleaving with (⟨flags, h⟩ | h) | ⟨p, hp, -⟩
    · cases h
    · cases h
    · cases hp

/-- What the locks are for: the flags are given back, a lock is only owned with interrupts off,
and no activity waits for a lock that one below it has. -/
structure Sound (s : System C L) : Prop where
  flags : ∀ c l flags, (s.cores c).current.pc = .released l flags → (s.locks l).irqData = flags
  off : ∀ c, (s.cores c).current.owned ≠ [] → irqOn (s.cores c).eflags = false
  no_wait : ∀ c l st, (s.cores c).current.pc = .spinning l st →
    ∀ p ∈ (s.cores c).interrupted, l ∉ p.1.owned

omit [DecidableEq L] in
theorem owned_of_quiet {a : Activity L} (hquiet : a.pc.quiet = true) :
    a.owned = a.held.map Prod.fst := by
  unfold Activity.owned
  split
  · rename_i l st hpc
    rw [hpc] at hquiet
    cases hquiet
  · rfl

omit [DecidableEq C] [DecidableEq L] in
theorem Inv.sound {s : System C L} (h : Inv s) : Sound s := by
  refine ⟨fun c l flags hpc => ?_, fun c howned => ?_, fun c l st _ p hp hl => ?_⟩
  · have hsound := (h.calm c).pc
    rw [hpc] at hsound
    exact hsound.2.1
  · refine (h.calm c).off ?_
    by_contra hquiet
    rw [not_or, Bool.not_eq_false, not_not] at hquiet
    refine howned ?_
    rw [owned_of_quiet hquiet.1, hquiet.2]
    rfl
  · obtain ⟨hquiet, hheld⟩ := (h.calm c).below p hp
    rw [owned_of_quiet hquiet, hheld] at hl
    cases hl

/-- In every run in which no lock is taken while another processor is leaving it, `unlock` gives
back the flags from before `lock`, a lock is only owned with interrupts off, and an interrupt never
waits for a lock of the code it came into. -/
theorem run_sound (eflags : C → Flags) (is : List (C × Action L)) {s : System C L} {os : List Unit}
    (hmeets : Meets step NoOverlap (System.init eflags) is)
    (hrun : run step (System.init eflags) is = .ok (s, os)) : Sound s :=
  (run_keeps (fun h hoverlap hstep => h.step hoverlap hstep) (inv_init eflags) hmeets hrun).sound

theorem meets_of_subsingleton [Subsingleton C] (is : List (C × Action L)) (s : System C L) :
    Meets step NoOverlap s is :=
  meets_of_forall (fun _ i _ _ c hc => absurd (Subsingleton.elim c i.1) hc) is s

end Step

/-- No activity of the processor is in `spinlock_unlock`. -/
def Core.clear {L : Type} (k : Core L) : Bool :=
  k.interrupted.isEmpty &&
    match k.current.pc with
    | .released .. | .restored _ => false
    | _ => true

theorem Core.not_leaving {L : Type} {k : Core L} (h : k.clear = true) (l : L) : ¬ k.leaving l := by
  obtain ⟨hempty, hpc⟩ := Bool.and_eq_true_iff.1 h
  rintro (⟨⟨flags, hreleased⟩ | hrestored⟩ | ⟨p, hp, -⟩)
  · rw [hreleased] at hpc
    cases hpc
  · rw [hrestored] at hpc
    cases hpc
  · rw [List.isEmpty_iff.1 hempty] at hp
    cases hp

/-- One processor waits for a lock of the other one, and is interrupted while it gives the lock
back. -/
def twoCores : List (Bool × Action Bool) :=
  [(true, .lock true), (true, .next), (true, .next), (false, .lock true), (false, .next),
    (true, .unlock), (true, .next), (true, .next), (false, .next), (false, .next), (false, .unlock),
    (false, .next), (false, .interrupt), (false, .lock false), (false, .next), (false, .next),
    (false, .unlock), (false, .next), (false, .next), (false, .iret), (false, .next)]

theorem twoCores_sound :
    ∃ s os, run step (System.init fun _ => 0x202) twoCores = .ok (s, os) ∧ Sound s := by
  have hclear : Meets step (fun s i => (s.cores !i.1).clear = true) (System.init fun _ => 0x202)
      twoCores := by
    decide +kernel
  refine ⟨_, _, rfl, run_sound (fun _ => 0x202) twoCores (hclear.mono ?_) rfl⟩
  intro s i h l _ c hc
  obtain rfl : c = !i.1 := Bool.eq_not_of_ne hc
  exact Core.not_leaving h l

/-- The second processor takes the lock while the first one is leaving it. -/
def overlapRun : List (Bool × Action Unit) :=
  [(true, .lock ()), (true, .next), (true, .next), (true, .unlock), (false, .lock ()),
    (false, .next), (false, .next), (true, .next), (true, .next), (false, .unlock), (false, .next),
    (false, .next)]

/-- On two processors the flags can be lost: both locked and unlocked with interrupts on, and the
second one has them off from now on. -/
theorem overlap_loses_interrupts :
    ∃ s os, run step (System.init fun _ => 0x202) overlapRun = .ok (s, os) ∧
      s.cores true = ⟨0x202, ⟨.out, []⟩, []⟩ ∧ s.cores false = ⟨0, ⟨.out, []⟩, []⟩ :=
  ⟨_, _, rfl, rfl, rfl⟩

end X86Kernel.Spinlock
