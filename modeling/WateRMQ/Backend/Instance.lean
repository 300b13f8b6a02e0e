import WateRMQ.Backend.Layout

/-!
# The backend's instance

`addMessageInQueue_private`, `sendMessage` and `configurationQueueMmap_private` of
`BackLibWaterRMQ.c`, on a process that holds `Queue` objects behind two pointers: the instance's
`consumingQueue` and the `ptr_queue` of its `qmmap`. Both may point to one object.

What the functions ask of the operating system is a parameter, `Kernel`. The calls of `sem_wait`
that are modelled are those that return; the code does not look at their results.

* `sendMessage_ok` — a call of `sendMessage` is one `enqueue` through each pointer, and an `msync`;
* `Process.enqueueAt_ok` — what an `enqueue` through a pointer changes, and what it leaves alone;
* `configurationQueueMmapPrivate_new`, `configurationQueueMmapPrivate_existing` — the two branches
  for the bridge file.
-/

namespace WateRMQ
namespace Backend

open CMem

/-- A `Queue *`: to an object of the heap, or to the mapping of the bridge file. -/
inductive QueuePtr
  | heap (n : ℕ)
  | bridge
  deriving DecidableEq

/-- The calls to the operating system, with the state of the bridge file and of the semaphore in
`φ`. A mapping of the file is an object of type `σ`. -/
class Kernel (φ : Type) (σ : outParam Type) where
  /-- `open(filename, O_RDWR | O_CREAT, S_IRWXU)`. -/
  openFile : φ → φ
  /-- `st_size` after `fstat`. -/
  size : φ → ℕ
  ftruncate : φ → ℕ → φ
  /-- `mmap` of the first bytes of the file: whether `prot` has `PROT_WRITE`, and whether `flags`
  is `MAP_SHARED`. -/
  mmap : φ → ℕ → Bool → Bool → σ
  /-- `msync` on the object behind a pointer. -/
  msync : φ → QueuePtr → σ → ℕ → φ
  semWait : φ → φ
  semClose : φ → φ

/-- The members of `WateRMQ` that the functions use, with the objects that their pointers may
point to. -/
structure Process (σ φ : Type) where
  queues : QueuePtr → σ
  consumingQueue : QueuePtr
  ptrQueue : QueuePtr
  world : φ

/-! ### The functions of the source -/

section Functions

variable {σ φ ι : Type} [QueueAccess σ ι] [CPointer ι] [DecidableEq ι] [Kernel φ σ]

/-- `enqueue(ptr, message)`. -/
def Process.enqueueAt (p : Process σ φ) (ptr : QueuePtr) (message : CharPtr) (malloc : Malloc ι) :
    Except Fault (Process σ φ × List Output) := do
  let (q, out) ← enqueue (p.queues ptr) message malloc
  return ({ p with queues := Function.update p.queues ptr q }, out)

/-- `addMessageInQueue_private`. -/
def addMessageInQueuePrivate (p : Process σ φ) (message : CharPtr) (malloc : Malloc ι) :
    Except Fault (ℤ × Process σ φ × List Output) :=
  if message = .null then return (-1, p, [])
  else do
    let (p, out) ← p.enqueueAt p.consumingQueue message malloc
    return (1, p, out)

/-- `sendMessage`, with the allocators that its two calls of `enqueue` find. The source passes
`qmmap->ptr_queue` where `addMessageInQueue_private` takes the instance. -/
def sendMessage (p : Process σ φ) (message : CharPtr) (malloc₁ malloc₂ : Malloc ι) :
    Except Fault (Process σ φ × List Output) := do
  let p : Process σ φ := { p with world := Kernel.semWait p.world }
  -- the result is not looked at: a null message is turned down here, and enqueued below
  let (_, p, out₁) ← addMessageInQueuePrivate p message malloc₁
  let (p, out₂) ← p.enqueueAt p.ptrQueue message malloc₂
  let world := Kernel.msync p.world p.ptrQueue (p.queues p.ptrQueue) sizeofQueue
  return ({ p with world := Kernel.semClose world }, out₁ ++ out₂)

/-- `configurationQueueMmap_private`, as far as it uses its arguments. -/
def configurationQueueMmapPrivate (p : Process σ φ) (ptrQueue : QueuePtr) : Process σ φ :=
  let world := Kernel.openFile p.world
  if Kernel.size world = 0 then
    -- the mapping is made, and its address is overwritten two statements later
    let world := Kernel.ftruncate world sizeofQueue
    let mapping := Kernel.mmap world sizeofQueue true false
    { queues := Function.update p.queues .bridge mapping
      consumingQueue := ptrQueue
      ptrQueue := ptrQueue
      world := world }
  else
    { queues := Function.update p.queues .bridge
        (Kernel.mmap world (Kernel.size world) false false)
      consumingQueue := p.consumingQueue
      ptrQueue := .bridge
      world := world }

end Functions

/-! ### The outcome of each function -/

section Outcomes

variable {σ φ ι : Type} [QueueAccess σ ι] [CPointer ι] [DecidableEq ι]

/-- An `enqueue` through a pointer changes the object behind it, and nothing else. -/
theorem Process.enqueueAt_ok {p p' : Process σ φ} {ptr : QueuePtr} {message : CharPtr}
    {malloc : Malloc ι} {out : List Output} :
    p.enqueueAt ptr message malloc = .ok (p', out) ↔
      ∃ q, enqueue (p.queues ptr) message malloc = .ok (q, out) ∧
        p' = { p with queues := Function.update p.queues ptr q } := by
  constructor
  · intro h
    obtain ⟨⟨q, out'⟩, h_enqueue, h⟩ := bind_eq_ok.mp h
    cases h
    exact ⟨q, h_enqueue, rfl⟩
  · rintro ⟨q, h_enqueue, rfl⟩
    exact bind_eq_ok.mpr ⟨(q, out), h_enqueue, rfl⟩

theorem addMessageInQueuePrivate_ok {p p' : Process σ φ} {message : CharPtr} {malloc : Malloc ι}
    {ret : ℤ} {out : List Output} (h_null : message ≠ .null) :
    addMessageInQueuePrivate p message malloc = .ok (ret, p', out) ↔
      ret = 1 ∧ p.enqueueAt p.consumingQueue message malloc = .ok (p', out) := by
  rw [addMessageInQueuePrivate, if_neg h_null]
  constructor
  · intro h
    obtain ⟨⟨p₁, out'⟩, h_enqueue, h⟩ := bind_eq_ok.mp h
    cases h
    exact ⟨rfl, h_enqueue⟩
  · rintro ⟨rfl, h_enqueue⟩
    exact bind_eq_ok.mpr ⟨(p', out), h_enqueue, rfl⟩

variable [Kernel φ σ]

/-- **`sendMessage` is two calls of `enqueue`**, one on the object behind each pointer, and an
`msync` of the second. -/
theorem sendMessage_ok {p p' : Process σ φ} {message : CharPtr} {malloc₁ malloc₂ : Malloc ι}
    {out : List Output} (h_null : message ≠ .null) :
    sendMessage p message malloc₁ malloc₂ = .ok (p', out) ↔
      ∃ q₁ out₁ q₂ out₂,
        enqueue (p.queues p.consumingQueue) message malloc₁ = .ok (q₁, out₁) ∧
        enqueue (Function.update p.queues p.consumingQueue q₁ p.ptrQueue) message malloc₂ =
          .ok (q₂, out₂) ∧
        p' =
          { queues :=
              Function.update (Function.update p.queues p.consumingQueue q₁) p.ptrQueue q₂
            consumingQueue := p.consumingQueue
            ptrQueue := p.ptrQueue
            world :=
              Kernel.semClose (Kernel.msync (Kernel.semWait p.world) p.ptrQueue q₂ sizeofQueue) } ∧
        out = out₁ ++ out₂ := by
  constructor
  · intro h
    obtain ⟨⟨ret, p₁, out₁⟩, h_add, h⟩ := bind_eq_ok.mp h
    obtain ⟨⟨p₂, out₂⟩, h_enqueue, h⟩ := bind_eq_ok.mp h
    -- the first `enqueue` goes through `consumingQueue`, the second through `ptrQueue`, on what
    -- the first one left
    obtain ⟨q₁, h_first, rfl⟩ :=
      Process.enqueueAt_ok.mp ((addMessageInQueuePrivate_ok h_null).mp h_add).2
    obtain ⟨q₂, h_second, rfl⟩ := Process.enqueueAt_ok.mp h_enqueue
    cases h
    refine ⟨q₁, out₁, q₂, out₂, h_first, h_second, ?_, rfl⟩
    dsimp only
    rw [Function.update_self]
  · -- the same statements, put together again
    rintro ⟨q₁, out₁, q₂, out₂, h_first, h_second, rfl, rfl⟩
    refine bind_eq_ok.mpr ⟨(1, _, out₁), (addMessageInQueuePrivate_ok h_null).mpr
      ⟨rfl, Process.enqueueAt_ok.mpr ⟨q₁, h_first, rfl⟩⟩, ?_⟩
    refine bind_eq_ok.mpr ⟨(_, out₂), Process.enqueueAt_ok.mpr ⟨q₂, h_second, rfl⟩, ?_⟩
    dsimp only
    rw [Function.update_self]
    rfl

/-- A new file: both pointers are the argument. -/
theorem configurationQueueMmapPrivate_new {p : Process σ φ} (ptrQueue : QueuePtr)
    (h : Kernel.size (Kernel.openFile p.world) = 0) :
    configurationQueueMmapPrivate p ptrQueue =
      { queues := Function.update p.queues .bridge
          (Kernel.mmap (Kernel.ftruncate (Kernel.openFile p.world) sizeofQueue) sizeofQueue true
            false)
        consumingQueue := ptrQueue
        ptrQueue := ptrQueue
        world := Kernel.ftruncate (Kernel.openFile p.world) sizeofQueue } :=
  if_pos h

/-- An existing file: `ptr_queue` is a read-only mapping of it. -/
theorem configurationQueueMmapPrivate_existing {p : Process σ φ} (ptrQueue : QueuePtr)
    (h : Kernel.size (Kernel.openFile p.world) ≠ 0) :
    configurationQueueMmapPrivate p ptrQueue =
      { queues := Function.update p.queues .bridge
          (Kernel.mmap (Kernel.openFile p.world) (Kernel.size (Kernel.openFile p.world)) false
            false)
        consumingQueue := p.consumingQueue
        ptrQueue := .bridge
        world := Kernel.openFile p.world } :=
  if_neg h

end Outcomes

end Backend
end WateRMQ
