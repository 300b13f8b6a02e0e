import WateRMQ.Backend.Instance

/-!
# The bridge file

`configurationQueueMmap_private` and `sendMessage` on the bytes of the bridge file: `BridgeFile` is
the file, and its `Kernel` instance is what POSIX says of `open`, `ftruncate`, `mmap` and `msync`.
A private mapping is a copy, `msync` writes a shared mapping back, and on an address that is no
mapping it fails without effect.

`writesThrough_iff` says when the calls of `sendMessage` write through to the file: for a file that
already holds a full queue, on which `enqueue` has nothing to write. A new file is left behind,
because `ptr_queue` is not its mapping but the queue on the heap (`not_writesThrough_of_new`); an
existing one cannot be written, because its mapping is read-only (`full_of_writesThrough`).
-/

namespace WateRMQ
namespace Backend

open CMem QueueAccess

/-! ### The file system -/

/-- The bridge file: its bytes, when it exists. -/
structure BridgeFile where
  content : Option (List UInt8)

namespace BridgeFile

/-- The bytes of the file; none when it does not exist. -/
def bytes (f : BridgeFile) : List UInt8 := f.content.getD []

/-- A mapping of the first `length` bytes of the file. Behind the end of the file the last page is
filled with zeros. -/
def map (f : BridgeFile) (length : ℕ) (writable shared : Bool) : Region where
  bytes i := f.bytes.getD i 0
  length := length
  writable := writable
  shared := shared
  stores := []

instance kernel : Kernel BridgeFile Region where
  openFile f := ⟨some f.bytes⟩
  size f := f.bytes.length
  ftruncate f n := ⟨some (f.bytes.take n ++ List.replicate (n - f.bytes.length) 0)⟩
  mmap f := f.map
  msync f ptr r n :=
    match ptr with
    | .heap _ => f
    | .bridge =>
      if r.shared then
        ⟨some ((List.range f.bytes.length).map fun i =>
          if i < n then r.bytes i else f.bytes.getD i 0)⟩
      else f
  semWait f := f
  semClose f := f

/-- The queue that another process sees in the file. -/
def sees (f : BridgeFile) : Queue Word := (f.map f.bytes.length true true).view

/-- The file holds a queue, up to its last page, and the array of the queue is used up. -/
structure Full (f : BridgeFile) : Prop where
  nonempty : f.bytes ≠ []
  size_le : sizeofQueue ≤ pageEnd f.bytes.length
  rear_eq : f.sees.rear = maxSize

end BridgeFile

/-! ### Writing through -/

/-- One call of `sendMessage`, with the allocators that it finds. -/
structure Call where
  message : CStr
  malloc₁ : Malloc Word
  malloc₂ : Malloc Word

/-- No allocator gives a block larger than the address space allows. -/
def Call.Bounded (c : Call) : Prop :=
  ∀ n bytes, 2 ^ 63 ≤ n → c.malloc₁ n bytes = CPointer.null ∧ c.malloc₂ n bytes = CPointer.null

/-- The same queue: `front`, `rear`, and what is pending between them. -/
def SameQueue (q q' : Queue Word) : Prop :=
  q.front = q'.front ∧ q.rear = q'.rear ∧ q.contents = q'.contents

/-- **The call `c`, from `p` to `p'`, writes through.** It completes, so every access was permitted;
what its `enqueue` through `qmmap->ptr_queue` stores goes into the mapping of the file; and after
its `msync` another process sees in the file the queue behind `qmmap->ptr_queue`. -/
structure Call.WritesThrough (c : Call) (p p' : Process Region BridgeFile) : Prop where
  completes : ∃ out, sendMessage p c.message.ptr c.malloc₁ c.malloc₂ = .ok (p', out)
  inside : ∀ p₁ p₂ out₁ out₂,
    p.enqueueAt p.consumingQueue c.message.ptr c.malloc₁ = .ok (p₁, out₁) →
    p₁.enqueueAt p₁.ptrQueue c.message.ptr c.malloc₂ = .ok (p₂, out₂) →
    p₁.ptrQueue = .bridge ∨ (p₂.queues p₁.ptrQueue).stores = (p₁.queues p₁.ptrQueue).stores
  seen : SameQueue p'.world.sees (p'.queues p'.ptrQueue).view

/-- Every call of a run writes through. -/
def WritesThrough (p : Process Region BridgeFile) : List Call → Prop
  | [] => True
  | c :: cs => ∃ p', c.WritesThrough p p' ∧ WritesThrough p' cs

/-! ### Queues on the heap -/

/-- A block of the heap that holds a queue within its bounds. -/
structure HeapQueue (r : Region) : Prop where
  size_le : sizeofQueue ≤ r.length
  writable : r.writable = true
  shape : Shape r.view

/-- `enqueue` leaves a queue on the heap one. -/
theorem HeapQueue.of_enqueue {r r' : Region} {value : CharPtr} {malloc : Malloc Word}
    {out : List Output} (h : HeapQueue r) (h_enqueue : enqueue r value malloc = .ok (r', out)) :
    HeapQueue r' := by
  have h_frame := (Region.frame_keeps r).enqueue (.refl r) h_enqueue
  exact
    { size_le := h_frame.length ▸ h.size_le
      writable := h_frame.writable ▸ h.writable
      shape := h.shape.enqueue (Region.view_view.enqueue h_enqueue) }

/-- An `enqueue` of a string on a heap queue always completes. -/
theorem HeapQueue.enqueue_completes {r : Region} (h : HeapQueue r) (m : CStr) {malloc : Malloc Word}
    (h_malloc : ∀ n bytes, 2 ^ 63 ≤ n → malloc n bytes = CPointer.null) :
    ∃ x, enqueue r m.ptr malloc = .ok x := by
  have h_end := h.size_le.trans (le_pageEnd r.length)
  -- with room the store and the new `rear` fit, and a count that is too large is not allocated
  by_cases h_room : r.view.rear = maxSize
  · exact ⟨_, enqueue_of_isFull (by rw [Region.getRear_eq h_end, h_room]) _ _⟩
  · obtain ⟨r₁, h_store⟩ := Region.setItem_succeeds h.size_le h.writable
      (h.shape.rear_inArray h_room) (malloc (copySize m.length) (m.ptr.take (copySize m.length)))
    have h_frame := (Region.frame_keeps r).setItem (.refl r) h_store
    have h_size : sizeofQueue ≤ r₁.length := h_frame.length ▸ h.size_le
    obtain ⟨r₂, h_advance⟩ := Region.setRear_succeeds h_size (h_frame.writable ▸ h.writable)
      (h.shape.rear_inInt h_room)
    have h_outcome := enqueue_ptr m (Region.getRear_eq h_end) h_room rfl h_store
      (Region.getFront_eq (h_size.trans (le_pageEnd _))) h_advance
    split at h_outcome
    · exact ⟨_, h_outcome⟩
    next h_found =>
      rcases copySize_le_or m.length with h_le | h_large
      · rw [if_pos h_le] at h_outcome
        exact ⟨_, h_outcome⟩
      · exact absurd (h_malloc _ _ h_large) h_found

/-! ### A new file -/

/-- A file that was made longer has zeros. -/
theorem BridgeFile.map_truncate_bytes {f : BridgeFile} (h_empty : f.bytes = []) (i : ℕ) :
    ((Kernel.ftruncate (Kernel.openFile f) sizeofQueue : BridgeFile).bytes).getD i 0 = 0 := by
  have h_bytes : (Kernel.ftruncate (Kernel.openFile f) sizeofQueue : BridgeFile).bytes =
      List.replicate sizeofQueue 0 := by
    change f.bytes.take sizeofQueue ++ List.replicate (sizeofQueue - f.bytes.length) 0 = _
    rw [h_empty, List.take_nil, List.nil_append, List.length_nil, Nat.sub_zero]
  rw [h_bytes, List.getD_eq_getElem?_getD, List.getElem?_replicate]
  split <;> rfl

/-- What other processes see in a new file is not a queue that `initializeQueue` ever made:
`front` and `rear` are both zero. -/
theorem BridgeFile.sees_truncate {f : BridgeFile} (h_empty : f.bytes = []) :
    (Kernel.ftruncate (Kernel.openFile f) sizeofQueue : BridgeFile).sees.front = 0 ∧
      (Kernel.ftruncate (Kernel.openFile f) sizeofQueue : BridgeFile).sees.rear = 0 := by
  have h_zero := BridgeFile.map_truncate_bytes h_empty
  exact ⟨loadInt_zero fun i _ _ => h_zero i, loadInt_zero fun i _ _ => h_zero i⟩

variable {p : Process Region BridgeFile} {k : ℕ}

/-- A new file is left behind by the first call: the queue is the one on the heap. -/
theorem not_writesThrough_of_new (h_empty : p.world.bytes = [])
    (h_arg : HeapQueue (p.queues (.heap k))) {c : Call} {p' : Process Region BridgeFile} :
    ¬ c.WritesThrough (configurationQueueMmapPrivate p (.heap k)) p' := by
  rintro ⟨⟨out, h_send⟩, -, h_seen⟩
  have h_size : Kernel.size (Kernel.openFile p.world) = 0 := by
    change p.world.bytes.length = 0
    rw [h_empty, List.length_nil]
  -- both pointers are the argument, a queue on the heap
  rw [configurationQueueMmapPrivate_new _ h_size] at h_send
  obtain ⟨q₁, out₁, q₂, out₂, h_first, h_second, rfl, -⟩ :=
    (sendMessage_ok CharPtr.noConfusion).mp h_send
  dsimp only at h_first h_second h_seen
  rw [Function.update_self] at h_second h_seen
  rw [Function.update_of_ne QueuePtr.noConfusion] at h_first
  have h_heap := (h_arg.of_enqueue h_first).of_enqueue h_second
  -- a heap queue has its `front` below `rear`, and in the file both are zero
  obtain ⟨h_front, h_rear⟩ := BridgeFile.sees_truncate h_empty
  have h_le := h_heap.shape.front_le
  rw [← h_seen.1, ← h_seen.2.1] at h_le
  change (Kernel.ftruncate (Kernel.openFile p.world) sizeofQueue : BridgeFile).sees.front ≤
    (Kernel.ftruncate (Kernel.openFile p.world) sizeofQueue : BridgeFile).sees.rear - 1 at h_le
  rw [h_front, h_rear] at h_le
  exact absurd h_le (by decide)

/-! ### An existing file -/

/-- The first call on an existing file gets past the read-only mapping only when the queue in it
is full. -/
theorem full_of_writesThrough (h_nonempty : p.world.bytes ≠ []) {c : Call}
    {p' : Process Region BridgeFile} {n : ℕ} (h_consuming : p.consumingQueue = .heap n)
    (h_write : c.WritesThrough (configurationQueueMmapPrivate p (.heap k)) p') :
    p.world.Full := by
  obtain ⟨⟨out, h_send⟩, -, -⟩ := h_write
  have h_size : Kernel.size (Kernel.openFile p.world) ≠ 0 := by
    change p.world.bytes.length ≠ 0
    rwa [ne_eq, List.length_eq_zero_iff]
  -- `ptr_queue` is the mapping, `consumingQueue` is still the queue on the heap
  rw [configurationQueueMmapPrivate_existing _ h_size] at h_send
  obtain ⟨q₁, out₁, q₂, out₂, -, h_second, -, -⟩ :=
    (sendMessage_ok CharPtr.noConfusion).mp h_send
  dsimp only at h_second
  rw [h_consuming, Function.update_of_ne QueuePtr.noConfusion, Function.update_self] at h_second
  obtain ⟨rear, h_rear, ⟨h_max, -⟩ | ⟨-, len, r, -, h_store, -⟩⟩ := enqueue_ok_cases h_second
  · -- the load of `rear` stayed within the pages of the file
    obtain ⟨h_inside, h_load⟩ := Region.getRear_ok h_rear
    rw [rearOffset_add] at h_inside
    exact ⟨h_nonempty, h_inside, h_load.trans h_max⟩
  · -- there was room, and the mapping is not writable
    obtain ⟨h_writable, -⟩ := Region.write_ok (Region.setItem_ok h_store).2
    cases h_writable

/-- The instance between two calls on a file with a full queue. -/
structure OnFullBridge (f : BridgeFile) (p : Process Region BridgeFile) : Prop where
  ptrQueue : p.ptrQueue = .bridge
  consuming : ∃ n, p.consumingQueue = .heap n ∧ HeapQueue (p.queues (.heap n))
  mapping : p.queues .bridge = f.map f.bytes.length false false
  world : p.world = f

/-- On a full queue `sendMessage` writes nothing, and completes. -/
theorem OnFullBridge.writesThrough {f : BridgeFile} (h_full : f.Full)
    {p : Process Region BridgeFile} (h : OnFullBridge f p) {c : Call} (h_bounded : c.Bounded) :
    ∃ p', c.WritesThrough p p' ∧ OnFullBridge f p' := by
  obtain ⟨h_ptr, ⟨n, h_consuming, h_heap⟩, h_mapping, h_world⟩ := h
  obtain ⟨queues, consumingQueue, ptrQueue, world⟩ := p
  dsimp only at h_ptr h_consuming h_heap h_mapping h_world
  subst h_ptr h_consuming h_world
  obtain ⟨⟨q₁, out₁⟩, h_first⟩ := h_heap.enqueue_completes c.message
    fun n bytes h_large => (h_bounded n bytes h_large).1
  have h_rear : getRear (world.map world.bytes.length false false) = .ok maxSize := by
    have h_end : sizeofQueue ≤ pageEnd (world.map world.bytes.length false false).length :=
      h_full.size_le
    rw [Region.getRear_eq h_end, ← h_full.rear_eq]
    rfl
  have h_object : Function.update queues (.heap n) q₁ .bridge =
      world.map world.bytes.length false false := by
    rw [Function.update_of_ne QueuePtr.noConfusion, h_mapping]
  -- the mapping is full, so nothing is stored through it
  have h_second : enqueue (Function.update queues (.heap n) q₁ .bridge) c.message.ptr c.malloc₂ =
      .ok (world.map world.bytes.length false false, [.stdout "Queue is full\n"]) := by
    rw [h_object, enqueue_of_isFull h_rear]
  have h_keep : Function.update (Function.update queues (.heap n) q₁) .bridge
      (world.map world.bytes.length false false) .bridge =
        world.map world.bytes.length false false := Function.update_self _ _ _
  refine ⟨_, ⟨⟨_, (sendMessage_ok CharPtr.noConfusion).mpr
    ⟨q₁, out₁, _, _, h_first, h_second, rfl, rfl⟩⟩, fun p₁ _ _ _ h₁ _ => ?_, ?_⟩, ?_⟩
  · obtain ⟨_, _, rfl⟩ := Process.enqueueAt_ok.mp h₁
    exact Or.inl rfl
  · dsimp only
    rw [h_keep]
    exact ⟨rfl, rfl, rfl⟩
  · refine ⟨rfl, ⟨n, rfl, ?_⟩, h_keep, rfl⟩
    dsimp only
    rw [Function.update_of_ne QueuePtr.noConfusion, Function.update_self]
    exact h_heap.of_enqueue h_first

/-- Every call of a run writes through, because none writes. -/
theorem OnFullBridge.run {f : BridgeFile} (h_full : f.Full) {p : Process Region BridgeFile}
    (h : OnFullBridge f p) {calls : List Call} (h_bounded : ∀ c ∈ calls, c.Bounded) :
    WritesThrough p calls := by
  induction calls generalizing p with
  | nil => trivial
  | cons c cs ih =>
    obtain ⟨h_c, h_cs⟩ := List.forall_mem_cons.mp h_bounded
    obtain ⟨p', h_write, h'⟩ := h.writesThrough h_full h_c
    exact ⟨p', h_write, ih h' h_cs⟩

/-- **When `sendMessage` writes through.** For every bridge file, new, empty or existing, and every
run of `sendMessage` after `configurationQueueMmap_private`: when there is no call, or when the
file holds a full queue already. -/
theorem writesThrough_iff {n : ℕ} {calls : List Call} (h_arg : HeapQueue (p.queues (.heap k)))
    (h_consuming : p.consumingQueue = .heap n) (h_heap : HeapQueue (p.queues (.heap n)))
    (h_bounded : ∀ c ∈ calls, c.Bounded) :
    WritesThrough (configurationQueueMmapPrivate p (.heap k)) calls ↔
      calls = [] ∨ p.world.Full := by
  constructor
  · intro h
    cases calls with
    | nil => exact Or.inl rfl
    | cons c cs =>
      obtain ⟨p', h_first, -⟩ := h
      -- the first call decides
      by_cases h_empty : p.world.bytes = []
      · exact absurd h_first (not_writesThrough_of_new h_empty h_arg)
      · exact Or.inr (full_of_writesThrough h_empty h_consuming h_first)
  · rintro (rfl | h_full)
    · trivial
    · have h_size : Kernel.size (Kernel.openFile p.world) ≠ 0 := by
        change p.world.bytes.length ≠ 0
        rw [ne_eq, List.length_eq_zero_iff]
        exact h_full.nonempty
      have h_opened : (Kernel.openFile p.world : BridgeFile).Full :=
        ⟨h_full.nonempty, h_full.size_le, h_full.rear_eq⟩
      -- the state after the existing-file branch
      refine OnFullBridge.run h_opened ?_ h_bounded
      rw [configurationQueueMmapPrivate_existing _ h_size]
      refine ⟨rfl, ⟨n, h_consuming, ?_⟩, ?_, rfl⟩
      · dsimp only
        rw [Function.update_of_ne QueuePtr.noConfusion]
        exact h_heap
      · dsimp only
        rw [Function.update_self]
        rfl

/-! ### Three files -/

/-- A block of the heap as `initializeQueue` leaves it. -/
def heapBlock : Region where
  bytes := storeInt (fun _ => 0) frontOffset (-1)
  length := sizeofQueue
  writable := true
  shared := false
  stores := []

/-- It is a queue on the heap. -/
theorem heapQueue_heapBlock : HeapQueue heapBlock := by
  have h_front : heapBlock.view.front = -1 := loadInt_storeInt_same _ _ (by decide)
  have h_rear : heapBlock.view.rear = 0 := by
    refine (loadInt_storeInt_disjoint _ _ (Or.inr Region.front_before_rear)).trans ?_
    exact loadInt_zero fun _ _ _ => rfl
  refine ⟨le_rfl, rfl, ⟨?_, ?_, ?_, ?_⟩⟩
  · rw [h_front]
  · rw [h_front, h_rear]
    decide
  · rw [h_rear]
  · rw [h_rear]
    decide

/-- An instance on the bridge file `f`, with its queue on the heap. -/
def startedOn (f : BridgeFile) : Process Region BridgeFile where
  queues _ := heapBlock
  consumingQueue := .heap 0
  ptrQueue := .heap 0
  world := f

/-- A call of `sendMessage` that finds no memory. -/
def callWithoutMemory : Call := ⟨dot, Malloc.fails Word, Malloc.fails Word⟩

/-- The memory of a full queue. -/
def fullMemory : Bytes := storeInt (fun _ => 0) rearOffset maxSize

/-- A file with a full queue. -/
def fullFile : BridgeFile := ⟨some ((List.range sizeofQueue).map fullMemory)⟩

theorem bytes_fullFile : fullFile.bytes = (List.range sizeofQueue).map fullMemory := by
  rw [fullFile, BridgeFile.bytes, Option.getD_some]

/-- The file is as long as a queue. -/
theorem length_fullFile : fullFile.bytes.length = sizeofQueue := by
  rw [bytes_fullFile, List.length_map, List.length_range]

theorem getD_fullFile {i : ℕ} (h : i < sizeofQueue) : fullFile.bytes.getD i 0 = fullMemory i := by
  have h_lt : i < ((List.range sizeofQueue).map fullMemory).length := by
    rwa [List.length_map, List.length_range]
  rw [bytes_fullFile, List.getD_eq_getElem?_getD, List.getElem?_eq_getElem h_lt, Option.getD_some,
    List.getElem_map, List.getElem_range]

/-- The queue in it is full. -/
theorem full_fullFile : fullFile.Full where
  nonempty h_nil := by
    have h_len := length_fullFile
    rw [h_nil, List.length_nil, sizeofQueue_eq] at h_len
    cases h_len
  size_le := by
    rw [length_fullFile]
    exact le_pageEnd _
  rear_eq := by
    have h_view : fullFile.sees.rear = loadInt (fun i => fullFile.bytes.getD i 0) rearOffset := rfl
    -- `rear` lies inside the file, so its bytes are those of the memory
    have h_load : loadInt (fun i => fullFile.bytes.getD i 0) rearOffset =
        loadInt fullMemory rearOffset :=
      loadInt_congr fun i _ h_high => getD_fullFile (by rwa [rearOffset_add] at h_high)
    rw [h_view, h_load, fullMemory, loadInt_storeInt_same _ _ (by decide)]

/-- A call of `sendMessage` that finds memory, below `2^63` bytes, at the address `w`. -/
def callAt (w : Word) : Call :=
  let malloc : Malloc Word := fun n _ => if n < 2 ^ 63 then w else CPointer.null
  ⟨dot, malloc, malloc⟩

/-- Nor does this call get more than the address space has. -/
theorem bounded_callAt (w : Word) : (callAt w).Bounded :=
  fun _ _ h => ⟨if_neg (Nat.not_lt.mpr h), if_neg (Nat.not_lt.mpr h)⟩

/-- Three calls on a full file, with memory in two of them. -/
theorem writesThrough_on_full : WritesThrough
    (configurationQueueMmapPrivate (startedOn fullFile) (.heap 0))
    [callAt 4096, callWithoutMemory, callAt 8192] := by
  refine (writesThrough_iff heapQueue_heapBlock rfl heapQueue_heapBlock ?_).mpr
    (Or.inr full_fullFile)
  exact List.forall_mem_cons.mpr ⟨bounded_callAt 4096, List.forall_mem_cons.mpr
    ⟨fun _ _ _ => ⟨rfl, rfl⟩, List.forall_mem_singleton.mpr (bounded_callAt 8192)⟩⟩

/-- Neither a new file nor one with a single byte is written through. -/
theorem not_writesThrough :
    ¬ WritesThrough (configurationQueueMmapPrivate (startedOn ⟨none⟩) (.heap 0))
        [callWithoutMemory] ∧
      ¬ WritesThrough (configurationQueueMmapPrivate (startedOn ⟨some [0]⟩) (.heap 0))
        [callWithoutMemory] := by
  constructor
  · rintro ⟨p', h_first, -⟩
    exact not_writesThrough_of_new rfl heapQueue_heapBlock h_first
  -- one byte is one page, and the queue is larger
  · rintro ⟨p', h_first, -⟩
    have h_full := full_of_writesThrough (p := startedOn ⟨some [0]⟩) (List.cons_ne_nil _ _) rfl
      h_first
    have h_size : sizeofQueue ≤ pageEnd 1 := h_full.size_le
    rw [sizeofQueue_eq] at h_size
    unfold pageEnd pageSize at h_size
    omega

end Backend
end WateRMQ
