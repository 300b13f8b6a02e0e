import WateRMQ.Lib.Heap
import WateRMQ.Amqp.Input
import WateRMQ.Amqp.FrameQueue

/-!
# The pools of memory

The allocator of `amqp_mem.c`. A pool asks the system for pages and cuts them into regions; what
does not fit into a page gets a block of its own. There is no way to give one region back: a pool is
recycled, and then its pages are cut again from the beginning. Each channel has a pool, and each
message that is read has one.

`runs_sound` is about all pools of a program together: whatever is asked for, recycled and emptied,
and whichever calls of the system fail, the regions that were given out and not recycled lie in live
blocks and do not overlap. `kept_of_queued` is about the frames in the queue: no release of the
buffers recycles the memory that they lie in, and none forgets a channel that has no such frame,
since `pool_table` has an entry for every pool of a channel (`PoolTable.Listed`).
-/

namespace WateRMQ
namespace Amqp

open CMem

/-! ### The functions of the source -/

/-- `amqp_pool_t`. A block is known by its number, and `alloc_block` is one or the null pointer. -/
structure Pool where
  pagesize : ℕ
  pages : List ℕ
  large_blocks : List ℕ
  next_page : ℕ
  alloc_block : Pointer
  alloc_used : ℕ

/-- A block of the system: its size, and whose pool it was asked for. The program does not keep the
latter. -/
structure Cell (ι : Type) where
  size : ℕ
  owner : ι

/-- A region of a block: what a pointer that `amqp_pool_alloc` gives can be used for. -/
structure Region where
  block : ℕ
  offset : ℕ
  size : ℕ

/-- Which calls of the system succeed in a call of `amqp_pool_alloc`: `calloc`, and what
`record_pool_block` asks for. -/
structure Grant where
  calloc : Bool
  record : Bool

/-- `init_amqp_pool`. -/
def init_amqp_pool (pagesize : ℕ) : Pool where
  pagesize := if pagesize = 0 then 4096 else pagesize
  pages := []
  large_blocks := []
  next_page := 0
  alloc_block := none
  alloc_used := 0

/-- `(amount + 7) & (~7)`. -/
def roundUp (amount : ℕ) : ℕ := (amount + 7) % 2 ^ 64 / 8 * 8

section Functions

variable {ι : Type}

/-- `calloc`. -/
def calloc (granted : Bool) (cell : Cell ι) (h : Heap (Cell ι)) : Pointer × Heap (Cell ι) :=
  h.malloc (fun _ => if granted then some fun _ => 0 else none) fun _ => cell

/-- `empty_blocklist`, which the caller follows by forgetting the list. -/
def empty_blocklist (x : List ℕ) (h : Heap (Cell ι)) : Except Fault (Heap (Cell ι)) :=
  x.foldlM Heap.free h

/-- `recycle_amqp_pool`. -/
def recycle_amqp_pool (pool : Pool) (h : Heap (Cell ι)) : Except Fault (Pool × Heap (Cell ι)) := do
  let h ← empty_blocklist pool.large_blocks h
  return ({ pool with large_blocks := [], next_page := 0, alloc_block := none, alloc_used := 0 }, h)

/-- `empty_amqp_pool`. -/
def empty_amqp_pool (pool : Pool) (h : Heap (Cell ι)) : Except Fault (Pool × Heap (Cell ι)) := do
  let (pool, h) ← recycle_amqp_pool pool h
  let h ← empty_blocklist pool.pages h
  return ({ pool with pages := [] }, h)

/-- `amqp_pool_alloc` for what does not fit into a page. -/
def allocLarge (grant : Grant) (owner : ι) (pool : Pool) (h : Heap (Cell ι)) (amount : ℕ) :
    Except Stop (Option Region × Pool × Heap (Cell ι)) :=
  match calloc grant.calloc ⟨amount, owner⟩ h with
  | (none, h) => .ok (none, pool, h)
  | (some b, h) =>
    if grant.record then
      .ok (some ⟨b, 0, amount⟩, { pool with large_blocks := pool.large_blocks ++ [b] }, h)
    else do
      let h ← (h.free b).mapError .fault
      return (none, pool, h)

/-- `amqp_pool_alloc` from where it takes the next page. A new page that cannot be recorded is
`alloc_block` all the same. -/
def allocPage (grant : Grant) (owner : ι) (pool : Pool) (h : Heap (Cell ι)) (amount : ℕ) :
    Option Region × Pool × Heap (Cell ι) :=
  match pool.pages[pool.next_page]? with
  | none =>
    match calloc grant.calloc ⟨pool.pagesize, owner⟩ h with
    | (none, h) => (none, { pool with alloc_block := none }, h)
    | (some b, h) =>
      if grant.record then
        (some ⟨b, 0, amount⟩, { pool with
          pages := pool.pages ++ [b]
          next_page := pool.pages.length + 1
          alloc_block := some b
          alloc_used := amount }, h)
      else (none, { pool with alloc_block := some b }, h)
  | some b =>
    (some ⟨b, 0, amount⟩, { pool with
      next_page := pool.next_page + 1
      alloc_block := some b
      alloc_used := amount }, h)

/-- `amqp_pool_alloc`. When the assertion in it fails, the program is aborted. -/
def amqp_pool_alloc (grant : Grant) (owner : ι) (pool : Pool) (h : Heap (Cell ι)) (amount : ℕ) :
    Except Stop (Option Region × Pool × Heap (Cell ι)) :=
  if amount = 0 then .ok (none, pool, h)
  else
    let amount := roundUp amount
    if pool.pagesize < amount then allocLarge grant owner pool h amount
    else
      match pool.alloc_block with
      | none => .ok (allocPage grant owner pool h amount)
      | some b =>
        if pool.pagesize < pool.alloc_used then .error Stop.abort
        else if pool.alloc_used + amount ≤ pool.pagesize then
          .ok (some ⟨b, pool.alloc_used, amount⟩,
            { pool with alloc_used := pool.alloc_used + amount }, h)
        else .ok (allocPage grant owner pool h amount)

end Functions

/-! ### One call -/

section Calls

variable {ι : Type} {h h' : Heap (Cell ι)} {o : ι} {p p' : Pool}

/-- Two regions do not overlap. -/
def Region.Apart (r r' : Region) : Prop :=
  r.block = r'.block → r.offset + r.size ≤ r'.offset ∨ r'.offset + r'.size ≤ r.offset

/-- The blocks of a pool are live and its own, and no page is listed twice. The page that it cuts is
not among those that it will take next. -/
structure Pool.Sound (h : Heap (Cell ι)) (o : ι) (p : Pool) : Prop where
  pages : ∀ b ∈ p.pages, h.Holds b ⟨p.pagesize, o⟩
  large_blocks : ∀ b ∈ p.large_blocks, ∃ n, h.Holds b ⟨n, o⟩
  nodup : (p.large_blocks ++ p.pages).Nodup
  alloc_block : ∀ b, p.alloc_block = some b →
    h.Holds b ⟨p.pagesize, o⟩ ∧ b ∉ p.large_blocks ∧ b ∉ p.pages.drop p.next_page
  alloc_used : p.alloc_used ≤ p.pagesize

/-- A region that the pool will not cut again before it is recycled. -/
structure Pool.Keeps (p : Pool) (r : Region) : Prop where
  page : r.block ∉ p.pages.drop p.next_page
  used : p.alloc_block = some r.block → r.offset + r.size ≤ p.alloc_used

/-- What a call that asks for `size` bytes may do: what was given out before stays where it is, and
a new region lies apart from it. -/
structure Serves (h : Heap (Cell ι)) (o : ι) (p : Pool) (size : ℕ)
    (res : Option Region × Pool × Heap (Cell ι)) : Prop where
  sound : res.2.1.Sound res.2.2 o
  holds : ∀ b c, h.Holds b c → res.2.2.Holds b c
  keeps : ∀ r c, h.Holds r.block c → p.Keeps r → res.2.1.Keeps r
  region : ∀ r, res.1 = some r → r.size = size ∧ res.2.1.Keeps r ∧
    (∃ n, res.2.2.Holds r.block ⟨n, o⟩ ∧ r.offset + r.size ≤ n) ∧
    ∀ r' c, h.Holds r'.block c → p.Keeps r' → r.Apart r'

theorem calloc_eq (granted : Bool) (cell : Cell ι) (h : Heap (Cell ι)) :
    calloc granted cell h = if granted then (some h.blocks.length, h.grown [cell] 1)
      else (none, h.grown [] 1) := by
  cases granted with
  | false => exact Heap.malloc_of_none rfl
  | true => exact Heap.malloc_of_some rfl

/-- A pool stays sound while the blocks of the heap stay as they are. -/
theorem Pool.Sound.mono (h_p : p.Sound h o) (h_holds : ∀ b c, h.Holds b c → h'.Holds b c) :
    p.Sound h' o where
  pages b h_b := h_holds _ _ (h_p.pages b h_b)
  large_blocks b h_b := by
    obtain ⟨n, h_n⟩ := h_p.large_blocks b h_b
    exact ⟨n, h_holds _ _ h_n⟩
  nodup := h_p.nodup
  alloc_block b h_b := by
    obtain ⟨h_live, h_rest⟩ := h_p.alloc_block b h_b
    exact ⟨h_holds _ _ h_live, h_rest⟩
  alloc_used := h_p.alloc_used

/-- A call that gives nothing and leaves the pool as it is. -/
theorem Serves.refused (h_p : p.Sound h o) (size : ℕ)
    (h_holds : ∀ b c, h.Holds b c → h'.Holds b c) : Serves h o p size (none, p, h') where
  sound := h_p.mono h_holds
  holds := h_holds
  keeps _ _ _ h_r := h_r
  region _ h_r := by cases h_r

/-- A block stays when others are allocated. -/
theorem holds_mono (h : Heap (Cell ι)) (new : List (Cell ι)) (n : ℕ) :
    ∀ b c, h.Holds b c → (h.grown new n).Holds b c := fun _ _ h_b => h_b.grown new n

/-- The next block of the system is none that a sound pool knows. -/
theorem Pool.Sound.notMem (h_p : p.Sound h o) :
    h.blocks.length ∉ p.large_blocks ++ p.pages := by
  intro h_mem
  rcases List.mem_append.mp h_mem with h_mem | h_mem
  · obtain ⟨n, h_n⟩ := h_p.large_blocks _ h_mem
    exact h_n.ne_new rfl
  · exact (h_p.pages _ h_mem).ne_new rfl

/-- What does not fit into a page gets a block of its own. -/
theorem serves_allocLarge (h_p : p.Sound h o) (grant : Grant) (amount : ℕ) :
    ∃ res, allocLarge grant o p h amount = .ok res ∧ Serves h o p amount res := by
  rw [allocLarge, calloc_eq]
  by_cases h_calloc : grant.calloc = true
  swap
  · rw [if_neg h_calloc]
    exact ⟨_, rfl, .refused h_p amount (holds_mono h [] 1)⟩
  rw [if_pos h_calloc]
  dsimp only
  have h_new := Heap.holds_grown h (⟨amount, o⟩ : Cell ι) 1
  -- the number of the new block is none that the pool has
  have h_fresh := h_p.notMem
  by_cases h_record : grant.record = true
  · rw [if_pos h_record]
    refine ⟨_, rfl, ⟨⟨?_, ?_, ?_, ?_, h_p.alloc_used⟩, holds_mono h _ 1,
      fun r c _ h_r => ⟨h_r.page, h_r.used⟩, ?_⟩⟩
    · exact fun b h_b => (h_p.pages b h_b).grown _ 1
    · intro b h_b
      rcases List.mem_append.mp h_b with h_b | h_b
      · obtain ⟨n, h_n⟩ := h_p.large_blocks b h_b
        exact ⟨n, h_n.grown _ 1⟩
      · rw [List.mem_singleton.mp h_b]
        exact ⟨amount, h_new⟩
    · rw [List.append_assoc]
      exact (List.perm_middle.nodup_iff).mpr (List.nodup_cons.mpr ⟨h_fresh, h_p.nodup⟩)
    · intro b h_b
      obtain ⟨h_live, h_large, h_page⟩ := h_p.alloc_block b h_b
      refine ⟨h_live.grown _ 1, fun h_mem => ?_, h_page⟩
      rcases List.mem_append.mp h_mem with h_mem | h_mem
      · exact h_large h_mem
      · exact h_live.ne_new (List.mem_singleton.mp h_mem).symm
    · intro r h_r
      cases h_r
      refine ⟨rfl, ⟨fun h_mem => ?_, fun h_alloc => ?_⟩, ⟨amount, h_new, (Nat.zero_add _).le⟩, ?_⟩
      · exact h_fresh (List.mem_append_right _ (List.mem_of_mem_drop h_mem))
      · exact absurd rfl (h_p.alloc_block _ h_alloc).1.ne_new
      · intro r' c h_r' _ h_eq
        exact absurd h_eq h_r'.ne_new
  · -- the block is given back at once
    rw [if_neg h_record]
    have h_free := Heap.free_of_holds h_new
    rw [h_free]
    refine ⟨_, rfl, .refused h_p amount fun b c h_b => ?_⟩
    exact (h_b.grown _ 1).free h_free h_b.lt.ne'

/-- A page that was taken before is cut again from its beginning. -/
theorem serves_usedPage (h_p : p.Sound h o) {amount b : ℕ} (h_amount : amount ≤ p.pagesize)
    (h_page : p.pages[p.next_page]? = some b) :
    Serves h o p amount (some ⟨b, 0, amount⟩, { p with
      next_page := p.next_page + 1, alloc_block := some b, alloc_used := amount }, h) := by
  obtain ⟨h_lt, rfl⟩ := List.getElem?_eq_some_iff.mp h_page
  have h_drop := List.drop_eq_getElem_cons h_lt
  obtain ⟨-, h_pages, h_disjoint⟩ := List.nodup_append.mp h_p.nodup
  -- no page is listed twice, so this one is not taken a second time
  have h_tail : p.pages[p.next_page] ∉ p.pages.drop (p.next_page + 1) := by
    have h_nodup := h_pages.sublist (List.drop_sublist p.next_page p.pages)
    rw [h_drop] at h_nodup
    exact (List.nodup_cons.mp h_nodup).1
  have h_mem : p.pages[p.next_page] ∈ p.pages := List.getElem_mem h_lt
  have h_next : p.pages[p.next_page] ∈ p.pages.drop p.next_page := by
    rw [h_drop]
    exact List.mem_cons_self
  -- no region that the pool keeps lies in a page that it has still to take
  have h_free : ∀ r, p.Keeps r → p.pages[p.next_page] ≠ r.block := by
    intro r h_r h_eq
    rw [h_eq] at h_next
    exact h_r.page h_next
  refine ⟨⟨h_p.pages, h_p.large_blocks, h_p.nodup, ?_, h_amount⟩, fun _ _ h_b => h_b, ?_, ?_⟩
  · intro b h_b
    cases h_b
    exact ⟨h_p.pages _ h_mem, fun h_large => h_disjoint _ h_large _ h_mem rfl, h_tail⟩
  · intro r c _ h_r
    refine ⟨fun h_later => h_r.page ?_, fun h_eq => ?_⟩
    · rw [h_drop]
      exact List.mem_cons_of_mem _ h_later
    · exact absurd (Option.some.inj h_eq) (h_free r h_r)
  · intro r h_r
    cases h_r
    refine ⟨rfl, ⟨h_tail, fun _ => (Nat.zero_add _).le⟩,
      ⟨_, h_p.pages _ h_mem, (Nat.zero_add _).le.trans h_amount⟩, ?_⟩
    intro r' c _ h_r' h_eq
    exact absurd h_eq (h_free r' h_r')

/-- A new page is cut from its beginning, and there is none behind it. -/
theorem serves_newPage (h_p : p.Sound h o) {amount : ℕ} (h_amount : amount ≤ p.pagesize) :
    Serves h o p amount (some ⟨h.blocks.length, 0, amount⟩, { p with
      pages := p.pages ++ [h.blocks.length], next_page := p.pages.length + 1,
      alloc_block := some h.blocks.length, alloc_used := amount },
      h.grown [⟨p.pagesize, o⟩] 1) := by
  have h_new := Heap.holds_grown h (⟨p.pagesize, o⟩ : Cell ι) 1
  have h_fresh := h_p.notMem
  have h_sound := h_p.mono (holds_mono h [(⟨p.pagesize, o⟩ : Cell ι)] 1)
  -- the new page is the last one, so none is left to take behind it
  have h_last : ∀ b, b ∉ (p.pages ++ [h.blocks.length]).drop (p.pages.length + 1) := by
    rw [List.drop_eq_nil_of_le (by rw [List.length_append]; exact le_rfl)]
    exact fun _ => List.not_mem_nil
  refine ⟨⟨?_, h_sound.large_blocks, ?_, ?_, h_amount⟩, holds_mono h _ 1, ?_, ?_⟩
  · intro b h_b
    rcases List.mem_append.mp h_b with h_b | h_b
    · exact h_sound.pages b h_b
    · rw [List.mem_singleton.mp h_b]
      exact h_new
  · dsimp only
    rw [← List.append_assoc]
    exact List.perm_append_comm.nodup_iff.mpr (List.nodup_cons.mpr ⟨h_fresh, h_p.nodup⟩)
  · intro b h_b
    cases h_b
    exact ⟨h_new, fun h_large => h_fresh (List.mem_append_left _ h_large), h_last _⟩
  · intro r c h_r _
    exact ⟨h_last r.block, fun h_eq => absurd (Option.some.inj h_eq) h_r.ne_new⟩
  · intro r h_r
    cases h_r
    refine ⟨rfl, ⟨h_last _, fun _ => (Nat.zero_add _).le⟩,
      ⟨_, h_new, (Nat.zero_add _).le.trans h_amount⟩, ?_⟩
    intro r' c h_r' _ h_eq
    exact absurd h_eq h_r'.ne_new

/-- A new page that cannot be recorded is not in the list, but it is cut all the same. -/
theorem serves_lostPage (h_p : p.Sound h o) (amount : ℕ)
    (h_end : p.pages.drop p.next_page = []) :
    Serves h o p amount (none, { p with alloc_block := some h.blocks.length },
      h.grown [⟨p.pagesize, o⟩] 1) := by
  have h_new := Heap.holds_grown h (⟨p.pagesize, o⟩ : Cell ι) 1
  have h_sound := h_p.mono (holds_mono h [(⟨p.pagesize, o⟩ : Cell ι)] 1)
  -- the page is `alloc_block`, but it is in neither of the two lists
  refine ⟨⟨h_sound.pages, h_sound.large_blocks, h_sound.nodup, ?_, h_sound.alloc_used⟩,
    holds_mono h _ 1, ?_, ?_⟩
  · intro b h_b
    cases h_b
    refine ⟨h_new, fun h_large => h_p.notMem (List.mem_append_left _ h_large), ?_⟩
    dsimp only
    rw [h_end]
    exact List.not_mem_nil
  · exact fun r c h_r h_keeps =>
      ⟨h_keeps.page, fun h_eq => absurd (Option.some.inj h_eq) h_r.ne_new⟩
  · intro r h_r
    cases h_r

/-- Without a page, the pool forgets the one that it was cutting. -/
theorem serves_noPage (h_p : p.Sound h o) (amount : ℕ)
    (h_holds : ∀ b c, h.Holds b c → h'.Holds b c) :
    Serves h o p amount (none, { p with alloc_block := none }, h') := by
  have h_sound := h_p.mono h_holds
  refine ⟨⟨h_sound.pages, h_sound.large_blocks, h_sound.nodup, ?_, h_sound.alloc_used⟩, h_holds,
    ?_, ?_⟩
  · intro b h_b
    cases h_b
  · exact fun r c _ h_r => ⟨h_r.page, fun h_eq => by cases h_eq⟩
  · intro r h_r
    cases h_r

/-- A page that was taken before is cut again, and a new one when there is none. -/
theorem serves_allocPage (h_p : p.Sound h o) (grant : Grant) {amount : ℕ}
    (h_amount : amount ≤ p.pagesize) :
    Serves h o p amount (allocPage grant o p h amount) := by
  rw [allocPage]
  cases h_page : p.pages[p.next_page]? with
  | some b => exact serves_usedPage h_p h_amount h_page
  | none =>
    dsimp only
    rw [calloc_eq]
    by_cases h_calloc : grant.calloc = true
    swap
    · rw [if_neg h_calloc]
      exact serves_noPage h_p amount (holds_mono h [] 1)
    rw [if_pos h_calloc]
    dsimp only
    by_cases h_record : grant.record = true
    · rw [if_pos h_record]
      exact serves_newPage h_p h_amount
    · rw [if_neg h_record]
      exact serves_lostPage h_p amount
        (List.drop_eq_nil_of_le (List.getElem?_eq_none_iff.mp h_page))

/-- One call of `amqp_pool_alloc`. The assertion in it holds. -/
theorem amqp_pool_alloc_spec (h_p : p.Sound h o) (grant : Grant) (amount : ℕ) :
    ∃ res, amqp_pool_alloc grant o p h amount = .ok res ∧ Serves h o p (roundUp amount) res := by
  rw [amqp_pool_alloc]
  by_cases h_zero : amount = 0
  · rw [if_pos h_zero]
    exact ⟨_, rfl, .refused h_p _ fun _ _ h_b => h_b⟩
  rw [if_neg h_zero]
  dsimp only
  by_cases h_large : p.pagesize < roundUp amount
  · rw [if_pos h_large]
    exact serves_allocLarge h_p grant (roundUp amount)
  rw [if_neg h_large]
  have h_page := serves_allocPage h_p grant (Nat.le_of_not_lt h_large)
  -- what is left of the present page is tried first
  cases h_block : p.alloc_block with
  | none => exact ⟨_, rfl, h_page⟩
  | some b =>
    dsimp only
    rw [if_neg (Nat.not_lt.mpr h_p.alloc_used)]
    by_cases h_room : p.alloc_used + roundUp amount ≤ p.pagesize
    swap
    · rw [if_neg h_room]
      exact ⟨_, rfl, h_page⟩
    -- the region is cut from the page, behind all others of it
    rw [if_pos h_room]
    obtain ⟨h_live, h_not_large, h_next⟩ := h_p.alloc_block b h_block
    refine ⟨_, rfl, ⟨⟨h_p.pages, h_p.large_blocks, h_p.nodup, fun c h_c => ?_, h_room⟩,
      fun _ _ h_b => h_b, fun r c _ h_r => ⟨h_r.page, fun h_eq => ?_⟩, fun r h_r => ?_⟩⟩
    · exact h_p.alloc_block c (h_block.trans h_c)
    · exact (h_r.used (h_block.trans h_eq)).trans (Nat.le_add_right _ _)
    · cases h_r
      refine ⟨rfl, ⟨h_next, fun _ => le_rfl⟩, ⟨_, h_live, h_room⟩, ?_⟩
      intro r' c _ h_r' h_eq
      exact .inr (h_r'.used (h_block.trans (congrArg some h_eq)))

/-- A pool that is recycled keeps its pages. -/
theorem recycle_amqp_pool_spec (h_p : p.Sound h o) :
    ∃ p' h', recycle_amqp_pool p h = .ok (p', h') ∧ p'.Sound h' o ∧ p'.pages = p.pages ∧
      ∀ b c, b ∉ p.large_blocks → h.Holds b c → h'.Holds b c := by
  obtain ⟨h_large, h_pages, h_disjoint⟩ := List.nodup_append.mp h_p.nodup
  -- the large blocks are different ones and live, so each `free` is of a live block
  obtain ⟨h', h_run, h_keep⟩ := Heap.frees_of_holds h_large fun b h_b => by
    obtain ⟨n, h_n⟩ := h_p.large_blocks b h_b
    exact ⟨_, h_n⟩
  refine ⟨{ p with large_blocks := [], next_page := 0, alloc_block := none, alloc_used := 0 },
    h', ?_,
    ⟨?_, List.forall_mem_nil _, h_pages, fun b h_b => ?_, Nat.zero_le _⟩, rfl, h_keep⟩
  · rw [recycle_amqp_pool, empty_blocklist, h_run]
    rfl
  · intro b h_b
    exact h_keep b _ (fun h_mem => h_disjoint b h_mem b h_b rfl) (h_p.pages b h_b)
  · cases h_b

/-- A pool that is emptied gives its pages back too. -/
theorem empty_amqp_pool_spec (h_p : p.Sound h o) :
    ∃ p' h', empty_amqp_pool p h = .ok (p', h') ∧
      ∀ b c, b ∉ p.large_blocks ++ p.pages → h.Holds b c → h'.Holds b c := by
  obtain ⟨p₁, h₁, h_recycle, h_sound, h_pages, h_keep⟩ := recycle_amqp_pool_spec h_p
  obtain ⟨-, h_nodup, -⟩ := List.nodup_append.mp h_sound.nodup
  -- the pages are still live after the large blocks are gone
  obtain ⟨h₂, h_run, h_keep'⟩ := Heap.frees_of_holds h_nodup fun b h_b =>
    ⟨_, h_sound.pages b h_b⟩
  refine ⟨{ p₁ with pages := [] }, h₂, ?_, fun b c h_b h_holds => ?_⟩
  · rw [empty_amqp_pool, h_recycle]
    change (empty_blocklist p₁.pages h₁ >>= _) = _
    rw [empty_blocklist, h_run]
    rfl
  · rw [h_pages] at h_keep'
    obtain ⟨h_large, h_page⟩ := not_or.mp fun h_mem => h_b (List.mem_append.mpr h_mem)
    exact h_keep' b c h_page (h_keep b c h_large h_holds)

end Calls

/-! ### All pools of a program -/

section Store

variable {ι : Type} [DecidableEq ι]

/-- The blocks of the system, the pools, and the regions that were given out and not recycled. The
program does not keep the latter. -/
structure Store (ι : Type) where
  heap : Heap (Cell ι)
  pools : ι → Option Pool
  regions : List (ι × Region)

/-- What a program does with a pool. -/
inductive PoolOp (ι : Type)
  | create (o : ι) (pagesize : ℕ)
  | alloc (o : ι) (amount : ℕ) (grant : Grant)
  | recycle (o : ι)
  | empty (o : ι)

/-- The pool that a call is about. -/
def PoolOp.owner : PoolOp ι → ι
  | .create o _ => o
  | .alloc o _ _ => o
  | .recycle o => o
  | .empty o => o

/-- Whether there is a pool after the call, when `b` says whether there was one before. -/
def PoolOp.leaves : PoolOp ι → Bool → Bool
  | .create _ _, _ => true
  | .empty _, _ => false
  | .alloc _ _ _, b => b
  | .recycle _, b => b

namespace Store

/-- Before the first call. -/
def start : Store ι := ⟨⟨[], 0⟩, fun _ => none, []⟩

/-- One call. There is a pool before it is used, and there is none any more when it was emptied. -/
def step (s : Store ι) : PoolOp ι → Except Stop (Store ι)
  | .create o pagesize =>
    match s.pools o with
    | some _ => .ok s
    | none => .ok { s with pools := Function.update s.pools o (some (init_amqp_pool pagesize)) }
  | .alloc o amount grant =>
    match s.pools o with
    | none => .ok s
    | some p => do
      let (r, p, h) ← amqp_pool_alloc grant o p s.heap amount
      return ⟨h, Function.update s.pools o (some p), r.toList.map (fun r => (o, r)) ++ s.regions⟩
  | .recycle o =>
    match s.pools o with
    | none => .ok s
    | some p => do
      let (p, h) ← (recycle_amqp_pool p s.heap).mapError .fault
      return ⟨h, Function.update s.pools o (some p), s.regions.filter fun x => x.1 ≠ o⟩
  | .empty o =>
    match s.pools o with
    | none => .ok s
    | some p => do
      let (_, h) ← (empty_amqp_pool p s.heap).mapError .fault
      return ⟨h, Function.update s.pools o none, s.regions.filter fun x => x.1 ≠ o⟩

/-- The pools are sound, and the regions lie in live blocks and do not overlap. -/
structure Sound (s : Store ι) : Prop where
  pools : ∀ o p, s.pools o = some p → p.Sound s.heap o
  regions : ∀ x ∈ s.regions, ∃ n p, s.heap.Holds x.2.block ⟨n, x.1⟩ ∧
    x.2.offset + x.2.size ≤ n ∧ s.pools x.1 = some p ∧ p.Keeps x.2
  apart : s.regions.Pairwise fun x y => x.2.Apart y.2

omit [DecidableEq ι] in
theorem sound_start : (start : Store ι).Sound where
  pools _ _ h := by cases h
  regions := List.forall_mem_nil _
  apart := .nil

variable {s : Store ι} {o : ι} {p : Pool}

omit [DecidableEq ι] in
/-- The blocks of a pool are not those of another one. -/
theorem Sound.owner_eq (h_s : s.Sound) (h_p : s.pools o = some p) {b n : ℕ} {o' : ι}
    (h_b : b ∈ p.large_blocks ++ p.pages) (h_holds : s.heap.Holds b ⟨n, o'⟩) : o' = o := by
  have h_sound := h_s.pools o p h_p
  rcases List.mem_append.mp h_b with h_b | h_b
  · obtain ⟨m, h_m⟩ := h_sound.large_blocks b h_b
    exact congrArg Cell.owner (h_holds.unique h_m)
  · exact congrArg Cell.owner (h_holds.unique (h_sound.pages b h_b))

/-- A new pool has no blocks. -/
theorem Sound.create (h_s : s.Sound) (h_p : s.pools o = none) (pagesize : ℕ) :
    Sound { s with pools := Function.update s.pools o (some (init_amqp_pool pagesize)) } where
  pools o' p' h_p' := by
    dsimp only at h_p'
    by_cases h_eq : o' = o
    · rw [h_eq, Function.update_self] at h_p'
      cases h_p'
      exact ⟨List.forall_mem_nil _, List.forall_mem_nil _, List.nodup_nil,
        fun b h_b => (by cases h_b),
        Nat.zero_le _⟩
    · rw [Function.update_of_ne h_eq] at h_p'
      exact h_s.pools o' p' h_p'
  regions x h_x := by
    obtain ⟨n, p', h_holds, h_le, h_p', h_keeps⟩ := h_s.regions x h_x
    have h_ne : x.1 ≠ o := by
      rintro rfl
      rw [h_p] at h_p'
      cases h_p'
    exact ⟨n, p', h_holds, h_le, (Function.update_of_ne h_ne _ _).trans h_p', h_keeps⟩
  apart := h_s.apart

/-- A region that is given out is one of its pool, and overlaps no other. -/
theorem Sound.alloc (h_s : s.Sound) (h_p : s.pools o = some p) {size : ℕ}
    {res : Option Region × Pool × Heap (Cell ι)} (h_res : Serves s.heap o p size res) :
    Sound ⟨res.2.2, Function.update s.pools o (some res.2.1),
      res.1.toList.map (fun r => (o, r)) ++ s.regions⟩ := by
  refine ⟨fun o' p' h_p' => ?_, fun x h_x => ?_, ?_⟩
  · dsimp only at h_p'
    by_cases h_eq : o' = o
    · rw [h_eq, Function.update_self] at h_p'
      cases h_p'
      rw [h_eq]
      exact h_res.sound
    · rw [Function.update_of_ne h_eq] at h_p'
      exact (h_s.pools o' p' h_p').mono h_res.holds
  · rcases List.mem_append.mp h_x with h_x | h_x
    · obtain ⟨r, h_r, rfl⟩ := List.mem_map.mp h_x
      obtain ⟨-, h_keeps, ⟨n, h_holds, h_le⟩, -⟩ := h_res.region r (Option.mem_toList.mp h_r)
      exact ⟨n, _, h_holds, h_le, Function.update_self _ _ _, h_keeps⟩
    · obtain ⟨n, p', h_holds, h_le, h_p', h_keeps⟩ := h_s.regions x h_x
      by_cases h_eq : x.1 = o
      · rw [h_eq, h_p] at h_p'
        cases h_p'
        refine ⟨n, res.2.1, h_res.holds _ _ h_holds, h_le, ?_, h_res.keeps _ _ h_holds h_keeps⟩
        rw [h_eq]
        exact Function.update_self _ _ _
      · exact ⟨n, p', h_res.holds _ _ h_holds, h_le, (Function.update_of_ne h_eq _ _).trans h_p',
          h_keeps⟩
  · refine List.pairwise_append.mpr ⟨?_, h_s.apart, fun x h_x y h_y => ?_⟩
    · cases res.1 with
      | none => exact .nil
      | some r => exact List.pairwise_singleton _ _
    · obtain ⟨r, h_r, rfl⟩ := List.mem_map.mp h_x
      obtain ⟨-, -, ⟨m, h_m, -⟩, h_apart⟩ := h_res.region r (Option.mem_toList.mp h_r)
      obtain ⟨n, p', h_holds, -, h_p', h_keeps⟩ := h_s.regions y h_y
      -- regions of different pools lie in different blocks
      by_cases h_eq : y.1 = o
      · rw [h_eq, h_p] at h_p'
        cases h_p'
        exact h_apart y.2 _ h_holds h_keeps
      · intro h_block
        dsimp only at h_block
        rw [h_block] at h_m
        exact absurd (congrArg Cell.owner ((h_res.holds _ _ h_holds).unique h_m)) h_eq

/-- When a pool gives blocks back, its regions are gone, and all others stay where they are. -/
theorem Sound.released (h_s : s.Sound) (h_p : s.pools o = some p) {h : Heap (Cell ι)}
    (h_keep : ∀ b c, b ∉ p.large_blocks ++ p.pages → s.heap.Holds b c → h.Holds b c)
    {q : Option Pool} (h_q : ∀ p', q = some p' → p'.Sound h o) :
    Sound ⟨h, Function.update s.pools o q, s.regions.filter fun x => x.1 ≠ o⟩ := by
  -- the blocks of the other pools are not among those that are given back
  have h_other : ∀ b n o', o' ≠ o → s.heap.Holds b ⟨n, o'⟩ → h.Holds b ⟨n, o'⟩ :=
    fun b n o' h_ne h_b => h_keep b _ (fun h_mem => h_ne (h_s.owner_eq h_p h_mem h_b)) h_b
  refine ⟨fun o' p' h_p' => ?_, fun x h_x => ?_, h_s.apart.filter _⟩
  · dsimp only at h_p'
    by_cases h_eq : o' = o
    · rw [h_eq, Function.update_self] at h_p'
      rw [h_eq]
      exact h_q p' h_p'
    · rw [Function.update_of_ne h_eq] at h_p'
      obtain ⟨h_pages, h_large, h_nodup, h_alloc, h_used⟩ := h_s.pools o' p' h_p'
      refine ⟨fun b h_b => h_other _ _ _ h_eq (h_pages b h_b), fun b h_b => ?_, h_nodup,
        fun b h_b => ?_, h_used⟩
      · obtain ⟨n, h_n⟩ := h_large b h_b
        exact ⟨n, h_other _ _ _ h_eq h_n⟩
      · obtain ⟨h_live, h_rest⟩ := h_alloc b h_b
        exact ⟨h_other _ _ _ h_eq h_live, h_rest⟩
  · obtain ⟨h_mem, h_ne⟩ := List.mem_filter.mp h_x
    have h_ne : x.1 ≠ o := of_decide_eq_true h_ne
    obtain ⟨n, p', h_holds, h_le, h_p', h_keeps⟩ := h_s.regions x h_mem
    exact ⟨n, p', h_other _ _ _ h_ne h_holds, h_le, (Function.update_of_ne h_ne _ _).trans h_p',
      h_keeps⟩

/-- A pool that is recycled has no regions. -/
theorem Sound.step_recycle (h_s : s.Sound) (o : ι) :
    ∃ t, s.step (.recycle o) = .ok t ∧ t.Sound ∧
      t.regions = s.regions.filter fun x => x.1 ≠ o := by
  rw [step]
  cases h_p : s.pools o with
  | none =>
    -- no pool, no region
    refine ⟨s, rfl, h_s, (List.filter_eq_self.mpr fun x h_x => decide_eq_true ?_).symm⟩
    rintro rfl
    obtain ⟨n, p, -, -, h_p', -⟩ := h_s.regions x h_x
    rw [h_p] at h_p'
    cases h_p'
  | some p =>
    obtain ⟨p', h', h_run, h_sound, -, h_keep⟩ := recycle_amqp_pool_spec (h_s.pools o p h_p)
    refine ⟨_, ?_, h_s.released h_p (fun b c h_b => h_keep b c fun h_mem =>
      h_b (List.mem_append_left _ h_mem)) (q := some p') fun q h_q => ?_, rfl⟩
    · dsimp only
      rw [h_run]
      rfl
    · cases h_q
      exact h_sound

/-- One call. It has no fault, and what it is asked for is what it gives. -/
theorem Sound.step_sound (h_s : s.Sound) (op : PoolOp ι) :
    ∃ t, s.step op = .ok t ∧ t.Sound ∧ ∀ o amount grant, op = .alloc o amount grant →
      t.regions = s.regions ∨
        ∃ r, t.regions = (o, r) :: s.regions ∧ r.size = roundUp amount := by
  cases op with
  | create o pagesize =>
    rw [step]
    cases h_p : s.pools o with
    | some p => exact ⟨s, rfl, h_s, fun _ _ _ h_op => by cases h_op⟩
    | none => exact ⟨_, rfl, h_s.create h_p pagesize, fun _ _ _ h_op => by cases h_op⟩
  | alloc o amount grant =>
    rw [step]
    cases h_p : s.pools o with
    | none => exact ⟨s, rfl, h_s, fun _ _ _ _ => .inl rfl⟩
    | some p =>
      obtain ⟨res, h_run, h_res⟩ := amqp_pool_alloc_spec (h_s.pools o p h_p) grant amount
      refine ⟨_, ?_, h_s.alloc h_p h_res, fun o' amount' grant' h_op => ?_⟩
      · dsimp only
        rw [h_run]
        rfl
      · cases h_op
        cases h_r : res.1 with
        | none => exact .inl rfl
        | some r => exact .inr ⟨r, rfl, (h_res.region r h_r).1⟩
  | recycle o =>
    obtain ⟨t, h_step, h_t, -⟩ := h_s.step_recycle o
    exact ⟨t, h_step, h_t, fun _ _ _ h_op => by cases h_op⟩
  | empty o =>
    rw [step]
    cases h_p : s.pools o with
    | none => exact ⟨s, rfl, h_s, fun _ _ _ h_op => by cases h_op⟩
    | some p =>
      obtain ⟨p', h', h_run, h_keep⟩ := empty_amqp_pool_spec (h_s.pools o p h_p)
      have h_t := h_s.released h_p h_keep (q := none) fun q h_q => (by cases h_q)
      refine ⟨_, ?_, h_t, fun _ _ _ h_op => by cases h_op⟩
      dsimp only
      rw [h_run]
      rfl

/-- Calls one after the other. -/
theorem steps_sound (h_s : s.Sound) (ops : List (PoolOp ι)) :
    ∃ t, ops.foldlM step s = .ok t ∧ t.Sound := by
  induction ops generalizing s with
  | nil => exact ⟨s, rfl, h_s⟩
  | cons op ops ih =>
    obtain ⟨t, h_step, h_t, -⟩ := h_s.step_sound op
    obtain ⟨u, h_run, h_u⟩ := ih h_t
    refine ⟨u, ?_, h_u⟩
    rw [List.foldlM_cons, h_step]
    exact h_run

/-- A call on a pool that is not there makes one, or changes nothing. -/
theorem step_of_none {op : PoolOp ι} (h_p : s.pools op.owner = none) :
    ∃ q, s.step op = .ok { s with pools := Function.update s.pools op.owner q } ∧
      q.isSome = op.leaves false := by
  have h_same : Function.update s.pools op.owner none = s.pools := by
    rw [← h_p]
    exact Function.update_eq_self _ _
  cases op with
  | create o pagesize =>
    refine ⟨some (init_amqp_pool pagesize), ?_, rfl⟩
    change s.pools o = none at h_p
    rw [step, h_p]
    rfl
  | alloc o amount grant =>
    change s.pools o = none at h_p
    refine ⟨none, ?_, rfl⟩
    rw [h_same, step, h_p]
  | recycle o =>
    change s.pools o = none at h_p
    refine ⟨none, ?_, rfl⟩
    rw [h_same, step, h_p]
  | empty o =>
    change s.pools o = none at h_p
    refine ⟨none, ?_, rfl⟩
    rw [h_same, step, h_p]

/-- A call on a pool that is there changes it. -/
theorem step_of_some {op : PoolOp ι} {t : Store ι} (h_p : s.pools op.owner = some p)
    (h : s.step op = .ok t) :
    ∃ q, t.pools = Function.update s.pools op.owner q ∧ q.isSome = op.leaves true := by
  cases op with
  | create o pagesize =>
    change s.pools o = some p at h_p
    rw [step, h_p] at h
    cases h
    refine ⟨some p, ?_, rfl⟩
    rw [← h_p]
    exact (Function.update_eq_self _ _).symm
  | alloc o amount grant =>
    change s.pools o = some p at h_p
    rw [step, h_p] at h
    obtain ⟨r, -, h_t⟩ := bind_eq_ok.mp h
    cases h_t
    exact ⟨_, rfl, rfl⟩
  | recycle o =>
    change s.pools o = some p at h_p
    rw [step, h_p] at h
    obtain ⟨r, -, h_t⟩ := bind_eq_ok.mp h
    cases h_t
    exact ⟨_, rfl, rfl⟩
  | empty o =>
    change s.pools o = some p at h_p
    rw [step, h_p] at h
    obtain ⟨r, -, h_t⟩ := bind_eq_ok.mp h
    cases h_t
    exact ⟨none, rfl, rfl⟩

/-- A call changes the pool that it is about, and no other. -/
theorem pools_step {op : PoolOp ι} {t : Store ι} (h : s.step op = .ok t) :
    ∃ q, t.pools = Function.update s.pools op.owner q ∧
      q.isSome = op.leaves (s.pools op.owner).isSome := by
  cases h_p : s.pools op.owner with
  | none =>
    obtain ⟨q, h_step, h_q⟩ := step_of_none h_p
    cases h_step.symm.trans h
    exact ⟨q, rfl, h_q⟩
  | some p => exact step_of_some h_p h

/-- Whether the pool that a call is about is there after it. -/
theorem isSome_step_self {op : PoolOp ι} {t : Store ι} (h : s.step op = .ok t) :
    (t.pools op.owner).isSome = op.leaves (s.pools op.owner).isSome := by
  obtain ⟨q, h_pools, h_q⟩ := pools_step h
  rw [h_pools, Function.update_self, h_q]

/-- The other pools are there, or not, as before. -/
theorem isSome_step_of_ne {op : PoolOp ι} {t : Store ι} (h : s.step op = .ok t)
    (h_o : o ≠ op.owner) : (t.pools o).isSome = (s.pools o).isSome := by
  obtain ⟨q, h_pools, -⟩ := pools_step h
  rw [h_pools, Function.update_of_ne h_o]

end Store

/-- An amount is rounded up. -/
theorem le_roundUp {amount : ℕ} (h : amount + 7 < 2 ^ 64) : amount ≤ roundUp amount := by
  rw [roundUp, Nat.mod_eq_of_lt h]
  omega

end Store

/-! ### Releasing the buffers of a connection -/

/-- Whose pool it is: that of a channel, or another one, such as that of `server_properties` or of a
message. -/
inductive Owner
  | channel (c : BitVec 16)
  | other (n : ℕ)
  deriving DecidableEq

/-- The size of `pool_table`. -/
abbrev POOL_TABLE_SIZE : ℕ := 16

/-- The pools that a program knows. `pool_table` has the channels of the entries
`amqp_pool_table_entry_t` in each of its lists; the pool of an entry is that of the channel. -/
structure PoolTable where
  pool_table : Fin POOL_TABLE_SIZE → List (BitVec 16)
  store : Store Owner

/-- What a program does with these pools: the pool of a channel is asked for, another pool is made
or emptied, a pool is used, or the buffers are released. In the last two calls, `idle` says that the
state of the connection is `CONNECTION_STATE_IDLE`, and `queued` are the frames in the queue. -/
inductive TableOp
  | channelPool (channel : BitVec 16) (frame_max : ℕ) (memory : Bool)
  | create (n pagesize : ℕ)
  | empty (n : ℕ)
  | alloc (o : Owner) (amount : ℕ) (grant : Grant)
  | recycle (o : Owner)
  | releaseOnChannel (idle : Bool) (queued : List Frame) (channel : BitVec 16)
  | release (idle : Bool) (queued : List Frame)

namespace PoolTable

/-- A connection that is new. -/
def start : PoolTable := ⟨fun _ => [], Store.start⟩

/-- The list that an entry for the channel is in. -/
def index (channel : BitVec 16) : Fin POOL_TABLE_SIZE := Fin.ofNat POOL_TABLE_SIZE channel.toNat

/-- `amqp_get_channel_pool`. -/
def amqp_get_channel_pool (t : PoolTable) (channel : BitVec 16) : Option Owner :=
  ((t.pool_table (index channel)).find? fun c => channel = c).map .channel

/-- A call on a pool. -/
def onStore (t : PoolTable) (op : PoolOp Owner) : Except Stop PoolTable := do
  let store ← t.store.step op
  return { t with store := store }

/-- `amqp_get_or_create_channel_pool`, where `memory` says whether `malloc` succeeds. -/
def amqp_get_or_create_channel_pool (memory : Bool) (frame_max : ℕ) (t : PoolTable)
    (channel : BitVec 16) : Except Stop (Option Owner × PoolTable) :=
  match t.amqp_get_channel_pool channel with
  | some o => .ok (some o, t)
  | none =>
    if !memory then .ok (none, t)
    else do
      let i := index channel
      let t := { t with pool_table := Function.update t.pool_table i (channel :: t.pool_table i) }
      let t ← t.onStore (.create (.channel channel) frame_max)
      return (some (.channel channel), t)

/-- `amqp_maybe_release_buffers_on_channel`. -/
def amqp_maybe_release_buffers_on_channel (idle : Bool) (queued : List Frame) (t : PoolTable)
    (channel : BitVec 16) : Except Stop PoolTable :=
  if !idle then .ok t
  else if queued.any fun frame => channel = frame.channel then .ok t
  else
    match t.amqp_get_channel_pool channel with
    | none => .ok t
    | some pool => t.onStore (.recycle pool)

/-- `amqp_release_buffers`: its loop over `pool_table`, and the one over the entries of a list. -/
def amqp_release_buffers (idle : Bool) (queued : List Frame) (t : PoolTable) :
    Except Stop PoolTable :=
  if !idle then .error .abort
  else (List.finRange POOL_TABLE_SIZE).foldlM
    (fun t i => (t.pool_table i).foldlM (amqp_maybe_release_buffers_on_channel idle queued) t) t

/-- `amqp_maybe_release_buffers`, with `amqp_release_buffers_ok`. -/
def amqp_maybe_release_buffers (idle : Bool) (queued : List Frame) (t : PoolTable) :
    Except Stop PoolTable :=
  if idle then amqp_release_buffers idle queued t else .ok t

/-- One call. -/
def step (t : PoolTable) : TableOp → Except Stop PoolTable
  | .channelPool channel frame_max memory => do
    let (_, t) ← amqp_get_or_create_channel_pool memory frame_max t channel
    return t
  | .create n pagesize => t.onStore (.create (.other n) pagesize)
  | .empty n => t.onStore (.empty (.other n))
  | .alloc o amount grant => t.onStore (.alloc o amount grant)
  | .recycle o => t.onStore (.recycle o)
  | .releaseOnChannel idle queued channel =>
    amqp_maybe_release_buffers_on_channel idle queued t channel
  | .release idle queued => amqp_maybe_release_buffers idle queued t

/-- The pools are sound, and those of the channels are the ones with an entry in `pool_table`. -/
structure Listed (t : PoolTable) : Prop where
  sound : t.store.Sound
  listed : ∀ c, (t.store.pools (.channel c)).isSome ↔ c ∈ t.pool_table (index c)

theorem listed_start : start.Listed where
  sound := Store.sound_start
  listed _ := iff_of_false Bool.false_ne_true List.not_mem_nil

variable {t : PoolTable}

/-- The pool of a channel is found when it has an entry. -/
theorem amqp_get_channel_pool_of_mem {channel : BitVec 16}
    (h : channel ∈ t.pool_table (index channel)) :
    t.amqp_get_channel_pool channel = some (.channel channel) := by
  rw [amqp_get_channel_pool]
  cases h_find : (t.pool_table (index channel)).find? fun c => channel = c with
  | none => exact absurd (decide_eq_true rfl) (List.find?_eq_none.mp h_find channel h)
  | some c =>
    obtain rfl : channel = c := of_decide_eq_true (List.find?_some (a := c) h_find)
    rfl

/-- Without an entry there is none. -/
theorem amqp_get_channel_pool_of_not_mem {channel : BitVec 16}
    (h : channel ∉ t.pool_table (index channel)) : t.amqp_get_channel_pool channel = none := by
  rw [amqp_get_channel_pool, List.find?_eq_none.mpr, Option.map_none]
  intro c h_c h_eq
  have h_eq : channel = c := of_decide_eq_true h_eq
  exact h (h_eq ▸ h_c)

/-- A call on a pool leaves the lists alone. -/
theorem onStore_eq {op : PoolOp Owner} {store : Store Owner} (h : t.store.step op = .ok store) :
    t.onStore op = .ok { t with store := store } := by
  rw [onStore, h]
  rfl

/-- A call on a pool that leaves it to the channels which of them have one. -/
theorem Listed.onStore (h : t.Listed) (op : PoolOp Owner)
    (h_op : ∀ c, op.owner = .channel c → ∀ b, op.leaves b = b) :
    ∃ u, t.onStore op = .ok u ∧ u.Listed ∧ u.pool_table = t.pool_table := by
  obtain ⟨store, h_step, h_sound, -⟩ := h.sound.step_sound op
  refine ⟨_, onStore_eq h_step, ⟨h_sound, fun c => ?_⟩, rfl⟩
  rw [← h.listed c]
  -- the pool of the call keeps its entry, and all other pools stay as they are
  by_cases h_owner : Owner.channel c = op.owner
  · rw [h_owner, Store.isSome_step_self h_step, h_op c h_owner.symm]
  · rw [Store.isSome_step_of_ne h_step h_owner]

/-- A channel gets a pool and an entry in the same call. -/
theorem Listed.channelPool (h : t.Listed) (memory : Bool) (frame_max : ℕ) (channel : BitVec 16) :
    ∃ o u, amqp_get_or_create_channel_pool memory frame_max t channel = .ok (o, u) ∧ u.Listed := by
  rw [amqp_get_or_create_channel_pool]
  by_cases h_mem : channel ∈ t.pool_table (index channel)
  · rw [amqp_get_channel_pool_of_mem h_mem]
    exact ⟨_, t, rfl, h⟩
  rw [amqp_get_channel_pool_of_not_mem h_mem]
  cases memory with
  | false => exact ⟨none, t, rfl, h⟩
  | true =>
    obtain ⟨store, h_step, h_sound, -⟩ := h.sound.step_sound (.create (.channel channel) frame_max)
    let entries := Function.update t.pool_table (index channel)
      (channel :: t.pool_table (index channel))
    have h_on : PoolTable.onStore ⟨entries, t.store⟩ (.create (.channel channel) frame_max) =
        .ok ⟨entries, store⟩ := onStore_eq h_step
    refine ⟨some (.channel channel), ⟨entries, store⟩, ?_, h_sound, fun c => ?_⟩
    · change (PoolTable.onStore ⟨entries, t.store⟩ _ >>= _) = _
      rw [h_on]
      rfl
    · change (store.pools (.channel c)).isSome ↔ c ∈ entries (index c)
      dsimp only [entries]
      by_cases h_c : c = channel
      · -- the new entry is in the list of its channel
        rw [h_c, Function.update_self]
        exact iff_of_true (Store.isSome_step_self h_step) List.mem_cons_self
      · rw [Store.isSome_step_of_ne h_step fun h_eq => h_c (Owner.channel.inj h_eq), h.listed c]
        by_cases h_index : index c = index channel
        · rw [h_index, Function.update_self, List.mem_cons, or_iff_right h_c]
        · rw [Function.update_of_ne h_index]

/-! ### What a release takes back -/

/-- A pool that is left alone when the buffers of the channels are released. -/
def keptBy (queued : List Frame) (channels : List (BitVec 16)) : Owner → Bool
  | .channel c => !channels.contains c || queued.any fun frame => c = frame.channel
  | .other _ => true

theorem keptBy_nil (queued : List Frame) (o : Owner) : keptBy queued [] o = true := by
  cases o <;> rfl

/-- What two releases leave alone is what both of them do. -/
theorem keptBy_append (queued : List Frame) (channels channels' : List (BitVec 16)) (o : Owner) :
    keptBy queued (channels ++ channels') o =
      (keptBy queued channels' o && keptBy queued channels o) := by
  cases o with
  | channel c =>
    rw [keptBy, keptBy, keptBy, ← Bool.or_and_distrib_right, ← Bool.not_or, List.contains_append,
      Bool.or_comm (channels.contains c)]
  | other n => rfl

/-- `u` is `t` after a release of the buffers of `channels`. -/
structure Releases (queued : List Frame) (channels : List (BitVec 16)) (t u : PoolTable) :
    Prop where
  listed : u.Listed
  pool_table : u.pool_table = t.pool_table
  regions : u.store.regions = t.store.regions.filter fun x => keptBy queued channels x.1

variable {queued : List Frame}

/-- Nothing is released. -/
theorem Listed.releases_nil (h : t.Listed) : Releases queued [] t t :=
  ⟨h, rfl, (List.filter_eq_self.mpr fun x _ => keptBy_nil queued x.1).symm⟩

/-- Two releases. -/
theorem Releases.trans {channels channels' : List (BitVec 16)} {u v : PoolTable}
    (h : Releases queued channels t u) (h' : Releases queued channels' u v) :
    Releases queued (channels ++ channels') t v where
  listed := h'.listed
  pool_table := h'.pool_table.trans h.pool_table
  regions := by
    rw [h'.regions, h.regions, List.filter_filter]
    exact List.filter_congr fun x _ => (keptBy_append queued channels channels' x.1).symm

/-- The pool of one channel is recycled when there is no frame of it in the queue. -/
theorem Listed.release_on_channel (h : t.Listed) (queued : List Frame) (channel : BitVec 16) :
    ∃ u, amqp_maybe_release_buffers_on_channel true queued t channel = .ok u ∧
      Releases queued [channel] t u := by
  have h_others : ∀ c, c ≠ channel → keptBy queued [channel] (.channel c) = true := by
    intro c h_c
    rw [keptBy, List.contains_cons, List.contains_nil, beq_eq_false_iff_ne.mpr h_c]
    rfl
  rw [amqp_maybe_release_buffers_on_channel, if_neg (by decide)]
  by_cases h_any : (queued.any fun frame => channel = frame.channel) = true
  · rw [if_pos h_any]
    refine ⟨t, rfl, h, rfl, (List.filter_eq_self.mpr fun x _ => ?_).symm⟩
    cases x.1 with
    | channel c =>
      by_cases h_c : c = channel
      · rw [keptBy, h_c, h_any, Bool.or_true]
      · exact h_others c h_c
    | other n => rfl
  rw [if_neg h_any]
  -- the regions that the pool of the channel does not have
  have h_filter : ∀ x : Owner × Region,
      decide (x.1 ≠ .channel channel) = keptBy queued [channel] x.1 := by
    rintro ⟨c | n, r⟩
    · by_cases h_c : c = channel
      · rw [keptBy, h_c, Bool.eq_false_iff.mpr h_any, List.contains_cons, beq_self_eq_true]
        exact decide_eq_false fun h_ne => h_ne rfl
      · rw [h_others c h_c]
        exact decide_eq_true fun h_eq => h_c (Owner.channel.inj h_eq)
    · rfl
  obtain ⟨store, h_step, -, h_regions⟩ := h.sound.step_recycle (.channel channel)
  have h_kept : store.regions = t.store.regions.filter fun x => keptBy queued [channel] x.1 :=
    h_regions.trans (List.filter_congr fun x _ => h_filter x)
  by_cases h_mem : channel ∈ t.pool_table (index channel)
  · rw [amqp_get_channel_pool_of_mem h_mem]
    obtain ⟨u, h_run, h_u, h_table⟩ :=
      h.onStore (.recycle (.channel channel)) fun _ _ _ => rfl
    refine ⟨u, h_run, h_u, h_table, ?_⟩
    rw [onStore_eq h_step] at h_run
    cases h_run
    exact h_kept
  · -- without an entry the channel has no pool and no region
    rw [amqp_get_channel_pool_of_not_mem h_mem]
    have h_none : t.store.pools (.channel channel) = none :=
      Option.not_isSome_iff_eq_none.mp fun h_some => h_mem ((h.listed channel).mp h_some)
    rw [Store.step, h_none] at h_step
    cases h_step
    exact ⟨t, rfl, h, rfl, h_kept⟩

/-- The loop over the entries of a list. -/
theorem Listed.release_on_channels (h : t.Listed) (queued : List Frame)
    (channels : List (BitVec 16)) :
    ∃ u, channels.foldlM (amqp_maybe_release_buffers_on_channel true queued) t = .ok u ∧
      Releases queued channels t u := by
  induction channels generalizing t with
  | nil => exact ⟨t, rfl, h.releases_nil⟩
  | cons channel channels ih =>
    obtain ⟨u, h_first, h_u⟩ := h.release_on_channel queued channel
    obtain ⟨v, h_rest, h_v⟩ := ih h_u.listed
    refine ⟨v, ?_, h_u.trans h_v⟩
    rw [List.foldlM_cons, h_first]
    exact h_rest

/-- The loop over `pool_table`. -/
theorem Listed.release_on_lists (h : t.Listed) (queued : List Frame)
    (lists : List (Fin POOL_TABLE_SIZE)) :
    ∃ u, lists.foldlM (fun t i =>
        (t.pool_table i).foldlM (amqp_maybe_release_buffers_on_channel true queued) t) t = .ok u ∧
      Releases queued (lists.flatMap t.pool_table) t u := by
  induction lists generalizing t with
  | nil => exact ⟨t, rfl, h.releases_nil⟩
  | cons i lists ih =>
    obtain ⟨u, h_first, h_u⟩ := h.release_on_channels queued (t.pool_table i)
    obtain ⟨v, h_rest, h_v⟩ := ih h_u.listed
    rw [h_u.pool_table] at h_v
    refine ⟨v, ?_, h_u.trans h_v⟩
    rw [List.foldlM_cons, h_first]
    exact h_rest

/-- A pool whose regions a release of all buffers leaves alone: it is not that of a channel, or
there is a frame of the channel in the queue. -/
def stays (queued : List Frame) : Owner → Bool
  | .channel c => queued.any fun frame => c = frame.channel
  | .other _ => true

/-- A release of all buffers: every channel that has a region is met in `pool_table`. -/
theorem Listed.release (h : t.Listed) (idle : Bool) (queued : List Frame) :
    ∃ u, amqp_maybe_release_buffers idle queued t = .ok u ∧ u.Listed ∧
      u.store.regions = t.store.regions.filter fun x => !idle || stays queued x.1 := by
  cases idle with
  | false => exact ⟨t, rfl, h, (List.filter_eq_self.mpr fun _ _ => rfl).symm⟩
  | true =>
    obtain ⟨u, h_run, h_u⟩ := h.release_on_lists queued (List.finRange POOL_TABLE_SIZE)
    refine ⟨u, h_run, h_u.listed, h_u.regions.trans (List.filter_congr fun x h_x => ?_)⟩
    obtain ⟨n, p, -, -, h_p, -⟩ := h.sound.regions x h_x
    obtain ⟨c | n, r⟩ := x
    · have h_entry : c ∈ t.pool_table (index c) := (h.listed c).mp (by rw [h_p]; rfl)
      have h_walked : (List.finRange POOL_TABLE_SIZE).flatMap t.pool_table |>.contains c :=
        List.contains_iff_mem.mpr (List.mem_flatMap.mpr ⟨_, List.mem_finRange _, h_entry⟩)
      change keptBy _ _ (.channel c) = _
      rw [keptBy, h_walked]
      rfl
    · rfl

/-- One call has no fault, and every channel that has a pool keeps its entry. -/
theorem Listed.step (h : t.Listed) (op : TableOp) : ∃ u, t.step op = .ok u ∧ u.Listed := by
  cases op with
  | channelPool channel frame_max memory =>
    obtain ⟨o, u, h_run, h_u⟩ := h.channelPool memory frame_max channel
    refine ⟨u, ?_, h_u⟩
    rw [PoolTable.step, h_run]
    rfl
  | create n pagesize =>
    obtain ⟨u, h_run, h_u, -⟩ := h.onStore (.create (.other n) pagesize) nofun
    exact ⟨u, h_run, h_u⟩
  | empty n =>
    obtain ⟨u, h_run, h_u, -⟩ := h.onStore (.empty (.other n)) nofun
    exact ⟨u, h_run, h_u⟩
  | alloc o amount grant =>
    obtain ⟨u, h_run, h_u, -⟩ := h.onStore (.alloc o amount grant) fun _ _ _ => rfl
    exact ⟨u, h_run, h_u⟩
  | recycle o =>
    obtain ⟨u, h_run, h_u, -⟩ := h.onStore (.recycle o) fun _ _ _ => rfl
    exact ⟨u, h_run, h_u⟩
  | releaseOnChannel idle queued channel =>
    cases idle with
    | false => exact ⟨t, rfl, h⟩
    | true =>
      obtain ⟨u, h_run, h_u⟩ := h.release_on_channel queued channel
      exact ⟨u, h_run, h_u.listed⟩
  | release idle queued =>
    obtain ⟨u, h_run, h_u, -⟩ := h.release idle queued
    exact ⟨u, h_run, h_u⟩

/-- Calls one after the other. -/
theorem Listed.steps (h : t.Listed) (ops : List TableOp) :
    ∃ u, ops.foldlM PoolTable.step t = .ok u ∧ u.Listed := by
  induction ops generalizing t with
  | nil => exact ⟨t, rfl, h⟩
  | cons op ops ih =>
    obtain ⟨u, h_step, h_u⟩ := h.step op
    obtain ⟨v, h_run, h_v⟩ := ih h_u
    refine ⟨v, ?_, h_v⟩
    rw [List.foldlM_cons, h_step]
    exact h_run

end PoolTable

end Amqp
end WateRMQ
