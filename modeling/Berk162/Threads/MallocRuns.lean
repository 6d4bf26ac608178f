import Berk162.Threads.MallocCalls
import Berk162.Threads.PallocMem

/-!
# MallocRuns — what holds of the block allocator over whole runs

A run starts from `palloc_init` and `malloc_init` and makes `malloc`, `calloc`, `realloc` and `free`
calls in any order.  Blocks that are freed or reallocated are live ones, or null pointers.  In
between, other users of the page allocator get and free pages, and the owners of blocks write to
them.
-/

namespace Berk162

/-! ## Runs -/

/-- A block as its owner knows it: where it is, and how many bytes were asked for. -/
structure LiveBlock where
  addr : Nat
  size : Nat
  deriving DecidableEq, Repr

/-- The allocator, the live blocks, and the pages held by other users of the page allocator. -/
structure HeapRun where
  heap : Heap
  live : List LiveBlock
  others : List Group

inductive HeapCall
  | malloc (size : Nat)
  | calloc (a b : Nat)
  | realloc (old_block new_size : Nat)
  | free (p : Nat)
  | pages (c : PallocCall)
  | write (mem : Memory)

/-- The live blocks after a request for `size` bytes has returned `x`. -/
def gain (x size : Nat) (live : List LiveBlock) : List LiveBlock :=
  if x = NULL then live else ⟨x, size⟩ :: live

/-- The live blocks after the block at `x` was freed. -/
def lose (x : Nat) (live : List LiveBlock) : List LiveBlock := live.eraseP fun b => b.addr == x

/-- The live blocks after `realloc` of the block at `x` to `size` bytes has returned `y`. -/
def regain (x size y : Nat) (live : List LiveBlock) : List LiveBlock :=
  if size = 0 then lose x live else if y = NULL then live else ⟨y, size⟩ :: lose x live

/-- Pointers that may be passed to `free` and `realloc`. -/
def HeapRun.Owned (s : HeapRun) (x : Nat) : Prop := x = NULL ∨ ∃ b ∈ s.live, b.addr = x

inductive HeapStep : HeapRun → HeapCall → HeapRun → Prop
  | malloc {s : HeapRun} {size : Nat} {h : Heap} {x : Nat} :
      malloc s.heap size = some (h, x) →
      HeapStep s (.malloc size) ⟨h, gain x size s.live, s.others⟩
  | calloc {s : HeapRun} {a b : Nat} {h : Heap} {x : Nat} :
      calloc s.heap a b = some (h, x) →
      HeapStep s (.calloc a b) ⟨h, gain x (a * b) s.live, s.others⟩
  | realloc {s : HeapRun} {x size : Nat} {h : Heap} {y : Nat} :
      s.Owned x → realloc s.heap x size = some (h, y) →
      HeapStep s (.realloc x size) ⟨h, regain x size y s.live, s.others⟩
  | free {s : HeapRun} {x : Nat} {h : Heap} :
      s.Owned x → free s.heap x = some h → HeapStep s (.free x) ⟨h, lose x s.live, s.others⟩
  | pages {s : HeapRun} {c : PallocCall} {p : Palloc} {others : List Group} :
      PallocStep ⟨s.heap.palloc, s.others⟩ c ⟨p, others⟩ →
      HeapStep s (.pages c) ⟨s.heap.setPalloc p, s.live, others⟩
  | write {s : HeapRun} {mem : Memory} :
      HeapStep s (.write mem) ⟨s.heap.setMem mem, s.live, s.others⟩

/-- No size computation of a request for `size` bytes wraps around. -/
def NoWrap (size : Nat) : Prop := size + sizeof_arena + PGSIZE < WORD

def HeapCall.NoWrap : HeapCall → Prop
  | .malloc size => Berk162.NoWrap size
  | .calloc a b => Berk162.NoWrap (a * b)
  | .realloc _ size => Berk162.NoWrap size
  | _ => True

/-- The arguments are values of the type `size_t`. -/
def HeapCall.Typed : HeapCall → Prop
  | .malloc size => size < WORD
  | .calloc a b => a < WORD ∧ b < WORD
  | .realloc _ size => size < WORD
  | _ => True

/-- The runs whose calls satisfy `ok`, on a machine with `init_ram_pages` pages of RAM. -/
def heapSystem (init_ram_pages user_page_limit : Nat) (ok : HeapCall → Prop) :
    System HeapRun HeapCall where
  init s := s.live = [] ∧ s.others = [] ∧ ∃ storage mem arenas p,
    palloc_init init_ram_pages user_page_limit storage mem = some p ∧
    malloc_init p arenas = some s.heap
  step s c t := ok c ∧ HeapStep s c t

/-! ## The invariant -/

/-- The invariant between calls.  `small` says that every request of the run was small enough not to
wrap around; then every block has room for what was asked for. -/
structure HeapInvAt (small : Prop) (ram : Nat) (s : HeapRun) (as : List Nat) : Prop where
  core : HeapCore ram s.heap (s.live.map LiveBlock.addr) as s.others
  used : ∀ a ∈ as, ∃ b ∈ s.live, pg_round_down b.addr = a
  sized : small → ∀ b ∈ s.live, b.size ≤ s.heap.room (pg_round_down b.addr)

def HeapInv (small : Prop) (ram : Nat) (s : HeapRun) : Prop := ∃ as, HeapInvAt small ram s as

theorem lose_addr (x : Nat) (live : List LiveBlock) :
    (lose x live).map LiveBlock.addr = (live.map LiveBlock.addr).erase x := by
  rw [List.erase_eq_eraseP', List.eraseP_map]
  rfl

theorem mem_of_mem_lose {x : Nat} {b : LiveBlock} {live : List LiveBlock} (h : b ∈ lose x live) :
    b ∈ live :=
  List.mem_of_mem_eraseP h

theorem mem_lose_of_ne {x : Nat} {b : LiveBlock} {live : List LiveBlock} (h : b ∈ live)
    (hne : b.addr ≠ x) : b ∈ lose x live := by
  refine (List.mem_eraseP_of_neg ?_).2 h
  simpa using hne

theorem lose_of_not_mem {x : Nat} {live : List LiveBlock} (h : ∀ b ∈ live, b.addr ≠ x) :
    lose x live = live := by
  refine List.eraseP_of_forall_not fun b hb => ?_
  simpa using h b hb

theorem lose_gain {x y n : Nat} {live : List LiveBlock} (hy : y ≠ NULL) (hne : y ≠ x) :
    lose x (gain y n live) = ⟨y, n⟩ :: lose x live := by
  rw [gain, if_neg hy, lose, List.eraseP_cons_of_neg (by simpa using hne), lose]

/-- A request that does not wrap gets at least what it asked for. -/
theorem Served.room_ge {ram : Nat} {h : Heap} {live as : List Nat} {others : List Group}
    {size : Nat} {h' : Heap} {x a : Nat} {as' : List Nat}
    (hs : Served ram h live as others size h' x a as') (hsize : NoWrap size) :
    size ≤ h'.room a := by
  rw [NoWrap] at hsize
  cases hfor : h.descFor size with
  | some i =>
      exact hs.small i hfor
  | none =>
      rw [hs.big hfor, big_pages, size_add_eq (by omega), DIV_ROUND_UP_eq (by decide) hsize]
      rw [PGSIZE_eq, sizeof_arena]
      omega

/-- The block just handed out is none of those that were live. -/
theorem Served.ne_of_owned {ram : Nat} {s : HeapRun} {as : List Nat} {n y a : Nat} {h : Heap}
    {as' : List Nat} (hs : Served ram s.heap (s.live.map LiveBlock.addr) as s.others n h y a as')
    {x : Nat} (hown : s.Owned x) : y ≠ x := by
  rintro rfl
  rcases hown with hnull | ⟨b, hb, haddr⟩
  · exact hs.core.block_ne_null hs.mem hs.block hnull
  · exact (List.nodup_cons.1 hs.core.live_nodup).1 (List.mem_map.2 ⟨b, hb, haddr⟩)

namespace HeapInvAt

variable {small : Prop} {ram : Nat} {s : HeapRun} {as : List Nat}

/-- The live block that `malloc` has handed out joins the invariant; `size` is what the caller
asked for and `n` what `malloc` was asked for. -/
theorem serve (hi : HeapInvAt small ram s as) {size n x a : Nat} {h : Heap} {as' : List Nat}
    (hs : Served ram s.heap (s.live.map LiveBlock.addr) as s.others n h x a as')
    (hsmall : small → size ≤ n ∧ NoWrap n) :
    HeapInvAt small ram ⟨h, gain x size s.live, s.others⟩ as' := by
  have hnull := hs.core.block_ne_null hs.mem hs.block
  have hround := hs.core.round_down hs.mem hs.block
  have hgain : gain x size s.live = ⟨x, size⟩ :: s.live := if_neg hnull
  have hshape : h.descs.map Desc.shape = s.heap.descs.map Desc.shape :=
    hs.core.shape.trans hi.core.shape.symm
  rw [hgain]
  refine ⟨hs.core, fun a' ha' => ?_, fun hsm b hb => ?_⟩
  · rcases hs.old a' ha' with rfl | hold
    · exact ⟨_, List.mem_cons_self, hround⟩
    · rcases hi.used a' hold with ⟨b, hb, hba⟩
      exact ⟨b, List.mem_cons_of_mem _ hb, hba⟩
  · rcases List.mem_cons.1 hb with rfl | hb
    · rcases hsmall hsm with ⟨hle, hn⟩
      rw [hround]
      exact hle.trans (hs.room_ge hn)
    · rcases hi.core.live_block _ (List.mem_map_of_mem hb) with ⟨a', ha', hblk⟩
      have hround' := hi.core.round_down ha' hblk
      have hsized := hi.sized hsm b hb
      rw [hround'] at hsized ⊢
      rwa [Heap.room_of_keeps (hs.keeps a' ha') hshape]

theorem setMem (hi : HeapInvAt small ram s as) (mem : Memory) :
    HeapInvAt small ram ⟨s.heap.setMem mem, s.live, s.others⟩ as :=
  ⟨hi.core.setMem mem, hi.used, hi.sized⟩

theorem freed (hi : HeapInvAt small ram s as) {x : Nat} {h : Heap} {as' : List Nat}
    (hf : Freed ram s.heap (s.live.map LiveBlock.addr) as s.others x h as') :
    HeapInvAt small ram ⟨h, lose x s.live, s.others⟩ as' := by
  have hshape : h.descs.map Desc.shape = s.heap.descs.map Desc.shape :=
    hf.core.shape.trans hi.core.shape.symm
  have hcore := hf.core
  rw [← lose_addr] at hcore
  refine ⟨hcore, fun a ha => ?_, fun hsm b hb => ?_⟩
  · by_cases hshared : ∃ b ∈ s.live, b.addr ≠ x ∧ pg_round_down b.addr = pg_round_down x
    · rcases hshared with ⟨b, hb, hne, hround⟩
      by_cases hax : a = pg_round_down x
      · exact ⟨b, mem_lose_of_ne hb hne, hround.trans hax.symm⟩
      · rcases hi.used a (hf.keeps a ha).1 with ⟨c, hc, hca⟩
        refine ⟨c, mem_lose_of_ne hc ?_, hca⟩
        rintro rfl
        exact hax hca.symm
    · -- the arena of `x` is gone, so the block found in `a` is not `x`
      have hlast : ∀ y ∈ s.live.map LiveBlock.addr, y ≠ x →
          pg_round_down y ≠ pg_round_down x := by
        intro y hy hne hround
        rcases List.mem_map.1 hy with ⟨b, hb, rfl⟩
        exact hshared ⟨b, hb, hne, hround⟩
      rw [(hf.last hlast).1] at ha
      rcases hi.core.arenas_nodup.mem_erase_iff.1 ha with ⟨hne, ha⟩
      rcases hi.used a ha with ⟨c, hc, hca⟩
      refine ⟨c, mem_lose_of_ne hc ?_, hca⟩
      rintro rfl
      exact hne hca.symm
  · have hb' := mem_of_mem_lose hb
    rcases hcore.live_block _ (List.mem_map_of_mem hb) with ⟨a, ha, hblk⟩
    have hround := hcore.round_down ha hblk
    have hsized := hi.sized hsm b hb'
    rw [hround] at hsized ⊢
    rwa [Heap.room_of_keeps (hf.keeps a ha).2 hshape]

theorem addr_ne_null (hi : HeapInvAt small ram s as) : ∀ b ∈ s.live, b.addr ≠ NULL := by
  intro b hb
  rcases hi.core.live_block _ (List.mem_map_of_mem hb) with ⟨a, ha, hblk⟩
  exact hi.core.block_ne_null ha hblk

/-! ## Each call -/

theorem malloc_step (hi : HeapInvAt small ram s as) {size : Nat} (hsmall : small → NoWrap size) :
    ∃ h x as', malloc s.heap size = some (h, x) ∧
      HeapInvAt small ram ⟨h, gain x size s.live, s.others⟩ as' := by
  rcases hi.core.malloc_spec size with ⟨_, hcall⟩ | ⟨_, h, x, a, as', hcall, hserved⟩
  · exact ⟨_, _, as, hcall, by simpa [gain] using hi⟩
  · exact ⟨h, x, as', hcall, hi.serve hserved fun hsm => ⟨le_refl size, hsmall hsm⟩⟩

theorem calloc_eq (h : Heap) {a b size : Nat} (hsize : size = size_mul a b) :
    calloc h a b =
      if size < a ∨ size < b then some (h, NULL)
      else (malloc h size).bind fun r =>
        if r.2 ≠ NULL then some (r.1.setMem (memset r.1.mem r.2 0 size), r.2)
        else some (r.1, r.2) := by
  subst hsize
  rfl

/-- `calloc` fails, or serves the product of its arguments as far as it fits a `size_t`. -/
theorem calloc_spec (hi : HeapInvAt small ram s as) {a b size : Nat} (hsize : size = size_mul a b) :
    ((size < a ∨ size < b ∨ ¬ s.heap.CanServe size) ∧ calloc s.heap a b = some (s.heap, NULL)) ∨
      (¬ (size < a ∨ size < b ∨ ¬ s.heap.CanServe size) ∧ ∃ h x ar as',
        calloc s.heap a b = some (h.setMem (memset h.mem x 0 size), x) ∧
        Served ram s.heap (s.live.map LiveBlock.addr) as s.others size h x ar as') := by
  rw [calloc_eq s.heap hsize]
  by_cases hreject : size < a ∨ size < b
  · rw [if_pos hreject]
    exact Or.inl ⟨hreject.imp_right Or.inl, rfl⟩
  · rw [if_neg hreject]
    rcases hi.core.malloc_spec size with ⟨hno, hcall⟩ | ⟨hcan, h, x, ar, as', hcall, hserved⟩
    · rw [hcall, Option.bind_some]
      exact Or.inl ⟨Or.inr (Or.inr hno), rfl⟩
    · have hnull := hserved.core.block_ne_null hserved.mem hserved.block
      refine Or.inr ⟨?_, h, x, ar, as', ?_, hserved⟩
      · rintro (h1 | h2 | h3)
        · exact hreject (Or.inl h1)
        · exact hreject (Or.inr h2)
        · exact h3 hcan
      · rw [hcall, Option.bind_some]
        simp only [ne_eq, hnull, not_false_eq_true, if_true]

theorem calloc_step (hi : HeapInvAt small ram s as) {a b : Nat} (hsmall : small → NoWrap (a * b)) :
    ∃ h x as', calloc s.heap a b = some (h, x) ∧
      HeapInvAt small ram ⟨h, gain x (a * b) s.live, s.others⟩ as' := by
  rcases hi.calloc_spec (a := a) (b := b) rfl with
    ⟨_, hcall⟩ | ⟨_, h, x, ar, as', hcall, hserved⟩
  · exact ⟨_, _, as, hcall, by simpa [gain] using hi⟩
  · refine ⟨_, _, as', hcall, ?_⟩
    have hfit : small → a * b ≤ size_mul a b ∧ NoWrap (size_mul a b) := by
      intro hsm
      have hn := hsmall hsm
      have heq : size_mul a b = a * b := size_mul_eq (by rw [NoWrap] at hn; omega)
      rw [heq]
      exact ⟨le_refl _, hn⟩
    exact (hi.serve hserved hfit).setMem _

theorem free_step (hi : HeapInvAt small ram s as) {x : Nat} (hown : s.Owned x) :
    ∃ h as', free s.heap x = some h ∧ HeapInvAt small ram ⟨h, lose x s.live, s.others⟩ as' := by
  by_cases hx : ∃ b ∈ s.live, b.addr = x
  · rcases hx with ⟨b, hb, rfl⟩
    rcases hi.core.free_spec (List.mem_map_of_mem hb) with ⟨h, as', hcall, hfreed⟩
    exact ⟨h, as', hcall, hi.freed hfreed⟩
  · have hnull : x = NULL := hown.resolve_right hx
    subst hnull
    refine ⟨s.heap, as, by rw [free, if_neg (not_not.2 rfl)]; rfl, ?_⟩
    rw [lose_of_not_mem hi.addr_ne_null]
    exact hi

theorem realloc_eq (h : Heap) (x : Nat) {size : Nat} (hsize : size ≠ 0) :
    realloc h x size = (malloc h size).bind fun r =>
      if x ≠ NULL ∧ r.2 ≠ NULL then
        (block_size r.1 x).bind fun old_size =>
          (free (r.1.setMem (memcpy r.1.mem r.2 x
            (if size < old_size then size else old_size))) x).bind fun h' => some (h', r.2)
      else some (r.1, r.2) := by
  rw [realloc, if_neg hsize]
  rfl

theorem realloc_step (hi : HeapInvAt small ram s as) {x size : Nat} (hown : s.Owned x)
    (hsmall : small → NoWrap size) :
    ∃ h y as', realloc s.heap x size = some (h, y) ∧
      HeapInvAt small ram ⟨h, regain x size y s.live, s.others⟩ as' := by
  by_cases hsize : size = 0
  · rcases hi.free_step hown with ⟨h, as', hcall, hinv⟩
    refine ⟨h, NULL, as', ?_, ?_⟩
    · rw [realloc, if_pos hsize, hcall]
      rfl
    · rw [regain, if_pos hsize]
      exact hinv
  · rw [realloc_eq s.heap x hsize]
    rcases hi.core.malloc_spec size with ⟨_, hcall⟩ | ⟨_, h, y, a, as', hcall, hserved⟩
    · refine ⟨s.heap, NULL, as, ?_, ?_⟩
      · rw [hcall, Option.bind_some]
        simp only [ne_eq, not_true_eq_false, and_false, if_false]
      · rw [regain, if_neg hsize, if_pos rfl]
        exact hi
    · have hserve := hi.serve hserved fun hsm => ⟨le_refl size, hsmall hsm⟩
      have hy := hserved.core.block_ne_null hserved.mem hserved.block
      have hgain : gain y size s.live = ⟨y, size⟩ :: s.live := if_neg hy
      rw [hcall, Option.bind_some]
      by_cases hx : ∃ b ∈ s.live, b.addr = x
      · -- the new block is there, and the old one is freed
        rcases hx with ⟨b, hb, rfl⟩
        have hbnull := hi.addr_ne_null b hb
        rcases hserved.core.live_block b.addr (List.mem_cons_of_mem _ (List.mem_map_of_mem hb))
          with ⟨ab, hab, hblk⟩
        have hbs := hserved.core.block_size_eq hab hblk
        have hne : y ≠ b.addr := hserved.ne_of_owned hown
        rw [if_pos ⟨hbnull, hy⟩, hbs, Option.bind_some]
        have hcopy := hserve.setMem (memcpy h.mem y b.addr
          (if size < h.room ab then size else h.room ab))
        have hown' : b ∈ gain y size s.live := by
          rw [hgain]
          exact List.mem_cons_of_mem _ hb
        rcases hcopy.free_step (Or.inr ⟨b, hown', rfl⟩) with ⟨h', as'', hfree, hinv⟩
        refine ⟨h', y, as'', ?_, ?_⟩
        · rw [hfree, Option.bind_some]
        · rw [regain, if_neg hsize, if_neg hy, ← lose_gain hy hne]
          exact hinv
      · have hnull : x = NULL := hown.resolve_right hx
        refine ⟨h, y, as', ?_, ?_⟩
        · rw [if_neg fun hc => hc.1 hnull]
        · have hlose : lose x s.live = s.live := by
            rw [hnull]
            exact lose_of_not_mem hi.addr_ne_null
          rw [regain, if_neg hsize, if_neg hy, hlose, ← hgain]
          exact hserve

end HeapInvAt

theorem HeapCore.setPalloc {ram : Nat} {h : Heap} {live as : List Nat} {others others' : List Group}
    {p : Palloc} (hc : HeapCore ram h live as others)
    (hp : PallocInv ram ⟨p, as.map h.arenaGroup ++ others'⟩) :
    HeapCore ram (h.setPalloc p) live as others' :=
  ⟨hp, hc.arenas_nodup, hc.shape, hc.magic, hc.desc_lt, hc.live_nodup, hc.live_block, hc.big_live,
    hc.free_nodup, hc.mem_free, hc.free_cnt⟩

/-- The page allocator has gone on without the block allocator. -/
theorem HeapInvAt.setPalloc {small : Prop} {ram : Nat} {s : HeapRun} {as : List Nat}
    (hi : HeapInvAt small ram s as) {p : Palloc} {others : List Group}
    (hp : PallocInv ram ⟨p, as.map s.heap.arenaGroup ++ others⟩) :
    HeapInvAt small ram ⟨s.heap.setPalloc p, s.live, others⟩ as :=
  ⟨hi.core.setPalloc hp, hi.used, hi.sized⟩

theorem HeapInv.step {small : Prop} {ram : Nat} {s t : HeapRun} {c : HeapCall}
    (hi : HeapInv small ram s) (hsmall : small → c.NoWrap) (hstep : HeapStep s c t) :
    HeapInv small ram t := by
  rcases hi with ⟨as, hi⟩
  cases hstep with
  | malloc hcall =>
      rcases hi.malloc_step hsmall with ⟨h, x, as', hcall', hinv⟩
      rw [hcall', Option.some.injEq, Prod.mk.injEq] at hcall
      rcases hcall with ⟨rfl, rfl⟩
      exact ⟨as', hinv⟩
  | calloc hcall =>
      rcases hi.calloc_step hsmall with ⟨h, x, as', hcall', hinv⟩
      rw [hcall', Option.some.injEq, Prod.mk.injEq] at hcall
      rcases hcall with ⟨rfl, rfl⟩
      exact ⟨as', hinv⟩
  | realloc hown hcall =>
      rcases hi.realloc_step hown hsmall with ⟨h, y, as', hcall', hinv⟩
      rw [hcall', Option.some.injEq, Prod.mk.injEq] at hcall
      rcases hcall with ⟨rfl, rfl⟩
      exact ⟨as', hinv⟩
  | free hown hcall =>
      rcases hi.free_step hown with ⟨h, as', hcall', hinv⟩
      rw [hcall', Option.some.injEq] at hcall
      subst hcall
      exact ⟨as', hinv⟩
  | pages hpages =>
      exact ⟨as, hi.setPalloc (hi.core.pages.frame hpages)⟩
  | write =>
      exact ⟨as, hi.setMem _⟩

/-! ## Initialization -/

theorem HeapInv.init {small : Prop} {init_ram_pages user_page_limit : Nat}
    {ok : HeapCall → Prop} (hlo : 256 ≤ init_ram_pages) (hhi : init_ram_pages < 2 ^ 18)
    {s : HeapRun} (hs : (heapSystem init_ram_pages user_page_limit ok).init s) :
    HeapInv small (ram_end init_ram_pages) s := by
  rcases s with ⟨heap, live, others⟩
  rcases hs with ⟨hlive, hothers, storage, mem, arenas, p, hp, hheap⟩
  simp only at hlive hothers hheap
  subst hlive hothers
  rw [malloc_init, malloc_init_descs, Option.bind_eq_bind, Option.bind_some, Option.pure_def,
    Option.some.injEq] at hheap
  subst hheap
  have hpages : PallocInv (ram_end init_ram_pages) ⟨p, []⟩ := by
    have hreach : (pallocSystem init_ram_pages user_page_limit).Reachable ⟨p, []⟩ :=
      System.Reachable.init ⟨rfl, storage, mem, hp⟩
    exact palloc_reachable_inv hlo hhi hreach
  have hempty : ∀ (i : Nat) (d : Desc),
      (desc_shapes.map fun s => (⟨s.1, s.2, []⟩ : Desc))[i]? = some d → d.free_list = [] := by
    intro i d hd
    rw [List.getElem?_map] at hd
    rcases Option.map_eq_some_iff.1 hd with ⟨_, _, rfl⟩
    rfl
  have hshape : (desc_shapes.map fun s => (⟨s.1, s.2, []⟩ : Desc)).map Desc.shape = desc_shapes := by
    decide
  refine ⟨[], ⟨hpages, List.nodup_nil, hshape, ?_, ?_, List.nodup_nil, ?_, ?_, ?_, ?_, ?_⟩, ?_, ?_⟩
  · simp
  · simp
  · simp
  · simp
  · intro i d hd
    rw [hempty i d hd]
    exact List.nodup_nil
  · intro i d hd x
    rw [hempty i d hd]
    simp
  · simp
  · simp
  · simp

theorem heap_reachable_inv {small : Prop} {init_ram_pages user_page_limit : Nat}
    {ok : HeapCall → Prop} (hlo : 256 ≤ init_ram_pages) (hhi : init_ram_pages < 2 ^ 18)
    (hok : ∀ c, ok c → small → c.NoWrap) {s : HeapRun}
    (hs : (heapSystem init_ram_pages user_page_limit ok).Reachable s) :
    HeapInv small (ram_end init_ram_pages) s :=
  System.Reachable.invariant (fun _ h0 => HeapInv.init hlo hhi h0)
    (fun _ c _ hi hst => hi.step (hok c hst.1) hst.2) hs

/-! ## What callers rely on -/

/-- The arenas in use: those with a live block. -/
def HeapRun.IsArena (s : HeapRun) (a : Nat) : Prop := ∃ b ∈ s.live, pg_round_down b.addr = a

/-- The bytes of a live block. -/
def HeapRun.region (s : HeapRun) (b : LiveBlock) : Extent :=
  ⟨b.addr, (block_size s.heap b.addr).getD 0⟩

/-- Another live block shares the arena of `b`. -/
def HeapRun.Shared (s : HeapRun) (b : LiveBlock) : Prop :=
  ∃ c ∈ s.live, c.addr ≠ b.addr ∧ pg_round_down c.addr = pg_round_down b.addr

/-- The block allocator as its callers see it, on a machine whose RAM ends at `ram`. -/
structure HeapGood (ram : Nat) (s : HeapRun) : Prop where
  free_nodup : ∀ (i : Nat) (d : Desc), s.heap.descs[i]? = some d → d.free_list.Nodup
  mem_free : ∀ (i : Nat) (d : Desc), s.heap.descs[i]? = some d → ∀ x, x ∈ d.free_list ↔
    ∃ a, s.IsArena a ∧ (s.heap.arenas a).desc = some i ∧ s.heap.IsBlock a x ∧
      ∀ b ∈ s.live, b.addr ≠ x
  free_cnt : ∀ a, s.IsArena a → ∀ (i : Nat) (d : Desc), (s.heap.arenas a).desc = some i →
    s.heap.descs[i]? = some d →
    (s.heap.arenas a).free_cnt = (d.free_list.filter fun x => pg_round_down x = a).length
  disjoint : (s.live.map s.region).Pairwise Extent.Disjoint
  inside : ∀ b ∈ s.live, ∃ n, block_size s.heap b.addr = some n ∧ b.size ≤ n ∧
    pg_round_down b.addr + sizeof_arena ≤ b.addr ∧
    b.addr + n ≤ pg_round_down b.addr + PGSIZE * (s.heap.arenas (pg_round_down b.addr)).pages
  pages : ∃ as : List Nat, as.Nodup ∧ (∀ a, a ∈ as ↔ s.IsArena a) ∧
    PallocGood ram ⟨s.heap.palloc, as.map s.heap.arenaGroup ++ s.others⟩
  returned : ∀ b ∈ s.live, ∃ h, free s.heap b.addr = some h ∧
    (s.Shared b → ∃ mem, h.palloc = s.heap.palloc.withMem mem) ∧
    (¬ s.Shared b →
      (∃ mem, palloc_free_multiple (s.heap.palloc.withMem mem) (pg_round_down b.addr)
        (s.heap.arenas (pg_round_down b.addr)).pages = some h.palloc) ∧
      ∀ d ∈ h.descs, ∀ x ∈ d.free_list, pg_round_down x ≠ pg_round_down b.addr)
  malloc_ok : ∀ size, (malloc s.heap size).isSome
  calloc_ok : ∀ a b, (calloc s.heap a b).isSome
  realloc_ok : ∀ x size, s.Owned x → (realloc s.heap x size).isSome
  free_ok : ∀ x, s.Owned x → (free s.heap x).isSome

namespace HeapInvAt

variable {small : Prop} {ram : Nat} {s : HeapRun} {as : List Nat}

theorem mem_iff (hi : HeapInvAt small ram s as) (a : Nat) : a ∈ as ↔ s.IsArena a := by
  constructor
  · exact hi.used a
  · rintro ⟨b, hb, rfl⟩
    rcases hi.core.live_block _ (List.mem_map_of_mem hb) with ⟨a', ha', hblk⟩
    rwa [hi.core.round_down ha' hblk]

theorem live_at (hi : HeapInvAt small ram s as) {b : LiveBlock} (hb : b ∈ s.live) :
    pg_round_down b.addr ∈ as ∧ s.heap.IsBlock (pg_round_down b.addr) b.addr := by
  rcases hi.core.live_block _ (List.mem_map_of_mem hb) with ⟨a, ha, hblk⟩
  rw [hi.core.round_down ha hblk]
  exact ⟨ha, hblk⟩

theorem not_live_iff (x : Nat) : x ∉ s.live.map LiveBlock.addr ↔ ∀ b ∈ s.live, b.addr ≠ x := by
  simp [List.mem_map]

/-- The header's count is the number of the arena's blocks on the free list. -/
theorem free_cnt_eq (hi : HeapInvAt small ram s as) {a i : Nat} {d : Desc} (ha : a ∈ as)
    (hdesc : (s.heap.arenas a).desc = some i) (hd : s.heap.descs[i]? = some d) :
    (s.heap.arenas a).free_cnt =
      (d.free_list.filter fun x => pg_round_down x = a).length := by
  set live := s.live.map LiveBlock.addr with hlive
  have hperm : (d.free_list.filter fun x => pg_round_down x = a).Perm
      ((freeBlocks d a live).toList.map (block_at a d.block_size)) := by
    refine (List.perm_ext_iff_of_nodup ((hi.core.free_nodup i d hd).filter _) ?_).2 fun x => ?_
    · exact (Finset.nodup_toList _).map fun j k hjk => block_at_injective (hi.core.fits hd) hjk
    · rw [List.mem_filter, hi.core.mem_free i d hd]
      constructor
      · rintro ⟨⟨a', ha', _, hblk, hnot⟩, hround⟩
        have haa : a' = a := (hi.core.round_down ha' hblk).symm.trans (of_decide_eq_true hround)
        subst haa
        rcases (hi.core.isBlock_small hdesc hd x).1 hblk with ⟨idx, hidx, rfl⟩
        exact List.mem_map_of_mem (Finset.mem_toList.2 (mem_freeBlocks.2 ⟨hidx, hnot⟩))
      · intro hx
        rcases List.mem_map.1 hx with ⟨idx, hidx, rfl⟩
        rcases mem_freeBlocks.1 (Finset.mem_toList.1 hidx) with ⟨hlt, hnot⟩
        have hblk := (hi.core.isBlock_small hdesc hd (block_at a d.block_size idx)).2 ⟨idx, hlt, rfl⟩
        exact ⟨⟨a, ha, hdesc, hblk, hnot⟩, decide_eq_true (hi.core.round_down ha hblk)⟩
  calc
    (s.heap.arenas a).free_cnt = (freeBlocks d a live).card := hi.core.free_cnt a ha i d hdesc hd
    _ = ((freeBlocks d a live).toList.map (block_at a d.block_size)).length := by
          rw [List.length_map, Finset.length_toList]
    _ = (d.free_list.filter fun x => pg_round_down x = a).length := hperm.length_eq.symm

theorem regions_disjoint (hi : HeapInvAt small ram s as) :
    (s.live.map s.region).Pairwise Extent.Disjoint := by
  rw [List.pairwise_map]
  have hne := List.pairwise_map.1 hi.core.live_nodup
  refine hne.imp_of_mem fun {b c} hb hc hbc => ?_
  rcases hi.live_at hb with ⟨hab, hblk⟩
  rcases hi.live_at hc with ⟨hac, hblk'⟩
  simp only [HeapRun.region, hi.core.block_size_eq hab hblk, hi.core.block_size_eq hac hblk',
    Option.getD_some]
  exact hi.core.blocks_disjoint hab hac hblk hblk' hbc

theorem free_returns (hi : HeapInvAt small ram s as) {b : LiveBlock} (hb : b ∈ s.live) :
    ∃ h, free s.heap b.addr = some h ∧
      (s.Shared b → ∃ mem, h.palloc = s.heap.palloc.withMem mem) ∧
      (¬ s.Shared b →
        (∃ mem, palloc_free_multiple (s.heap.palloc.withMem mem) (pg_round_down b.addr)
          (s.heap.arenas (pg_round_down b.addr)).pages = some h.palloc) ∧
        ∀ d ∈ h.descs, ∀ x ∈ d.free_list, pg_round_down x ≠ pg_round_down b.addr) := by
  rcases hi.core.free_spec (List.mem_map_of_mem hb) with ⟨h, as', hcall, hf⟩
  refine ⟨h, hcall, ?_, ?_⟩
  · rintro ⟨c, hc, hne, hround⟩
    exact (hf.shared ⟨c.addr, List.mem_map_of_mem hc, hne, hround⟩).2
  · intro hnot
    have hlast : ∀ y ∈ s.live.map LiveBlock.addr, y ≠ b.addr →
        pg_round_down y ≠ pg_round_down b.addr := by
      intro y hy hne hround
      rcases List.mem_map.1 hy with ⟨c, hc, rfl⟩
      exact hnot ⟨c, hc, hne, hround⟩
    rcases hf.last hlast with ⟨has, hfree⟩
    refine ⟨hfree, fun d hd x hx => ?_⟩
    rcases List.getElem?_of_mem hd with ⟨i, hdi⟩
    rcases (hf.core.mem_free i d hdi x).1 hx with ⟨a, ha, _, hblk, _⟩
    rw [hf.core.round_down ha hblk]
    rw [has] at ha
    exact (hi.core.arenas_nodup.mem_erase_iff.1 ha).1

theorem good (hi : HeapInvAt True ram s as) : HeapGood ram s where
  free_nodup := hi.core.free_nodup
  mem_free := fun i d hd x => by
    rw [hi.core.mem_free i d hd x]
    simp only [hi.mem_iff, not_live_iff]
  free_cnt := fun a ha _ _ hdesc hd => hi.free_cnt_eq ((hi.mem_iff a).2 ha) hdesc hd
  disjoint := hi.regions_disjoint
  inside := fun b hb => by
    rcases hi.live_at hb with ⟨ha, hblk⟩
    rcases hi.core.block_inside ha hblk with ⟨hlo, hhi⟩
    exact ⟨_, hi.core.block_size_eq ha hblk, hi.sized trivial b hb, hlo, hhi⟩
  pages := ⟨as, hi.core.arenas_nodup, hi.mem_iff, hi.core.pages.good⟩
  returned := fun _ hb => hi.free_returns hb
  malloc_ok := fun size => by
    rcases hi.core.malloc_spec size with ⟨_, hcall⟩ | ⟨_, _, _, _, _, hcall, _⟩ <;> rw [hcall] <;> rfl
  calloc_ok := fun a b => by
    rcases hi.calloc_spec (a := a) (b := b) rfl with ⟨_, hcall⟩ | ⟨_, _, _, _, _, hcall, _⟩ <;>
      rw [hcall] <;> rfl
  realloc_ok := fun x size hown => by
    have hi' : HeapInvAt False ram s as := ⟨hi.core, hi.used, False.elim⟩
    rcases hi'.realloc_step hown (False.elim : False → NoWrap size) with ⟨_, _, _, hcall, _⟩
    rw [hcall]
    rfl
  free_ok := fun x hown => by
    rcases hi.free_step hown with ⟨_, _, hcall, _⟩
    rw [hcall]
    rfl

end HeapInvAt

/-- In every state of every run whose requests do not wrap around, the block allocator keeps its
promises. -/
theorem heap_runs_good {init_ram_pages user_page_limit : Nat} (hlo : 256 ≤ init_ram_pages)
    (hhi : init_ram_pages < 2 ^ 18) {s : HeapRun}
    (hs : (heapSystem init_ram_pages user_page_limit HeapCall.NoWrap).Reachable s) :
    HeapGood (ram_end init_ram_pages) s := by
  rcases heap_reachable_inv hlo hhi (fun _ hc _ => hc) hs with ⟨as, hi⟩
  exact hi.good

/-- The allocator of a machine with `init_ram_pages` pages of RAM, all of it zero at the start. -/
def boot_heap (init_ram_pages : Nat) : Option Heap :=
  (palloc_init init_ram_pages (WORD - 1) (fun _ _ => 0) (fun _ => 0)).bind fun p =>
    malloc_init p fun _ => ⟨0, none, 0⟩

theorem boot_heap_reachable {init_ram_pages : Nat} {h : Heap} (ok : HeapCall → Prop)
    (hboot : boot_heap init_ram_pages = some h) :
    (heapSystem init_ram_pages (WORD - 1) ok).Reachable ⟨h, [], []⟩ := by
  rcases Option.bind_eq_some_iff.1 hboot with ⟨p, hp, hh⟩
  exact System.Reachable.init ⟨rfl, rfl, _, _, _, p, hp, hh⟩

/-- A request for 100 bytes on a machine with two kernel pages. -/
theorem heap_runs_good_260 :
    ∃ s : HeapRun, (heapSystem 260 (WORD - 1) HeapCall.NoWrap).Reachable s ∧ s.live.length = 1 ∧
      HeapGood (ram_end 260) s := by
  have hrun : ((boot_heap 260).bind fun h => malloc h 100).map (fun r => decide (r.2 = NULL)) =
      some false := by
    decide +kernel
  rcases Option.map_eq_some_iff.1 hrun with ⟨⟨h', x⟩, hcall, hx⟩
  rcases Option.bind_eq_some_iff.1 hcall with ⟨h, hboot, hmalloc⟩
  have hreach : (heapSystem 260 (WORD - 1) HeapCall.NoWrap).Reachable
      ⟨h', gain x 100 [], []⟩ := by
    refine System.Reachable.step (l := .malloc 100) (boot_heap_reachable _ hboot) ⟨?_, ?_⟩
    · show NoWrap 100
      rw [NoWrap]
      decide
    · exact HeapStep.malloc hmalloc
  refine ⟨_, hreach, ?_, heap_runs_good (by omega) (by omega) hreach⟩
  have hnull : x ≠ NULL := by simpa using hx
  simp [gain, hnull]

/-! ## Which sizes are served in full -/

/-- A pointer returned by `malloc` for `size` bytes has room for them. -/
def Heap.MallocMeets (h : Heap) (size : Nat) : Prop :=
  ∀ h' x, malloc h size = some (h', x) → x ≠ NULL → ∃ n, block_size h' x = some n ∧ size ≤ n

/-- A pointer returned by `calloc` for `a` elements of `b` bytes has room for them, all zero. -/
def Heap.CallocMeets (h : Heap) (a b : Nat) : Prop :=
  ∀ h' x, calloc h a b = some (h', x) → x ≠ NULL →
    ∃ n, block_size h' x = some n ∧ a * b ≤ n ∧ ∀ k, k < a * b → h'.mem (x + k) = 0

/-- Adding the header does not wrap, so the pages make up the size, or there are none. -/
theorem big_pages_room {size : Nat} (hsize : size + sizeof_arena < WORD)
    (hpos : 1 ≤ big_pages size) : size ≤ PGSIZE * big_pages size - sizeof_arena := by
  simp only [big_pages, DIV_ROUND_UP, size_add, size_sub, WORD_eq, PGSIZE_eq, sizeof_arena] at *
  omega

/-- Adding the header wraps, and one page is the most that is asked for. -/
theorem big_pages_wrap {size : Nat} (hlt : size < WORD) (hsize : WORD ≤ size + sizeof_arena) :
    big_pages size ≤ 1 := by
  simp only [big_pages, DIV_ROUND_UP, size_add, size_sub, WORD_eq, PGSIZE_eq, sizeof_arena] at *
  omega

section

variable {ram : Nat} {h : Heap} {live as : List Nat} {others : List Group} {size : Nat} {h' : Heap}
  {x a : Nat} {as' : List Nat}

/-- A served request has room for `size` bytes exactly if adding the header did not wrap. -/
theorem Served.room_iff (hc : HeapCore ram h live as others)
    (hs : Served ram h live as others size h' x a as') (hcan : h.CanServe size)
    (hlt : size < WORD) : size ≤ h'.room a ↔ size + sizeof_arena < WORD := by
  have hnone := hc.descFor_isNone size
  cases hfor : h.descFor size with
  | some i =>
      have hle : ¬ 1024 < size := fun hgt => by
        rw [hnone.2 hgt] at hfor
        cases hfor
      refine iff_of_true (hs.small i hfor) ?_
      rw [WORD_eq, sizeof_arena]
      omega
  | none =>
      have hpos : 1 ≤ big_pages size := by
        have hserve := hcan.2
        rw [hfor] at hserve
        exact hserve.1
      rw [hs.big hfor]
      constructor
      · intro hle
        by_contra hwrap
        have hone := big_pages_wrap hlt (not_lt.1 hwrap)
        rw [WORD_eq, sizeof_arena] at hwrap
        rw [PGSIZE_eq] at hle
        omega
      · exact fun hsize => big_pages_room hsize hpos

end

namespace HeapInvAt

variable {small : Prop} {ram : Nat} {s : HeapRun} {as : List Nat}

theorem malloc_meets_iff (hi : HeapInvAt small ram s as) {size : Nat} (hlt : size < WORD) :
    s.heap.MallocMeets size ↔ size + sizeof_arena < WORD ∨ ¬ s.heap.CanServe size := by
  rcases hi.core.malloc_spec size with ⟨hno, hcall⟩ | ⟨hcan, h, x, a, as', hcall, hs⟩
  · refine iff_of_true (fun h' x hc hx => ?_) (Or.inr hno)
    rw [hcall, Option.some.injEq, Prod.mk.injEq] at hc
    exact absurd hc.2.symm hx
  · have hnull := hs.core.block_ne_null hs.mem hs.block
    have hbs := hs.core.block_size_eq hs.mem hs.block
    have hroom := hs.room_iff hi.core hcan hlt
    constructor
    · intro hmeets
      rcases hmeets h x hcall hnull with ⟨n, hn, hle⟩
      rw [hbs, Option.some.injEq] at hn
      exact Or.inl (hroom.1 (hn ▸ hle))
    · rintro hcond h' x' hc -
      rw [hcall, Option.some.injEq, Prod.mk.injEq] at hc
      rcases hc with ⟨rfl, rfl⟩
      exact ⟨_, hbs, hroom.2 (hcond.resolve_right (not_not.2 hcan))⟩

theorem calloc_meets_iff (hi : HeapInvAt small ram s as) {a b size : Nat}
    (hsize : size = size_mul a b) :
    s.heap.CallocMeets a b ↔
      size < a ∨ size < b ∨ a * b + sizeof_arena < WORD ∨ ¬ s.heap.CanServe size := by
  rcases hi.calloc_spec hsize with ⟨hno, hcall⟩ | ⟨hyes, h, x, ar, as', hcall, hs⟩
  · refine iff_of_true (fun h' x hc hx => ?_) ?_
    · rw [hcall, Option.some.injEq, Prod.mk.injEq] at hc
      exact absurd hc.2.symm hx
    · rcases hno with h1 | h2 | h3
      · exact Or.inl h1
      · exact Or.inr (Or.inl h2)
      · exact Or.inr (Or.inr (Or.inr h3))
  · have hcan : s.heap.CanServe size := by
      by_contra hno
      exact hyes (Or.inr (Or.inr hno))
    have hcore := hs.core.setMem (memset h.mem x 0 size)
    have hnull := hs.core.block_ne_null hs.mem hs.block
    have hbs : block_size (h.setMem (memset h.mem x 0 size)) x = some (h.room ar) :=
      hcore.block_size_eq hs.mem hs.block
    have hlt : size < WORD := by
      rw [hsize, size_mul]
      exact Nat.mod_lt _ (by decide)
    have hroom := hs.room_iff hi.core hcan hlt
    constructor
    · intro hmeets
      rcases hmeets _ x hcall hnull with ⟨n, hn, hle, _⟩
      rw [hbs, Option.some.injEq] at hn
      subst hn
      -- the block lies in RAM, so a product that fits it did not wrap
      have hprod : a * b < WORD := by
        have hin := (hs.core.block_inside hs.mem hs.block).2
        have hend := hs.core.end_lt hs.mem
        omega
      have heq : size = a * b := hsize.trans (size_mul_eq hprod)
      rw [heq] at hroom
      exact Or.inr (Or.inr (Or.inl (hroom.1 hle)))
    · rintro hcond h' x' hc -
      have hfit : a * b + sizeof_arena < WORD := by
        rcases hcond with h1 | h2 | h3 | h4
        · exact absurd (Or.inl h1) hyes
        · exact absurd (Or.inr (Or.inl h2)) hyes
        · exact h3
        · exact absurd hcan h4
      have heq : size = a * b := hsize.trans (size_mul_eq (by omega))
      rw [hcall, Option.some.injEq, Prod.mk.injEq] at hc
      rcases hc with ⟨rfl, rfl⟩
      refine ⟨_, hbs, ?_, fun k hk => ?_⟩
      · rw [← heq]
        exact hroom.2 (by rw [heq]; exact hfit)
      · exact memset_of_mem ⟨Nat.le_add_right x k, by omega⟩

end HeapInvAt

/-- Which requests `malloc` and `calloc` serve in full, in every state of every run: those whose
size does not wrap around when the header is added, and those that cannot be served at all.  The
states after a `calloc` or `realloc` that has wrapped around are those of this model alone. -/
theorem heap_sizes_iff {init_ram_pages user_page_limit : Nat} (hlo : 256 ≤ init_ram_pages)
    (hhi : init_ram_pages < 2 ^ 18) {s : HeapRun}
    (hs : (heapSystem init_ram_pages user_page_limit HeapCall.Typed).Reachable s) :
    (∀ size, size < WORD →
      (s.heap.MallocMeets size ↔ size + sizeof_arena < WORD ∨ ¬ s.heap.CanServe size)) ∧
    (∀ a b, a < WORD → b < WORD →
      (s.heap.CallocMeets a b ↔ size_mul a b < a ∨ size_mul a b < b ∨
        a * b + sizeof_arena < WORD ∨ ¬ s.heap.CanServe (size_mul a b))) := by
  have hinv : HeapInv False (ram_end init_ram_pages) s :=
    heap_reachable_inv hlo hhi (fun _ _ hf => hf.elim) hs
  rcases hinv with ⟨as, hi⟩
  exact ⟨fun _ hlt => hi.malloc_meets_iff hlt, fun _ _ _ _ => hi.calloc_meets_iff rfl⟩

/-- The largest `size_t` on a machine with two kernel pages: the first request gets one page.  On a
machine with 512 pages, `0x10001` times `0x10001` bytes come to `0x20001`. -/
theorem heap_sizes_fail :
    (∃ s : HeapRun, (heapSystem 260 (WORD - 1) HeapCall.Typed).Reachable s ∧
      ¬ s.heap.MallocMeets (WORD - 1)) ∧
    ∃ s : HeapRun, (heapSystem 512 (WORD - 1) HeapCall.Typed).Reachable s ∧
      ¬ s.heap.CallocMeets 0x10001 0x10001 := by
  constructor
  · have hrun : ((boot_heap 260).bind fun h => (malloc h (WORD - 1)).bind fun r =>
        (block_size r.1 r.2).map fun n => decide (r.2 ≠ NULL ∧ n < WORD - 1)) = some true := by
      decide +kernel
    rcases Option.bind_eq_some_iff.1 hrun with ⟨h, hboot, hcall⟩
    rcases Option.bind_eq_some_iff.1 hcall with ⟨⟨h', x⟩, hmalloc, hsize⟩
    rcases Option.map_eq_some_iff.1 hsize with ⟨n, hn, hlt⟩
    rcases of_decide_eq_true hlt with ⟨hnull, hlt⟩
    refine ⟨_, boot_heap_reachable _ hboot, fun hmeets => ?_⟩
    rcases hmeets h' x hmalloc hnull with ⟨m, hm, hle⟩
    rw [hn, Option.some.injEq] at hm
    omega
  · have hrun : ((boot_heap 512).bind fun h => (calloc h 0x10001 0x10001).bind fun r =>
        (block_size r.1 r.2).map fun n => decide (r.2 ≠ NULL ∧ n < 0x10001 * 0x10001)) =
          some true := by
      decide +kernel
    rcases Option.bind_eq_some_iff.1 hrun with ⟨h, hboot, hcall⟩
    rcases Option.bind_eq_some_iff.1 hcall with ⟨⟨h', x⟩, hcalloc, hsize⟩
    rcases Option.map_eq_some_iff.1 hsize with ⟨n, hn, hlt⟩
    rcases of_decide_eq_true hlt with ⟨hnull, hlt⟩
    refine ⟨_, boot_heap_reachable _ hboot, fun hmeets => ?_⟩
    rcases hmeets h' x hcalloc hnull with ⟨m, hm, hle, _⟩
    rw [hn, Option.some.injEq] at hm
    omega

/-- On a machine with two kernel pages, which has served a request for 100 bytes and one for three
times 40, and got back the block of the first. -/
theorem heap_sizes_iff_260 :
    ∃ s : HeapRun, (heapSystem 260 (WORD - 1) HeapCall.Typed).Reachable s ∧
      (∃ b, s.live = [b] ∧ b.size = 3 * 40) ∧
      (∀ size, size < WORD →
        (s.heap.MallocMeets size ↔ size + sizeof_arena < WORD ∨ ¬ s.heap.CanServe size)) ∧
      ∀ a b, a < WORD → b < WORD →
        (s.heap.CallocMeets a b ↔ size_mul a b < a ∨ size_mul a b < b ∨
          a * b + sizeof_arena < WORD ∨ ¬ s.heap.CanServe (size_mul a b)) := by
  have hrun : ((boot_heap 260).bind fun h => (malloc h 100).bind fun x =>
      (calloc x.1 3 40).bind fun y => (free y.1 x.2).map fun _ =>
        decide (x.2 ≠ NULL ∧ y.2 ≠ NULL ∧ y.2 ≠ x.2)) = some true := by
    decide +kernel
  rcases Option.bind_eq_some_iff.1 hrun with ⟨h, hboot, hrun⟩
  rcases Option.bind_eq_some_iff.1 hrun with ⟨⟨h₁, x⟩, hmalloc, hrun⟩
  rcases Option.bind_eq_some_iff.1 hrun with ⟨⟨h₂, y⟩, hcalloc, hrun⟩
  rcases Option.map_eq_some_iff.1 hrun with ⟨h₃, hfree, hdec⟩
  rcases of_decide_eq_true hdec with ⟨hx, hy, hne⟩
  have hgain : gain y (3 * 40) (gain x 100 []) = [⟨y, 3 * 40⟩, ⟨x, 100⟩] := by
    rw [gain, gain, if_neg hx, if_neg hy]
  have hsize : ∀ {n}, n ≤ 100 → n < WORD := fun hn => lt_of_le_of_lt hn (by decide)
  have r₁ : (heapSystem 260 (WORD - 1) HeapCall.Typed).Reachable ⟨h₁, gain x 100 [], []⟩ :=
    System.Reachable.step (l := .malloc 100) (boot_heap_reachable _ hboot)
      ⟨hsize (le_refl _), HeapStep.malloc hmalloc⟩
  have r₂ : (heapSystem 260 (WORD - 1) HeapCall.Typed).Reachable
      ⟨h₂, gain y (3 * 40) (gain x 100 []), []⟩ :=
    System.Reachable.step (l := .calloc 3 40) r₁
      ⟨⟨hsize (by omega), hsize (by omega)⟩, HeapStep.calloc hcalloc⟩
  have hown : HeapRun.Owned ⟨h₂, gain y (3 * 40) (gain x 100 []), []⟩ x := by
    refine Or.inr ⟨⟨x, 100⟩, ?_, rfl⟩
    rw [hgain]
    exact List.mem_cons_of_mem _ List.mem_cons_self
  have r₃ : (heapSystem 260 (WORD - 1) HeapCall.Typed).Reachable
      ⟨h₃, lose x (gain y (3 * 40) (gain x 100 [])), []⟩ :=
    System.Reachable.step (l := .free x) r₂ ⟨trivial, HeapStep.free hown hfree⟩
  have hlive : lose x (gain y (3 * 40) (gain x 100 [])) = [⟨y, 3 * 40⟩] := by
    rw [hgain, lose, List.eraseP_cons_of_neg (by simpa using hne),
      List.eraseP_cons_of_pos (by simp)]
  exact ⟨_, r₃, ⟨_, hlive, rfl⟩, heap_sizes_iff (by omega) (by omega) r₃⟩

end Berk162
