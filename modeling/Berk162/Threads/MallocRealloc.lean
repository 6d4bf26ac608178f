import Berk162.Threads.MallocRuns
import Berk162.Threads.PallocMem

/-!
# MallocRealloc — what becomes of the contents of a block that `realloc` moves

`malloc` writes no byte of memory outside of headers and free lists, and `free` fills the block, and
where it was the last of its arena the pages of that.  So the bytes of every other live block stay as
they are.
-/

namespace Berk162

/-! ## The bytes that each function writes -/

theorem pop_block_mem {h h' : Heap} {i x : Nat} (hcall : pop_block h i = some (h', x)) :
    h'.mem = h.mem := by
  rw [pop_block] at hcall
  rcases Option.bind_eq_some_iff.1 hcall with ⟨d, _, hcall⟩
  cases hl : d.free_list with
  | nil =>
      rw [hl] at hcall
      cases hcall
  | cons b l =>
      rw [hl] at hcall
      rcases Option.bind_eq_some_iff.1 hcall with ⟨a, _, hcall⟩
      cases hcall
      rfl

theorem new_arena_mem {h h' : Heap} {i : Nat} {d : Desc} {ok : Bool}
    (hcall : new_arena h i d = some (h', ok)) : h'.mem = h.mem := by
  rw [new_arena] at hcall
  rcases Option.bind_eq_some_iff.1 hcall with ⟨⟨p, a⟩, hget, hcall⟩
  have hmem := palloc_get_multiple_mem hget
  by_cases hnull : a = NULL
  · simp only [if_pos hnull] at hcall
    cases hcall
    exact hmem
  · simp only [if_neg hnull] at hcall
    rcases Option.bind_eq_some_iff.1 hcall with ⟨l, _, hcall⟩
    cases hcall
    exact hmem

theorem malloc_big_mem {h h' : Heap} {size x : Nat} (hcall : malloc_big h size = some (h', x)) :
    h'.mem = h.mem := by
  rw [malloc_big] at hcall
  rcases Option.bind_eq_some_iff.1 hcall with ⟨⟨p, a⟩, hget, hcall⟩
  have hmem := palloc_get_multiple_mem hget
  by_cases hnull : a = NULL
  · simp only [if_pos hnull] at hcall
    cases hcall
    exact hmem
  · simp only [if_neg hnull] at hcall
    cases hcall
    exact hmem

/-- `malloc` leaves all contents alone. -/
theorem malloc_mem {h h' : Heap} {size x : Nat} (hcall : malloc h size = some (h', x)) :
    h'.mem = h.mem := by
  rw [malloc] at hcall
  by_cases hsize : size = 0
  · rw [if_pos hsize] at hcall
    cases hcall
    rfl
  · rw [if_neg hsize] at hcall
    cases hfind : h.descs.findIdx? (fun d => decide (d.block_size ≥ size)) with
    | none =>
        rw [hfind] at hcall
        exact malloc_big_mem hcall
    | some i =>
        rw [hfind] at hcall
        rcases Option.bind_eq_some_iff.1 hcall with ⟨d, _, hcall⟩
        by_cases hempty : d.free_list = []
        · rw [if_pos hempty] at hcall
          rcases Option.bind_eq_some_iff.1 hcall with ⟨⟨h₁, ok⟩, hnew, hcall⟩
          have hmem := new_arena_mem hnew
          cases ok with
          | false =>
              cases hcall
              exact hmem
          | true => exact (pop_block_mem hcall).trans hmem
        · rw [if_neg hempty] at hcall
          exact pop_block_mem hcall

namespace HeapCore

variable {ram : Nat} {h : Heap} {live as : List Nat} {others : List Group}

/-- A normal block is filled when it is freed, and so is its arena if no other block is left. -/
theorem free_normal_mem (hc : HeapCore ram h live as others) {a b i : Nat} {h' : Heap}
    (ha : a ∈ as) (hdesc : (h.arenas a).desc = some i) (hb : h.IsBlock a b) (hlive : b ∈ live)
    (hcall : free_normal h b a i = some h') {q : Nat} (hblock : q ∉ (⟨b, h.room a⟩ : Extent))
    (hpage : (∀ y ∈ live, y ≠ b → pg_round_down y ≠ pg_round_down b) →
      q ∉ (h.arenaGroup a).bytes) : h'.mem q = h.mem q := by
  rcases hc.desc_lt a ha i hdesc with ⟨d, hd⟩
  have hcard := hc.card_freeBlocks_erase ha hdesc hd hb hlive
  have hle : (freeBlocks d a (live.erase b)).card ≤ d.blocks_per_arena := card_freeBlocks_le
  have hfill : memset h.mem b 0xcc d.block_size q = h.mem q := by
    rw [hc.room_small hdesc hd] at hblock
    exact memset_of_not_mem hblock
  rw [free_normal_eq hd rfl rfl] at hcall
  by_cases hfull : size_add (h.arenas a).free_cnt 1 ≥ d.blocks_per_arena
  · have hlast := (hc.last_iff ha hdesc hd hb).1 (by omega)
    have hpages : (h.arenas a).pages = 1 := by
      simp only [Arena.pages, hdesc]
    have hout := hpage hlast
    rw [Heap.arenaGroup, hpages] at hout
    rw [if_pos hfull] at hcall
    rcases Option.bind_eq_some_iff.1 hcall with ⟨_, _, hcall⟩
    rcases Option.bind_eq_some_iff.1 hcall with ⟨l, _, hcall⟩
    rcases Option.bind_eq_some_iff.1 hcall with ⟨p, hp, hcall⟩
    cases hcall
    exact (palloc_free_multiple_mem hp hout).trans hfill
  · rw [if_neg hfull] at hcall
    cases hcall
    exact hfill

/-- `free` leaves the bytes of the other live blocks alone. -/
theorem free_mem (hc : HeapCore ram h live as others) {x y : Nat} (hx : x ∈ live) (hy : y ∈ live)
    (hne : y ≠ x) {h' : Heap} (hcall : free h x = some h') {q : Nat}
    (hq : q ∈ (⟨y, h.room (pg_round_down y)⟩ : Extent)) : h'.mem q = h.mem q := by
  rcases hc.live_block x hx with ⟨a, ha, hb⟩
  rcases hc.live_block y hy with ⟨c, hmem, hblk⟩
  rw [hc.round_down hmem hblk] at hq
  have hround := hc.round_down ha hb
  have hout : q ∉ (⟨x, h.room a⟩ : Extent) := hc.blocks_disjoint hmem ha hblk hb hne q hq
  have hpage : c ≠ a → q ∉ (h.arenaGroup a).bytes := fun hca =>
    hc.arenas_disjoint hmem ha hca q (hc.block_bytes hmem hblk q hq)
  rw [free, if_pos (hc.block_ne_null ha hb), hc.block_to_arena_eq ha hb, Option.bind_eq_bind,
    Option.bind_some] at hcall
  cases hdesc : (h.arenas a).desc with
  | some i =>
      simp only [hdesc] at hcall
      refine hc.free_normal_mem ha hdesc hb hx hcall hout fun hlast => hpage ?_
      -- `y` is live, so an arena without live blocks is not that of `y`
      have hapart := hlast y hy hne
      rwa [hc.round_down hmem hblk, hround] at hapart
  | none =>
      simp only [hdesc] at hcall
      rcases Option.bind_eq_some_iff.1 hcall with ⟨p, hp, hcall⟩
      cases hcall
      have hpages : (h.arenas a).pages = (h.arenas a).free_cnt := by
        simp only [Arena.pages, hdesc]
      rw [← hpages] at hp
      refine palloc_free_multiple_mem hp (hpage ?_)
      -- an arena without a descriptor has one block
      rintro rfl
      simp only [Heap.IsBlock, hdesc] at hb hblk
      exact hne (hblk.trans hb.symm)

end HeapCore

/-! ## Room for what was asked for -/

/-- Every live block whose size did not wrap around has room for it. -/
def HeapRun.Sized (s : HeapRun) : Prop :=
  ∀ b ∈ s.live, NoWrap b.size → b.size ≤ s.heap.room (pg_round_down b.addr)

namespace HeapInvAt

variable {ram : Nat} {s : HeapRun} {as : List Nat}

/-- `malloc` does not change the room of the blocks that are there. -/
theorem served_room (hi : HeapInvAt False ram s as) {n x a : Nat} {h : Heap} {as' : List Nat}
    (hs : Served ram s.heap (s.live.map LiveBlock.addr) as s.others n h x a as') {b : LiveBlock}
    (hb : b ∈ s.live) : h.room (pg_round_down b.addr) = s.heap.room (pg_round_down b.addr) :=
  Heap.room_of_keeps (hs.keeps _ (hi.live_at hb).1) (hs.core.shape.trans hi.core.shape.symm)

/-- The block that `malloc` has handed out has room too. -/
theorem sized_serve (hi : HeapInvAt False ram s as) (hsized : s.Sized) {size n x a : Nat} {h : Heap}
    {as' : List Nat}
    (hs : Served ram s.heap (s.live.map LiveBlock.addr) as s.others n h x a as')
    (hfit : NoWrap size → size ≤ n ∧ NoWrap n) :
    HeapRun.Sized ⟨h, gain x size s.live, s.others⟩ := by
  intro b hb hwrap
  have hgain : gain x size s.live = ⟨x, size⟩ :: s.live :=
    if_neg (hs.core.block_ne_null hs.mem hs.block)
  simp only [hgain] at hb
  rcases List.mem_cons.1 hb with rfl | hb
  · rcases hfit hwrap with ⟨hle, hn⟩
    simp only [hs.core.round_down hs.mem hs.block]
    exact hle.trans (hs.room_ge hn)
  · simp only [hi.served_room hs hb]
    exact hsized b hb hwrap

theorem sized_freed (hi : HeapInvAt False ram s as) (hsized : s.Sized) {x : Nat} {h : Heap}
    {as' : List Nat}
    (hf : Freed ram s.heap (s.live.map LiveBlock.addr) as s.others x h as') :
    HeapRun.Sized ⟨h, lose x s.live, s.others⟩ := by
  intro b hb hwrap
  have hold := mem_of_mem_lose hb
  rcases (hi.freed hf).live_at hb with ⟨hmem, _⟩
  have hroom : h.room (pg_round_down b.addr) = s.heap.room (pg_round_down b.addr) :=
    Heap.room_of_keeps (hf.keeps _ hmem).2 (hf.core.shape.trans hi.core.shape.symm)
  simp only [hroom]
  exact hsized b hold hwrap

theorem sized_free (hi : HeapInvAt False ram s as) (hsized : s.Sized) {x : Nat} (hown : s.Owned x)
    {h : Heap} (hcall : free s.heap x = some h) :
    HeapRun.Sized ⟨h, lose x s.live, s.others⟩ := by
  by_cases hx : ∃ b ∈ s.live, b.addr = x
  · rcases hx with ⟨b, hb, rfl⟩
    rcases hi.core.free_spec (List.mem_map_of_mem hb) with ⟨h', as', hcall', hfreed⟩
    rw [hcall', Option.some.injEq] at hcall
    subst hcall
    exact hi.sized_freed hsized hfreed
  · have hnull : x = NULL := hown.resolve_right hx
    subst hnull
    rw [free, if_neg (not_not.2 rfl)] at hcall
    cases hcall
    rw [lose_of_not_mem hi.addr_ne_null]
    exact hsized

theorem sized_realloc (hi : HeapInvAt False ram s as) (hsized : s.Sized) {x size : Nat}
    (hown : s.Owned x) {h : Heap} {y : Nat} (hcall : realloc s.heap x size = some (h, y)) :
    HeapRun.Sized ⟨h, regain x size y s.live, s.others⟩ := by
  by_cases hsize : size = 0
  · rw [realloc, if_pos hsize] at hcall
    rcases Option.bind_eq_some_iff.1 hcall with ⟨h', hfree, hcall⟩
    cases hcall
    rw [regain, if_pos hsize]
    exact hi.sized_free hsized hown hfree
  · rw [realloc_eq s.heap x hsize] at hcall
    rw [regain, if_neg hsize]
    rcases hi.core.malloc_spec size with ⟨_, hmalloc⟩ | ⟨_, h₁, z, a, as', hmalloc, hserved⟩
    · rw [hmalloc, Option.bind_some, if_neg fun hc => hc.2 rfl] at hcall
      cases hcall
      rw [if_pos rfl]
      exact hsized
    · have hz := hserved.core.block_ne_null hserved.mem hserved.block
      have hne := hserved.ne_of_owned hown
      have hserve : HeapInvAt False ram ⟨h₁, gain z size s.live, s.others⟩ as' :=
        hi.serve hserved False.elim
      have hroom := hi.sized_serve hsized hserved fun hwrap => ⟨le_refl size, hwrap⟩
      rw [hmalloc, Option.bind_some] at hcall
      by_cases hx : x = NULL
      · rw [if_neg fun hc => hc.1 hx] at hcall
        cases hcall
        have hlose : lose x s.live = s.live := by
          rw [hx]
          exact lose_of_not_mem hi.addr_ne_null
        rw [if_neg hz, hlose]
        rwa [gain, if_neg hz] at hroom
      · rw [if_pos ⟨hx, hz⟩] at hcall
        rcases Option.bind_eq_some_iff.1 hcall with ⟨old_size, _, hcall⟩
        rcases Option.bind_eq_some_iff.1 hcall with ⟨h', hfree, hcall⟩
        cases hcall
        have hown' : HeapRun.Owned ⟨h₁, gain z size s.live, s.others⟩ x := by
          rcases hown with hnull | ⟨b, hb, haddr⟩
          · exact absurd hnull hx
          · rw [gain, if_neg hz]
            exact Or.inr ⟨b, List.mem_cons_of_mem _ hb, haddr⟩
        rw [if_neg hz, ← lose_gain hz hne]
        have hcopy := hserve.setMem (memcpy h₁.mem z x (if size < old_size then size else old_size))
        exact hcopy.sized_free hroom hown' hfree

/-- What a call does to the room of the live blocks. -/
theorem sized_step (hi : HeapInvAt False ram s as) (hsized : s.Sized) {t : HeapRun} {c : HeapCall}
    (hstep : HeapStep s c t) : t.Sized := by
  cases hstep with
  | @malloc size h x hcall =>
      rcases hi.core.malloc_spec size with ⟨_, hcall'⟩ | ⟨_, h', x', a, as', hcall', hserved⟩
      · rw [hcall', Option.some.injEq, Prod.mk.injEq] at hcall
        rcases hcall with ⟨rfl, rfl⟩
        exact hsized
      · rw [hcall', Option.some.injEq, Prod.mk.injEq] at hcall
        rcases hcall with ⟨rfl, rfl⟩
        exact hi.sized_serve hsized hserved fun hwrap => ⟨le_refl size, hwrap⟩
  | @calloc a b h x hcall =>
      rcases hi.calloc_spec (a := a) (b := b) rfl with
        ⟨_, hcall'⟩ | ⟨_, h', x', ar, as', hcall', hserved⟩
      · rw [hcall', Option.some.injEq, Prod.mk.injEq] at hcall
        rcases hcall with ⟨rfl, rfl⟩
        exact hsized
      · rw [hcall', Option.some.injEq, Prod.mk.injEq] at hcall
        rcases hcall with ⟨rfl, rfl⟩
        -- the product that the caller had in mind is the one that was asked for
        have hfit : NoWrap (a * b) → a * b ≤ size_mul a b ∧ NoWrap (size_mul a b) := by
          intro hwrap
          have heq : size_mul a b = a * b := size_mul_eq (by rw [NoWrap] at hwrap; omega)
          rw [heq]
          exact ⟨le_refl _, hwrap⟩
        have hroom := hi.sized_serve hsized hserved hfit
        exact hroom
  | realloc hown hcall => exact hi.sized_realloc hsized hown hcall
  | free hown hcall => exact hi.sized_free hsized hown hcall
  | pages _ => exact hsized
  | write => exact hsized

end HeapInvAt

/-- In every state of every run, the live blocks have room for what was asked for, if that did not
wrap around. -/
theorem heap_reachable_sized {init_ram_pages user_page_limit : Nat} {ok : HeapCall → Prop}
    (hlo : 256 ≤ init_ram_pages) (hhi : init_ram_pages < 2 ^ 18) {s : HeapRun}
    (hs : (heapSystem init_ram_pages user_page_limit ok).Reachable s) :
    (∃ as, HeapInvAt False (ram_end init_ram_pages) s as) ∧ s.Sized := by
  refine System.Reachable.invariant (I := fun s =>
    (∃ as, HeapInvAt False (ram_end init_ram_pages) s as) ∧ s.Sized) ?_ ?_ hs
  · intro s hinit
    refine ⟨HeapInv.init hlo hhi hinit, fun b hb => ?_⟩
    rw [hinit.1] at hb
    cases hb
  · rintro s c t ⟨hinv, hsized⟩ hstep
    have hinv' : HeapInv False (ram_end init_ram_pages) t :=
      HeapInv.step hinv False.elim hstep.2
    rcases hinv with ⟨as, hi⟩
    exact ⟨hinv', hi.sized_step hsized hstep.2⟩

/-! ## What `realloc` does with a live block -/

/-- Arena headers and free blocks, which hold the list elements, lie outside of the bytes of `b`. -/
structure HeapRun.Apart (s : HeapRun) (b : LiveBlock) : Prop where
  headers : ∀ a, s.IsArena a → Extent.Disjoint ⟨a, sizeof_arena⟩ (s.region b)
  free_blocks : ∀ d ∈ s.heap.descs, ∀ x ∈ d.free_list,
    Extent.Disjoint ⟨x, d.block_size⟩ (s.region b)

/-- `realloc` has moved the live block `b` to `y`, where `n` bytes were asked for.  In `h₁` both
blocks are there, with room for `old` and `new` bytes. -/
structure Moved (s : HeapRun) (b : LiveBlock) (n : Nat) (h₁ : Heap) (old new : Nat) (h : Heap)
    (y : Nat) : Prop where
  got : malloc s.heap n = some (h₁, y)
  old_size : block_size h₁ b.addr = some old
  new_size : block_size h₁ y = some new
  apart : Extent.Disjoint ⟨b.addr, old⟩ ⟨y, new⟩
  within : min n old ≤ old ∧ min n old ≤ new
  freed : free (h₁.setMem (memcpy h₁.mem y b.addr (min n old))) b.addr = some h
  room : ∃ r, block_size h y = some r ∧ n ≤ r
  copied : ∀ k, k < min b.size n → h.mem (y + k) = s.heap.mem (b.addr + k)
  kept : ∀ c ∈ s.live, c.addr ≠ b.addr → ∀ q ∈ s.region c, h.mem q = s.heap.mem q
  gone : ∀ c ∈ regain b.addr n y s.live, c.addr ≠ b.addr

namespace HeapInvAt

variable {ram : Nat} {s : HeapRun} {as : List Nat}

theorem region_eq (hi : HeapInvAt False ram s as) {b : LiveBlock} (hb : b ∈ s.live) :
    s.region b = ⟨b.addr, s.heap.room (pg_round_down b.addr)⟩ := by
  rcases hi.live_at hb with ⟨ha, hblk⟩
  rw [HeapRun.region, hi.core.block_size_eq ha hblk, Option.getD_some]

theorem block_apart (hi : HeapInvAt False ram s as) {b : LiveBlock} (hb : b ∈ s.live) :
    s.Apart b := by
  rcases hi.live_at hb with ⟨ha, hblk⟩
  constructor
  · rintro a ⟨c, hc, rfl⟩
    rcases hi.live_at hc with ⟨hmem, hblk'⟩
    rw [hi.region_eq hb]
    by_cases hsame : pg_round_down c.addr = pg_round_down b.addr
    · rw [hsame]
      exact Extent.disjoint_of_le (hi.core.block_inside ha hblk).1
    · -- the header is in the arena, and the arenas are apart
      refine (hi.core.arenas_disjoint hmem ha hsame).mono ?_ (hi.core.block_bytes ha hblk)
      intro q hq
      have hin := hi.core.block_inside hmem hblk'
      rw [Extent.mem_def] at hq ⊢
      simp only [Heap.arenaGroup, Group.bytes] at hq ⊢
      omega
  · intro d hd x hx
    rcases List.getElem?_of_mem hd with ⟨i, hdi⟩
    rcases (hi.core.mem_free i d hdi x).1 hx with ⟨a, hmem, hdesc, hblk', hnot⟩
    rw [hi.region_eq hb, ← hi.core.room_small hdesc hdi]
    refine hi.core.blocks_disjoint hmem ha hblk' hblk ?_
    rintro rfl
    exact hnot (List.mem_map_of_mem hb)

theorem not_mem_lose (hi : HeapInvAt False ram s as) {x : Nat} {c : LiveBlock}
    (hc : c ∈ lose x s.live) : c.addr ≠ x := by
  have hmem : c.addr ∈ (s.live.map LiveBlock.addr).erase x := by
    rw [← lose_addr]
    exact List.mem_map_of_mem hc
  exact (hi.core.live_nodup.mem_erase_iff.1 hmem).1

/-- A request that cannot be served changes nothing. -/
theorem realloc_null {n x : Nat} (hn : n ≠ 0) (hcall : malloc s.heap n = some (s.heap, NULL)) :
    realloc s.heap x n = some (s.heap, NULL) := by
  rw [realloc_eq s.heap x hn, hcall, Option.bind_some, if_neg fun hc => hc.2 rfl]

theorem realloc_moved (hi : HeapInvAt False ram s as) (hsized : s.Sized) {b : LiveBlock}
    (hb : b ∈ s.live) (hm : NoWrap b.size) {n : Nat} (hn : n ≠ 0) (hwrap : NoWrap n) {h₁ : Heap}
    {y a : Nat} {as₁ : List Nat} (hcall : malloc s.heap n = some (h₁, y))
    (hs : Served ram s.heap (s.live.map LiveBlock.addr) as s.others n h₁ y a as₁) :
    ∃ h old new, realloc s.heap b.addr n = some (h, y) ∧ Moved s b n h₁ old new h y := by
  have hy := hs.core.block_ne_null hs.mem hs.block
  have hbnull := hi.addr_ne_null b hb
  have hne : y ≠ b.addr := hs.ne_of_owned (Or.inr ⟨b, hb, rfl⟩)
  have hgain : gain y n s.live = ⟨y, n⟩ :: s.live := if_neg hy
  have hround := hs.core.round_down hs.mem hs.block
  have hserve : HeapInvAt False ram ⟨h₁, gain y n s.live, s.others⟩ as₁ :=
    hi.serve hs False.elim
  have hroom₁ := hi.sized_serve hsized hs fun hw => ⟨le_refl n, hw⟩
  have hb₁ : b ∈ gain y n s.live := by
    rw [hgain]
    exact List.mem_cons_of_mem _ hb
  rcases hserve.live_at hb₁ with ⟨hab, hblk⟩
  set old := h₁.room (pg_round_down b.addr) with hold
  set new := h₁.room a with hnew
  have hold_size : block_size h₁ b.addr = some old := hs.core.block_size_eq hab hblk
  have hnew_size : block_size h₁ y = some new := hs.core.block_size_eq hs.mem hs.block
  have hle_old : b.size ≤ old := hroom₁ b hb₁ hm
  have hle_new : n ≤ new := hs.room_ge hwrap
  have hmin : (if n < old then n else old) = min n old := by
    rw [min_def]
    split <;> split <;> omega
  -- the state in which the old block is freed
  have hcopy := hserve.setMem (memcpy h₁.mem y b.addr (min n old))
  have hroom₂ : HeapRun.Sized ⟨h₁.setMem (memcpy h₁.mem y b.addr (min n old)), gain y n s.live,
      s.others⟩ := hroom₁
  rcases hcopy.core.free_spec (List.mem_map_of_mem hb₁) with ⟨h, as₂, hfree, hfreed⟩
  have hinv := hcopy.freed hfreed
  have hroom := hcopy.sized_freed hroom₂ hfreed
  have hlose : lose b.addr (gain y n s.live) = ⟨y, n⟩ :: lose b.addr s.live := lose_gain hy hne
  have hframe : ∀ c ∈ gain y n s.live, c.addr ≠ b.addr → ∀ q ∈
      (⟨c.addr, h₁.room (pg_round_down c.addr)⟩ : Extent),
      h.mem q = memcpy h₁.mem y b.addr (min n old) q := fun c hc hcb q hq =>
    hcopy.core.free_mem (List.mem_map_of_mem hb₁) (List.mem_map_of_mem hc) hcb hfree hq
  refine ⟨h, old, new, ?_, hcall, hold_size, hnew_size, ?_, ?_, hfree, ?_, ?_, ?_, ?_⟩
  · rw [realloc_eq s.heap b.addr hn, hcall, Option.bind_some, if_pos ⟨hbnull, hy⟩, hold_size,
      Option.bind_some, hmin, hfree, Option.bind_some]
  · exact hs.core.blocks_disjoint hab hs.mem hblk hs.block hne.symm
  · exact ⟨Nat.min_le_right n old, (Nat.min_le_left n old).trans hle_new⟩
  · have hmem : (⟨y, n⟩ : LiveBlock) ∈ lose b.addr (gain y n s.live) := by
      rw [hlose]
      exact List.mem_cons_self
    rcases hinv.live_at hmem with ⟨hay, hblky⟩
    exact ⟨_, hinv.core.block_size_eq hay hblky, hroom _ hmem hwrap⟩
  · intro k hk
    have hky : y + k ∈ (⟨y, h₁.room (pg_round_down y)⟩ : Extent) := by
      rw [hround, Extent.mem_def]
      simp only
      omega
    have hmem : (⟨y, n⟩ : LiveBlock) ∈ gain y n s.live := by
      rw [hgain]
      exact List.mem_cons_self
    calc
      h.mem (y + k) = memcpy h₁.mem y b.addr (min n old) (y + k) := hframe _ hmem hne _ hky
      _ = h₁.mem (b.addr + k) := memcpy_of_mem (by omega)
      _ = s.heap.mem (b.addr + k) := by rw [malloc_mem hcall]
  · intro c hc hcb q hq
    have hc₁ : c ∈ gain y n s.live := by
      rw [hgain]
      exact List.mem_cons_of_mem _ hc
    rcases hserve.live_at hc₁ with ⟨hac, hblkc⟩
    have hcy : c.addr ≠ y := (hs.ne_of_owned (Or.inr ⟨c, hc, rfl⟩)).symm
    rw [hi.region_eq hc, ← hi.served_room hs hc] at hq
    have hout : q ∉ (⟨y, min n old⟩ : Extent) := by
      have hdis := hs.core.blocks_disjoint hac hs.mem hblkc hs.block hcy q hq
      rw [Extent.mem_def] at hdis ⊢
      simp only at hdis ⊢
      omega
    calc
      h.mem q = memcpy h₁.mem y b.addr (min n old) q := hframe c hc₁ hcb q hq
      _ = h₁.mem q := memcpy_of_not_mem hout
      _ = s.heap.mem q := by rw [malloc_mem hcall]
  · intro c hc
    rw [regain, if_neg hn, if_neg hy] at hc
    rcases List.mem_cons.1 hc with rfl | hc
    · exact hne
    · exact hi.not_mem_lose hc

end HeapInvAt

/-- In every state of every run, `realloc` of a live block either returns a null pointer and changes
nothing, or moves the block with its contents; with size zero it frees the block.  The states after
a `calloc` or `realloc` that has wrapped around are those of this model alone. -/
theorem realloc_keeps_contents {init_ram_pages user_page_limit : Nat} (hlo : 256 ≤ init_ram_pages)
    (hhi : init_ram_pages < 2 ^ 18) {s : HeapRun}
    (hs : (heapSystem init_ram_pages user_page_limit HeapCall.Typed).Reachable s) {b : LiveBlock}
    (hb : b ∈ s.live) (hm : NoWrap b.size) :
    s.Apart b ∧
    (∀ n, 0 < n → NoWrap n → ∃ h y, realloc s.heap b.addr n = some (h, y) ∧
      (heapSystem init_ram_pages user_page_limit HeapCall.Typed).Reachable
        ⟨h, regain b.addr n y s.live, s.others⟩ ∧
      (y = NULL → h = s.heap ∧ b ∈ regain b.addr n y s.live) ∧
      (y ≠ NULL → ∃ h₁ old new, Moved s b n h₁ old new h y)) ∧
    ∃ h, free s.heap b.addr = some h ∧ realloc s.heap b.addr 0 = some (h, NULL) ∧
      (heapSystem init_ram_pages user_page_limit HeapCall.Typed).Reachable
        ⟨h, regain b.addr 0 NULL s.live, s.others⟩ ∧
      ∀ c ∈ regain b.addr 0 NULL s.live, c.addr ≠ b.addr := by
  rcases heap_reachable_sized hlo hhi hs with ⟨⟨as, hi⟩, hsized⟩
  have hown : s.Owned b.addr := Or.inr ⟨b, hb, rfl⟩
  refine ⟨hi.block_apart hb, fun n hpos hwrap => ?_, ?_⟩
  · have hn : n ≠ 0 := Nat.pos_iff_ne_zero.1 hpos
    have htyped : HeapCall.Typed (.realloc b.addr n) := by
      rw [NoWrap] at hwrap
      show n < WORD
      omega
    have hnext : ∀ h y, realloc s.heap b.addr n = some (h, y) →
        (heapSystem init_ram_pages user_page_limit HeapCall.Typed).Reachable
          ⟨h, regain b.addr n y s.live, s.others⟩ := fun h y hcall =>
      System.Reachable.step hs ⟨htyped, HeapStep.realloc hown hcall⟩
    rcases hi.core.malloc_spec n with ⟨_, hmalloc⟩ | ⟨_, h₁, y, a, as₁, hmalloc, hserved⟩
    · have hcall := HeapInvAt.realloc_null (x := b.addr) hn hmalloc
      refine ⟨s.heap, NULL, hcall, hnext _ _ hcall, fun _ => ⟨rfl, ?_⟩, fun hne => absurd rfl hne⟩
      rw [regain, if_neg hn, if_pos rfl]
      exact hb
    · rcases hi.realloc_moved hsized hb hm hn hwrap hmalloc hserved with ⟨h, old, new, hcall, hmoved⟩
      have hy := hserved.core.block_ne_null hserved.mem hserved.block
      exact ⟨h, y, hcall, hnext _ _ hcall, fun hnull => absurd hnull hy,
        fun _ => ⟨h₁, old, new, hmoved⟩⟩
  · rcases hi.core.free_spec (List.mem_map_of_mem hb) with ⟨h, _, hfree, _⟩
    have hcall : realloc s.heap b.addr 0 = some (h, NULL) := by
      rw [realloc, if_pos rfl, hfree]
      rfl
    have htyped : HeapCall.Typed (.realloc b.addr 0) := by
      show 0 < WORD
      decide
    refine ⟨h, hfree, hcall, System.Reachable.step hs ⟨htyped, HeapStep.realloc hown hcall⟩,
      fun c hc => ?_⟩
    rw [regain, if_pos rfl] at hc
    exact hi.not_mem_lose hc

/-- On a machine with four kernel pages a block of 100 bytes is moved to one of 300. -/
theorem realloc_keeps_contents_264 :
    ∃ (s : HeapRun) (b : LiveBlock),
      (heapSystem 264 (WORD - 1) HeapCall.Typed).Reachable s ∧ b ∈ s.live ∧ b.size = 100 ∧
      ∃ h y, realloc s.heap b.addr 300 = some (h, y) ∧
        ∃ h₁ old new, Moved s b 300 h₁ old new h y := by
  have hrun : ((boot_heap 264).bind fun h => (malloc h 100).bind fun r =>
      (realloc r.1 r.2 300).map fun t => decide (r.2 ≠ NULL ∧ t.2 ≠ NULL)) = some true := by
    decide +kernel
  rcases Option.bind_eq_some_iff.1 hrun with ⟨h, hboot, hcall⟩
  rcases Option.bind_eq_some_iff.1 hcall with ⟨⟨h', x⟩, hmalloc, hcall⟩
  rcases Option.map_eq_some_iff.1 hcall with ⟨⟨h'', y⟩, hrealloc, hnull⟩
  rcases of_decide_eq_true hnull with ⟨hx, hy⟩
  have hreach : (heapSystem 264 (WORD - 1) HeapCall.Typed).Reachable ⟨h', gain x 100 [], []⟩ := by
    refine System.Reachable.step (l := .malloc 100) (boot_heap_reachable _ hboot) ⟨?_, ?_⟩
    · show 100 < WORD
      decide
    · exact HeapStep.malloc hmalloc
  have hb : (⟨x, 100⟩ : LiveBlock) ∈ gain x 100 [] := by
    rw [gain, if_neg hx]
    exact List.mem_cons_self
  have hm : NoWrap 100 := by
    rw [NoWrap]
    decide
  have hn : NoWrap 300 := by
    rw [NoWrap]
    decide
  rcases (realloc_keeps_contents (by omega) (by omega) hreach hb hm).2.1 300 (by omega) hn with
    ⟨g, z, hcall', _, _, hmoved⟩
  simp only at hrealloc hcall'
  rw [hrealloc, Option.some.injEq, Prod.mk.injEq] at hcall'
  rcases hcall' with ⟨rfl, rfl⟩
  exact ⟨_, ⟨x, 100⟩, hreach, hb, rfl, _, _, hrealloc, hmoved hy⟩

end Berk162
