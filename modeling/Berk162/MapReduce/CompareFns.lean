import Berk162.Lib.CText
import Berk162.MapReduce.ByKey
import Berk162.MapReduce.Grep
import Berk162.MapReduce.VertexDegree

/-!
# CompareFns — what `qsort` is called with, `hw-map-reduce/app` and `hw-map-reduce/lib`

Besides `by_key` there is one function for each application and, for `grep`, one for the lines of a
file and one for the files.  Three of them subtract two `int`s, and the difference wraps around.
-/

namespace Berk162.MapReduce

/-! ## The functions -/

/-- `atoi`. -/
def atoi (s : Bytes) : Int := int32 (strtol s)

/-- `strcmp`, of strings without their null. -/
def strcmp : Bytes → Bytes → Int
  | [], [] => 0
  | [], b :: _ => -(b.toNat : Int)
  | a :: _, [] => a.toNat
  | a :: as, b :: bs => if a ≠ b then (a.toNat : Int) - b.toNat else strcmp as bs

def wc_compare_fn (kv1 kv2 : KeyValue) : Int :=
  let key1 := kv1.key.bytes
  let key2 := kv2.key.bytes
  let value1 := int_of_buffer kv1.value
  let value2 := int_of_buffer kv2.value
  if value1 = value2 then
    let ret := strncmp key1 key2 (if key1.length < key2.length then key1.length else key2.length)
    if ret = 0 then int32 ((key1.length : Int) - key2.length) else ret
  else int32 (value1 - value2)

def grep_line_num_compare_fn (kv1 kv2 : KeyValue) : Int :=
  let line_num1 := atoi (c_chars kv1.value.bytes)
  let line_num2 := atoi (c_chars kv2.value.bytes)
  int32 (line_num1 - line_num2)

def grep_file_name_compare_fn (kv1 kv2 : KeyValue) : Int :=
  strcmp (c_chars kv1.key.bytes) (c_chars kv2.key.bytes)

def vertex_degree_compare_fn (kv1 kv2 : KeyValue) : Int :=
  let key1 := int_of_buffer kv1.key
  let key2 := int_of_buffer kv2.key
  int32 (key1 - key2)

inductive CompareFn
  | by_key
  | wc
  | grep_line_num
  | grep_file_name
  | vertex_degree
  deriving DecidableEq

namespace CompareFn

def compare : CompareFn → KeyValue → KeyValue → Int
  | by_key => MapReduce.by_key
  | wc => wc_compare_fn
  | grep_line_num => grep_line_num_compare_fn
  | grep_file_name => grep_file_name_compare_fn
  | vertex_degree => vertex_degree_compare_fn

/-- The number that the function subtracts, if it does. -/
def number : CompareFn → KeyValue → Int
  | by_key, _ => 0
  | wc, kv => int_of_buffer kv.value
  | grep_line_num, kv => atoi (c_chars kv.value.bytes)
  | grep_file_name, _ => 0
  | vertex_degree, kv => int_of_buffer kv.key

end CompareFn

/-! ## Consistent functions -/

variable {cmp : KeyValue → KeyValue → Int} {l : List KeyValue}

theorem Consistent.tail {kv : KeyValue} (h : Consistent cmp (kv :: l)) : Consistent cmp l :=
  ⟨fun a ha b hb => h.antisymm a (List.mem_cons_of_mem _ ha) b (List.mem_cons_of_mem _ hb),
    fun a ha b hb c hc => h.trans a (List.mem_cons_of_mem _ ha) b (List.mem_cons_of_mem _ hb) c
      (List.mem_cons_of_mem _ hc)⟩

theorem Consistent.flip (h : Consistent cmp l) {a b : KeyValue} (ha : a ∈ l) (hb : b ∈ l) :
    0 ≤ cmp a b ↔ cmp b a ≤ 0 := by
  rw [← not_lt, h.antisymm a ha b hb, not_lt]

/-- One of the pairs comes before all the others. -/
theorem Consistent.exists_least (h : Consistent cmp l) (hne : l ≠ []) :
    ∃ m ∈ l, ∀ kv ∈ l, 0 ≤ cmp kv m := by
  induction l with
  | nil => exact absurd rfl hne
  | cons a l ih =>
      have ha : a ∈ a :: l := List.mem_cons_self
      have hself : cmp a a = 0 := by
        have hflip := h.flip ha ha
        omega
      by_cases hnil : l = []
      · refine ⟨a, ha, fun kv hkv => ?_⟩
        rw [hnil, List.mem_singleton] at hkv
        rw [hkv, hself]
      · obtain ⟨m, hm, hleast⟩ := ih h.tail hnil
        have hm' : m ∈ a :: l := List.mem_cons_of_mem _ hm
        rcases lt_or_ge (cmp a m) 0 with hlt | hge
        · refine ⟨a, ha, fun kv hkv => ?_⟩
          rcases List.mem_cons.1 hkv with rfl | hkv'
          · rw [hself]
          · have hmkv := (h.flip hkv hm').1 (hleast kv hkv')
            exact (h.flip hkv ha).2 (h.trans a ha m hm' kv hkv hlt.le hmkv)
        · refine ⟨m, hm', fun kv hkv => ?_⟩
          rcases List.mem_cons.1 hkv with rfl | hkv
          · exact hge
          · exact hleast kv hkv

/-! ## Differences that wrap around -/

/-- Counted on from `m`, with 2³² for 0, the numbers are less than 2³¹. -/
def InWindow (ks : List Int) : Prop := ∃ m : Int, ∀ k ∈ ks, (k - m) % 2 ^ 32 < 2 ^ 31

/-- The order in which a difference puts the numbers of a window. -/
theorem int32_sub_of_window {m x y : Int} (hx : (x - m) % 2 ^ 32 < 2 ^ 31)
    (hy : (y - m) % 2 ^ 32 < 2 ^ 31) : int32 (x - y) = (x - m) % 2 ^ 32 - (y - m) % 2 ^ 32 := by
  unfold int32
  omega

theorem window_of_int32_sub {m x : Int} (h : 0 ≤ int32 (x - m)) : (x - m) % 2 ^ 32 < 2 ^ 31 := by
  unfold int32 at h
  omega

theorem int32_range (x : Int) : -2 ^ 31 ≤ int32 x ∧ int32 x < 2 ^ 31 := by
  unfold int32
  omega

/-- A function that subtracts numbers first, and looks at something else where they are equal. -/
structure Subtracts {β : Type*} [LinearOrder β] (cmp : KeyValue → KeyValue → Int)
    (number : KeyValue → Int) (r : KeyValue → β) (l : List KeyValue) : Prop where
  range : ∀ kv ∈ l, -2 ^ 31 ≤ number kv ∧ number kv < 2 ^ 31
  differ : ∀ a ∈ l, ∀ b ∈ l, number a ≠ number b → cmp a b = int32 (number a - number b)
  same : ∀ a ∈ l, ∀ b ∈ l, number a = number b → (cmp a b < 0 ∧ r a < r b) ∨
    (cmp a b = 0 ∧ r a = r b) ∨ (0 < cmp a b ∧ r b < r a)

theorem Subtracts.consistent_iff {β : Type*} [LinearOrder β] {number : KeyValue → Int}
    {r : KeyValue → β} (h : Subtracts cmp number r l) :
    Consistent cmp l ↔ InWindow (l.map number) := by
  constructor
  · intro hcons
    by_cases hne : l = []
    · rw [hne]
      exact ⟨0, by simp⟩
    · obtain ⟨m, hm, hleast⟩ := hcons.exists_least hne
      refine ⟨number m, fun k hk => ?_⟩
      obtain ⟨kv, hkv, rfl⟩ := List.mem_map.1 hk
      by_cases heq : number kv = number m
      · rw [heq, Int.sub_self]
        decide
      · have hge := hleast kv hkv
        rw [h.differ kv hkv m hm heq] at hge
        exact window_of_int32_sub hge
  · rintro ⟨m, hwin⟩
    have hwin (kv : KeyValue) (hkv : kv ∈ l) : (number kv - m) % 2 ^ 32 < 2 ^ 31 :=
      hwin _ (List.mem_map_of_mem hkv)
    refine consistent_of_rank (fun kv => toLex ((number kv - m) % 2 ^ 32, r kv))
      fun a ha b hb => ?_
    simp only [Prod.Lex.toLex_lt_toLex, toLex_inj, Prod.mk.injEq]
    by_cases heq : number a = number b
    · rw [heq]
      simpa using h.same a ha b hb heq
    · have hra := h.range a ha
      have hrb := h.range b hb
      rw [h.differ a ha b hb heq, int32_sub_of_window (hwin a ha) (hwin b hb)]
      rcases lt_trichotomy ((number a - m) % 2 ^ 32) ((number b - m) % 2 ^ 32) with hlt | hz | hgt
      · exact Or.inl ⟨by omega, Or.inl hlt⟩
      · omega
      · exact Or.inr (Or.inr ⟨by omega, Or.inl hgt⟩)

/-! ## The functions of the applications -/

/-- `strcmp` orders strings as lists of their characters. -/
theorem strcmp_sign {as bs : Bytes} (ha : 0 ∉ as) (hb : 0 ∉ bs) :
    (strcmp as bs < 0 ∧ as.map UInt8.toNat < bs.map UInt8.toNat) ∨
      (strcmp as bs = 0 ∧ as.map UInt8.toNat = bs.map UInt8.toNat) ∨
        (0 < strcmp as bs ∧ bs.map UInt8.toNat < as.map UInt8.toNat) := by
  have hpos {c : UInt8} (hc : c ≠ 0) : 0 < c.toNat :=
    Nat.pos_of_ne_zero fun h => hc (UInt8.toNat_inj.1 h)
  induction as generalizing bs with
  | nil =>
      cases bs with
      | nil => exact Or.inr (Or.inl ⟨rfl, rfl⟩)
      | cons b bs =>
          have hb := hpos fun h => hb (h ▸ List.mem_cons_self)
          exact Or.inl ⟨by rw [strcmp]; omega, List.nil_lt_cons _ _⟩
  | cons a as ih =>
      cases bs with
      | nil =>
          have ha := hpos fun h => ha (h ▸ List.mem_cons_self)
          exact Or.inr (Or.inr ⟨by rw [strcmp]; omega, List.nil_lt_cons _ _⟩)
      | cons b bs =>
          rw [strcmp, List.map_cons, List.map_cons]
          by_cases hab : a = b
          · rw [if_neg (not_not.2 hab), hab]
            have ih := ih (fun h => ha (List.mem_cons_of_mem _ h))
              fun h => hb (List.mem_cons_of_mem _ h)
            simpa [List.cons_lt_cons_iff] using ih
          · have hne : a.toNat ≠ b.toNat := fun h => hab (UInt8.toNat_inj.1 h)
            rw [if_pos hab]
            rcases Nat.lt_or_gt_of_ne hne with hlt | hgt
            · exact Or.inl ⟨by omega, List.cons_lt_cons_iff.2 (Or.inl hlt)⟩
            · exact Or.inr (Or.inr ⟨by omega, List.cons_lt_cons_iff.2 (Or.inl hgt)⟩)

theorem subtracts_by_key (h : ∀ kv ∈ l, kv.Short) :
    Subtracts by_key (CompareFn.number .by_key) (fun kv => rank kv.key) l where
  range _ _ := by
    change (-2 ^ 31 : Int) ≤ 0 ∧ (0 : Int) < 2 ^ 31
    decide
  differ _ _ _ _ hne := absurd rfl hne
  same a ha b hb _ := by_key_sign (h a ha) (h b hb)

theorem subtracts_wc (h : ∀ kv ∈ l, kv.Short) :
    Subtracts wc_compare_fn (CompareFn.number .wc) (fun kv => rank kv.key) l where
  range kv _ := int32_range (le_val (kv.value.bytes.take 4))
  differ a _ b _ hne := by
    have hne : int_of_buffer a.value ≠ int_of_buffer b.value := hne
    rw [wc_compare_fn, if_neg hne, CompareFn.number, CompareFn.number]
  same a ha b hb heq := by
    have heq : int_of_buffer a.value = int_of_buffer b.value := heq
    have hkey : wc_compare_fn a b = by_key a b := by rw [wc_compare_fn, if_pos heq, by_key]
    rw [hkey]
    exact by_key_sign (h a ha) (h b hb)

/-- A difference and nothing else: numbers that are equal leave nothing to look at. -/
theorem subtracts_number {number : KeyValue → Int}
    (hrange : ∀ kv, -2 ^ 31 ≤ number kv ∧ number kv < 2 ^ 31) (l : List KeyValue) :
    Subtracts (fun a b => int32 (number a - number b)) number (fun _ => ()) l where
  range kv _ := hrange kv
  differ _ _ _ _ _ := rfl
  same a _ b _ heq := by
    rw [heq, Int.sub_self]
    exact Or.inr (Or.inl ⟨rfl, rfl⟩)

theorem subtracts_file_name (l : List KeyValue) :
    Subtracts grep_file_name_compare_fn (CompareFn.number .grep_file_name)
      (fun kv => codes kv.key.bytes) l where
  range _ _ := by
    change (-2 ^ 31 : Int) ≤ 0 ∧ (0 : Int) < 2 ^ 31
    decide
  differ _ _ _ _ hne := absurd rfl hne
  same a _ b _ _ := strcmp_sign (no_null_c_chars a.key.bytes) (no_null_c_chars b.key.bytes)

/-- `qsort` can rely on a function just where no difference of the numbers that it subtracts wraps
around; two of the functions subtract none. -/
theorem compare_consistent_iff (f : CompareFn) {l : List KeyValue} (h : ∀ kv ∈ l, kv.Short) :
    Consistent f.compare l ↔ InWindow (l.map f.number) := by
  cases f with
  | by_key => exact (subtracts_by_key h).consistent_iff
  | wc => exact (subtracts_wc h).consistent_iff
  | grep_line_num => exact (subtracts_number (fun _ => int32_range _) l).consistent_iff
  | grep_file_name => exact (subtracts_file_name l).consistent_iff
  | vertex_degree => exact (subtracts_number (fun _ => int32_range _) l).consistent_iff

/-- The edge from 1 to 2: its ends are ordered. -/
theorem compare_consistent_iff_text :
    Consistent (CompareFn.compare .vertex_degree)
        [⟨int_buffer 1, int_buffer 1⟩, ⟨int_buffer 2, int_buffer 1⟩] ↔
      InWindow ([⟨int_buffer 1, int_buffer 1⟩, ⟨int_buffer 2, int_buffer 1⟩].map
        (CompareFn.number .vertex_degree)) :=
  compare_consistent_iff .vertex_degree (by
    intro kv hkv
    simp only [List.mem_cons, List.not_mem_nil, or_false] at hkv
    rcases hkv with rfl | rfl
    · exact (length_int_buffer 1).trans_lt (by decide)
    · exact (length_int_buffer 2).trans_lt (by decide))

/-- The edge from 0 to -2147483648: each of its ends comes before the other. -/
def far_edge : KeyValue :=
  ⟨⟨[], by decide⟩, ⟨text "0 -2147483648", by decide⟩⟩

theorem far_edge_pairs : vertex_degree_map far_edge ⟨[], by decide⟩ =
    [⟨int_buffer 0, int_buffer 1⟩, ⟨int_buffer (-2147483648), int_buffer 1⟩] := by
  have hpair : get_pair (text "0 -2147483648") = some ((0, -2147483648), []) := by decide
  have hend : get_pair [] = none := by decide
  have hpairs : get_pairs (text "0 -2147483648") = [(0, -2147483648)] := by
    rw [get_pairs_of_some hpair, get_pairs_of_none hend]
  have hchars : c_chars far_edge.value.bytes = text "0 -2147483648" := by decide
  rw [vertex_degree_map, hchars, hpairs]
  rfl

theorem vertex_degree_compare_inconsistent :
    ¬ Consistent vertex_degree_compare_fn ((vertex_degree_map far_edge ⟨[], by decide⟩).map
      fun kv => vertex_degree_reduce kv.key [kv] ⟨[], by decide⟩) := by
  rw [far_edge_pairs]
  intro h
  have hneg := h.antisymm (vertex_degree_reduce (int_buffer 0) [⟨int_buffer 0, int_buffer 1⟩] _)
    (List.mem_map_of_mem List.mem_cons_self)
    (vertex_degree_reduce (int_buffer (-2147483648)) [⟨int_buffer (-2147483648), int_buffer 1⟩] _)
    (List.mem_map_of_mem (List.mem_cons_of_mem _ List.mem_cons_self))
  have hlt : int32 (int_of_buffer (int_buffer 0) -
      int_of_buffer (int_buffer (-2147483648))) < 0 := by decide
  have hgt : ¬ 0 < int32 (int_of_buffer (int_buffer (-2147483648)) -
      int_of_buffer (int_buffer 0)) := by decide
  exact hgt (hneg.1 hlt)

end Berk162.MapReduce
