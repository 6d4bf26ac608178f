import Berk162.LibC.UstarHeader

/-!
# UstarFields — the members of a ustar header

What `snprintf` writes into a member is read back by `parse_octal_field`, members that do not
overlap do not see each other's stores, and the checksum is a sum that leaves its own field out.
-/

namespace Berk162

namespace UstarHeader

variable {floats : FloatConversions} {memory : BitVec 32 → UInt8} {h : UstarHeader}
  {f : UstarField}

theorem snprintf_eq {format out : Bytes} {args : VaList} (hsize : f.size < 2 ^ 31)
    (hpos : f.size > 0) (hout : printed floats memory format.length format args = .ok out)
    (hlen : out.length < 2 ^ 31) :
    h.snprintf floats memory f format args = some (h.set f (out.take (f.size - 1) ++ [0])) := by
  rw [snprintf, vsnprintf_short hsize hout hlen, if_pos hpos]
  have hstores : h.stores f ((out.take (f.size - 1) ++ [0]).zipIdx) =
      h.set f (out.take (f.size - 1) ++ [0]) := foldl_update_zipIdx h f.ofs 0 _
  rw [← hstores]

end UstarHeader

/-! ## Octal numbers -/

/-- The number that octal digits stand for, behind the number `value`. -/
def octal_val (value : Nat) (ds : Bytes) : Nat := ds.foldl (fun v c => c.toNat - 48 + v * 8) value

theorem le_octal_val (value : Nat) (ds : Bytes) : value ≤ octal_val value ds := by
  induction ds generalizing value with
  | nil =>
      exact Nat.le_refl _
  | cons c ds ih =>
      have hrest := ih (c.toNat - 48 + value * 8)
      rw [octal_val, List.foldl_cons]
      rw [octal_val] at hrest
      omega

/-- The digits of a number that fits are read. -/
theorem parse_octal_digits {ds : Bytes} (hds : ∀ c ∈ ds, 48 ≤ c ∧ c ≤ 55) (s : Bytes)
    (ofs value : Nat) (h : octal_val value ds ≤ ULONG_MAX) :
    parse_octal_from ofs value (ds ++ s) =
      parse_octal_from (ofs + ds.length) (octal_val value ds) s := by
  induction ds generalizing ofs value with
  | nil =>
      rfl
  | cons c ds ih =>
      have hle := le_octal_val (c.toNat - 48 + value * 8) ds
      have hval : octal_val value (c :: ds) = octal_val (c.toNat - 48 + value * 8) ds := rfl
      have hfits : ¬ value > ULONG_MAX / 8 := by
        rw [hval] at h
        simp only [ULONG_MAX] at h ⊢
        omega
      rw [List.cons_append, parse_octal_from, if_pos (hds c List.mem_cons_self), if_neg hfits,
        ih (fun d hd => hds d (List.mem_cons_of_mem c hd)) _ _ (hval ▸ h), hval, List.length_cons,
        Nat.add_assoc, Nat.add_comm 1]

theorem octal_val_zeros (n : Nat) (ds : Bytes) :
    octal_val 0 (List.replicate n 48 ++ ds) = octal_val 0 ds := by
  induction n with
  | zero =>
      rfl
  | succ n ih =>
      exact ih

theorem octal_digit {d : Nat} (h : d < 8) : 48 ≤ base_o.digits.getD d 0 ∧
    base_o.digits.getD d 0 ≤ 55 ∧ (base_o.digits.getD d 0).toNat - 48 = d := by
  decide +revert

theorem octal_of_mem {n : Nat} {c : UInt8} (h : c ∈ base_o.digits_of n) : 48 ≤ c ∧ c ≤ 55 := by
  obtain ⟨d, hd, rfl⟩ := List.mem_map.1 h
  have hlt : d < 8 := Nat.digits_lt_base (by decide) hd
  exact ⟨(octal_digit hlt).1, (octal_digit hlt).2.1⟩

theorem octal_val_digits_of (n : Nat) : octal_val 0 (base_o.digits_of n).reverse = n := by
  have hdigits : ∀ d ∈ Nat.digits 8 n, d < 8 := fun d hd => Nat.digits_lt_base (by decide) hd
  rw [octal_val, List.foldl_reverse, IntegerBase.digits_of, List.foldr_map]
  calc
    _ = (Nat.digits 8 n).foldr (fun d v => d + 8 * v) 0 := by
      refine List.foldr_ext _ _ 0 fun d hd v => ?_
      have hval : (base_o.digits.getD d 0).toNat - 48 = d := (octal_digit (hdigits d hd)).2.2
      rw [hval, Nat.mul_comm]
    _ = Nat.ofDigits 8 (Nat.digits 8 n) := by
      rw [Nat.ofDigits_eq_foldr]
      rfl
    _ = n := Nat.ofDigits_digits 8 n

/-- `%0<width>o` -/
def octal_spec (width : Bytes) (hw : ∀ ch ∈ width, isdigit ch = true)
    (hfirst : width.head? ≠ some '0'.toUInt8) : IntegerSpec where
  flags := ['0'.toUInt8]
  width := .digits width hw
  precision := none
  type := .INT
  conversion := .o
  flags_only := List.all_eq_true.1 (by decide)
  width_first := hfirst

section

variable {width : Bytes} {hw : ∀ ch ∈ width, isdigit ch = true}
  {hfirst : width.head? ≠ some '0'.toUInt8} {args : VaList}

theorem rendering_octal (args : VaList) : ∃ ds : Bytes,
    (octal_spec width hw hfirst).rendering args =
      List.replicate (digits_val 0 width - ds.length) 48 ++ ds ∧ ds ≠ [] ∧
      (∀ c ∈ ds, 48 ≤ c ∧ c ≤ 55) ∧ octal_val 0 ds = (args 0).toNat ∧
      ∀ k, 0 < k → (args 0).toNat < 8 ^ k → ds.length ≤ k := by
  set s := octal_spec width hw hfirst with hs
  have hvalue : s.value args = (args 0).toNat := by
    have hword : s.value args = (((args 1 ++ args 0).setWidth 32).toNat : Int) := rfl
    rw [hword, low_word args (Nat.le_refl 32), BitVec.setWidth_eq]
  -- 0 has no digits, and the precision, which is 1, gives it one
  have hdigits : s.digits args = List.replicate (1 - (base_o.digits_of (args 0).toNat).length) 48 ++
      (base_o.digits_of (args 0).toNat).reverse := by
    have hnat : (s.value args).natAbs = (args 0).toNat := by rw [hvalue, Int.natAbs_natCast]
    have hlow : s.low_digits args = base_o.digits_of (s.value args).natAbs ++
        List.replicate (1 - (base_o.digits_of (s.value args).natAbs).length) 48 := rfl
    rw [IntegerSpec.digits, hlow, hnat, List.reverse_append, List.reverse_replicate]
  have hwidth : s.width_value args = (digits_val 0 width : Nat) := rfl
  have hhead : s.head args = [] := rfl
  have hleft : s.left args = false := by
    have hflag : s.flag '-' = false := rfl
    have hpos : ¬ s.width_value args < 0 := by
      rw [hwidth]
      omega
    rw [IntegerSpec.left, hflag, decide_eq_false hpos]
    rfl
  have hzero : s.zero args = true := rfl
  refine ⟨s.digits args, ?_, IntegerSpec.digits_ne_nil rfl, ?_, ?_, ?_⟩
  · rw [IntegerSpec.rendering, hleft, hzero, hwidth, IntegerSpec.body, hhead, Int.natAbs_natCast,
      List.nil_append, List.nil_append]
    rfl
  · intro c hc
    rw [hdigits, List.mem_append, List.mem_reverse] at hc
    rcases hc with hc | hc
    · rw [List.eq_of_mem_replicate hc]
      decide
    · exact octal_of_mem hc
  · rw [hdigits, octal_val_zeros, octal_val_digits_of]
  · intro k hk hlt
    have hlen : (base_o.digits_of (args 0).toNat).length ≤ k := by
      rw [IntegerBase.digits_of, List.length_map]
      exact (Nat.digits_length_le_iff (b := 8) (by decide) _).2 hlt
    rw [hdigits, List.length_append, List.length_replicate, List.length_reverse]
    omega

/-- A member that `snprintf` writes is as wide as it can be, and is read back. -/
theorem snprintf_octal {floats : FloatConversions} {memory : BitVec 32 → UInt8} (h : UstarHeader)
    {f : UstarField} (hsize : f.size = digits_val 0 width + 1) (hsmall : f.size < 2 ^ 31)
    (hpos : 0 < digits_val 0 width) (hval : (args 0).toNat < 8 ^ digits_val 0 width) :
    ∃ bytes, h.snprintf floats memory f ((octal_spec width hw hfirst).chars ++ [0]) args =
        some (h.set f bytes) ∧ bytes.length = f.size ∧
      parse_octal_field bytes = some (args 0).toNat := by
  set s := octal_spec width hw hfirst with hs
  rcases @rendering_octal width hw hfirst args with ⟨ds, hrender, hne, hoctal, hds, hlen⟩
  have hle := hlen _ hpos hval
  have hout : (s.rendering args).length = digits_val 0 width := by
    rw [hrender, List.length_append, List.length_replicate]
    omega
  have hwidth : s.width_value args = (digits_val 0 width : Nat) := rfl
  have hrenders : s.Renders args := by
    have hb : s.Buffered args := ⟨fun p hp => (Option.not_mem_none p hp).elim, fun _ => rfl⟩
    apply (IntegerSpec.renders_iff hb).2
    rw [IntegerSpec.OneSided, IntegerSpec.BothFlags, hwidth]
    omega
  have hprinted : printed floats memory (s.chars ++ [0]).length (s.chars ++ [0]) args =
      .ok (s.rendering args) := by
    have hfuel : (s.chars ++ [0]).length = (s.chars.length - 1 + 1) + 1 := by
      have hchars : s.chars.length = _ := rfl
      rw [List.length_append, List.length_singleton, Nat.sub_add_cancel]
      rw [IntegerSpec.chars, List.length_cons]
      omega
    rw [printed, hfuel, hrenders, vprintf_nil, output_all_collect, List.nil_append]
  have hall : ∀ c ∈ s.rendering args, 48 ≤ c ∧ c ≤ 55 := by
    intro c hc
    rw [hrender, List.mem_append] at hc
    rcases hc with hc | hc
    · rw [List.eq_of_mem_replicate hc]
      decide
    · exact hoctal c hc
  have hvalue : octal_val 0 (s.rendering args) = (args 0).toNat := by
    rw [hrender, octal_val_zeros, hds]
  have hmax : octal_val 0 (s.rendering args) ≤ ULONG_MAX := by
    have hlt := (args 0).isLt
    rw [hvalue, ULONG_MAX]
    omega
  have htake : (s.rendering args).take (f.size - 1) = s.rendering args :=
    List.take_of_length_le (by omega)
  refine ⟨s.rendering args ++ [0], ?_, ?_, ?_⟩
  · rw [UstarHeader.snprintf_eq hsmall (by omega) hprinted (by omega), htake]
  · rw [List.length_append, List.length_singleton, hout, hsize]
  · have hsome : 0 + (s.rendering args).length > 0 := by omega
    rw [parse_octal_field, parse_octal_digits hall _ _ _ hmax, hvalue, parse_octal_from,
      if_neg (by decide), if_pos (Or.inr rfl), if_pos hsome]

end

/-! ## Members -/

/-- Members that do not overlap. -/
def UstarField.Apart (f g : UstarField) : Prop := f.ofs + f.size ≤ g.ofs ∨ g.ofs + g.size ≤ f.ofs

instance (f g : UstarField) : Decidable (f.Apart g) := inferInstanceAs (Decidable (_ ∨ _))

theorem length_strlcpy (dst src : Bytes) : (strlcpy dst src).length = dst.length := by
  simp only [strlcpy, List.length_take, List.length_append, List.length_cons, List.length_drop]
  omega

/-- A string that fits is copied with its null, and what is behind stays. -/
theorem strlcpy_eq {dst src : Bytes} (h : src.length < dst.length) :
    strlcpy dst src = src ++ 0 :: dst.drop (src.length + 1) := by
  have hmin : min src.length (dst.length - 1) = src.length := by omega
  rw [strlcpy, hmin, List.take_length, List.take_of_length_le]
  rw [List.length_append, List.length_cons, List.length_drop]
  omega

namespace UstarHeader

variable {h h' : UstarHeader} {f g : UstarField} {bytes src : Bytes}

theorem length_get : (h.get f).length = f.size := length_window

theorem get_set_self (hlen : bytes.length = f.size) : (h.set f bytes).get f = bytes := by
  rw [get, ← hlen]
  exact window_overlay_self

theorem get_set_of_apart (hlen : bytes.length = f.size) (hap : g.Apart f) :
    (h.set f bytes).get g = h.get g :=
  window_overlay_of_disjoint (by rw [hlen]; exact hap)

theorem get_strlcpy_self : (h.strlcpy f src).get f = Berk162.strlcpy (h.get f) src :=
  get_set_self ((length_strlcpy _ _).trans length_get)

theorem get_strlcpy_of_apart (hap : g.Apart f) : (h.strlcpy f src).get g = h.get g :=
  get_set_of_apart ((length_strlcpy _ _).trans length_get) hap

theorem get_zeros : get (fun _ => 0) f = List.replicate f.size 0 := by
  rw [get, window, List.map_const', List.length_range]

theorem apply_of_get {i : Nat} (hi : i < f.size) : h (f.ofs + i) = (h.get f).getD i 0 :=
  (getD_window hi 0).symm

end UstarHeader

/-! ## The checksum -/

/-- The loop adds up the bytes. -/
theorem calculate_chksum_eq (h : UstarHeader) :
    calculate_chksum h = ∑ i ∈ Finset.range USTAR_HEADER_SIZE, h.chksum_at i := by
  have hbyte : ∀ i, h.chksum_at i ≤ 255 := by
    intro i
    have hlt := (h i).toNat_lt
    rw [UstarHeader.chksum_at]
    split <;> omega
  have hsum : ∀ n ≤ USTAR_HEADER_SIZE,
      (List.range n).foldl (fun chksum i => size_add chksum (h.chksum_at i)) 0 =
        ∑ i ∈ Finset.range n, h.chksum_at i ∧ ∑ i ∈ Finset.range n, h.chksum_at i ≤ n * 255 := by
    intro n hn
    induction n with
    | zero =>
        exact ⟨rfl, Nat.le_refl _⟩
    | succ n ih =>
        rcases ih (by omega) with ⟨ih, hle⟩
        have hn' := hbyte n
        rw [USTAR_HEADER_SIZE] at hn
        rw [List.range_succ, List.foldl_append, ih, Finset.sum_range_succ]
        refine ⟨size_add_eq (by rw [WORD_eq]; omega), by omega⟩
  exact (hsum _ (Nat.le_refl _)).1

theorem calculate_chksum_lt (h : UstarHeader) : calculate_chksum h < 8 ^ 7 := by
  rw [calculate_chksum_eq]
  calc
    ∑ i ∈ Finset.range USTAR_HEADER_SIZE, h.chksum_at i
        ≤ ∑ _i ∈ Finset.range USTAR_HEADER_SIZE, 255 := by
      refine Finset.sum_le_sum fun i _ => ?_
      have hlt := (h i).toNat_lt
      rw [UstarHeader.chksum_at]
      split <;> omega
    _ < 8 ^ 7 := by
      rw [Finset.sum_const, Finset.card_range]
      decide

/-- It does not depend on the field that it goes to. -/
theorem calculate_chksum_congr {h h' : UstarHeader}
    (heq : ∀ i < USTAR_HEADER_SIZE, ¬ (148 ≤ i ∧ i < 156) → h i = h' i) :
    calculate_chksum h = calculate_chksum h' := by
  rw [calculate_chksum_eq, calculate_chksum_eq]
  refine Finset.sum_congr rfl fun i hi => ?_
  have hlt := Finset.mem_range.1 hi
  by_cases hin : 148 ≤ i ∧ i < 156
  · have hfield : i ≥ UstarField.chksum.ofs ∧
        i < UstarField.chksum.ofs + UstarField.chksum.size := hin
    rw [UstarHeader.chksum_at, UstarHeader.chksum_at, if_pos hfield, if_pos hfield]
  · rw [UstarHeader.chksum_at, UstarHeader.chksum_at, heq i hlt hin]

end Berk162
