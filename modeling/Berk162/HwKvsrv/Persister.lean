import Berk162.Lib.CText

/-!
# Persister — `lib/persister.c`

`persister_save` writes a temporary file and renames it.  What the C library and the operating
system make of each of its calls is given by `SaveOutcome`, and the process may stop after any of
them, so the function is modelled by the files after each call.  `rename` does all or nothing.
-/

namespace Berk162

/-- The contents of the files, by their paths. -/
abbrev Files := Bytes → Option Bytes

/-- `persister_t` -/
structure Persister where
  path : CString
  fits : path.chars.length < 512

/-- `snprintf (buf, n, "%s", s)`: what of `s` is in `buf`. -/
def snprinted (n : Nat) (s : Bytes) : Bytes := s.take (n - 1)

/-- `persister_init` -/
def persister_init (path : CString) : Persister where
  path := ⟨snprinted 512 path.chars, fun h => path.no_null (List.mem_of_mem_take h)⟩
  fits := Nat.lt_of_le_of_lt (List.length_take_le _ _) (by decide)

/-- What comes of the calls that `persister_save` makes.  `fwrite` and `fclose` are how many bytes of
the data the file has when the call returns. -/
structure SaveOutcome where
  fopen : Bool
  fwrite : Nat
  fclose : Nat
  rename : Bool
  deriving DecidableEq, Repr

/-- `rename (old, new)`, where it succeeds. -/
def rename_file (old new : Bytes) (files : Files) : Files :=
  Function.update (Function.update files old none) new (files old)

/-- The path of the temporary file. -/
def Persister.tmp (p : Persister) : Bytes := snprinted 520 (p.path.chars ++ text ".tmp")

/-- The files before `persister_save`, and after each call that it makes. -/
def persister_save (p : Persister) (data : CString) (o : SaveOutcome) (files : Files) :
    List Files :=
  let tmp := p.tmp
  if o.fopen then
    let opened := Function.update files tmp (some [])
    let written := Function.update files tmp (some (data.chars.take o.fwrite))
    let closed := Function.update files tmp (some (data.chars.take o.fclose))
    [files, opened, written, closed,
      if o.rename then rename_file tmp p.path.chars closed else closed]
  else [files]

/-- The files that a `persister_save` leaves which stops once it has made `calls` calls. -/
def saved (p : Persister) (data : CString) (o : SaveOutcome) (calls : Nat) (files : Files) : Files :=
  ((persister_save p data o files).take (calls + 1)).getLastD files

/-- `persister_read`: the buffer that it returns. -/
def persister_read (p : Persister) (files : Files) : Option Bytes := do
  let content ← files p.path.chars
  let len := content.length
  return (if len > 0 then content.take len else []) ++ [0]

/-! ## A save that is cut short -/

variable {p : Persister} {data : CString} {o : SaveOutcome} {calls : Nat} {files : Files}

theorem Persister.tmp_ne (p : Persister) : p.path.chars ≠ p.tmp := by
  intro heq
  have hlen := congrArg List.length heq
  have hext : (text ".tmp").length = 4 := by decide
  have hfits := p.fits
  rw [Persister.tmp, snprinted, List.length_take, List.length_append, hext] at hlen
  omega

theorem persister_read_eq : persister_read p files = (files p.path.chars).map (· ++ [0]) := by
  rw [persister_read]
  cases files p.path.chars with
  | none => rfl
  | some content =>
      cases content with
      | nil => rfl
      | cons c content => simp

/-- Only a rename that is made changes the file that is read. -/
theorem saved_path : saved p data o calls files p.path.chars =
    if o.fopen = true ∧ 4 ≤ calls ∧ o.rename = true then some (data.chars.take o.fclose)
    else files p.path.chars := by
  have hother : ∀ c, Function.update files p.tmp c p.path.chars = files p.path.chars :=
    fun c => Function.update_of_ne p.tmp_ne _ _
  rw [saved, persister_save]
  cases hopen : o.fopen with
  | false => simp
  | true =>
      match calls with
      | 0 => simp
      | 1 => simp [hother]
      | 2 => simp [hother]
      | 3 => simp [hother]
      | calls + 4 =>
          cases hrename : o.rename with
          | false => simp [hother]
          | true => simp [rename_file]

/-- A save is atomic just where `fopen` fails, or the process stops in front of the rename, or the
rename fails, or all the bytes are in the temporary file when `fclose` returns, or those that are
make up the old data. -/
theorem persister_save_atomic_iff (p : Persister) (data : CString) (o : SaveOutcome) (calls : Nat)
    (files : Files) :
    (persister_read p (saved p data o calls files) = persister_read p files ∨
      persister_read p (saved p data o calls files) = some (data.chars ++ [0])) ↔
    o.fopen = false ∨ calls < 4 ∨ o.rename = false ∨ data.chars.length ≤ o.fclose ∨
      files p.path.chars = some (data.chars.take o.fclose) := by
  have hinj : Function.Injective (Option.map fun content : Bytes => content ++ [0]) :=
    Option.map_injective (List.append_left_injective [0])
  have hnew : some (data.chars ++ [0]) = (some data.chars).map (· ++ [0]) := rfl
  rw [persister_read_eq, persister_read_eq, hnew, hinj.eq_iff, hinj.eq_iff, saved_path]
  split
  · rename_i hmade
    obtain ⟨hopen, hcalls, hrename⟩ := hmade
    have hcalls : ¬ calls < 4 := Nat.not_lt.2 hcalls
    have hall : some (data.chars.take o.fclose) = some data.chars ↔
        data.chars.length ≤ o.fclose := by
      rw [Option.some_inj, List.take_eq_self_iff]
    rw [hall, hopen, hrename, eq_comm]
    simp only [hcalls, false_or, Bool.true_eq_false]
    exact or_comm
  · rename_i hnot
    refine iff_of_true (.inl rfl) ?_
    by_contra hbad
    simp only [not_or, Bool.not_eq_false, Nat.not_lt] at hbad
    exact hnot ⟨hbad.1, hbad.2.1, hbad.2.2.1⟩

/-- The disk is full after the first byte of the new data: nothing notices, and the file with that
byte takes the place of the old one. -/
theorem persister_save_torn :
    let p := persister_init ⟨text "kv", by decide⟩
    let files : Files := Function.update (fun _ => none) (text "kv") (some (text "one"))
    let after := saved p ⟨text "two", by decide⟩ ⟨true, 0, 1, true⟩ 4 files
    persister_read p files = some (text "one" ++ [0]) ∧
      persister_read p after = some (text "t" ++ [0]) ∧
      ¬ (persister_read p after = persister_read p files ∨
        persister_read p after = some (text "two" ++ [0])) := by
  decide

end Berk162
