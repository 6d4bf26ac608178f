import Berk162.Lib.CText
import Berk162.LibKernel.Random

/-!
# Options — `parse_options` of `threads/init.c`

The kernel command line is a list of words, each a C string.  `parse_options` takes the words that
begin with `-` and then seeds the generator of `lib/random.c` from the real-time clock.  The kernel
is the one that `filesys/`, `userprog/` and `threads/` build, without `VM`.
-/

namespace Berk162

/-- `enum shutdown_type`. -/
inductive ShutdownType
  | SHUTDOWN_NONE
  | SHUTDOWN_POWER_OFF
  | SHUTDOWN_REBOOT
  deriving DecidableEq

/-- `enum sched_policy`. -/
inductive SchedPolicy
  | fifo
  | prio
  | fair
  | mlfqs
  deriving DecidableEq

def SCHED_DEFAULT : SchedPolicy := .fifo

/-- What `parse_options` writes. -/
structure BootState where
  how : ShutdownType
  format_filesys : Bool
  filesys_bdev_name : Option Bytes
  scratch_bdev_name : Option Bytes
  user_page_limit : UInt32
  active_sched_policy : SchedPolicy
  random : Random

/-- How the machine stops while it parses. -/
inductive BootStop
  /-- `usage` powers it off. -/
  | power_off
  /-- `PANIC`. -/
  | panic (format : String) (arguments : List Bytes)
  /-- A failed `ASSERT` of `strcmp` or `atoi`, which were given a null pointer. -/
  | assertion
  deriving DecidableEq

/-- The static variables before `parse_options`, with the data segment loaded and the BSS clear. -/
def boot_state : BootState where
  how := .SHUTDOWN_NONE
  format_filesys := false
  filesys_bdev_name := none
  scratch_bdev_name := none
  user_page_limit := UInt32.ofNat (2 ^ 32 - 1)
  active_sched_policy := .fifo
  random := { s := Vector.replicate 256 0, s_i := 0, s_j := 0, inited := false }

/-- `shutdown_configure`. -/
def shutdown_configure (k : BootState) (type : ShutdownType) : BootState := { k with how := type }

/-- The loop of `atoi`, which counts down from `value`. -/
def atoi_digits (value : UInt32) : Bytes → UInt32
  | [] => value
  | c :: s => if isdigit c then atoi_digits (value * 10 - (c - 48).toUInt32) s else value

/-- `atoi`, an `int` as its 32 bits. -/
def atoi (s : Bytes) : UInt32 :=
  let s := s.dropWhile isspace
  if s.head? = some 43 then -atoi_digits 0 s.tail
  else if s.head? = some 45 then atoi_digits 0 s.tail
  else -atoi_digits 0 s

/-- The policy that `-sched=value` asks for. -/
def sched_option (value : Bytes) : Option SchedPolicy :=
  if value = text "fifo" then some .fifo
  else if value = text "prio" then some .prio
  else if value = text "fair" then some .fair
  else if value = text "mlfqs" then some .mlfqs
  else none

/-- `**argv == '-'`. -/
def is_option (arg : Bytes) : Bool := arg.head? = some 45

def option_name (arg : Bytes) : Option Bytes := (strtok_r (text "=") arg).1

def option_value (arg : Bytes) : Option Bytes :=
  (strtok_r (text "") (strtok_r (text "=") arg).2).1

/-- A pointer that is dereferenced. -/
def nonnull {α : Type} : Option α → Except BootStop α
  | none => .error .assertion
  | some a => .ok a

/-- One turn of the first loop: the state and the set of `scheduler_flags` after it. -/
def parse_option (k : BootState) (scheduler_flags : Finset SchedPolicy) (name : Bytes)
    (value : Option Bytes) : Except BootStop (BootState × Finset SchedPolicy) :=
  if name = text "-h" then .error .power_off
  else if name = text "-q" then .ok (shutdown_configure k .SHUTDOWN_POWER_OFF, scheduler_flags)
  else if name = text "-r" then .ok (shutdown_configure k .SHUTDOWN_REBOOT, scheduler_flags)
  else if name = text "-f" then .ok ({ k with format_filesys := true }, scheduler_flags)
  else if name = text "-filesys" then .ok ({ k with filesys_bdev_name := value }, scheduler_flags)
  else if name = text "-scratch" then .ok ({ k with scratch_bdev_name := value }, scheduler_flags)
  else if name = text "-rs" then do
    let value ← nonnull value
    return ({ k with random := random_init (atoi value) }, scheduler_flags)
  else if name = text "-sched" then do
    let value ← nonnull value
    match sched_option value with
    | some policy => return (k, insert policy scheduler_flags)
    | none => .error (.panic "unknown scheduler option `%s' (use -h for help)" [value])
  else if name = text "-ul" then do
    let value ← nonnull value
    return ({ k with user_page_limit := atoi value }, scheduler_flags)
  else .error (.panic "unknown option `%s' (use -h for help)" [name])

/-- The first loop: it stops at the first word that is no option. -/
def parse_words : BootState → Finset SchedPolicy → List Bytes →
    Except BootStop (BootState × Finset SchedPolicy × List Bytes)
  | k, scheduler_flags, [] => .ok (k, scheduler_flags, [])
  | k, scheduler_flags, arg :: argv =>
      if is_option arg then do
        let name ← nonnull (option_name arg)
        let (k, scheduler_flags) ← parse_option k scheduler_flags name (option_value arg)
        parse_words k scheduler_flags argv
      else .ok (k, scheduler_flags, arg :: argv)

/-- The policy for a set of flags; setting several of them panics. -/
def sched_policy (scheduler_flags : Finset SchedPolicy) : Except BootStop SchedPolicy :=
  if scheduler_flags.card = 0 then .ok SCHED_DEFAULT
  else if scheduler_flags.card > 1 then
    .error (.panic ("too many scheduler flags set: set at most one of \"-sched-fifo\", " ++
      "\"-sched-prio\", \"-sched-fair\", \"-sched-mlfqs\"") [])
  else if .fifo ∈ scheduler_flags then .ok .fifo
  else if .prio ∈ scheduler_flags then .ok .prio
  else if .fair ∈ scheduler_flags then .ok .fair
  else if .mlfqs ∈ scheduler_flags then .ok .mlfqs
  else .error (.panic "kernel bug in init.c: unreachable case" [])

/-- `parse_options`, where `rtc_get_time` returns `time`: the state and the words that are left. -/
def parse_options (k : BootState) (time : UInt32) (argv : List Bytes) :
    Except BootStop (BootState × List Bytes) := do
  let (k, scheduler_flags, argv) ← parse_words k ∅ argv
  let policy ← sched_policy scheduler_flags
  return ({ k with active_sched_policy := policy, random := random_init time }, argv)

/-! ## Command lines that are parsed to their end -/

/-- The words that are parsed as options. -/
def option_words (argv : List Bytes) : List Bytes := argv.takeWhile is_option

/-- The policy that an option asks for. -/
def option_policy (name : Bytes) (value : Option Bytes) : Option SchedPolicy :=
  if name = text "-sched" then value.bind sched_option else none

/-- The options that the loop goes on after: those that need no value, and the others with one. -/
inductive OptionAccepted : Bytes → Option Bytes → Prop
  | plain {name : Bytes} (value : Option Bytes) :
      name ∈ ["-q", "-r", "-f", "-filesys", "-scratch"].map text → OptionAccepted name value
  | number {name : Bytes} (value : Bytes) :
      name ∈ ["-rs", "-ul"].map text → OptionAccepted name (some value)
  | sched {value : Bytes} {policy : SchedPolicy} :
      sched_option value = some policy → OptionAccepted (text "-sched") (some value)

/-- The option that a word is. -/
def WordAccepted (arg : Bytes) : Prop :=
  ∃ name, option_name arg = some name ∧ OptionAccepted name (option_value arg)

/-- The policy that a word asks for. -/
def word_policy (arg : Bytes) : Option SchedPolicy :=
  (option_name arg).bind fun name => option_policy name (option_value arg)

/-- The policies that words ask for. -/
def policies (args : List Bytes) : Finset SchedPolicy := (args.filterMap word_policy).toFinset

/-- Every option is accepted, and they do not ask for two policies. -/
structure CommandLineAccepted (argv : List Bytes) : Prop where
  options : ∀ arg ∈ option_words argv, WordAccepted arg
  policies : (policies (option_words argv)).card ≤ 1

variable {k : BootState} {scheduler_flags : Finset SchedPolicy} {name arg : Bytes}
  {value : Option Bytes} {argv : List Bytes}

theorem option_policy_of_ne (h : name ≠ text "-sched") : option_policy name value = none :=
  if_neg h

theorem parse_option_sched (value : Bytes) :
    parse_option k scheduler_flags (text "-sched") (some value) =
      match sched_option value with
      | some policy => .ok (k, insert policy scheduler_flags)
      | none => .error (.panic "unknown scheduler option `%s' (use -h for help)" [value]) :=
  rfl

/-- After an accepted option the loop goes on; `-sched` has then set a flag. -/
theorem parse_option_ok (k : BootState) (scheduler_flags : Finset SchedPolicy)
    (h : OptionAccepted name value) :
    ∃ k', parse_option k scheduler_flags name value =
      .ok (k', scheduler_flags ∪ (option_policy name value).toFinset) := by
  cases h with
  | plain value hname =>
      have hne : name ≠ text "-sched" := by
        rintro rfl
        exact absurd hname (by decide)
      rw [option_policy_of_ne hne, Option.toFinset_none, Finset.union_empty]
      simp only [List.map_cons, List.map_nil, List.mem_cons, List.not_mem_nil, or_false] at hname
      rcases hname with rfl | rfl | rfl | rfl | rfl
      all_goals exact ⟨_, rfl⟩
  | number value hname =>
      have hne : name ≠ text "-sched" := by
        rintro rfl
        exact absurd hname (by decide)
      rw [option_policy_of_ne hne, Option.toFinset_none, Finset.union_empty]
      simp only [List.map_cons, List.map_nil, List.mem_cons, List.not_mem_nil, or_false] at hname
      rcases hname with rfl | rfl
      all_goals exact ⟨_, rfl⟩
  | @sched value policy hpolicy =>
      have hoption : option_policy (text "-sched") (some value) = some policy := by
        rw [option_policy, if_pos rfl, Option.bind_some, hpolicy]
      refine ⟨k, ?_⟩
      rw [parse_option_sched, hoption, hpolicy, Option.toFinset_some, Finset.union_singleton]

/-- At any other option the machine stops. -/
theorem parse_option_error (k : BootState) (scheduler_flags : Finset SchedPolicy)
    (h : ¬ OptionAccepted name value) :
    ∃ stop, parse_option k scheduler_flags name value = .error stop := by
  by_cases hh : name = text "-h"
  · subst hh
    exact ⟨_, rfl⟩
  have hplain : ∀ o ∈ ["-q", "-r", "-f", "-filesys", "-scratch"], name ≠ text o := by
    rintro o ho rfl
    exact h (.plain value (List.mem_map_of_mem ho))
  by_cases hnumber : name ∈ ["-rs", "-ul"].map text
  · cases value with
    | none =>
        simp only [List.map_cons, List.map_nil, List.mem_cons, List.not_mem_nil, or_false] at hnumber
        rcases hnumber with rfl | rfl
        all_goals exact ⟨_, rfl⟩
    | some value =>
        exact absurd (.number value hnumber) h
  by_cases hsched : name = text "-sched"
  · subst hsched
    cases value with
    | none =>
        exact ⟨_, rfl⟩
    | some value =>
        cases hpolicy : sched_option value with
        | some policy =>
            exact absurd (.sched hpolicy) h
        | none =>
            refine ⟨.panic "unknown scheduler option `%s' (use -h for help)" [value], ?_⟩
            rw [parse_option_sched, hpolicy]
  · have hrs : name ≠ text "-rs" := fun h' => hnumber (h' ▸ by decide)
    have hul : name ≠ text "-ul" := fun h' => hnumber (h' ▸ by decide)
    refine ⟨.panic "unknown option `%s' (use -h for help)" [name], ?_⟩
    rw [parse_option, if_neg hh, if_neg (hplain _ (by decide)), if_neg (hplain _ (by decide)),
      if_neg (hplain _ (by decide)), if_neg (hplain _ (by decide)), if_neg (hplain _ (by decide)),
      if_neg hrs, if_neg hsched, if_neg hul]

theorem policies_cons (arg : Bytes) (args : List Bytes) :
    policies (arg :: args) = (word_policy arg).toFinset ∪ policies args := by
  cases h : word_policy arg with
  | none =>
      simp [policies, h]
  | some policy =>
      simp [policies, h, Finset.singleton_union]

/-- The first loop goes on to its end when every option is accepted. -/
theorem parse_words_ok (k : BootState) (scheduler_flags : Finset SchedPolicy)
    (h : ∀ arg ∈ option_words argv, WordAccepted arg) :
    ∃ k', parse_words k scheduler_flags argv =
      .ok (k', scheduler_flags ∪ policies (option_words argv), argv.dropWhile is_option) := by
  induction argv generalizing k scheduler_flags with
  | nil =>
      exact ⟨k, by simp [parse_words, option_words, policies]⟩
  | cons arg argv ih =>
      cases hopt : is_option arg with
      | false =>
          exact ⟨k, by simp [parse_words, option_words, policies, hopt]⟩
      | true =>
          have hwords : option_words (arg :: argv) = arg :: option_words argv :=
            List.takeWhile_cons_of_pos hopt
          rw [hwords] at h ⊢
          obtain ⟨name, hname, haccepted⟩ := h arg List.mem_cons_self
          have hpolicy : word_policy arg = option_policy name (option_value arg) := by
            rw [word_policy, hname, Option.bind_some]
          obtain ⟨k₁, hone⟩ := parse_option_ok k scheduler_flags haccepted
          obtain ⟨k₂, hrest⟩ := @ih k₁ (scheduler_flags ∪ (word_policy arg).toFinset)
            fun a ha => h a (List.mem_cons_of_mem _ ha)
          refine ⟨k₂, ?_⟩
          rw [← hpolicy] at hone
          rw [parse_words, if_pos hopt, hname, List.dropWhile_cons_of_pos hopt, policies_cons,
            ← Finset.union_assoc, ← hrest]
          show (parse_option k scheduler_flags name (option_value arg) >>= _) = _
          rw [hone]
          rfl

/-- The first loop stops the machine at an option that is not accepted. -/
theorem parse_words_error (k : BootState) (scheduler_flags : Finset SchedPolicy)
    (h : ¬ ∀ arg ∈ option_words argv, WordAccepted arg) :
    ∃ stop, parse_words k scheduler_flags argv = .error stop := by
  induction argv generalizing k scheduler_flags with
  | nil =>
      exact absurd (by simp [option_words]) h
  | cons arg argv ih =>
      cases hopt : is_option arg with
      | false =>
          exact absurd (by simp [option_words, hopt]) h
      | true =>
          have hwords : option_words (arg :: argv) = arg :: option_words argv :=
            List.takeWhile_cons_of_pos hopt
          rw [hwords, List.forall_mem_cons] at h
          rw [parse_words, if_pos hopt]
          cases hname : option_name arg with
          | none =>
              exact ⟨.assertion, rfl⟩
          | some name =>
              show ∃ stop, (parse_option k scheduler_flags name (option_value arg) >>= _) = _
              by_cases haccepted : OptionAccepted name (option_value arg)
              · obtain ⟨k₁, hone⟩ := parse_option_ok k scheduler_flags haccepted
                rw [hone]
                exact ih k₁ _ fun hrest => h ⟨⟨name, hname, haccepted⟩, hrest⟩
              · obtain ⟨stop, hstop⟩ := parse_option_error k scheduler_flags haccepted
                rw [hstop]
                exact ⟨stop, rfl⟩

theorem sched_policy_ok (h : scheduler_flags.card ≤ 1) :
    ∃ policy, sched_policy scheduler_flags = .ok policy := by
  unfold sched_policy
  by_cases hzero : scheduler_flags.card = 0
  · rw [if_pos hzero]
    exact ⟨_, rfl⟩
  rw [if_neg hzero, if_neg (not_lt.2 h)]
  obtain ⟨policy, hpolicy⟩ := Finset.card_pos.1 (Nat.pos_of_ne_zero hzero)
  -- one of the four flags is set, so that the last branch is not reached
  split_ifs with h1 h2 h3 h4
  · exact ⟨_, rfl⟩
  · exact ⟨_, rfl⟩
  · exact ⟨_, rfl⟩
  · exact ⟨_, rfl⟩
  · cases policy with
    | fifo =>
        exact absurd hpolicy h1
    | prio =>
        exact absurd hpolicy h2
    | fair =>
        exact absurd hpolicy h3
    | mlfqs =>
        exact absurd hpolicy h4

theorem sched_policy_error (h : ¬ scheduler_flags.card ≤ 1) :
    ∃ stop, sched_policy scheduler_flags = .error stop := by
  have hlt : 1 < scheduler_flags.card := not_le.1 h
  rw [sched_policy, if_neg (Nat.ne_of_gt (Nat.zero_lt_of_lt hlt)), if_pos hlt]
  exact ⟨_, rfl⟩

/-- On an accepted command line `parse_options` returns, with the clock as the seed. -/
theorem parse_options_ok (h : CommandLineAccepted argv) :
    ∃ k' : BootState, ∀ time, parse_options k time argv =
      .ok ({ k' with random := random_init time }, argv.dropWhile is_option) := by
  obtain ⟨k₁, hwords⟩ := parse_words_ok k ∅ h.options
  have hcard : (∅ ∪ policies (option_words argv)).card ≤ 1 := by
    rw [Finset.empty_union]
    exact h.policies
  obtain ⟨policy, hpolicy⟩ := sched_policy_ok hcard
  refine ⟨{ k₁ with active_sched_policy := policy }, fun time => ?_⟩
  rw [parse_options, hwords]
  show (sched_policy (∅ ∪ policies (option_words argv)) >>= _) = _
  rw [hpolicy]
  rfl

/-- On any other command line the machine stops before `parse_options` returns. -/
theorem parse_options_error (h : ¬ CommandLineAccepted argv) (time : UInt32) :
    ∃ stop, parse_options k time argv = .error stop := by
  rw [parse_options]
  by_cases hoptions : ∀ arg ∈ option_words argv, WordAccepted arg
  · obtain ⟨k₁, hwords⟩ := parse_words_ok k ∅ hoptions
    have hcard : ¬ (∅ ∪ policies (option_words argv)).card ≤ 1 := by
      rw [Finset.empty_union]
      exact fun hpolicies => h ⟨hoptions, hpolicies⟩
    obtain ⟨stop, hstop⟩ := sched_policy_error hcard
    refine ⟨stop, ?_⟩
    rw [hwords]
    show (sched_policy (∅ ∪ policies (option_words argv)) >>= _) = _
    rw [hstop]
    rfl
  · obtain ⟨stop, hstop⟩ := parse_words_error k ∅ hoptions
    rw [hstop]
    exact ⟨stop, rfl⟩

/-! ## Two boots with one command line -/

/-- The bytes that the generator stores after two boots agree, the real-time clock being at
`time` in the first and at `time'` in the second. -/
def Reproducible (argv : List Bytes) (time time' : UInt32) : Prop :=
  ∀ k k' rest rest', parse_options boot_state time argv = .ok (k, rest) →
    parse_options boot_state time' argv = .ok (k', rest') →
      ∀ sizes, random_calls k.random sizes = random_calls k'.random sizes

/-- One of the options is `-rs`. -/
def SeedGiven (argv : List Bytes) : Prop :=
  ∃ arg ∈ option_words argv, option_name arg = some (text "-rs")

/-- The clock seeds the generator last: two boots agree when the command line is not parsed to its
end, or when the clocks themselves seed the same bytes. -/
theorem reproducible_iff_clocks (argv : List Bytes) (time time' : UInt32) :
    Reproducible argv time time' ↔ ¬ CommandLineAccepted argv ∨
      ∀ size, (random_bytes (random_init time) size).1 =
        (random_bytes (random_init time') size).1 := by
  rw [← random_calls_eq_iff (random_init_inited time) (random_init_inited time')]
  by_cases h : CommandLineAccepted argv
  · obtain ⟨k, hk⟩ := parse_options_ok (k := boot_state) h
    constructor
    · intro hsame
      exact Or.inr fun sizes => hsame _ _ _ _ (hk time) (hk time') sizes
    · rintro (hnot | hclocks) k₁ k₂ rest₁ rest₂ h₁ h₂ sizes
      · exact absurd h hnot
      · rw [hk time] at h₁
        rw [hk time'] at h₂
        obtain ⟨rfl, rfl⟩ := Prod.mk.inj (Except.ok.inj h₁)
        obtain ⟨rfl, rfl⟩ := Prod.mk.inj (Except.ok.inj h₂)
        exact hclocks sizes
  · refine iff_of_true ?_ (Or.inl h)
    intro k₁ k₂ rest₁ rest₂ h₁ h₂ sizes
    obtain ⟨stop, hstop⟩ := parse_options_error (k := boot_state) h time
    rw [hstop] at h₁
    cases h₁

/-- No command line on which `parse_options` returns has the same bytes for all clocks, `-rs` or
not; for given clocks it has when the clocks seed the same bytes. -/
theorem seed_reproducible_iff (argv : List Bytes) :
    ((∀ time time', Reproducible argv time time') ↔ ¬ CommandLineAccepted argv) ∧
      ∀ time time', Reproducible argv time time' ↔ ¬ CommandLineAccepted argv ∨
        ∀ size, (random_bytes (random_init time) size).1 =
          (random_bytes (random_init time') size).1 := by
  refine ⟨⟨?_, ?_⟩, reproducible_iff_clocks argv⟩
  · intro hall
    rcases (reproducible_iff_clocks argv 0 1).1 (hall 0 1) with hnot | hclocks
    · exact hnot
    · exact absurd (hclocks 1) random_init_differs
  · intro hnot time time'
    exact (reproducible_iff_clocks argv time time').2 (Or.inl hnot)

theorem seed_option_accepted : CommandLineAccepted [text "-rs=5"] := by
  have hwords : option_words [text "-rs=5"] = [text "-rs=5"] := by decide
  refine ⟨fun arg harg => ?_, ?_⟩
  · rw [hwords, List.mem_singleton] at harg
    subst harg
    exact ⟨text "-rs", by decide, .number (text "5") (by decide)⟩
  · rw [hwords]
    decide

/-- With `-rs=5` the clocks 0 and 1 give different bytes. -/
theorem seed_not_reproducible :
    SeedGiven [text "-rs=5"] ∧ ¬ Reproducible [text "-rs=5"] 0 1 := by
  refine ⟨⟨text "-rs=5", by decide, by decide⟩, fun hsame => ?_⟩
  rcases (reproducible_iff_clocks _ 0 1).1 hsame with hnot | hclocks
  · exact hnot seed_option_accepted
  · exact random_init_differs (hclocks 1)

end Berk162
