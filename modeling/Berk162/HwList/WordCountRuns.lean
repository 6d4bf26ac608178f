import Berk162.HwList.WordCount

/-!
# WordCountRuns — the threads count what one thread counts

The mutex makes the search and the insertion of `add_word` one step, so that in every run the list
counts the words added so far, in whatever order they came (`Inv`).  Two lists that count the same
words have the same elements, and sorting by a total order leaves them in the same order.
-/

namespace Berk162

namespace WordCountP

variable {T W : Type} [DecidableEq T] [DecidableEq W]

/-- The thread has the mutex. -/
def Place.Holds : Place W → Prop
  | .searching _ _ => True
  | .unlocking => True
  | _ => False

/-- The word that the thread is about to add. -/
def Place.pending : Place W → List W
  | .locking word => [word]
  | .searching word _ => [word]
  | _ => []

/-- The word that a step added to the list, with the thread that added it. -/
def Label.added : Label T W → List (T × W)
  | .add t word => [(t, word)]
  | _ => []

/-- The words that `t` added, of those in the history `log`. -/
def addedBy (log : List (T × W)) (t : T) : List W := (log.filter fun a => a.1 = t).map Prod.snd

/-- After the additions `log` of threads that have the words `program` to add. -/
structure Inv (program : T → List W) (log : List (T × W)) (s : State T W) : Prop where
  counts : Counts s.lst (log.map Prod.snd)
  holder : ∀ t, s.lock = some t ↔ (s.place t).Holds
  searched : ∀ t word e, s.place t = .searching word e →
    ∀ i wc, i < e → s.lst[i]? = some wc → wc.word ≠ word
  todo : ∀ t, program t = addedBy log t ++ ((s.place t).pending ++ s.todo t)

variable {program : T → List W} {log : List (T × W)} {s s' : State T W} {t t' : T} {word : W}

omit [DecidableEq W] in
theorem addedBy_append_self (log : List (T × W)) (t : T) (word : W) :
    addedBy (log ++ [(t, word)]) t = addedBy log t ++ [word] := by
  simp [addedBy]

omit [DecidableEq W] in
theorem addedBy_append_of_ne (log : List (T × W)) (word : W) (h : t' ≠ t) :
    addedBy (log ++ [(t, word)]) t' = addedBy log t' := by
  simp [addedBy, h.symm]

namespace Inv

/-- Nobody else is in the loop while `t` has the mutex. -/
theorem alone (h : Inv program log s) (ht : (s.place t).Holds) (ht' : (s.place t').Holds) : t' = t := by
  have hlock := (h.holder t).2 ht
  have hlock' := (h.holder t').2 ht'
  exact Option.some.inj (hlock'.symm.trans hlock)

/-- `t` has added a word to the list and will give the mutex back. -/
theorem add (h : Inv program log s) {e : Nat} (ht : s.place t = .searching word e)
    {lst : List (WordCount W)} (hlst : Counts lst (log.map Prod.snd ++ [word])) :
    Inv program (log ++ [(t, word)]) ((s.setList lst).setPlace t .unlocking) where
  counts := by
    rw [List.map_append]
    exact hlst
  holder t' := by
    by_cases heq : t' = t
    · subst heq
      refine iff_of_true ((h.holder t').2 (by rw [ht]; trivial)) ?_
      rw [State.setPlace_self]
      trivial
    · rw [State.setPlace_of_ne _ _ heq]
      exact h.holder t'
  searched t' word' e' ht' := by
    by_cases heq : t' = t
    · subst heq
      rw [State.setPlace_self] at ht'
      cases ht'
    · -- the other thread would have the mutex too
      rw [State.setPlace_of_ne _ _ heq] at ht'
      have hplace : s.place t' = .searching word' e' := ht'
      exact absurd (h.alone (by rw [ht]; trivial) (by rw [hplace]; trivial)) heq
  todo t' := by
    have htodo := h.todo t'
    by_cases heq : t' = t
    · subst heq
      rw [ht] at htodo
      rw [addedBy_append_self, htodo, State.setPlace_self, List.append_assoc]
      rfl
    · rw [addedBy_append_of_ne _ _ heq, State.setPlace_of_ne _ _ heq]
      exact htodo

/-- `t` moves, and the list is as it was. -/
theorem move (h : Inv program log s) {place : Place W} (hlst : s'.lst = s.lst)
    (hplace : s'.place = Function.update s.place t place)
    (hlock : s'.lock = some t ↔ place.Holds)
    (hother : ∀ t', t' ≠ t → (s'.lock = some t' ↔ s.lock = some t'))
    (hsearch : ∀ word e, place = .searching word e →
      ∀ i wc, i < e → s.lst[i]? = some wc → wc.word ≠ word)
    (htodo : place.pending ++ s'.todo t = (s.place t).pending ++ s.todo t)
    (htodo' : ∀ t', t' ≠ t → s'.todo t' = s.todo t') : Inv program log s' where
  counts := by
    rw [hlst]
    exact h.counts
  holder t' := by
    rw [hplace]
    by_cases heq : t' = t
    · subst heq
      rw [Function.update_self]
      exact hlock
    · rw [Function.update_of_ne heq]
      exact (hother t' heq).trans (h.holder t')
  searched t' word e ht' := by
    rw [hplace] at ht'
    rw [hlst]
    by_cases heq : t' = t
    · subst heq
      rw [Function.update_self] at ht'
      exact hsearch word e ht'
    · rw [Function.update_of_ne heq] at ht'
      exact h.searched t' word e ht'
  todo t' := by
    rw [h.todo t', hplace]
    by_cases heq : t' = t
    · subst heq
      rw [Function.update_self, htodo]
    · rw [Function.update_of_ne heq, htodo' t' heq]

theorem step {l : Label T W} (h : Inv program log s) (hstep : Step s l s') :
    Inv program (log ++ l.added) s' := by
  cases hstep with
  | @call t word words hout htodo =>
      change Inv program (log ++ []) _
      rw [List.append_nil]
      have hnot : ¬ s.lock = some t := fun hlock => by
        have hholds := (h.holder t).1 hlock
        rw [hout] at hholds
        exact hholds
      refine h.move rfl rfl (iff_of_false hnot id) (fun _ _ => Iff.rfl) ?_ ?_ ?_
      · rintro word e ⟨⟩
      · rw [hout, htodo]
        simp [Place.pending, State.setPlace, State.setTodo]
      · intro t' heq
        simp [State.setPlace, State.setTodo, heq]
  | @lock t word hplace hlock =>
      change Inv program (log ++ []) _
      rw [List.append_nil]
      refine h.move rfl rfl (iff_of_true rfl trivial) (fun t' heq => ?_) ?_ ?_ (fun _ _ => rfl)
      · refine iff_of_false (fun hsome => heq (Option.some.inj hsome).symm) ?_
        rw [hlock]
        rintro ⟨⟩
      · -- nothing has been searched yet
        rintro word e ⟨⟩ i wc hi
        exact absurd hi (Nat.not_lt_zero i)
      · rw [hplace]
        rfl
  | @next t word e wc hplace hget hne =>
      change Inv program (log ++ []) _
      rw [List.append_nil]
      have hlock : s.lock = some t := (h.holder t).2 (by rw [hplace]; trivial)
      refine h.move rfl rfl (iff_of_true hlock trivial) (fun _ _ => Iff.rfl) ?_ ?_ (fun _ _ => rfl)
      · rintro word e ⟨⟩ i wc' hi hget'
        rcases Nat.lt_or_eq_of_le (Nat.le_of_lt_succ hi) with hlt | rfl
        · exact h.searched t _ _ hplace i wc' hlt hget'
        · obtain rfl := Option.some.inj (hget.symm.trans hget')
          exact hne
      · rw [hplace]
        rfl
  | @found t word e wc hplace hget hword =>
      subst hword
      exact h.add hplace (h.counts.incr hget)
  | @insert t word e hplace hget =>
      refine h.add hplace (Counts.congr (h.counts.insert fun wc hwc => ?_) (List.perm_append_singleton _ _))
      -- the loop has passed every element
      obtain ⟨i, hi, rfl⟩ := List.mem_iff_getElem.1 hwc
      have hlen : s.lst.length ≤ e := List.getElem?_eq_none_iff.1 hget
      exact h.searched t word e hplace i _ (Nat.lt_of_lt_of_le hi hlen) (List.getElem?_eq_getElem hi)
  | @unlock t hplace =>
      change Inv program (log ++ []) _
      rw [List.append_nil]
      have hlock : s.lock = some t := (h.holder t).2 (by rw [hplace]; trivial)
      refine h.move rfl rfl (iff_of_false ?_ id) (fun t' heq => ?_) ?_ ?_ (fun _ _ => rfl)
      · rintro ⟨⟩
      · refine iff_of_false ?_ (fun hsome => heq (Option.some.inj (hlock.symm.trans hsome)).symm)
        rintro ⟨⟩
      · rintro word e ⟨⟩
      · rw [hplace]
        rfl

end Inv

/-! ## Runs -/

variable {tasks : List (T × List W)} {ls : List (Label T W)} {e : Nat}

theorem inv_initial (tasks : List (T × List W)) : Inv (assigned tasks) [] (initial tasks) where
  counts := Counts.nil
  holder t := by
    refine iff_of_false ?_ id
    rintro ⟨⟩
  searched := by
    rintro t word e ⟨⟩
  todo t := rfl

theorem exec_inv (h : (pwords tasks).Exec (initial tasks) ls s) :
    Inv (assigned tasks) (ls.flatMap Label.added) s := by
  induction h with
  | nil =>
      exact inv_initial tasks
  | snoc _ hstep ih =>
      rw [List.flatMap_append, List.flatMap_singleton]
      exact ih.step hstep

theorem count_addedBy (log : List (T × W)) (t : T) (word : W) :
    log.count (t, word) = (addedBy log t).count word := by
  induction log with
  | nil =>
      rfl
  | cons a log ih =>
      obtain ⟨t', word'⟩ := a
      by_cases ht : t' = t
      · subst ht
        have hcons : addedBy ((t', word') :: log) t' = word' :: addedBy log t' := by simp [addedBy]
        rw [hcons, List.count_cons, List.count_cons, ih]
        simp
      · have hcons : addedBy ((t', word') :: log) t = addedBy log t := by simp [addedBy, ht]
        rw [hcons, List.count_cons_of_ne, ih]
        exact fun heq => ht (Prod.mk.inj heq).1

/-- Histories in which every thread adds the same words add the same words. -/
theorem perm_of_addedBy {log log' : List (T × W)} (h : ∀ t, addedBy log t = addedBy log' t) :
    log.Perm log' := by
  rw [List.perm_iff_count]
  rintro ⟨t, word⟩
  rw [count_addedBy, count_addedBy, h t]

/-- The words of the inputs, with the threads that count them. -/
def tagged (tasks : List (T × List W)) : List (T × W) :=
  tasks.flatMap fun task => task.2.map fun word => (task.1, word)

omit [DecidableEq W] in
theorem addedBy_tagged (tasks : List (T × List W)) (t : T) :
    addedBy (tagged tasks) t = assigned tasks t := by
  induction tasks with
  | nil =>
      rfl
  | cons task tasks ih =>
      have hsplit : addedBy (tagged (task :: tasks)) t =
          addedBy (task.2.map fun word => (task.1, word)) t ++ addedBy (tagged tasks) t := by
        rw [tagged, List.flatMap_cons, addedBy, List.filter_append, List.map_append]
        rfl
      rw [hsplit, ih]
      by_cases ht : task.1 = t
      · simp [assigned, addedBy, ht, List.filter_map, Function.comp_def]
      · simp [assigned, addedBy, ht, List.filter_map, Function.comp_def]

omit [DecidableEq T] [DecidableEq W] in
theorem map_tagged (tasks : List (T × List W)) :
    (tagged tasks).map Prod.snd = tasks.flatMap Prod.snd := by
  rw [tagged, List.map_flatMap]
  congr 1
  funext task
  rw [List.map_map]
  exact List.map_id _

/-- Once the threads have been joined, the list counts the words of all inputs, and the mutex is
free. -/
theorem joined_counts (h : (pwords tasks).Exec (initial tasks) ls s) (hjoined : s.Joined) :
    Counts s.lst (tasks.flatMap Prod.snd) ∧ s.lock = none := by
  have hinv := exec_inv h
  have hlog : ∀ t, addedBy (ls.flatMap Label.added) t = addedBy (tagged tasks) t := by
    intro t
    have htodo := hinv.todo t
    obtain ⟨hout, hnil⟩ := hjoined t
    rw [hout, hnil] at htodo
    rw [addedBy_tagged, htodo]
    exact (List.append_nil _).symm
  constructor
  · refine hinv.counts.perm ?_
    rw [← map_tagged]
    exact ((perm_of_addedBy hlog).map Prod.snd).symm
  · cases hlock : s.lock with
    | none =>
        rfl
    | some t =>
        have hholds := (hinv.holder t).1 hlock
        rw [(hjoined t).1] at hholds
        exact absurd hholds id

/-! ## A run to the end -/

/-- No thread is in `add_word`. -/
structure State.Idle (s : State T W) : Prop where
  lock : s.lock = none
  place : ∀ t, s.place t = .out

/-- The loop of `add_word` ends. -/
theorem search_ends (tasks : List (T × List W)) (hplace : s.place t = .searching word e) :
    ∃ ls s', (pwords tasks).Exec s ls s' ∧ s'.lock = s.lock ∧ s'.todo = s.todo ∧
      s'.place = Function.update s.place t .unlocking := by
  induction hn : s.lst.length - e generalizing s e with
  | zero =>
      have hget : s.lst[e]? = none := List.getElem?_eq_none (Nat.le_of_sub_eq_zero hn)
      exact ⟨_, _, System.Exec.single (Step.insert hplace hget), rfl, rfl, rfl⟩
  | succ n ih =>
      have hlt : e < s.lst.length := by omega
      have hget : s.lst[e]? = some s.lst[e] := List.getElem?_eq_getElem hlt
      by_cases hword : s.lst[e].word = word
      · exact ⟨_, _, System.Exec.single (Step.found hplace hget hword), rfl, rfl, rfl⟩
      · obtain ⟨ls, s', hrun, hlock, htodo, hplace'⟩ :=
          @ih (s.setPlace t (.searching word (e + 1))) (e + 1) (State.setPlace_self _ _ _)
            (by change s.lst.length - (e + 1) = n; omega)
        refine ⟨_, s', (System.Exec.single (Step.next hplace hget hword)).append hrun, hlock, htodo, ?_⟩
        rw [hplace', State.setPlace, Function.update_idem]

/-- A thread that runs alone adds its next word. -/
theorem add_one (tasks : List (T × List W)) (hidle : s.Idle) {words : List W}
    (htodo : s.todo t = word :: words) :
    ∃ ls s', (pwords tasks).Exec s ls s' ∧ s'.Idle ∧ s'.todo = Function.update s.todo t words := by
  let s₁ := (s.setTodo t words).setPlace t (.locking word)
  let s₂ := (s₁.setLock (some t)).setPlace t (.searching word 0)
  have hcall : (pwords tasks).Exec s [.call t] s₁ := System.Exec.single (Step.call (hidle.place t) htodo)
  have hlock : (pwords tasks).Exec s₁ [.lock t] s₂ :=
    System.Exec.single (Step.lock (State.setPlace_self _ _ _) hidle.lock)
  obtain ⟨ls, s₃, hsearch, -, htodo₃, hplace₃⟩ :=
    search_ends tasks (State.setPlace_self (s₁.setLock (some t)) t (.searching word 0))
  have hunlock : (pwords tasks).Exec s₃ [.unlock t] ((s₃.setLock none).setPlace t .out) := by
    refine System.Exec.single (Step.unlock ?_)
    rw [hplace₃, Function.update_self]
  refine ⟨_, _, ((hcall.append hlock).append hsearch).append hunlock, ⟨rfl, fun t' => ?_⟩, htodo₃⟩
  by_cases heq : t' = t
  · subst heq
    exact State.setPlace_self _ _ _
  · rw [State.setPlace_of_ne _ _ heq]
    calc
      s₃.place t' = s₂.place t' := by rw [hplace₃, Function.update_of_ne heq]
      _ = s₁.place t' := State.setPlace_of_ne _ _ heq
      _ = s.place t' := State.setPlace_of_ne _ _ heq
      _ = .out := hidle.place t'

theorem add_all (tasks : List (T × List W)) (hidle : s.Idle) (t : T) :
    ∃ ls s', (pwords tasks).Exec s ls s' ∧ s'.Idle ∧ s'.todo = Function.update s.todo t [] := by
  induction hwords : s.todo t generalizing s with
  | nil =>
      refine ⟨[], s, System.Exec.nil s, hidle, ?_⟩
      rw [← hwords, Function.update_eq_self]
  | cons word words ih =>
      obtain ⟨ls, s₁, hone, hidle₁, htodo₁⟩ := add_one tasks hidle hwords
      obtain ⟨ls', s', hrest, hidle', htodo'⟩ := ih hidle₁ (by rw [htodo₁, Function.update_self])
      refine ⟨_, s', hone.append hrest, hidle', ?_⟩
      rw [htodo', htodo₁, Function.update_idem]

/-- The threads can be run to their ends, one after the other. -/
theorem exists_joined (tasks : List (T × List W)) :
    ∃ ls s, (pwords tasks).Exec (initial tasks) ls s ∧ s.Joined := by
  have hthreads : ∀ ts : List T, ∃ ls s, (pwords tasks).Exec (initial tasks) ls s ∧ s.Idle ∧
      ∀ t, s.todo t = if t ∈ ts then [] else assigned tasks t := by
    intro ts
    induction ts with
    | nil =>
        exact ⟨[], _, System.Exec.nil _, ⟨rfl, fun _ => rfl⟩, fun _ => rfl⟩
    | cons t ts ih =>
        obtain ⟨ls, s, hrun, hidle, htodo⟩ := ih
        obtain ⟨ls', s', hrun', hidle', htodo'⟩ := add_all tasks hidle t
        refine ⟨_, s', hrun.append hrun', hidle', fun t' => ?_⟩
        rw [htodo']
        by_cases heq : t' = t
        · subst heq
          rw [Function.update_self, if_pos List.mem_cons_self]
        · rw [Function.update_of_ne heq, htodo t']
          simp [heq]
  obtain ⟨ls, s, hrun, hidle, htodo⟩ := hthreads (tasks.map Prod.fst)
  refine ⟨ls, s, hrun, fun t => ⟨hidle.place t, ?_⟩⟩
  rw [htodo t]
  split
  · rfl
  · -- a thread with no input
    rename_i hnot
    have hnone : (tasks.filter fun task => task.1 = t) = [] := by
      rw [List.filter_eq_nil_iff]
      intro task htask heq
      exact hnot (List.mem_map.2 ⟨task, htask, of_decide_eq_true heq⟩)
    rw [assigned, hnone, List.flatMap_nil]

end WordCountP

/-! ## Sorting -/

variable {T W : Type}

/-- What `less_count` is taken to be: a strict total order. -/
structure StrictTotalOrder (less : WordCount W → WordCount W → Bool) : Prop where
  irrefl : ∀ a, less a a = false
  trans : ∀ a b c, less a b = true → less b c = true → less a c = true
  total : ∀ a b, a ≠ b → less a b = true ∨ less b a = true

variable {less : WordCount W → WordCount W → Bool}

namespace StrictTotalOrder

theorem asymm (h : StrictTotalOrder less) {a b : WordCount W} (hab : less a b = true) :
    less b a = false := by
  cases hba : less b a with
  | false =>
      rfl
  | true =>
      have hself := h.trans a b a hab hba
      rw [h.irrefl a] at hself
      exact hself.symm

theorem eq_of_not_less (h : StrictTotalOrder less) {a b : WordCount W} (hab : less a b = false)
    (hba : less b a = false) : a = b := by
  by_contra hne
  rcases h.total a b hne with hlt | hlt
  · rw [hab] at hlt
    cases hlt
  · rw [hba] at hlt
    cases hlt

theorem weak (h : StrictTotalOrder less) : StrictWeakOrder less where
  asymm _ _ := h.asymm
  neg_trans a b c hab hbc := by
    cases hac : less a c with
    | false =>
        rfl
    | true =>
        -- `c` is not after `b`, so that `a` would be less than `b`
        rcases Bool.eq_false_or_eq_true (less c b) with hcb | hcb
        · rw [h.trans a c b hac hcb] at hab
          exact hab
        · obtain rfl := h.eq_of_not_less hbc hcb
          rw [hac] at hab
          exact hab

/-- Lists with the same elements are sorted into one list. -/
theorem sort_eq (h : StrictTotalOrder less) {l l' : List (WordCount W)} (hperm : l.Perm l') :
    ∃ sorted, list_sort less (l.length + 1) l = some sorted ∧
      list_sort less (l'.length + 1) l' = some sorted ∧ sorted.Perm l ∧ SortedBy less sorted := by
  obtain ⟨s, hs, hs_perm, hs_sorted⟩ :=
    list_sort_spec h.weak l (Nat.lt_succ_of_le (run_cnt_le_length less l))
  obtain ⟨s', hs', hs'_perm, hs'_sorted⟩ :=
    list_sort_spec h.weak l' (Nat.lt_succ_of_le (run_cnt_le_length less l'))
  have heq : s' = s := by
    refine List.Perm.eq_of_pairwise (fun a b _ _ hab hba => h.eq_of_not_less hba hab) hs'_sorted
      hs_sorted ?_
    exact hs'_perm.trans (hperm.symm.trans hs_perm.symm)
  subst heq
  exact ⟨s', hs, hs', hs_perm, hs_sorted⟩

end StrictTotalOrder

variable [DecidableEq T] [DecidableEq W]

/-- When the threads have been joined, the list of `word_count_p.c` holds each word once, with the
number of its occurrences as long as that is an `int`, and is sorted into the list that
`word_count_l.c` makes of all the inputs. -/
theorem word_counts_agree (hless : StrictTotalOrder less) {tasks : List (T × List W)}
    {ls : List (WordCountP.Label T W)} {s : WordCountP.State T W}
    (hrun : (WordCountP.pwords tasks).Exec (WordCountP.initial tasks) ls s) (hjoined : s.Joined) :
    (s.lst.map WordCount.word).Nodup ∧
      (∀ word, (∃ wc ∈ s.lst, wc.word = word) ↔ word ∈ tasks.flatMap Prod.snd) ∧
      (∀ wc ∈ s.lst, (tasks.flatMap Prod.snd).count wc.word < 2 ^ 31 →
        wc.count = (tasks.flatMap Prod.snd).count wc.word) ∧
      ∃ sorted, s.wordcount_sort less = some sorted ∧ SortedBy less sorted ∧
        WordCountL.wordcount_sort less (WordCountL.count_words (tasks.flatMap Prod.snd)) =
          some sorted := by
  obtain ⟨hcounts, hlock⟩ := WordCountP.joined_counts hrun hjoined
  have hcounts' := WordCountL.count_words_counts (tasks.flatMap Prod.snd)
  refine ⟨hcounts.nodup, fun word => hcounts.word_mem_iff, fun wc hwc hmax => ?_, ?_⟩
  · rw [((hcounts.mem_iff wc).1 hwc).2]
    exact int32_eq (by omega) (by omega)
  · obtain ⟨sorted, hsort, hsort', -, hsorted⟩ := hless.sort_eq (hcounts.perm_lists hcounts')
    refine ⟨sorted, ?_, hsorted, hsort'⟩
    rw [WordCountP.State.wordcount_sort, hlock]
    exact hsort

/-- By count, then by word. -/
def by_count (a b : WordCount Nat) : Bool :=
  a.count < b.count || (a.count = b.count && a.word < b.word)

theorem by_count_order : StrictTotalOrder by_count where
  irrefl a := by simp [by_count]
  trans a b c hab hbc := by
    simp only [by_count, Bool.or_eq_true, Bool.and_eq_true, decide_eq_true_eq] at *
    omega
  total a b hne := by
    cases a with
    | mk w n =>
        cases b with
        | mk w' n' =>
            simp only [by_count, Bool.or_eq_true, Bool.and_eq_true, decide_eq_true_eq,
              WordCount.mk.injEq, ne_eq] at *
            omega

/-- Two threads that count three words. -/
theorem word_counts_agree_two :
    ∃ ls s, (WordCountP.pwords [((0 : Fin 2), [7, 8]), (1, [7])]).Exec
        (WordCountP.initial [(0, [7, 8]), (1, [7])]) ls s ∧
      (∀ word, (∃ wc ∈ s.lst, wc.word = word) ↔ word ∈ [7, 8, 7]) ∧
      ∃ sorted, s.wordcount_sort by_count = some sorted := by
  obtain ⟨ls, s, hrun, hjoined⟩ := WordCountP.exists_joined [((0 : Fin 2), [7, 8]), (1, [7])]
  obtain ⟨-, hwords, -, sorted, hsort, -⟩ := word_counts_agree by_count_order hrun hjoined
  exact ⟨ls, s, hrun, hwords, sorted, hsort⟩

theorem count_overflows {n : Nat} (hpos : 0 < n) (hwrap : int32 n ≠ n) :
    ∃ ls s, (WordCountP.pwords [((), List.replicate n "a")]).Exec
        (WordCountP.initial [((), List.replicate n "a")]) ls s ∧ s.Joined ∧
      ∃ wc ∈ s.lst, wc.count ≠ (List.replicate n "a").count wc.word := by
  obtain ⟨ls, s, hrun, hjoined⟩ := WordCountP.exists_joined [((), List.replicate n "a")]
  obtain ⟨hcounts, -⟩ := WordCountP.joined_counts hrun hjoined
  rw [List.flatMap_cons, List.flatMap_nil, List.append_nil] at hcounts
  refine ⟨ls, s, hrun, hjoined, ⟨"a", int32 n⟩, ?_, ?_⟩
  · rw [hcounts.mem_iff, List.count_replicate_self]
    exact ⟨List.mem_replicate.2 ⟨Nat.ne_of_gt hpos, rfl⟩, rfl⟩
  · rw [List.count_replicate_self]
    exact hwrap

/-- A word that occurs `2 ^ 31` times is counted wrong. -/
theorem word_count_wraps :
    ∃ ls s, (WordCountP.pwords [((), List.replicate (2 ^ 31) "a")]).Exec
        (WordCountP.initial [((), List.replicate (2 ^ 31) "a")]) ls s ∧ s.Joined ∧
      ∃ wc ∈ s.lst, wc.count ≠ (List.replicate (2 ^ 31) "a").count wc.word :=
  count_overflows (by decide) (by decide)

end Berk162
